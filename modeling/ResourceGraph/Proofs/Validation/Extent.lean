import ResourceGraph.Diagnostic.Report
import ResourceGraph.Proofs.Resolver.Extent
import ResourceGraph.Proofs.Validation.Parts

/-!
# Findings are within the text

The tree says what is found and need not be that of the text, so no range can be taken from it. Each
way in which a finding is placed is looked at once (whole lines, the end of a line, the line after a
key, the position of a path, the text of a value), and then each rule that uses it. A finding of
the checks with the indentation resolver runs along one line of the text, or begins at the position
that stands for "not found" (`Validator.bounds_findings`); its report labels characters of one line
(`validate_bounds`).
-/

set_option autoImplicit false

namespace ResourceGraph

open Text

namespace Validator

variable {v : Validator} {tree : Node} {d : Diagnostic}

/-- The findings on the header are placed on the first two lines, whatever the resolver. -/
theorem bounds_headerFindings (hd : d ∈ v.headerFindings tree) : v.source.Bounds d.range := by
  rw [headerFindings] at hd
  split at hd
  · rename_i hempty
    rw [List.mem_singleton.1 hd]
    -- without lines the first position is the one that stands for "not found"
    apply Source.bounds_point
    have hlines : v.source.lines = [] := List.isEmpty_iff.1 hempty
    right
    show (⟨0, 0⟩ : Position) = ⟨v.source.lines.length, 0⟩
    rw [hlines]
    rfl
  · rename_i hempty
    have hfirst : 0 < v.source.lineCount := by
      apply List.length_pos_iff.2
      intro hlines
      exact hempty (List.isEmpty_iff.2 hlines)
    split at hd
    · rw [List.mem_singleton.1 hd]
      exact Source.bounds_lineRange hfirst
    · rcases List.mem_append.1 hd with hd | hd
      · rw [versionFindings] at hd
        split at hd
        · simp at hd
        · rw [List.mem_singleton.1 hd]
          exact Source.bounds_lineRange hfirst
      · rw [kindFindings] at hd
        split at hd
        · rw [List.mem_singleton.1 hd]
          exact Source.bounds_point (Source.holds_lineEnd hfirst)
        · rename_i hshort
          have hsecond : 1 < v.source.lineCount := by omega
          split at hd
          · rw [List.mem_singleton.1 hd]
            exact Source.bounds_lineRange hsecond
          · split at hd
            · simp at hd
            · rw [List.mem_singleton.1 hd]
              exact Source.bounds_lineRange hsecond

/-! ## Places that are resolved -/

section Indentation

variable (hv : v.resolver = .indentation)
include hv

theorem bounds_atPath (path : Path) : v.source.Bounds (v.atPath path) := by
  apply Source.bounds_point
  rw [hv]
  exact Resolver.holds_position v.source path

theorem bounds_afterKey (key : String) : v.source.Bounds (v.afterKey key) := by
  apply Source.bounds_point
  rw [hv]
  exact Resolver.holds_afterKey v.source key

/-- The range of a value is within its line. Where no line is, it begins at the position that stands
for "not found", whatever the width of the value. -/
theorem bounds_valueRange (path : Path) (value : String) :
    v.source.Bounds (v.valueRange path value) := by
  have hholds : v.source.Holds (v.resolver.position v.source path) := by
    rw [hv]
    exact Resolver.holds_position v.source path
  rw [valueRange]
  cases hvalue : v.source.valueAt? (v.resolver.position v.source path) with
  | none =>
    refine ⟨rfl, Nat.le_add_right _ _, Or.inr ?_⟩
    rcases hholds with ⟨line, hline, -⟩ | hend
    · rw [Source.valueAt?, hline] at hvalue
      exact absurd hvalue (Option.some_ne_none _)
    · exact hend
  | some found =>
    obtain ⟨start, written⟩ := found
    exact Source.bounds_of_valueAt? hholds hvalue

/-! ## Rules -/

theorem bounds_metadataFindings (hd : d ∈ v.metadataFindings tree) : v.source.Bounds d.range := by
  rw [metadataFindings] at hd
  split at hd
  · rw [List.mem_singleton.1 hd]
    exact bounds_afterKey hv "kind"
  · split at hd
    · simp at hd
    · rw [List.mem_singleton.1 hd]
      exact bounds_afterKey hv "metadata"

theorem bounds_onField {f : Field} (hd : d ∈ v.onField f) : v.source.Bounds d.range := by
  rw [(of_mem_onField hd).2]
  exact bounds_valueRange hv f.path f.type

theorem bounds_onResource {r : Resource} (hd : d ∈ v.onResource r) : v.source.Bounds d.range := by
  rcases of_mem_onResource hd with ⟨-, hrange⟩ | ⟨-, id, -, -, hrange⟩ | ⟨-, -, hrange⟩
  · rw [hrange]
    exact bounds_atPath hv _
  · rw [hrange]
    exact bounds_valueRange hv _ id
  · rw [hrange]
    exact bounds_atPath hv _

theorem bounds_resourcesFindings {node : Node} (hd : d ∈ v.resourcesFindings node) :
    v.source.Bounds d.range := by
  cases node with
  | sequence items =>
    rw [resourcesFindings, itemsFindings_eq] at hd
    obtain ⟨r, -, hd⟩ := List.mem_flatMap.1 hd
    exact bounds_onResource hv hd
  | null | boolean b | number x | string s | mapping entries =>
    rw [List.mem_singleton.1 hd]
    exact bounds_afterKey hv "resources"

theorem bounds_specFindings (hd : d ∈ v.specFindings tree) : v.source.Bounds d.range := by
  cases hspec : tree.present? "spec" with
  | none =>
    rw [specFindings, hspec] at hd
    rw [List.mem_singleton.1 hd]
    exact bounds_afterKey hv "metadata"
  | some spec =>
    rw [specFindings_eq hspec] at hd
    rcases List.mem_append.1 hd with hd | hd
    · obtain ⟨f, -, hd⟩ := List.mem_flatMap.1 hd
      exact bounds_onField hv hd
    · rw [presentFindings] at hd
      split at hd
      · simp at hd
      · exact bounds_resourcesFindings hv hd

/-- **Every finding is within the source**, whatever the tree. -/
theorem bounds_findings (hd : d ∈ v.findings tree) : v.source.Bounds d.range := by
  rw [findings] at hd
  split at hd
  · rcases List.mem_append.1 hd with hd | hd
    · exact bounds_metadataFindings hv hd
    · exact bounds_specFindings hv hd
  · exact bounds_headerFindings hd

end Indentation

end Validator

/-- **Every finding is within the text.** For every tree, related to the text or not, a finding runs
forward along one line, and ends within it or begins at the position that stands for "not found". In
a text of fewer units than 32 bits count, its numbers fit 32 bits (only the width of a value that is
not found is that of the tree). Its report has one label, on characters of one line. -/
theorem validate_bounds (settings : Settings) (tree : Node) {text : String}
    (hsize : units text.toList < columnLimit) {d : Diagnostic} (hd : d ∈ validate settings tree text) :
    (Source.ofString text).Bounds d.range ∧ d.range.start.line < columnLimit ∧
      d.range.start.character < columnLimit ∧
      (d.range.stop.character < columnLimit ∨ d.range.start = (Source.ofString text).endPosition) ∧
      ∃ label, (d.report (Source.ofString text)).labels = [label] ∧
        label.span.IsOnLine text.toList := by
  have hbounds : (Source.ofString text).Bounds d.range :=
    Validator.bounds_findings (v := ⟨settings, .indentation, Source.ofString text⟩) rfl hd
  obtain ⟨hline, hstop⟩ := Source.bounds_le_units hbounds
  have hordered := hbounds.ordered
  refine ⟨hbounds, by omega, ?_, hstop.imp_left fun h => by omega,
    ⟨d.severity.word, (Source.ofString text).spanOf d.range⟩, rfl, Source.isOnLine_spanOf hbounds⟩
  rcases hstop with hstop | hend
  · omega
  · rw [hend]
    show 0 < columnLimit
    decide

/-- A tree with a field that is no type and a repeated id. -/
def Node.untypedField : Node :=
  .mapping [
    ("apiVersion", .string "kro.run/v1alpha1"), ("kind", .string "ResourceGraphDefinition"),
    ("metadata", .mapping [("name", .string "web")]),
    ("spec", .mapping [
      ("schema", .mapping [("spec", .mapping [("size", .string "quantity")])]),
      ("resources", .sequence [
        .mapping [("id", .string "a"), ("type", .string "t")],
        .mapping [("id", .string "a"), ("type", .string "t")]])])]

/-- A text without schema, in which the second id is not the one of that tree. -/
def untypedFieldText : String :=
  "apiVersion: x\r\nkind:\r\nspec:\r\n resources:\r\n  - a\r\n  - id: 'é𝄞' # b\r\n"

/-- What is found there about the repeated id. -/
def repeatedIdFinding : Diagnostic :=
  ⟨"Duplicate resource ID 'a'. Resource IDs must be unique.", ⟨⟨5, 8⟩, ⟨5, 13⟩⟩, .error,
    .duplicateResourceId, "kro-schema-validation"⟩

theorem validate_bounds_otherTree :
    units untypedFieldText.toList < columnLimit ∧
      repeatedIdFinding ∈ validate .standard .untypedField untypedFieldText ∧
      (Source.ofString untypedFieldText).Bounds repeatedIdFinding.range ∧
      ∃ label, (repeatedIdFinding.report (Source.ofString untypedFieldText)).labels = [label] ∧
        label.span = ⟨57, 8⟩ ∧ label.span.IsOnLine untypedFieldText.toList := by
  have hsize : units untypedFieldText.toList < columnLimit := by decide +kernel
  have hfound : repeatedIdFinding ∈ validate .standard .untypedField untypedFieldText := by
    decide +kernel
  obtain ⟨hbounds, -, -, -, label, hlabel, hspan⟩ :=
    validate_bounds .standard .untypedField hsize hfound
  refine ⟨hsize, hfound, hbounds, label, hlabel, ?_, hspan⟩
  have hlabels : (repeatedIdFinding.report (Source.ofString untypedFieldText)).labels =
      [⟨"error", ⟨57, 8⟩⟩] := by
    decide +kernel
  rw [hlabel] at hlabels
  rw [(List.cons.inj hlabels).1]

end ResourceGraph
