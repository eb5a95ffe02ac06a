import Mathlib.Data.List.Forall2
import ResourceGraph.Proofs.Validation.Parts

/-!
# What findings do not depend on

The text and the resolver say where findings are, and almost nothing about what they are. Two runs of
the checks on one tree are compared finding by finding: `Validator.Mirrors` relates two validators
that differ in nothing that decides which findings there are, and its findings are related one by one
(`forall₂_findings`). Hence positions never influence findings, and the tag of the settings is found
on every finding and nowhere else (`validateWith_sameFindings`).
-/

set_option autoImplicit false

namespace ResourceGraph

open Text

/-- Whether two findings differ in nothing but their places. -/
structure Diagnostic.SameFinding (d e : Diagnostic) : Prop where
  message : d.message = e.message
  severity : d.severity = e.severity
  code : d.code = e.code
  source : d.source = e.source

/-- Whether a line of a text is there and begins with a word, white space at its start aside. -/
def lineBegins (text : String) (n : Nat) (word : String) : Prop :=
  ∃ line, (splitLines text.toList)[n]? = some line ∧ word.toList <+: trim line

/-- Whether two texts begin alike: both have no line, one line or more, and their first two lines
both are, or both are not, written as those of a header. -/
structure BeginAlike (a b : String) : Prop where
  count : min 2 (splitLines a.toList).length = min 2 (splitLines b.toList).length
  first : lineBegins a 0 "apiVersion:" ↔ lineBegins b 0 "apiVersion:"
  second : lineBegins a 1 "kind:" ↔ lineBegins b 1 "kind:"

namespace Validator

variable {v w : Validator} {R : Diagnostic → Diagnostic → Prop} {tree : Node}

/-- Whether two validators find the same, up to a relation between findings: they expect the same
header, read the same off the first two lines, and relate the findings of one rule at places that
are computed alike. -/
structure Mirrors (v w : Validator) (R : Diagnostic → Diagnostic → Prop) : Prop where
  apiVersion : v.settings.apiVersion = w.settings.apiVersion
  kind : v.settings.kind = w.settings.kind
  isEmpty : v.source.isEmpty = w.source.isEmpty
  isShort : v.source.lineCount < 2 ↔ w.source.lineCount < 2
  first : v.lineStartsWith 0 "apiVersion:" = w.lineStartsWith 0 "apiVersion:"
  second : v.lineStartsWith 1 "kind:" = w.lineStartsWith 1 "kind:"
  finding : ∀ severity code message (place : Resolver → Source → Range),
    R (v.finding severity code message (place v.resolver v.source))
      (w.finding severity code message (place w.resolver w.source))

namespace Mirrors

/-- A single finding of an error is mirrored. -/
theorem error (h : v.Mirrors w R) (code : DiagnosticCode) (message : String)
    (place : Resolver → Source → Range) :
    List.Forall₂ R [v.error code message (place v.resolver v.source)]
      [w.error code message (place w.resolver w.source)] :=
  .cons (h.finding .error code message place) .nil

/-- The findings on all members of a list are mirrored if those on each are. -/
theorem flatMap {α : Type} {f g : α → List Diagnostic} (h : ∀ a, List.Forall₂ R (f a) (g a))
    (as : List α) : List.Forall₂ R (as.flatMap f) (as.flatMap g) := by
  have hsame : List.Forall₂ Eq as as := List.forall₂_same.2 fun _ _ => rfl
  apply List.rel_flatMap hsame
  rintro a _ rfl
  exact h a

/-! ## Header and metadata -/

theorem versionFindings (h : v.Mirrors w R) :
    List.Forall₂ R (v.versionFindings tree) (w.versionFindings tree) := by
  rw [Validator.versionFindings, Validator.versionFindings, h.apiVersion]
  split
  · exact .nil
  · exact h.error .invalidApiVersion _ fun _ source => source.lineRange 0

theorem kindFindings (h : v.Mirrors w R) :
    List.Forall₂ R (v.kindFindings tree) (w.kindFindings tree) := by
  rw [Validator.kindFindings, Validator.kindFindings, h.kind, h.second]
  simp only [h.isShort]
  split
  · exact h.error .missingKind _ fun _ source => .point (source.lineEnd 0)
  · split
    · exact h.error .missingKind _ fun _ source => source.lineRange 1
    · split
      · exact .nil
      · exact h.error .invalidKind _ fun _ source => source.lineRange 1

theorem headerFindings (h : v.Mirrors w R) :
    List.Forall₂ R (v.headerFindings tree) (w.headerFindings tree) := by
  rw [Validator.headerFindings, Validator.headerFindings, h.isEmpty, h.first]
  split
  · rw [Validator.emptyDocument, Validator.emptyDocument, h.apiVersion, h.kind]
    exact h.error .emptyDocument _ fun _ _ => .point .origin
  · split
    · rw [h.apiVersion]
      exact h.error .missingApiVersion _ fun _ source => source.lineRange 0
    · exact List.rel_append h.versionFindings h.kindFindings

theorem metadataFindings (h : v.Mirrors w R) :
    List.Forall₂ R (v.metadataFindings tree) (w.metadataFindings tree) := by
  rw [Validator.metadataFindings, Validator.metadataFindings, h.kind]
  cases tree.present? "metadata" with
  | none =>
    exact h.error .missingMetadata _ fun resolver source => .point (resolver.afterKey source "kind")
  | some metadata =>
    show List.Forall₂ R (if _ then [] else _) (if _ then [] else _)
    split
    · exact .nil
    · exact h.error .missingMetadataName _ fun resolver source =>
        .point (resolver.afterKey source "metadata")

/-! ## Fields and resources -/

/-- Where the value of a path is covered is computed alike. -/
theorem value (h : v.Mirrors w R) (severity : Severity) (code : DiagnosticCode) (message : String)
    (path : Path) (text : String) :
    R (v.finding severity code message (v.valueRange path text))
      (w.finding severity code message (w.valueRange path text)) :=
  h.finding severity code message fun resolver source =>
    valueRange ⟨v.settings, resolver, source⟩ path text

theorem onField (h : v.Mirrors w R) (f : Field) : List.Forall₂ R (v.onField f) (w.onField f) := by
  rw [Validator.onField, Validator.onField, fieldFindings, fieldFindings]
  show List.Forall₂ R (if _ then _ else _) (if _ then _ else _)
  split
  · exact .cons (h.value .error .invalidTypeDefinition _ f.path f.type) .nil
  · apply List.rel_append
    · split
      · exact .cons (h.value .error .invalidBaseType _ f.path f.type) .nil
      · exact .nil
    · apply List.forall₂_map_left_iff.2
      apply List.forall₂_map_right_iff.2
      rw [List.forall₂_same]
      intro modifier _
      exact h.value .warning .unknownModifier _ f.path f.type

theorem atPath (h : v.Mirrors w R) (code : DiagnosticCode) (message : String) (path : Path) :
    List.Forall₂ R [v.error code message (v.atPath path)]
      [w.error code message (w.atPath path)] :=
  h.error code message fun resolver source => .point (resolver.position source path)

theorem onResource (h : v.Mirrors w R) (r : Resource) :
    List.Forall₂ R (v.onResource r) (w.onResource r) := by
  rw [Validator.onResource, Validator.onResource, resourceFindings, resourceFindings]
  apply List.rel_append
  · apply List.rel_append
    · -- the ids before are those of the tree, so both see the same repetition
      cases resourceId? r.node with
      | none => exact h.atPath .missingResourceId _ _
      | some id =>
        rw [idFindings, idFindings]
        split
        · exact .cons (h.value .error .duplicateResourceId _ _ id) .nil
        · exact .nil
    · rw [typeFindings, typeFindings]
      split
      · exact .nil
      · exact h.atPath .missingResourceType _ _
  · rw [propertiesFindings, propertiesFindings]
    split
    · exact .nil
    · exact .nil
    · exact h.atPath .invalidResourceProperties _ _

theorem resourcesFindings (h : v.Mirrors w R) (node : Node) :
    List.Forall₂ R (v.resourcesFindings node) (w.resourcesFindings node) := by
  have hplace := h.error .invalidResources
    "Invalid 'resources' section. Expected an array of resources." fun resolver source =>
      .point (resolver.afterKey source "resources")
  cases node with
  | sequence items =>
    rw [Validator.resourcesFindings, Validator.resourcesFindings, itemsFindings_eq,
      itemsFindings_eq]
    exact flatMap h.onResource _
  | null | boolean b | number x | string s | mapping entries => exact hplace

theorem specFindings (h : v.Mirrors w R) :
    List.Forall₂ R (v.specFindings tree) (w.specFindings tree) := by
  cases hspec : tree.present? "spec" with
  | none =>
    rw [Validator.specFindings, Validator.specFindings, hspec, h.kind]
    exact h.error .missingSpec _ fun resolver source => .point (resolver.afterKey source "metadata")
  | some spec =>
    rw [specFindings_eq hspec, specFindings_eq hspec]
    apply List.rel_append
    · exact flatMap h.onField _
    · rw [presentFindings, presentFindings]
      cases spec.present? "resources" with
      | none => exact .nil
      | some part => exact h.resourcesFindings part

/-- **Validators that mirror one another find the same, finding by finding.** -/
theorem forall₂_findings (h : v.Mirrors w R) :
    List.Forall₂ R (v.findings tree) (w.findings tree) := by
  have hheader : List.Forall₂ R (v.headerFindings tree) (w.headerFindings tree) := h.headerFindings
  rw [findings, findings]
  cases hv : v.headerFindings tree with
  | nil =>
    rw [hv] at hheader
    rw [List.forall₂_nil_left_iff.1 hheader]
    exact List.rel_append h.metadataFindings h.specFindings
  | cons d ds =>
    rw [hv] at hheader
    obtain ⟨e, es, hd, hds, hw⟩ := List.forall₂_cons_left_iff.1 hheader
    rw [hw]
    exact .cons hd hds

end Mirrors

theorem lineStartsWith_ofString_iff {settings : Settings} {resolver : Resolver} {text word : String}
    {n : Nat} : (Validator.mk settings resolver (Source.ofString text)).lineStartsWith n word = true ↔
      lineBegins text n word := by
  rw [lineStartsWith, Source.line?, Option.any_eq_true]
  simp only [List.isPrefixOf_iff_prefix]
  rfl

/-- Resolvers and texts that begin alike do not matter for what is found. -/
theorem mirrors_of_beginAlike (settings : Settings) (resolver resolver' : Resolver)
    {text text' : String} (h : BeginAlike text text') :
    (Validator.mk settings resolver (Source.ofString text)).Mirrors
      (Validator.mk settings resolver' (Source.ofString text')) Diagnostic.SameFinding where
  apiVersion := rfl
  kind := rfl
  isEmpty := by
    have hcount := h.count
    show (splitLines text.toList).isEmpty = (splitLines text'.toList).isEmpty
    rw [Bool.eq_iff_iff, List.isEmpty_iff_length_eq_zero, List.isEmpty_iff_length_eq_zero]
    omega
  isShort := by
    have hcount := h.count
    show (splitLines text.toList).length < 2 ↔ (splitLines text'.toList).length < 2
    omega
  first := by
    rw [Bool.eq_iff_iff, lineStartsWith_ofString_iff, lineStartsWith_ofString_iff]
    exact h.first
  second := by
    rw [Bool.eq_iff_iff, lineStartsWith_ofString_iff, lineStartsWith_ofString_iff]
    exact h.second
  finding := fun _ _ _ _ => ⟨rfl, rfl, rfl, rfl⟩

/-- The tag of the settings only tags the findings. -/
theorem mirrors_tag (settings : Settings) (tag : String) (resolver : Resolver) (text : String) :
    (Validator.mk settings resolver (Source.ofString text)).Mirrors
      (Validator.mk { settings with source := tag } resolver (Source.ofString text))
      fun d e => { d with source := tag } = e :=
  ⟨rfl, rfl, rfl, Iff.rfl, rfl, rfl, fun _ _ _ _ => rfl⟩

end Validator

/-- **Positions never influence findings.** On one tree, with any two resolvers and any two texts
that begin alike, the checks find the same one by one, up to the places; another tag in the settings
changes the tag of every finding and nothing else. -/
theorem validateWith_sameFindings (settings : Settings) (resolver resolver' : Resolver)
    (tree : Node) {text text' : String} (h : BeginAlike text text') :
    List.Forall₂ Diagnostic.SameFinding (validateWith settings resolver tree text)
        (validateWith settings resolver' tree text') ∧
      ∀ tag, validateWith { settings with source := tag } resolver tree text =
        (validateWith settings resolver tree text).map fun d => { d with source := tag } := by
  refine ⟨(Validator.mirrors_of_beginAlike settings resolver resolver' h).forall₂_findings, ?_⟩
  intro tag
  have hfindings : List.Forall₂ (fun d e => { d with source := tag } = e)
      (validateWith settings resolver tree text)
      (validateWith { settings with source := tag } resolver tree text) :=
    (Validator.mirrors_tag settings tag resolver text).forall₂_findings
  rw [← List.forall₂_map_left_iff, List.forall₂_eq_eq_eq] at hfindings
  exact hfindings.symm

/-- A tree with a modifier without a meaning, a repeated id and a resource without a type. -/
def Node.repeatedId : Node :=
  .mapping [
    ("apiVersion", .string "kro.run/v1alpha1"), ("kind", .string "ResourceGraphDefinition"),
    ("metadata", .mapping [("name", .string "web")]),
    ("spec", .mapping [
      ("schema", .mapping [("spec", .mapping [("size", .string "integer | step=2")])]),
      ("resources", .sequence [
        .mapping [("id", .string "a"), ("type", .string "t")],
        .mapping [("id", .string "a")]])])]

theorem validateWith_sameFindings_repeatedId :
    BeginAlike "apiVersion: a\nkind: b" "\tapiVersion:\r\n  kind:é\n\n- x" ∧
      (validateWith .standard .indentation .repeatedId "apiVersion: a\nkind: b").map
          Diagnostic.code =
        [.unknownModifier, .duplicateResourceId, .missingResourceType] ∧
      List.Forall₂ Diagnostic.SameFinding
        (validateWith .standard .indentation .repeatedId "apiVersion: a\nkind: b")
        (validateWith .standard (.constant ⟨9, 4⟩) .repeatedId
          "\tapiVersion:\r\n  kind:é\n\n- x") ∧
      ∀ tag, validateWith { Settings.standard with source := tag } .indentation .repeatedId
          "apiVersion: a\nkind: b" =
        (validateWith .standard .indentation .repeatedId "apiVersion: a\nkind: b").map
          fun d => { d with source := tag } := by
  have halike : BeginAlike "apiVersion: a\nkind: b" "\tapiVersion:\r\n  kind:é\n\n- x" :=
    ⟨by decide +kernel,
      iff_of_true ⟨_, rfl, by decide +kernel⟩ ⟨_, rfl, by decide +kernel⟩,
      iff_of_true ⟨_, rfl, by decide +kernel⟩ ⟨_, rfl, by decide +kernel⟩⟩
  exact ⟨halike, by decide +kernel,
    validateWith_sameFindings .standard .indentation (.constant ⟨9, 4⟩) .repeatedId halike⟩

end ResourceGraph
