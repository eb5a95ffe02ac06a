import ResourceGraph.Proofs.FieldType.Grammar
import ResourceGraph.Proofs.Validation.Header

/-!
# The shape of a list of findings

What holds of every list of findings, whatever the tree, the text, the settings and the resolver.
Findings on the header stand alone, and each header line has at most one. All findings carry the tag
of the settings, and the only warnings are those on modifiers. No finding is about the form of a
base type: a type whose base has no known form does not follow the grammar and is reported as that
(`validateWith_shape`).

A check reports errors of its own rules or warnings on modifiers (`Validator.Reports`), and this is
shown rule by rule. The rest is a matter of the header.
-/

set_option autoImplicit false

namespace ResourceGraph

namespace DiagnosticCode

/-- The header lines that a code is about. -/
def headerLines : DiagnosticCode → List Nat
  | emptyDocument => [0, 1]
  | missingApiVersion => [0]
  | invalidApiVersion => [0]
  | missingKind => [1]
  | invalidKind => [1]
  | _ => []

theorem headerLines_eq_nil {code : DiagnosticCode} (h : code.isHeader = false) :
    code.headerLines = [] := by
  cases code with
  | emptyDocument | missingApiVersion | invalidApiVersion | missingKind | invalidKind =>
    exact absurd h (by decide)
  | _ => rfl

end DiagnosticCode

/-- How a list of findings looks under some settings. -/
structure Diagnostic.AreWellShaped (settings : Settings) (findings : List Diagnostic) : Prop where
  /-- A finding on the header stands among such findings only, and they are at most two. -/
  header : (∃ d ∈ findings, d.code.isHeader = true) →
    (∀ d ∈ findings, d.code.isHeader = true) ∧ findings.length ≤ 2
  /-- No two findings are about one header line. -/
  lines : (findings.flatMap fun d => d.code.headerLines).Nodup
  source : ∀ d ∈ findings, d.source = settings.source
  severity : ∀ d ∈ findings, d.severity = if d.code = .unknownModifier then .warning else .error
  base : ∀ d ∈ findings, d.code ≠ .invalidBaseType

namespace Validator

variable {v : Validator} {tree : Node} {d : Diagnostic}

/-! ## What a check reports -/

/-- The findings of checks: errors of the rules that are not about modifiers or forms of base types,
and warnings on modifiers. -/
inductive Reports (v : Validator) : Diagnostic → Prop
  | error {code : DiagnosticCode} {message : String} {range : Range} :
    code ∉ [.unknownModifier, .invalidBaseType] → Reports v (v.error code message range)
  | warning {message : String} {range : Range} :
    Reports v (v.finding .warning .unknownModifier message range)

theorem Reports.of_mem_singleton {code : DiagnosticCode} {message : String} {range : Range}
    (hd : d ∈ [v.error code message range]) (hcode : code ∉ [.unknownModifier, .invalidBaseType]) :
    v.Reports d := by
  rw [List.mem_singleton.1 hd]
  exact .error hcode

theorem reports_headerFindings (hd : d ∈ v.headerFindings tree) : v.Reports d := by
  obtain ⟨hheader, hseverity⟩ := of_mem_headerFindings hd
  have hsource := source_of_mem_headerFindings hd
  have hcode : d.code ∉ [.unknownModifier, .invalidBaseType] := by
    intro hmem
    simp only [List.mem_cons, List.not_mem_nil, or_false] at hmem
    rcases hmem with hmem | hmem <;> rw [hmem] at hheader <;> exact absurd hheader (by decide)
  -- a finding is an error once its severity and its tag are those of one
  have heq : d = v.error d.code d.message d.range := by
    obtain ⟨message, range, severity, code, source⟩ := d
    rw [Validator.error, finding]
    simp only at hseverity hsource
    rw [hseverity, hsource]
  rw [heq]
  exact .error hcode

theorem reports_metadataFindings (hd : d ∈ v.metadataFindings tree) : v.Reports d := by
  rw [metadataFindings] at hd
  split at hd
  · exact .of_mem_singleton hd (by decide)
  · split at hd
    · exact absurd hd List.not_mem_nil
    · exact .of_mem_singleton hd (by decide)

/-- A valid type has a base of a known form, so that only its modifiers are looked at. -/
theorem reports_onField {f : Field} (hd : d ∈ v.onField f) : v.Reports d := by
  rw [onField, fieldFindings] at hd
  cases hvalid : (FieldType.read f.type).isValid with
  | false =>
    simp only [hvalid, Bool.not_false, if_true] at hd
    exact .of_mem_singleton hd (by decide)
  | true =>
    have hkind := FieldType.kind_read_ne_unknown hvalid
    simp only [hvalid, Bool.not_true, Bool.false_eq_true, if_false, if_neg hkind,
      List.nil_append] at hd
    obtain ⟨modifier, -, rfl⟩ := List.mem_map.1 hd
    exact .warning

theorem reports_onResource {r : Resource} (hd : d ∈ v.onResource r) : v.Reports d := by
  rw [onResource, resourceFindings, List.mem_append, List.mem_append] at hd
  -- the findings on the id, on the type, and on the properties
  rcases hd with (hd | hd) | hd
  · cases hid : resourceId? r.node with
    | none =>
      rw [hid, idFindings] at hd
      exact .of_mem_singleton hd (by decide)
    | some id =>
      rw [hid, idFindings] at hd
      split at hd
      · exact .of_mem_singleton hd (by decide)
      · exact absurd hd List.not_mem_nil
  · rw [typeFindings] at hd
    split at hd
    · exact absurd hd List.not_mem_nil
    · exact .of_mem_singleton hd (by decide)
  · rw [propertiesFindings] at hd
    split at hd
    · exact absurd hd List.not_mem_nil
    · exact absurd hd List.not_mem_nil
    · exact .of_mem_singleton hd (by decide)

theorem reports_resourcesFindings {node : Node} (hd : d ∈ v.resourcesFindings node) :
    v.Reports d := by
  cases node with
  | sequence items =>
    rw [resourcesFindings, itemsFindings_eq] at hd
    obtain ⟨r, -, hd⟩ := List.mem_flatMap.1 hd
    exact reports_onResource hd
  | null | boolean b | number x | string s | mapping entries =>
    exact .of_mem_singleton hd (by decide)

theorem reports_specFindings (hd : d ∈ v.specFindings tree) : v.Reports d := by
  cases hspec : tree.present? "spec" with
  | none =>
    rw [specFindings, hspec] at hd
    exact .of_mem_singleton hd (by decide)
  | some spec =>
    rw [specFindings_eq hspec] at hd
    rcases List.mem_append.1 hd with hd | hd
    · obtain ⟨f, -, hd⟩ := List.mem_flatMap.1 hd
      exact reports_onField hd
    · rw [presentFindings] at hd
      split at hd
      · exact absurd hd List.not_mem_nil
      · exact reports_resourcesFindings hd

theorem reports_of_mem_findings (hd : d ∈ v.findings tree) : v.Reports d := by
  by_cases hheader : v.headerFindings tree = []
  · rw [findings, hheader] at hd
    rcases List.mem_append.1 hd with hd | hd
    · exact reports_metadataFindings hd
    · exact reports_specFindings hd
  · rw [findings_of_header hheader] at hd
    exact reports_headerFindings hd

/-! ## The lines of the header -/

theorem versionFindings_shape (v : Validator) (tree : Node) :
    (v.versionFindings tree).length ≤ 1 ∧
      ((v.versionFindings tree).flatMap fun d => d.code.headerLines).Sublist [0] := by
  rw [versionFindings]
  split
  · exact ⟨Nat.zero_le 1, List.nil_sublist [0]⟩
  · exact ⟨Nat.le_refl 1, List.Sublist.refl [0]⟩

theorem kindFindings_shape (v : Validator) (tree : Node) :
    (v.kindFindings tree).length ≤ 1 ∧
      ((v.kindFindings tree).flatMap fun d => d.code.headerLines).Sublist [1] := by
  rw [kindFindings]
  split
  · exact ⟨Nat.le_refl 1, List.Sublist.refl [1]⟩
  · split
    · exact ⟨Nat.le_refl 1, List.Sublist.refl [1]⟩
    · split
      · exact ⟨Nat.zero_le 1, List.nil_sublist [1]⟩
      · exact ⟨Nat.le_refl 1, List.Sublist.refl [1]⟩

/-- The findings on the header are at most two, on different lines. -/
theorem headerFindings_shape (v : Validator) (tree : Node) :
    (v.headerFindings tree).length ≤ 2 ∧
      ((v.headerFindings tree).flatMap fun d => d.code.headerLines).Sublist [0, 1] := by
  rw [headerFindings]
  split
  · exact ⟨Nat.le_succ 1, List.Sublist.refl [0, 1]⟩
  · split
    · exact ⟨Nat.le_succ 1, List.sublist_append_left [0] [1]⟩
    · -- the version is about the first line, and the kind about the second
      obtain ⟨hversion, hversionLines⟩ := versionFindings_shape v tree
      obtain ⟨hkind, hkindLines⟩ := kindFindings_shape v tree
      rw [List.length_append, List.flatMap_append]
      exact ⟨Nat.add_le_add hversion hkind, hversionLines.append hkindLines⟩

theorem nodup_headerLines :
    ((v.findings tree).flatMap fun d => d.code.headerLines).Nodup := by
  by_cases hheader : v.headerFindings tree = []
  · -- without findings on the header there is no header code at all
    have hnil : (v.findings tree).flatMap (fun d => d.code.headerLines) = [] := by
      apply List.flatMap_eq_nil_iff.2
      intro d hd
      exact DiagnosticCode.headerLines_eq_nil (not_isHeader_of_header_eq_nil hheader hd)
    rw [hnil]
    exact List.nodup_nil
  · rw [findings_of_header hheader]
    exact (headerFindings_shape v tree).2.nodup (by decide)

theorem findings_areWellShaped (v : Validator) (tree : Node) :
    Diagnostic.AreWellShaped v.settings (v.findings tree) where
  header := by
    rintro ⟨d, hd, hcode⟩
    have hheader : v.headerFindings tree ≠ [] := List.ne_nil_of_mem (mem_headerFindings hd hcode)
    rw [findings_of_header hheader]
    exact ⟨fun d hd => (of_mem_headerFindings hd).1, (headerFindings_shape v tree).1⟩
  lines := nodup_headerLines
  source := by
    intro d hd
    cases reports_of_mem_findings hd with
    | error hcode => rfl
    | warning => rfl
  severity := by
    intro d hd
    cases reports_of_mem_findings hd with
    | error hcode =>
      simp only [List.mem_cons, not_or] at hcode
      exact (if_neg hcode.1).symm
    | warning => rfl
  base := by
    intro d hd
    cases reports_of_mem_findings hd with
    | error hcode =>
      simp only [List.mem_cons, not_or] at hcode
      exact hcode.2.1
    | warning =>
      show DiagnosticCode.unknownModifier ≠ .invalidBaseType
      decide

/-! ## Base types of no known form -/

/-- A type whose base is written as none is reported as a whole, and nothing else about it is. -/
theorem onField_of_not_isBase {f : Field}
    (h : ¬ FieldType.IsBase (FieldType.read f.type).baseType.toList) :
    v.onField f = [v.invalidType f.name f.type f.path] := by
  have hvalid : (FieldType.read f.type).isValid = false := by
    apply Bool.eq_false_iff.2
    intro hvalid
    have hkind := FieldType.kind_read_ne_unknown hvalid
    rw [FieldType.kind, ← String.ofList_toList (s := (FieldType.read f.type).baseType)] at hkind
    exact h (FieldType.baseKind_ne_unknown_iff.1 hkind)
  rw [onField, fieldFindings]
  simp [hvalid]

/-- Unless the header has findings, those on each field are among the findings of the document. -/
theorem mem_findings_of_onField {f : Field} (hheader : v.headerFindings tree = [])
    (hf : f ∈ tree.fields) (hd : d ∈ v.onField f) : d ∈ v.findings tree := by
  rw [findings, hheader]
  apply List.mem_append_right
  cases hspec : tree.present? "spec" with
  | none =>
    rw [Node.fields, hspec] at hf
    exact absurd hf List.not_mem_nil
  | some spec =>
    rw [specFindings_eq hspec]
    exact List.mem_append_left _ (List.mem_flatMap.2 ⟨f, hf, hd⟩)

end Validator

/-- **The shape of every list of findings.** Header codes stand alone, at most two of them and never
two on one line; every finding has the tag of the settings; warnings are the findings on modifiers
and all others are errors; and the form of a base type is never reported on its own, because each
field whose base is written as none is reported for its type. -/
theorem validateWith_shape (settings : Settings) (resolver : Resolver) (tree : Node)
    (text : String) :
    Diagnostic.AreWellShaped settings (validateWith settings resolver tree text) ∧
      ∀ f ∈ tree.fields, ¬ FieldType.IsBase (FieldType.read f.type).baseType.toList →
        (∃ d ∈ validateWith settings resolver tree text, d.code.isHeader = true) ∨
          (Validator.mk settings resolver (Source.ofString text)).invalidType f.name f.type f.path ∈
            validateWith settings resolver tree text := by
  refine ⟨Validator.findings_areWellShaped ⟨settings, resolver, Source.ofString text⟩ tree, ?_⟩
  intro f hf hbase
  by_cases hheader :
      (Validator.mk settings resolver (Source.ofString text)).headerFindings tree = []
  · right
    apply Validator.mem_findings_of_onField hheader hf
    rw [Validator.onField_of_not_isBase hbase]
    exact List.mem_singleton_self _
  · left
    obtain ⟨d, hd⟩ := List.exists_mem_of_ne_nil _ hheader
    rw [validateWith, Validator.findings_of_header hheader]
    exact ⟨d, hd, (Validator.of_mem_headerFindings hd).1⟩

end ResourceGraph
