import ResourceGraph.Proofs.Validation.Parts

/-!
# Header findings

The checks of the header look at the two header lines and at two values of the tree. Only these
checks find header codes, and when they find one there are no other findings
(`Validator.findings_of_header`). Which code is found first is a table (`Validator.firstHeaderCode_eq`),
and a code is reported only where what it says is so (`Validator.violates_of_mem_findings`).
-/

set_option autoImplicit false

namespace ResourceGraph.Validator

variable {v : Validator} {tree : Node} {d : Diagnostic}

/-! ## Where header codes come from -/

theorem source_of_mem_headerFindings (hd : d ∈ v.headerFindings tree) :
    d.source = v.settings.source := by
  rw [headerFindings] at hd
  split at hd
  · rw [List.mem_singleton.1 hd]
    rfl
  · split at hd
    · rw [List.mem_singleton.1 hd]
      rfl
    · rcases List.mem_append.1 hd with hd | hd
      · rw [versionFindings] at hd
        split at hd
        · simp at hd
        · rw [List.mem_singleton.1 hd]
          rfl
      · rw [kindFindings] at hd
        repeat' split at hd
        all_goals simp only [List.mem_singleton, List.not_mem_nil] at hd
        all_goals rw [hd]
        all_goals rfl

theorem not_isHeader_of_mem_metadataFindings (hd : d ∈ v.metadataFindings tree) :
    d.code.isHeader = false := by
  rw [metadataFindings] at hd
  split at hd
  · rw [List.mem_singleton.1 hd]
    rfl
  · split at hd
    · simp at hd
    · rw [List.mem_singleton.1 hd]
      rfl

theorem not_isHeader_of_mem_resourcesFindings {node : Node} (hd : d ∈ v.resourcesFindings node) :
    d.code.isHeader = false := by
  cases node with
  | sequence items =>
    rw [resourcesFindings, itemsFindings_eq] at hd
    obtain ⟨r, -, hd⟩ := List.mem_flatMap.1 hd
    rcases of_mem_onResource hd with ⟨hcode | hcode, -⟩ | ⟨hcode, -⟩ | ⟨hcode, -⟩
    all_goals rw [hcode]
    all_goals rfl
  | null | boolean b | number x | string s | mapping entries =>
    rw [List.mem_singleton.1 hd]
    rfl

theorem not_isHeader_of_mem_specFindings (hd : d ∈ v.specFindings tree) :
    d.code.isHeader = false := by
  cases hspec : tree.present? "spec" with
  | none =>
    rw [specFindings, hspec] at hd
    rw [List.mem_singleton.1 hd]
    rfl
  | some spec =>
    rw [specFindings_eq hspec] at hd
    rcases List.mem_append.1 hd with hd | hd
    · obtain ⟨f, -, hd⟩ := List.mem_flatMap.1 hd
      rcases (of_mem_onField hd).1 with hcode | hcode | hcode
      all_goals rw [hcode]
      all_goals rfl
    · rw [presentFindings] at hd
      split at hd
      · simp at hd
      · exact not_isHeader_of_mem_resourcesFindings hd

/-- When the header has findings, there are no others. -/
theorem findings_of_header (h : v.headerFindings tree ≠ []) :
    v.findings tree = v.headerFindings tree := by
  rw [findings]
  split
  · rename_i hnil
    exact absurd hnil h
  · rfl

theorem not_isHeader_of_header_eq_nil (h : v.headerFindings tree = []) (hd : d ∈ v.findings tree) :
    d.code.isHeader = false := by
  rw [findings, h] at hd
  rcases List.mem_append.1 hd with hd | hd
  · exact not_isHeader_of_mem_metadataFindings hd
  · exact not_isHeader_of_mem_specFindings hd

theorem mem_headerFindings (hd : d ∈ v.findings tree) (h : d.code.isHeader = true) :
    d ∈ v.headerFindings tree := by
  by_cases hheader : v.headerFindings tree = []
  · rw [not_isHeader_of_header_eq_nil hheader hd] at h
    exact absurd h (by decide)
  · rwa [findings_of_header hheader] at hd

/-- The findings on the header are those with header codes. -/
theorem filter_isHeader_findings :
    (v.findings tree).filter (fun d => d.code.isHeader) = v.headerFindings tree := by
  by_cases hheader : v.headerFindings tree = []
  · rw [hheader, List.filter_eq_nil_iff]
    intro d hd
    rw [not_isHeader_of_header_eq_nil hheader hd]
    decide
  · rw [findings_of_header hheader, List.filter_eq_self]
    intro d hd
    exact (of_mem_headerFindings hd).1

/-- Which codes are found together: one of a missing version, or at most one of the version and one
of the kind. -/
theorem headerCodes_cases :
    v.source.isEmpty = true ∧ (v.headerFindings tree).map Diagnostic.code = [.emptyDocument] ∨
      (v.headerFindings tree).map Diagnostic.code = [.missingApiVersion] ∨
      v.lineStartsWith 0 "apiVersion:" = true ∧ ∃ version kind,
        (v.headerFindings tree).map Diagnostic.code = version ++ kind ∧
        (version = [] ∨ version = [.invalidApiVersion]) ∧
        (kind = [] ∨ kind = [.missingKind] ∨ kind = [.invalidKind] ∧ 2 ≤ v.source.lineCount) := by
  rw [headerFindings]
  split
  · rename_i hempty
    exact Or.inl ⟨hempty, rfl⟩
  · split
    · exact Or.inr (Or.inl rfl)
    · rename_i hfirst
      rw [Bool.not_eq_true', Bool.not_eq_false] at hfirst
      refine Or.inr (Or.inr ⟨hfirst, _, _, List.map_append, ?_, ?_⟩)
      · rw [versionFindings]
        split
        · exact Or.inl rfl
        · exact Or.inr rfl
      · rw [kindFindings]
        split
        · exact Or.inr (Or.inl rfl)
        · rename_i hcount
          split
          · exact Or.inr (Or.inl rfl)
          · split
            · exact Or.inl rfl
            · exact Or.inr (Or.inr ⟨rfl, Nat.le_of_not_lt hcount⟩)

/-! ## The first code -/

/-- The code of the first finding on the header. -/
def firstHeaderCode (v : Validator) (tree : Node) : Option DiagnosticCode :=
  (v.headerFindings tree).head?.map Diagnostic.code

/-- Which code is found first, by the lines and the two values. -/
theorem firstHeaderCode_eq : v.firstHeaderCode tree =
    if v.source.isEmpty then some .emptyDocument
    else if !v.lineStartsWith 0 "apiVersion:" then some .missingApiVersion
    else if !scalarEquals (tree.get? "apiVersion") v.settings.apiVersion then some .invalidApiVersion
    else if v.source.lineCount < 2 || !v.lineStartsWith 1 "kind:" then some .missingKind
    else if !scalarEquals (tree.get? "kind") v.settings.kind then some .invalidKind
    else none := by
  rw [firstHeaderCode, headerFindings]
  split
  · rfl
  · split
    · rfl
    · rw [versionFindings]
      cases scalarEquals (tree.get? "apiVersion") v.settings.apiVersion with
      | false => rfl
      | true =>
        -- without a finding on the version, the first one is that on the kind
        simp only [if_pos, List.nil_append, Bool.not_true, Bool.false_eq_true, if_false]
        rw [kindFindings]
        by_cases hshort : v.source.lineCount < 2
        · simp [hshort, error, finding]
        · cases hline : v.lineStartsWith 1 "kind:" with
          | false => simp [hshort, error, finding]
          | true =>
            cases hkind : scalarEquals (tree.get? "kind") v.settings.kind with
            | false => simp [hshort, error, finding]
            | true => simp [hshort]

/-- A code that is found first: those before it in the table are ruled out. -/
theorem of_firstHeaderCode {code : DiagnosticCode} (h : v.firstHeaderCode tree = some code) :
    (code = .emptyDocument ∧ v.source.isEmpty = true) ∨
      (code = .missingApiVersion ∧ v.lineStartsWith 0 "apiVersion:" = false) ∨
      v.source.isEmpty = false ∧ v.lineStartsWith 0 "apiVersion:" = true ∧
        (code = .invalidApiVersion ∧
            scalarEquals (tree.get? "apiVersion") v.settings.apiVersion = false ∨
          scalarEquals (tree.get? "apiVersion") v.settings.apiVersion = true ∧
            (code = .missingKind ∨ code = .invalidKind ∧ 2 ≤ v.source.lineCount ∧
              v.lineStartsWith 1 "kind:" = true)) := by
  rw [firstHeaderCode_eq] at h
  split at h
  · rename_i hempty
    exact Or.inl ⟨(Option.some.inj h).symm, hempty⟩
  · rename_i hempty
    split at h
    · rename_i hfirst
      rw [Bool.not_eq_true'] at hfirst
      exact Or.inr (Or.inl ⟨(Option.some.inj h).symm, hfirst⟩)
    · rename_i hfirst
      rw [Bool.not_eq_true', Bool.not_eq_false] at hfirst
      refine Or.inr (Or.inr ⟨Bool.eq_false_iff.2 hempty, hfirst, ?_⟩)
      split at h
      · rename_i hversion
        rw [Bool.not_eq_true'] at hversion
        exact Or.inl ⟨(Option.some.inj h).symm, hversion⟩
      · rename_i hversion
        rw [Bool.not_eq_true', Bool.not_eq_false] at hversion
        refine Or.inr ⟨hversion, ?_⟩
        split at h
        · exact Or.inl (Option.some.inj h).symm
        · rename_i hsecond
          rw [Bool.or_eq_true, decide_eq_true_eq, not_or, Bool.not_eq_true', Bool.not_eq_false]
            at hsecond
          split at h
          · exact Or.inr ⟨(Option.some.inj h).symm, Nat.le_of_not_lt hsecond.1, hsecond.2⟩
          · exact absurd h.symm (Option.some_ne_none code)

theorem isEmpty_eq_false_of_lineStartsWith {n : Nat} {start : String}
    (h : v.lineStartsWith n start = true) : v.source.isEmpty = false := by
  apply Bool.eq_false_iff.2
  intro hempty
  rw [lineStartsWith, Source.line?, List.isEmpty_iff.1 hempty] at h
  exact absurd h (by simp)

/-! ## What a code says -/

/-- What a header code says about a source and a tree. -/
def Violates (v : Validator) (tree : Node) : DiagnosticCode → Prop
  | .emptyDocument => v.source.isEmpty = true
  | .missingApiVersion => v.lineStartsWith 0 "apiVersion:" = false
  | .invalidApiVersion => scalarEquals (tree.get? "apiVersion") v.settings.apiVersion = false
  | .missingKind => v.source.lineCount < 2 ∨ v.lineStartsWith 1 "kind:" = false
  | .invalidKind => scalarEquals (tree.get? "kind") v.settings.kind = false
  | _ => False

theorem violates_of_mem_headerFindings (hd : d ∈ v.headerFindings tree) :
    v.Violates tree d.code := by
  rw [headerFindings] at hd
  split at hd
  · rename_i hempty
    rw [List.mem_singleton.1 hd]
    exact hempty
  · split at hd
    · rename_i hfirst
      rw [Bool.not_eq_true'] at hfirst
      rw [List.mem_singleton.1 hd]
      exact hfirst
    · rcases List.mem_append.1 hd with hd | hd
      · rw [versionFindings] at hd
        split at hd
        · simp at hd
        · rename_i hversion
          rw [List.mem_singleton.1 hd]
          exact Bool.eq_false_iff.2 hversion
      · rw [kindFindings] at hd
        split at hd
        · rename_i hshort
          rw [List.mem_singleton.1 hd]
          exact Or.inl hshort
        · split at hd
          · rename_i hsecond
            rw [Bool.not_eq_true'] at hsecond
            rw [List.mem_singleton.1 hd]
            exact Or.inr hsecond
          · split at hd
            · simp at hd
            · rename_i hkind
              rw [List.mem_singleton.1 hd]
              exact Bool.eq_false_iff.2 hkind

/-- **A header code is reported only where it says what is so.** -/
theorem violates_of_mem_findings (hd : d ∈ v.findings tree) (hcode : d.code.isHeader = true) :
    v.Violates tree d.code :=
  violates_of_mem_headerFindings (mem_headerFindings hd hcode)

end ResourceGraph.Validator
