import ResourceGraph.Analysis
import ResourceGraph.Proofs.Validation.Header

/-!
# Offered fixes

The analysis of a text offers a fix for each finding on its header and for no other: no fix is
offered for a header without findings (`QuickFix.fixes_eq_nil`), and the first fix is for the first
finding (`QuickFix.of_head?_fixes`).
-/

set_option autoImplicit false

namespace ResourceGraph.QuickFix

variable {settings : Settings} {name text : String} {code : DiagnosticCode} {a : Analysis}
  {f : QuickFix}

/-- The checks of a text, with positions from its indentation. -/
def checks (settings : Settings) (text : String) : Validator :=
  ⟨settings, .indentation, Source.ofString text⟩

/-- The analysis of a text holds the findings of the checks on the tree of the text. -/
theorem of_analyze (h : analyze settings name text = .ok a) :
    a.settings = settings ∧ a.source = Source.ofString text ∧
      a.diagnostics = (checks settings text).findings a.root ∧
      ((Source.ofString text).isEmpty = false → Node.parse text = .ok a.root) := by
  rw [analyze] at h
  cases hempty : (Source.ofString text).isEmpty with
  | true =>
    rw [hempty] at h
    rw [← Except.ok.inj h]
    exact ⟨rfl, rfl, rfl, fun hfalse => absurd hfalse (by decide)⟩
  | false =>
    rw [hempty] at h
    cases hparse : Node.parse text with
    | error fault =>
      rw [hparse] at h
      exact absurd h (by simp [bind, Except.bind])
    | ok root =>
      rw [hparse] at h
      rw [← Except.ok.inj h]
      exact ⟨rfl, rfl, rfl, fun _ => rfl⟩

theorem editFor?_isSome_iff {s : Source} : (editFor? settings s code).isSome = code.isHeader := by
  cases code with
  | missingKind =>
    rw [editFor?]
    split <;> rfl
  | _ => rfl

theorem exists_editFor? (settings : Settings) (s : Source) (h : code.isHeader = true) :
    ∃ title e, editFor? settings s code = some (title, e) := by
  have hsome : (editFor? settings s code).isSome = true := by
    rw [editFor?_isSome_iff, h]
  obtain ⟨⟨title, e⟩, hedit⟩ := Option.isSome_iff_exists.1 hsome
  exact ⟨title, e, hedit⟩

theorem fixFor?_eq_none {s : Source} {d : Diagnostic} (h : d.code.isHeader = false) :
    fixFor? settings s d = none := by
  have hedit : editFor? settings s d.code = none := by
    rw [← Option.not_isSome_iff_eq_none, editFor?_isSome_iff, h]
    decide
  rw [fixFor?, hedit]
  split <;> rfl

/-- Fixes are offered for findings with header codes only. -/
theorem quickFixes_filter (diagnostics : List Diagnostic) : quickFixes settings text diagnostics =
    quickFixes settings text (diagnostics.filter fun d => d.code.isHeader) := by
  rw [quickFixes, quickFixes, List.filterMap_filter]
  congr 1
  funext d
  cases hcode : d.code.isHeader with
  | true => rfl
  | false => exact fixFor?_eq_none hcode

theorem fixes_eq (ha : analyze settings name text = .ok a) :
    a.fixes = a.diagnostics.filterMap (fixFor? settings (Source.ofString text)) := by
  obtain ⟨hsettings, hsource, -, -⟩ := of_analyze ha
  rw [Analysis.fixes, quickFixes, hsettings, hsource]
  rfl

theorem fixes_eq_nil (ha : analyze settings name text = .ok a)
    (h : ∀ d ∈ a.diagnostics, d.code.isHeader = false) : a.fixes = [] := by
  rw [fixes_eq ha, List.filterMap_eq_nil_iff]
  intro d hd
  exact fixFor?_eq_none (h d hd)

/-- A finding with a header code is fixed by the edit of the code. -/
theorem fixFor?_eq_some {s : Source} {d : Diagnostic} (hcode : d.code.isHeader = true)
    (hsource : d.source = settings.source) :
    ∃ title e, editFor? settings s d.code = some (title, e) ∧
      fixFor? settings s d = some ⟨title, d, [e]⟩ := by
  obtain ⟨title, e, hedit⟩ := exists_editFor? settings s hcode
  refine ⟨title, e, hedit, ?_⟩
  rw [fixFor?, if_pos hsource, hedit]
  rfl

/-- A finding on the header is fixed by its edit. -/
theorem fixFor?_header {tree : Node} {d : Diagnostic}
    (hd : d ∈ (checks settings text).headerFindings tree) :
    ∃ title e, editFor? settings (Source.ofString text) d.code = some (title, e) ∧
      fixFor? settings (Source.ofString text) d = some ⟨title, d, [e]⟩ :=
  fixFor?_eq_some (Validator.of_mem_headerFindings hd).1 (Validator.source_of_mem_headerFindings hd)

/-- The first fix that is offered is for the first finding on the header. -/
theorem of_head?_fixes (ha : analyze settings name text = .ok a) (hf : a.fixes.head? = some f) :
    ∃ e, editFor? settings (Source.ofString text) f.diagnostic.code = some (f.title, e) ∧
      f.edits = [e] ∧
      (checks settings text).firstHeaderCode a.root = some f.diagnostic.code := by
  obtain ⟨-, -, hfindings, -⟩ := of_analyze ha
  cases hheader : (checks settings text).headerFindings a.root with
  | nil =>
    have hnone : a.fixes = [] := by
      apply fixes_eq_nil ha
      intro d hd
      rw [hfindings] at hd
      exact Validator.not_isHeader_of_header_eq_nil hheader hd
    rw [hnone] at hf
    exact absurd hf.symm (Option.some_ne_none f)
  | cons d ds =>
    have hmem : d ∈ (checks settings text).headerFindings a.root := by
      rw [hheader]
      exact List.mem_cons_self
    obtain ⟨title, e, hedit, hfix⟩ := fixFor?_header hmem
    have hall : a.diagnostics = d :: ds := by
      rw [hfindings, Validator.findings_of_header (List.ne_nil_of_mem hmem), hheader]
    rw [fixes_eq ha, hall, List.filterMap_cons_some hfix, List.head?_cons] at hf
    rw [← Option.some.inj hf]
    refine ⟨e, hedit, rfl, ?_⟩
    rw [Validator.firstHeaderCode, hheader]
    rfl

/-- Fixes are for findings on the header. -/
theorem isHeader_of_head?_fixes (ha : analyze settings name text = .ok a)
    (hf : a.fixes.head? = some f) : f.diagnostic.code.isHeader = true := by
  obtain ⟨e, he, -, -⟩ := of_head?_fixes ha hf
  rw [← editFor?_isSome_iff, he]
  rfl

theorem fixes_ne_nil (ha : analyze settings name text = .ok a) {d : Diagnostic}
    (hd : d ∈ a.diagnostics) (h : d.code.isHeader = true) : a.fixes ≠ [] := by
  have hfindings := (of_analyze ha).2.2.1
  have hmem : d ∈ (checks settings text).headerFindings a.root := by
    apply Validator.mem_headerFindings _ h
    rwa [← hfindings]
  obtain ⟨title, e, -, hfix⟩ := fixFor?_header hmem
  intro hnil
  rw [fixes_eq ha, List.filterMap_eq_nil_iff] at hnil
  rw [hnil d hd] at hfix
  exact absurd hfix.symm (Option.some_ne_none _)

end ResourceGraph.QuickFix
