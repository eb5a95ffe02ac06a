import ResourceGraph.Proofs.QuickFix.HeaderLines
import ResourceGraph.Proofs.QuickFix.Offered
import ResourceGraph.Proofs.Text.Edit

/-!
# Changes of the header

What a fix makes of a text, first as text and then as lines. A fix goes by columns and offsets, and
the text may lack its last line break, have carriage returns in its line breaks or be a single line;
the fix changes one header line all the same (`HeaderChange`), and the lines below stay what they
are.

Proves: on a text whose lines hold no carriage returns, each fix for a finding of the checks makes
the change of its code and no other, and the fixes of all findings make their changes together
(`quickFixes_change_header`).
-/

set_option autoImplicit false

namespace ResourceGraph

open Text

namespace QuickFix

variable {settings : Settings} {text title : String} {code : DiagnosticCode} {e : TextEdit}

/-! ## What a fix makes of a text -/

theorem applyEdits_emptyDocument
    (he : editFor? settings (Source.ofString text) .emptyDocument = some (title, e)) :
    (applyEdits text [e]).toList = settings.apiVersionLine.toList ++
      '\n' :: (settings.kindLine.toList ++ '\n' :: text.toList) := by
  rw [editFor?, Option.some.injEq, Prod.mk.injEq] at he
  rw [← he.2, applyEdits_origin, Settings.headerTemplate]
  simp

theorem applyEdits_missingApiVersion
    (he : editFor? settings (Source.ofString text) .missingApiVersion = some (title, e)) :
    (applyEdits text [e]).toList = settings.apiVersionLine.toList ++ '\n' :: text.toList := by
  rw [editFor?, Option.some.injEq, Prod.mk.injEq] at he
  rw [← he.2, applyEdits_origin]
  simp

theorem applyEdits_invalidApiVersion
    (he : editFor? settings (Source.ofString text) .invalidApiVersion = some (title, e)) :
    (applyEdits text [e]).toList =
      settings.apiVersionLine.toList ++ below text.toList 0 := by
  rw [editFor?, Option.some.injEq, Prod.mk.injEq] at he
  rw [← he.2]
  exact applyEdits_lineRange text 0 settings.apiVersionLine

theorem applyEdits_invalidKind
    (he : editFor? settings (Source.ofString text) .invalidKind = some (title, e)) :
    (applyEdits text [e]).toList =
      above text.toList 1 ++ (settings.kindLine.toList ++ below text.toList 1) := by
  rw [editFor?, Option.some.injEq, Prod.mk.injEq] at he
  rw [← he.2]
  exact applyEdits_lineRange text 1 settings.kindLine

/-- The only line of a text takes the kind line after its last character. -/
theorem applyEdits_missingKind_alone (hshort : (Source.ofString text).lineCount < 2)
    (he : editFor? settings (Source.ofString text) .missingKind = some (title, e)) :
    (applyEdits text [e]).toList =
      onLine text.toList 0 ++ '\n' :: (settings.kindLine.toList ++ below text.toList 0) := by
  rw [editFor?, if_pos hshort, Option.some.injEq, Prod.mk.injEq] at he
  have hedit := applyEdits_lineEnd text 0 ("\n" ++ settings.kindLine)
  rw [above_zero, List.nil_append, String.toList_append] at hedit
  rw [← he.2]
  exact hedit

theorem applyEdits_missingKind {rest : List Char} (hlong : ¬(Source.ofString text).lineCount < 2)
    (hrest : text.toList = above text.toList 1 ++ rest)
    (he : editFor? settings (Source.ofString text) .missingKind = some (title, e)) :
    (applyEdits text [e]).toList =
      above text.toList 1 ++ (settings.kindLine.toList ++ '\n' :: rest) := by
  rw [editFor?, if_neg hlong, Option.some.injEq, Prod.mk.injEq] at he
  rw [← he.2, applyEdits_insert hrest (offsetAt_lineStart text.toList 1)]
  simp

end QuickFix

/-! ## Changes of lines -/

/-- The change of the lines of a text that goes with a header code: a missing line is put in its
place, and a wrong one is replaced. -/
inductive HeaderChange (settings : Settings) : DiagnosticCode → List Line → List Line → Prop
  | emptyDocument : HeaderChange settings .emptyDocument []
    [settings.apiVersionLine.toList, settings.kindLine.toList]
  | missingApiVersion (lines : List Line) : HeaderChange settings .missingApiVersion lines
    (settings.apiVersionLine.toList :: lines)
  | invalidApiVersion (old : Line) (rest : List Line) : HeaderChange settings .invalidApiVersion
    (old :: rest) (settings.apiVersionLine.toList :: rest)
  | missingKind (first : Line) (rest : List Line) : HeaderChange settings .missingKind
    (first :: rest) (first :: settings.kindLine.toList :: rest)
  | invalidKind (first old : Line) (rest : List Line) : HeaderChange settings .invalidKind
    (first :: old :: rest) (first :: settings.kindLine.toList :: rest)

/-- The changes of several codes, one after the other. -/
inductive HeaderChanges (settings : Settings) :
    List DiagnosticCode → List Line → List Line → Prop
  | nil (lines : List Line) : HeaderChanges settings [] lines lines
  | cons {code : DiagnosticCode} {codes : List DiagnosticCode} {before between after : List Line} :
    HeaderChange settings code before between → HeaderChanges settings codes between after →
    HeaderChanges settings (code :: codes) before after

section Change

variable {settings : Settings} {code : DiagnosticCode} {lines lines' : List Line} {first : Line}

theorem HeaderChange.isHeader (h : HeaderChange settings code lines lines') :
    code.isHeader = true := by
  cases h <;> rfl

/-- A change of the kind is one of the lines below the first one. -/
theorem HeaderChange.of_kind (h : HeaderChange settings code (first :: lines) lines')
    (hcode : code = .missingKind ∨ code = .invalidKind) :
    ∃ more, lines' = first :: more ∧
      ∀ other, HeaderChange settings code (other :: lines) (other :: more) := by
  rcases hcode with rfl | rfl
  · cases h with
    | missingKind _ _ => exact ⟨_, rfl, fun other => .missingKind other lines⟩
  · cases h with
    | invalidKind _ old rest => exact ⟨_, rfl, fun other => .invalidKind other old rest⟩

end Change

namespace QuickFix

variable {settings : Settings} {text title : String} {code : DiagnosticCode} {e : TextEdit}
  {lines lines' : List Line} {first : Line}

/-- The fix of a missing kind puts the kind line below the first line, also where that is the only
one and has no line break. -/
theorem hasLines_missingKind (hs : settings.IsOneLine) (h : HasLines text.toList (first :: lines))
    (he : editFor? settings (Source.ofString text) .missingKind = some (title, e)) :
    HasLines (applyEdits text [e]).toList (first :: settings.kindLine.toList :: lines) := by
  have hkind := hs.kindLine
  have hcount : (Source.ofString text).lineCount = lines.length + 1 := by
    rw [Source.lineCount, h.lines_ofString, List.length_cons]
  cases lines with
  | nil =>
    have hshort : (Source.ofString text).lineCount < 2 := by
      rw [hcount]
      exact Nat.one_lt_two
    rw [applyEdits_missingKind_alone hshort he, h.onLine_zero]
    exact .cons h.isOneLine .feed (h.replaceFirst_below hkind (kindLine_ne_nil settings))
  | cons second lines =>
    have hlong : ¬(Source.ofString text).lineCount < 2 := by
      rw [hcount, List.length_cons]
      omega
    obtain ⟨brk, rest, hfirst, hbrk, hrest, htext⟩ := h.exists_second
    have habove : above text.toList 1 = first ++ brk := by
      rw [htext, above_one_break hfirst hbrk]
    have hsplit : text.toList = above text.toList 1 ++ rest := by
      rw [habove, htext, List.append_assoc]
    rw [applyEdits_missingKind hlong hsplit he, habove, List.append_assoc]
    exact .cons hfirst hbrk (.cons hkind .feed hrest)

/-- The fix of a wrong kind writes the kind line over the second line. -/
theorem hasLines_invalidKind {old : Line} (hs : settings.IsOneLine)
    (h : HasLines text.toList (first :: old :: lines))
    (he : editFor? settings (Source.ofString text) .invalidKind = some (title, e)) :
    HasLines (applyEdits text [e]).toList (first :: settings.kindLine.toList :: lines) := by
  obtain ⟨brk, rest, hfirst, hbrk, hrest, htext⟩ := h.exists_second
  rw [applyEdits_invalidKind he, htext, above_one_break hfirst hbrk, below_one_break hfirst hbrk,
    List.append_assoc]
  exact .cons hfirst hbrk (hrest.replaceFirst_below hs.kindLine (kindLine_ne_nil settings))

/-- **The edit of a code makes the change of the code.** -/
theorem hasLines_applyEdits (hs : settings.IsOneLine) (h : HasLines text.toList lines)
    (hchange : HeaderChange settings code lines lines')
    (he : editFor? settings (Source.ofString text) code = some (title, e)) :
    HasLines (applyEdits text [e]).toList lines' := by
  cases hchange with
  | emptyDocument =>
    rw [applyEdits_emptyDocument he, h.eq_nil]
    exact .cons hs.apiVersionLine .feed (.cons hs.kindLine .feed .nil)
  | missingApiVersion lines =>
    rw [applyEdits_missingApiVersion he]
    exact .cons hs.apiVersionLine .feed h
  | invalidApiVersion old rest =>
    rw [applyEdits_invalidApiVersion he]
    exact h.replaceFirst_below hs.apiVersionLine (apiVersionLine_ne_nil settings)
  | missingKind first rest => exact hasLines_missingKind hs h he
  | invalidKind first old rest => exact hasLines_invalidKind hs h he

/-! ## Fixes of all findings -/

/-- The edits of some codes. -/
def editsFor (settings : Settings) (s : Source) (codes : List DiagnosticCode) : List TextEdit :=
  codes.filterMap fun code => (editFor? settings s code).map Prod.snd

/-- For findings on the header the edits of their codes are offered. -/
theorem quickFixes_of_header {diagnostics : List Diagnostic}
    (h : ∀ d ∈ diagnostics, d.code.isHeader = true ∧ d.source = settings.source) :
    (quickFixes settings text diagnostics).map diagnostic = diagnostics ∧
      (quickFixes settings text diagnostics).flatMap edits =
        editsFor settings (Source.ofString text) (diagnostics.map Diagnostic.code) := by
  induction diagnostics with
  | nil => exact ⟨rfl, rfl⟩
  | cons d diagnostics ih =>
    obtain ⟨⟨hcode, hsource⟩, hrest⟩ := List.forall_mem_cons.1 h
    obtain ⟨title, e, hedit, hfix⟩ := fixFor?_eq_some (s := Source.ofString text) hcode hsource
    obtain ⟨hdiagnostics, hedits⟩ := ih hrest
    have hfixes : quickFixes settings text (d :: diagnostics) =
        ⟨title, d, [e]⟩ :: quickFixes settings text diagnostics := List.filterMap_cons_some hfix
    constructor
    · rw [hfixes, List.map_cons, hdiagnostics]
    · rw [hfixes, List.flatMap_cons, hedits, editsFor, editsFor, List.map_cons,
        List.filterMap_cons, hedit]
      rfl

theorem hasLines_editsFor (hs : settings.IsOneLine) (h : HasLines text.toList lines)
    (hchange : HeaderChange settings code lines lines') :
    HasLines (applyEdits text (editsFor settings (Source.ofString text) [code])).toList lines' := by
  obtain ⟨title, e, hedit⟩ := exists_editFor? settings (Source.ofString text) hchange.isHeader
  rw [editsFor, List.filterMap_cons, hedit]
  exact hasLines_applyEdits hs h hchange hedit

/-- An edit of the kind begins after the start of a text with a first line. -/
theorem isAtMost_origin_of_kind (h : HasLines text.toList (first :: lines)) (hne : first ≠ [])
    (hcode : code = .missingKind ∨ code = .invalidKind)
    (he : editFor? settings (Source.ofString text) code = some (title, e)) :
    e.range.start.isAtMost .origin = false := by
  rcases hcode with rfl | rfl
  · rw [editFor?] at he
    split at he
    · -- the kind line goes after the first one, which is not empty
      obtain ⟨c, cs, rfl⟩ := List.exists_cons_of_ne_nil hne
      have hend : (Source.ofString text).lineEnd 0 = ⟨0, charUnits c + units cs⟩ := by
        rw [Source.lineEnd, Source.line?, h.lines_ofString]
        rfl
      have hpos := charUnits_pos c
      rw [Option.some.injEq, Prod.mk.injEq] at he
      rw [← he.2, Bool.eq_false_iff]
      show ¬((Source.ofString text).lineEnd 0).isAtMost .origin = true
      rw [hend, Position.isAtMost_iff]
      rintro (hline | ⟨-, hcolumn⟩)
      · exact Nat.not_lt_zero 0 hline
      · exact absurd (show charUnits c + units cs ≤ 0 from hcolumn) (by omega)
    · rw [Option.some.injEq, Prod.mk.injEq] at he
      rw [← he.2]
      rfl
  · rw [editFor?, Option.some.injEq, Prod.mk.injEq] at he
    rw [← he.2]
    rfl

/-- Fixes of the version and of the kind change the two header lines together. -/
theorem hasLines_editsFor_pair {more : List Line} (hs : settings.IsOneLine)
    (h : HasLines text.toList (first :: lines)) (hne : first ≠ [])
    (hcode : code = .missingKind ∨ code = .invalidKind)
    (hchange : HeaderChange settings code (first :: lines) (first :: more)) :
    HasLines (applyEdits text
        (editsFor settings (Source.ofString text) [.invalidApiVersion, code])).toList
      (settings.apiVersionLine.toList :: more) := by
  obtain ⟨title, e, hedit⟩ := exists_editFor? settings (Source.ofString text) hchange.isHeader
  -- the kind is changed first, and that leaves the first line as it is
  have hkind := hasLines_applyEdits hs h hchange hedit
  have hfirst := hkind.eq_append_below
  rw [hfirst] at hkind
  rw [← h.onLine_zero] at hfirst
  have hboth := applyEdits_lineRange_cons settings.apiVersionLine
    (isAtMost_origin_of_kind h hne hcode hedit) hfirst
  rw [editsFor, List.filterMap_cons, List.filterMap_cons, hedit]
  show HasLines (applyEdits text [⟨(Source.ofString text).lineRange 0, _⟩, e]).toList _
  rw [hboth]
  exact hkind.replaceFirst hs.apiVersionLine (apiVersionLine_ne_nil settings)

/-! ## Fixes of the findings of the checks -/

section Checks

variable {tree : Node}

/-- A line with the key of the version is not empty. -/
theorem exists_first_of_lineStartsWith
    (h : (checks settings text).lineStartsWith 0 "apiVersion:" = true) :
    ∃ first rest, (Source.ofString text).lines = first :: rest ∧ first ≠ [] := by
  obtain ⟨first, hline, hstart⟩ := Validator.lineStartsWith_iff.1 h
  have hne : first ≠ [] := by
    rintro rfl
    exact absurd (List.prefix_nil.1 hstart) (by decide)
  have hfirst : (Source.ofString text).lines.head? = some first := by
    rw [List.head?_eq_getElem?]
    exact hline
  obtain ⟨rest, hlines⟩ := List.head?_eq_some_iff.1 hfirst
  exact ⟨first, rest, hlines, hne⟩

/-- The codes on the header of one document: none, one, or one of the version and one of the kind.
The lines of the document have what the changes of the codes change. -/
theorem headerCodes_change {codes : List DiagnosticCode}
    (h : ((checks settings text).headerFindings tree).map Diagnostic.code = codes)
    (hlines : (Source.ofString text).lines = lines) :
    codes = [] ∨ (∃ code lines', codes = [code] ∧ HeaderChange settings code lines lines') ∨
      ∃ code first rest more, codes = [.invalidApiVersion, code] ∧
        (code = .missingKind ∨ code = .invalidKind) ∧ lines = first :: rest ∧ first ≠ [] ∧
        HeaderChange settings code (first :: rest) (first :: more) := by
  rcases @Validator.headerCodes_cases (checks settings text) tree with
    ⟨hempty, hcodes⟩ | hcodes | ⟨hstart, version, kind, hcodes, hversion, hkind⟩
  · obtain rfl : lines = [] := hlines.symm.trans (List.isEmpty_iff.1 hempty)
    exact Or.inr (Or.inl ⟨_, _, h.symm.trans hcodes, .emptyDocument⟩)
  · exact Or.inr (Or.inl ⟨_, _, h.symm.trans hcodes, .missingApiVersion lines⟩)
  · obtain ⟨first, rest, hfirst, hne⟩ := exists_first_of_lineStartsWith hstart
    obtain rfl : lines = first :: rest := hlines.symm.trans hfirst
    have hchange : kind = [] ∨ ∃ code more, kind = [code] ∧
        (code = .missingKind ∨ code = .invalidKind) ∧
        HeaderChange settings code (first :: rest) (first :: more) := by
      rcases hkind with hnone | hmissing | ⟨hinvalid, hcount⟩
      · exact Or.inl hnone
      · exact Or.inr ⟨_, _, hmissing, Or.inl rfl, .missingKind first rest⟩
      · have hlength : 2 ≤ (first :: rest).length := by
          rw [← hlines]
          exact hcount
        obtain ⟨old, below, rfl⟩ := List.exists_cons_of_length_pos (Nat.le_of_succ_le_succ hlength)
        exact Or.inr ⟨_, _, hinvalid, Or.inr rfl, .invalidKind first old below⟩
    rw [h] at hcodes
    rcases hversion with rfl | rfl
    · rcases hchange with rfl | ⟨code, more, rfl, -, hchange⟩
      · exact Or.inl hcodes
      · exact Or.inr (Or.inl ⟨code, _, hcodes, hchange⟩)
    · rcases hchange with rfl | ⟨code, more, rfl, hcode, hchange⟩
      · exact Or.inr (Or.inl ⟨_, _, hcodes, .invalidApiVersion first rest⟩)
      · exact Or.inr (Or.inr ⟨code, first, rest, more, hcodes, hcode, rfl, hne, hchange⟩)

/-- The codes of the header can be put right on the lines they are found on. -/
theorem exists_headerChange {d : Diagnostic}
    (hd : d ∈ (checks settings text).headerFindings tree)
    (hlines : (Source.ofString text).lines = lines) :
    ∃ lines', HeaderChange settings d.code lines lines' := by
  have hmem : d.code ∈ ((checks settings text).headerFindings tree).map Diagnostic.code :=
    List.mem_map_of_mem hd
  generalize hall : ((checks settings text).headerFindings tree).map Diagnostic.code = codes at hmem
  rcases headerCodes_change hall hlines with hcodes | ⟨code, lines', hcodes, hchange⟩ |
    ⟨code, first, rest, more, hcodes, -, rfl, -, hchange⟩
  · rw [hcodes] at hmem
    exact absurd hmem List.not_mem_nil
  · rw [hcodes, List.mem_singleton] at hmem
    rw [hmem]
    exact ⟨lines', hchange⟩
  · rw [hcodes, List.mem_cons, List.mem_singleton] at hmem
    rcases hmem with hmem | hmem
    · rw [hmem]
      exact ⟨_, .invalidApiVersion first rest⟩
    · rw [hmem]
      exact ⟨_, hchange⟩

/-- The edits of the codes on the header of one document make their changes together. -/
theorem headerChanges_editsFor {codes : List DiagnosticCode} (hs : settings.IsOneLine)
    (h : ((checks settings text).headerFindings tree).map Diagnostic.code = codes)
    (hlines : HasLines text.toList lines) :
    ∃ lines', HeaderChanges settings codes lines lines' ∧
      HasLines (applyEdits text (editsFor settings (Source.ofString text) codes)).toList
        lines' := by
  rcases headerCodes_change h hlines.lines_ofString with
    rfl | ⟨code, lines', rfl, hchange⟩ | ⟨code, first, rest, more, rfl, hcode, rfl, hne, hchange⟩
  · refine ⟨lines, .nil lines, ?_⟩
    show HasLines (String.ofList text.toList).toList lines
    rwa [String.toList_ofList]
  · exact ⟨lines', .cons hchange (.nil lines'), hasLines_editsFor hs hlines hchange⟩
  · obtain ⟨more', hmore, hother⟩ := hchange.of_kind hcode
    obtain rfl : more = more' := (List.cons.inj hmore).2
    exact ⟨_, .cons (.invalidApiVersion first rest) (.cons (hother _) (.nil _)),
      hasLines_editsFor_pair hs hlines hne hcode hchange⟩

/-- A fix for a finding on the header makes the change of its code. -/
theorem headerChange_of_mem_quickFixes (hs : settings.IsOneLine)
    (hlines : HasLines text.toList lines) {f : QuickFix}
    (hf : f ∈ quickFixes settings text ((checks settings text).headerFindings tree)) :
    HeaderChange settings f.diagnostic.code lines
      (Source.ofString (applyEdits text f.edits)).lines := by
  obtain ⟨d, hd, hfix⟩ := List.mem_filterMap.1 hf
  obtain ⟨title, e, hedit, hsome⟩ := fixFor?_header hd
  obtain rfl := Option.some.inj (hfix.symm.trans hsome)
  obtain ⟨lines', hchange⟩ := exists_headerChange hd hlines.lines_ofString
  have hresult := (hasLines_applyEdits hs hlines hchange hedit).lines_ofString
  rw [← hresult] at hchange
  exact hchange

/-- The fixes for all findings on the header make their changes together. -/
theorem headerChanges_quickFixes (hs : settings.IsOneLine) (hlines : HasLines text.toList lines)
    {fixes : List QuickFix}
    (hfixes : fixes = quickFixes settings text ((checks settings text).headerFindings tree)) :
    fixes.map diagnostic = (checks settings text).headerFindings tree ∧
      HeaderChanges settings (fixes.map fun f => f.diagnostic.code) lines
        (Source.ofString (applyEdits text (fixes.flatMap edits))).lines := by
  have hheader : ∀ d ∈ (checks settings text).headerFindings tree,
      d.code.isHeader = true ∧ d.source = settings.source := by
    intro d hd
    exact ⟨(Validator.of_mem_headerFindings hd).1, Validator.source_of_mem_headerFindings hd⟩
  obtain ⟨hdiagnostics, hedits⟩ := quickFixes_of_header hheader
  rw [← hfixes] at hdiagnostics hedits
  have hcodes : ((checks settings text).headerFindings tree).map Diagnostic.code =
      fixes.map fun f => f.diagnostic.code := by
    rw [← hdiagnostics, List.map_map]
    rfl
  obtain ⟨lines', hchanges, hresult⟩ := headerChanges_editsFor hs hcodes hlines
  rw [← hcodes, ← hedits] at hresult
  rw [← hresult.lines_ofString] at hchanges
  exact ⟨hdiagnostics, hchanges⟩

end Checks

/-- **Fixes edit the header lines and nothing else.** For findings on the header, and no others, a
fix is offered. What the edits of one fix leave has the lines of the text, one change of the header
made, and what the edits of all fixes leave has these changes together. -/
theorem quickFixes_change_header {settings : Settings} {text : String}
    (hversion : Text.IsOneLine settings.apiVersion.toList)
    (hkind : Text.IsOneLine settings.kind.toList)
    (htext : ∀ line ∈ (Source.ofString text).lines, '\r' ∉ line) (tree : Node) :
    let findings := validate settings tree text
    let fixes := quickFixes settings text findings
    fixes.map diagnostic = findings.filter (fun d => d.code.isHeader) ∧
      (∀ f ∈ fixes, HeaderChange settings f.diagnostic.code (Source.ofString text).lines
        (Source.ofString (applyEdits text f.edits)).lines) ∧
      HeaderChanges settings (fixes.map fun f => f.diagnostic.code) (Source.ofString text).lines
        (Source.ofString (applyEdits text (fixes.flatMap edits))).lines := by
  intro findings fixes
  have hs : settings.IsOneLine := ⟨hversion, hkind⟩
  have hlines : HasLines text.toList (Source.ofString text).lines := hasLines_splitLines htext
  have hfilter : findings.filter (fun d => d.code.isHeader) =
      (checks settings text).headerFindings tree := Validator.filter_isHeader_findings
  have hfixes : fixes = quickFixes settings text ((checks settings text).headerFindings tree) := by
    rw [← hfilter]
    exact quickFixes_filter findings
  obtain ⟨hdiagnostics, hchanges⟩ := headerChanges_quickFixes hs hlines hfixes
  refine ⟨hdiagnostics.trans hfilter.symm, ?_, hchanges⟩
  intro f hf
  rw [hfixes] at hf
  exact headerChange_of_mem_quickFixes hs hlines hf

/-- A text with a wrong version and no kind, whose line breaks have carriage returns. -/
def kindless : String := "apiVersion: 😀\r\nspec: {}\r\n"

/-- The fixes for its findings. -/
def kindlessFixes : List QuickFix :=
  quickFixes .standard kindless (validate .standard .null kindless)

theorem quickFixes_change_header_kindless :
    Text.IsOneLine Settings.standard.apiVersion.toList ∧
      Text.IsOneLine Settings.standard.kind.toList ∧
      (∀ line ∈ (Source.ofString kindless).lines, '\r' ∉ line) ∧
      HeaderChanges .standard [.invalidApiVersion, .missingKind] (Source.ofString kindless).lines
        (Source.ofString (applyEdits kindless (kindlessFixes.flatMap edits))).lines ∧
      applyEdits kindless (kindlessFixes.flatMap edits) =
        Settings.standard.apiVersionLine ++ "\r\n" ++ Settings.standard.kindLine ++
          "\nspec: {}\r\n" := by
  have hversion : Text.IsOneLine Settings.standard.apiVersion.toList := by
    apply isOneLine_iff.2
    decide
  have hkind : Text.IsOneLine Settings.standard.kind.toList := by
    apply isOneLine_iff.2
    decide
  have hlines : ∀ line ∈ (Source.ofString kindless).lines, '\r' ∉ line := by decide +kernel
  have hcodes : (kindlessFixes.map fun f => f.diagnostic.code) =
      [.invalidApiVersion, .missingKind] := by decide +kernel
  have hchanges := (quickFixes_change_header hversion hkind hlines .null).2.2
  rw [← hcodes]
  exact ⟨hversion, hkind, hlines, hchanges, by decide +kernel⟩

end QuickFix

end ResourceGraph
