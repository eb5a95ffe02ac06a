import ResourceGraph.Proofs.QuickFix.HeaderChange

/-!
# Convergence of quick fixes

A fix edits text, and what it is offered for is found on the text and on the tree. The findings of
missing lines are about text only, so their fixes remove them (`missing_removed`). The findings of
wrong values are about the tree: a value may go on in the lines below its own, which a fix leaves as
they are. A fix that writes what stands there already then changes nothing (`round_of_written`), and
is offered for ever (`round_continuedKind`).

Where no header line goes on below (`HasPlainHeader`), the first fix that is offered removes what it
is offered for, and after two rounds of fixing the text has a header without findings or is no YAML
(`fixes_converge`). A fix leaves a text with a version line (`Versioned`) or with both header lines
(`Headed`), and nothing is wrong with what these lines say. The fix of a wrong kind leaves the version
as it is written, plain or between quotes and with blanks and a comment behind it.
-/

set_option autoImplicit false

namespace ResourceGraph.QuickFix

open Text

variable {settings : Settings} {name text title : String} {code : DiagnosticCode} {e : TextEdit}
  {a : Analysis} {f : QuickFix}

/-! ## What a fix of the kind makes of a text -/

/-- A fix of the kind puts the kind line below the first line. What is then below the kind line goes
on with no scalar if no line below the first line, or below a kind line that is replaced, did. -/
theorem exists_kindLine (he : editFor? settings (Source.ofString text) code = some (title, e))
    (hcode : code = .missingKind ∨ code = .invalidKind ∧ 2 ≤ (Source.ofString text).lineCount) :
    ∃ returns rest, AreReturns returns ∧ (applyEdits text [e]).toList =
        onLine text.toList 0 ++ (returns ++ '\n' :: (settings.kindLine.toList ++ rest)) ∧
      (Yaml.endsScalar (below text.toList 0) = true →
        (code = .invalidKind → Yaml.endsScalar (below text.toList 1) = true) →
        Yaml.endsScalar rest = true) := by
  by_cases hshort : (Source.ofString text).lineCount < 2
  · -- a text of one line takes the kind line after its last character
    obtain rfl : code = .missingKind := hcode.resolve_right (by omega)
    exact ⟨[], below text.toList 0, areReturns_nil, applyEdits_missingKind_alone hshort he,
      fun h _ => h⟩
  · have hlong : 2 ≤ (rawLines text.toList).length := by
      rw [← length_splitLines]
      exact Nat.le_of_not_lt hshort
    obtain ⟨line, returns, rest, hline, hreturns, htext⟩ := exists_bare_feed hlong
    have hfirst : onLine text.toList 0 = line := by
      rw [htext, onLine_bare_feed hline hreturns]
    have habove : above text.toList 1 = line ++ (returns ++ ['\n']) := by
      rw [htext, above_one_bare_feed hline hreturns]
    rw [hfirst]
    rcases hcode with rfl | ⟨rfl, -⟩
    · have hsplit : text.toList = above text.toList 1 ++ rest := by
        rw [habove]
        simpa using htext
      refine ⟨returns, '\n' :: rest, hreturns, ?_, ?_⟩
      · rw [applyEdits_missingKind hshort hsplit he, habove]
        simp
      · intro hends _
        rwa [htext, below_bare_feed hline hreturns,
          Yaml.endsScalar_append_feed hreturns.isSeparation] at hends
    · refine ⟨returns, below text.toList 1, hreturns, ?_, fun _ h => h rfl⟩
      rw [applyEdits_invalidKind he, habove]
      simp

/-! ## Texts with header lines -/

/-- Whether a text begins with a version line and the kind line, and no line below goes on with the
kind. -/
def Headed (settings : Settings) (text : List Char) : Prop :=
  ∃ line returns rest, IsVersionLine settings line ∧ IsBare line ∧ AreReturns returns ∧
    Yaml.endsScalar rest = true ∧
    text = line ++ (returns ++ '\n' :: (settings.kindLine.toList ++ rest))

/-- Whether the first line of a text is a version line, and no line goes on with the version, or
with the kind if the second line has one. -/
structure Versioned (settings : Settings) (text : List Char) : Prop where
  version : IsVersionLine settings (onLine text 0)
  second : Yaml.endsScalar (below text 0) = true
  third : lineHasStart text 1 "kind:" = true → Yaml.endsScalar (below text 1) = true

theorem scalarEquals_string (s : String) :
    Validator.scalarEquals (some (.string s)) s = true := by
  simp [Validator.scalarEquals, Node.scalarText?]

/-- Whether no header line of a text is written over further lines: no line goes on with a version on
the first line, or with a kind on one of the first two, and the text does not begin with an indented
line instead of a version. A right version stands on its line plain or between quotes, as the word
that it is. -/
structure HasPlainHeader (settings : Settings) (text : String) : Prop where
  start : lineHasStart text.toList 0 "apiVersion:" = false →
    Yaml.endsScalar ('\n' :: text.toList) = true
  version : lineHasStart text.toList 0 "apiVersion:" = true →
    Yaml.endsScalar (below text.toList 0) = true
  kind : ∀ n < 2, lineHasStart text.toList n "kind:" = true →
    Yaml.endsScalar (below text.toList n) = true
  written : ∀ tree, Node.parse text = .ok tree → lineHasStart text.toList 0 "apiVersion:" = true →
    Validator.scalarEquals (tree.get? "apiVersion") settings.apiVersion = true →
    IsVersionLine settings (onLine text.toList 0)

section Header

variable (hs : settings.IsPlain) {tree : Node}
include hs

/-- The version is right in a text that begins with a version line. -/
theorem not_violates_version {line rest : List Char} (hversionLine : IsVersionLine settings line)
    (htext : text.toList = line ++ rest) (hrest : Yaml.endsScalar rest = true)
    (htree : Node.parse text = .ok tree) (hmissing : code ≠ .missingKind)
    (hinvalid : code ≠ .invalidKind) : ¬(checks settings text).Violates tree code := by
  have hline : (checks settings text).lineStartsWith 0 "apiVersion:" = true :=
    lineStartsWith_apiVersion rfl hversionLine htext
  have hversion : Validator.scalarEquals (tree.get? "apiVersion") settings.apiVersion = true := by
    rw [get?_apiVersion hs hversionLine htext hrest htree]
    exact scalarEquals_string _
  -- the rules of the first line and of the version are kept, and those of the kind are left out
  intro hviolates
  cases code with
  | emptyDocument =>
    exact Bool.eq_false_iff.1 (Validator.isEmpty_eq_false_of_lineStartsWith hline) hviolates
  | missingApiVersion => exact Bool.eq_false_iff.1 hviolates hline
  | invalidApiVersion => exact Bool.eq_false_iff.1 hviolates hversion
  | missingKind => exact hmissing rfl
  | invalidKind => exact hinvalid rfl
  | _ => exact hviolates

/-- Nothing is wrong with the header of a text with both header lines. -/
theorem Headed.not_violates (h : Headed settings text.toList) (htree : Node.parse text = .ok tree) :
    ¬(checks settings text).Violates tree code := by
  obtain ⟨line, returns, rest, hversionLine, hbare, hreturns, hrest, htext⟩ := h
  obtain ⟨hcount, hline⟩ : 2 ≤ (checks settings text).source.lineCount ∧
      (checks settings text).lineStartsWith 1 "kind:" = true :=
    lineStartsWith_kind rfl hs hbare hreturns htext
  have hkind : Validator.scalarEquals (tree.get? "kind") settings.kind = true := by
    rw [get?_kind hs hversionLine hreturns htext hrest htree]
    exact scalarEquals_string _
  by_cases hmissing : code = .missingKind
  · rw [hmissing]
    rintro (hshort | hnone)
    · omega
    · exact Bool.eq_false_iff.1 hnone hline
  · by_cases hinvalid : code = .invalidKind
    · rw [hinvalid]
      intro hviolates
      exact Bool.eq_false_iff.1 hviolates hkind
    · exact not_violates_version hs hversionLine htext (endsScalar_kindLine hreturns rest) htree
        hmissing hinvalid

/-! ## From text to text -/

/-- The fix of a missing version leaves a text with the version line above the whole text. -/
theorem versioned_of_missing (h : HasPlainHeader settings text)
    (hline : lineHasStart text.toList 0 "apiVersion:" = false)
    (he : editFor? settings (Source.ofString text) .missingApiVersion = some (title, e)) :
    Versioned settings (applyEdits text [e]).toList := by
  have hbare := isBare_apiVersionLine hs
  rw [applyEdits_missingApiVersion he, ← List.nil_append ('\n' :: text.toList)]
  refine ⟨?_, ?_, ?_⟩
  · rw [onLine_bare_feed hbare areReturns_nil]
    exact hs.isVersionLine
  · rw [below_bare_feed hbare areReturns_nil]
    exact h.start hline
  · rw [below_succ_bare_feed hbare areReturns_nil, lineHasStart_succ_bare_feed hbare areReturns_nil]
    exact h.kind 0 (by decide)

/-- The fix of a wrong version leaves a text with the version line above the same lines. -/
theorem versioned_of_invalid (h : HasPlainHeader settings text)
    (hline : lineHasStart text.toList 0 "apiVersion:" = true)
    (he : editFor? settings (Source.ofString text) .invalidApiVersion = some (title, e)) :
    Versioned settings (applyEdits text [e]).toList := by
  have hbare := isBare_apiVersionLine hs
  have hversion := h.version hline
  have hkind := h.kind 1 (by decide)
  rw [applyEdits_invalidApiVersion he]
  obtain ⟨first, returns, hfirst, hreturns, htext | ⟨rest, htext⟩⟩ := exists_bare text.toList
  · rw [htext, below_bare hfirst hreturns] at hversion ⊢
    refine ⟨?_, ?_, ?_⟩
    · rw [onLine_bare hbare hreturns]
      exact hs.isVersionLine
    · rwa [below_bare hbare hreturns]
    · rw [below_succ_bare hbare hreturns]
      intro _
      rfl
  · rw [htext, below_succ_bare_feed hfirst hreturns, lineHasStart_succ_bare_feed hfirst hreturns]
      at hkind
    rw [htext, below_bare_feed hfirst hreturns] at hversion ⊢
    refine ⟨?_, ?_, ?_⟩
    · rw [onLine_bare_feed hbare hreturns]
      exact hs.isVersionLine
    · rwa [below_bare_feed hbare hreturns]
    · rwa [below_succ_bare_feed hbare hreturns, lineHasStart_succ_bare_feed hbare hreturns]

omit hs in
/-- A fix of the kind leaves a text with both header lines. -/
theorem headed_of_fix (h : Versioned settings text.toList)
    (he : editFor? settings (Source.ofString text) code = some (title, e))
    (hcode : code = .missingKind ∨ code = .invalidKind ∧ 2 ≤ (Source.ofString text).lineCount ∧
      lineHasStart text.toList 1 "kind:" = true) :
    Headed settings (applyEdits text [e]).toList := by
  obtain ⟨returns, rest, hreturns, htext, hrest⟩ := exists_kindLine he (hcode.imp_right fun h =>
    ⟨h.1, h.2.1⟩)
  refine ⟨_, returns, rest, h.version, isBare_onLine text.toList 0, hreturns, hrest h.second ?_,
    htext⟩
  intro hinvalid
  apply h.third
  rcases hcode with hmissing | ⟨-, -, hline⟩
  · rw [hmissing] at hinvalid
    exact absurd hinvalid (by decide)
  · exact hline

/-- The fix of an empty text leaves a text with both header lines. -/
theorem headed_of_empty (hempty : (Source.ofString text).isEmpty = true)
    (he : editFor? settings (Source.ofString text) .emptyDocument = some (title, e)) :
    Headed settings (applyEdits text [e]).toList := by
  have hlines : splitLines text.toList = [] := List.isEmpty_iff.1 hempty
  have hnil : text.toList = [] := by
    rw [← flatten_rawLines text.toList, List.map_eq_nil_iff.1 hlines]
    rfl
  refine ⟨_, [], ['\n'], hs.isVersionLine, isBare_apiVersionLine hs, areReturns_nil, rfl, ?_⟩
  rw [applyEdits_emptyDocument he, hnil, List.nil_append]

/-- **The first fix of a text with a plain header leaves a text with a version line, or with both
header lines.** Which of these it is depends on the header line that was found wrong. -/
theorem fix_headed_or_versioned (h : HasPlainHeader settings text)
    (ha : analyze settings name text = .ok a) (hf : a.fixes.head? = some f) :
    Headed settings (applyEdits text f.edits).toList ∨
      Versioned settings (applyEdits text f.edits).toList ∧
        (f.diagnostic.code = .missingApiVersion ∨ f.diagnostic.code = .invalidApiVersion) := by
  obtain ⟨e, he, hedits, hcode⟩ := of_head?_fixes ha hf
  rw [hedits]
  rcases Validator.of_firstHeaderCode hcode with ⟨hempty, hlines⟩ | ⟨hversion, hfirst⟩ |
    ⟨hlines, hfirst, ⟨hversion, -⟩ | ⟨hright, hkind⟩⟩
  · rw [hempty] at he
    exact Or.inl (headed_of_empty hs hlines he)
  · rw [hversion] at he
    exact Or.inr ⟨versioned_of_missing hs h hfirst he, Or.inl hversion⟩
  · rw [hversion] at he
    exact Or.inr ⟨versioned_of_invalid hs h hfirst he, Or.inr hversion⟩
  · -- the version line stays as it is written
    have htree := (of_analyze ha).2.2.2 hlines
    have hline := h.written a.root htree hfirst hright
    have hversioned : Versioned settings text.toList :=
      ⟨hline, h.version hfirst, h.kind 1 (by decide)⟩
    exact Or.inl (headed_of_fix hversioned he hkind)

/-- The first fix of a text with a version line is one of the kind. -/
theorem fix_headed (h : Versioned settings text.toList) (ha : analyze settings name text = .ok a)
    (hf : a.fixes.head? = some f) : Headed settings (applyEdits text f.edits).toList := by
  obtain ⟨e, he, hedits, hcode⟩ := of_head?_fixes ha hf
  have htext := (onLine_append_below text.toList).symm
  have hline := lineStartsWith_apiVersion (v := checks settings text) rfl h.version htext
  rw [hedits]
  rcases Validator.of_firstHeaderCode hcode with ⟨-, hlines⟩ | ⟨-, hfirst⟩ |
    ⟨hlines, -, ⟨-, hversion⟩ | ⟨-, hkind⟩⟩
  · rw [Validator.isEmpty_eq_false_of_lineStartsWith hline] at hlines
    exact absurd hlines (by decide)
  · rw [hline] at hfirst
    exact absurd hfirst (by decide)
  · have htree := (of_analyze ha).2.2.2 hlines
    rw [get?_apiVersion hs h.version htext h.second htree] at hversion
    exact absurd (scalarEquals_string settings.apiVersion) (Bool.eq_false_iff.1 hversion)
  · exact headed_of_fix h he hkind

end Header

/-! ## Rounds -/

/-- The text after a round of fixing: the first fix that is offered is applied. A text that cannot be
read, or for which no fix is offered, stays as it is. -/
def round (settings : Settings) (name text : String) : String :=
  match analyze settings name text with
  | .error _ => text
  | .ok a =>
    match a.fixes.head? with
    | none => text
    | some f => applyEdits text f.edits

/-- Whether a text cannot be read or has a header without findings. -/
def IsSettled (settings : Settings) (name text : String) : Prop :=
  ∀ a, analyze settings name text = .ok a → ∀ d ∈ a.diagnostics, d.code.isHeader = false

theorem round_of_isSettled (h : IsSettled settings name text) : round settings name text = text := by
  rw [round]
  cases ha : analyze settings name text with
  | error fault => rfl
  | ok a =>
    show (match a.fixes.head? with
      | none => text
      | some f => applyEdits text f.edits) = text
    rw [fixes_eq_nil ha (h a ha)]
    rfl

/-- A text is settled, or a round applies the first fix. -/
theorem isSettled_or_round (settings : Settings) (name text : String) :
    IsSettled settings name text ∨ ∃ a f, analyze settings name text = .ok a ∧
      a.fixes.head? = some f ∧ round settings name text = applyEdits text f.edits := by
  rw [round]
  cases ha : analyze settings name text with
  | error fault =>
    left
    intro a ha'
    rw [ha] at ha'
    exact absurd ha' (by simp)
  | ok a =>
    cases hf : a.fixes with
    | nil =>
      left
      intro a' ha' d hd
      obtain rfl : a = a' := Except.ok.inj (ha.symm.trans ha')
      apply Bool.eq_false_iff.2
      intro hcode
      exact fixes_ne_nil ha hd hcode hf
    | cons f fs =>
      right
      exact ⟨a, f, rfl, by simp [hf], by simp [hf]⟩

section Rounds

variable (hs : settings.IsPlain)
include hs

theorem isSettled_of_headed (h : Headed settings text.toList) (name : String) :
    IsSettled settings name text := by
  intro a ha d hd
  obtain ⟨-, -, hfindings, htree⟩ := of_analyze ha
  rw [hfindings] at hd
  have hne : (Source.ofString text).isEmpty = false := by
    obtain ⟨line, returns, rest, hversionLine, -, -, -, htext⟩ := h
    exact Validator.isEmpty_eq_false_of_lineStartsWith
      (lineStartsWith_apiVersion (v := checks settings text) rfl hversionLine htext)
  apply Bool.eq_false_iff.2
  intro hcode
  exact h.not_violates hs (htree hne) (Validator.violates_of_mem_findings hd hcode)

/-- After a round, a text with a version line is settled. -/
theorem isSettled_round (h : Versioned settings text.toList) (name : String) :
    IsSettled settings name (round settings name text) := by
  rcases isSettled_or_round settings name text with hsettled | ⟨a, f, ha, hf, hround⟩
  · rwa [round_of_isSettled hsettled]
  · rw [hround]
    exact isSettled_of_headed hs (fix_headed hs h ha hf) name

/-- After two rounds, a text with a plain header is settled. -/
theorem isSettled_round_round (h : HasPlainHeader settings text) (name : String) :
    IsSettled settings name (round settings name (round settings name text)) := by
  rcases isSettled_or_round settings name text with hsettled | ⟨a, f, ha, hf, hround⟩
  · rwa [round_of_isSettled hsettled, round_of_isSettled hsettled]
  · rw [hround]
    rcases fix_headed_or_versioned hs h ha hf with hheaded | ⟨hversioned, -⟩
    · have hsettled := isSettled_of_headed hs hheaded name
      rwa [round_of_isSettled hsettled]
    · exact isSettled_round hs hversioned name

/-- The first fix of a text with a plain header removes what it is offered for. -/
theorem code_ne_of_fixed {a' : Analysis} (h : HasPlainHeader settings text)
    (ha : analyze settings name text = .ok a) (hf : a.fixes.head? = some f)
    (ha' : analyze settings name (applyEdits text f.edits) = .ok a') {d : Diagnostic}
    (hd : d ∈ a'.diagnostics) : d.code ≠ f.diagnostic.code := by
  have hheader := isHeader_of_head?_fixes ha hf
  intro hcode
  rw [← hcode] at hheader
  rcases fix_headed_or_versioned hs h ha hf with hheaded | ⟨hversioned, hfixed⟩
  · rw [isSettled_of_headed hs hheaded name a' ha' d hd] at hheader
    exact absurd hheader (by decide)
  · obtain ⟨-, -, hfindings, htree⟩ := of_analyze ha'
    have htext := (onLine_append_below (applyEdits text f.edits).toList).symm
    have hline := lineStartsWith_apiVersion (v := checks settings (applyEdits text f.edits)) rfl
      hversioned.version htext
    have htree := htree (Validator.isEmpty_eq_false_of_lineStartsWith hline)
    rw [hfindings] at hd
    -- the version was fixed, so what is reported again would be no rule of the kind
    refine not_violates_version hs hversioned.version htext hversioned.second htree ?_ ?_
      (Validator.violates_of_mem_findings hd hheader)
    · rcases hfixed with hfixed | hfixed <;> rw [hcode, hfixed] <;> decide
    · rcases hfixed with hfixed | hfixed <;> rw [hcode, hfixed] <;> decide

end Rounds

/-- **Fixes converge on plain headers.** The first fix that is offered removes what it is offered
for, and after two rounds the text cannot be read or has a header without findings. -/
theorem fixes_converge (hs : settings.IsPlain) (h : HasPlainHeader settings text) (name : String) :
    (∀ a f a', analyze settings name text = .ok a → a.fixes.head? = some f →
        analyze settings name (applyEdits text f.edits) = .ok a' →
        ∀ d ∈ a'.diagnostics, d.code ≠ f.diagnostic.code) ∧
      IsSettled settings name (round settings name (round settings name text)) := by
  refine ⟨?_, isSettled_round_round hs h name⟩
  intro a f a' ha hf ha' d hd
  exact code_ne_of_fixed hs h ha hf ha' hd

/-- A document without header lines. -/
def headerless : String := "metadata:\n  name: demo\nspec: {}\n"

theorem fixes_converge_headerless :
    Settings.standard.IsPlain ∧ HasPlainHeader .standard headerless ∧
      round .standard "rgd.yaml" (round .standard "rgd.yaml" headerless) =
        Settings.standard.headerTemplate ++ headerless ∧
      IsSettled .standard "rgd.yaml" (Settings.standard.headerTemplate ++ headerless) := by
  have hplain : HasPlainHeader .standard headerless := by
    refine ⟨by decide +kernel, by decide +kernel, by decide +kernel, ?_⟩
    -- the first line is no version line
    have hnone : lineHasStart headerless.toList 0 "apiVersion:" = false := by decide +kernel
    intro tree _ hline
    rw [hnone] at hline
    exact absurd hline (by decide)
  have hrounds : round .standard "rgd.yaml" (round .standard "rgd.yaml" headerless) =
      Settings.standard.headerTemplate ++ headerless := by
    decide +kernel
  have hsettled := (fixes_converge Settings.isPlain_standard hplain "rgd.yaml").2
  rw [hrounds] at hsettled
  exact ⟨Settings.isPlain_standard, hplain, hrounds, hsettled⟩

/-! ## Any header -/

/-- **A fix of a missing line removes what it is offered for**, whatever the text, and whatever the
tree that is then checked. -/
theorem missing_removed (hs : settings.IsPlain) (ha : analyze settings name text = .ok a)
    (hf : a.fixes.head? = some f) (hcode : f.diagnostic.code = .emptyDocument ∨
      f.diagnostic.code = .missingApiVersion ∨ f.diagnostic.code = .missingKind)
    (tree : Node) {d : Diagnostic} (hd : d ∈ validate settings tree (applyEdits text f.edits)) :
    d.code ≠ f.diagnostic.code := by
  obtain ⟨e, he, hedits, -⟩ := of_head?_fixes ha hf
  have hheader := isHeader_of_head?_fixes ha hf
  intro hsame
  rw [← hsame] at hheader
  -- the rules of missing lines are about the text, which now has the line
  have hviolates : (checks settings (applyEdits text f.edits)).Violates tree d.code :=
    Validator.violates_of_mem_findings hd hheader
  rw [hsame, hedits] at hviolates
  rcases hcode with hcode | hcode | hcode
  · rw [hcode] at hviolates he
    have hline := lineStartsWith_apiVersion (v := checks settings (applyEdits text [e])) rfl
      hs.isVersionLine (applyEdits_emptyDocument he)
    exact Bool.eq_false_iff.1 (Validator.isEmpty_eq_false_of_lineStartsWith hline) hviolates
  · rw [hcode] at hviolates he
    have hline := lineStartsWith_apiVersion (v := checks settings (applyEdits text [e])) rfl
      hs.isVersionLine (applyEdits_missingApiVersion he)
    exact Bool.eq_false_iff.1 hviolates hline
  · rw [hcode] at hviolates he
    obtain ⟨returns, rest, hreturns, htext, -⟩ := exists_kindLine he (Or.inl rfl)
    obtain ⟨hcount, hline⟩ := lineStartsWith_kind (v := checks settings (applyEdits text [e])) rfl hs
      (isBare_onLine text.toList 0) hreturns htext
    rcases hviolates with hshort | hnone
    · omega
    · exact Bool.eq_false_iff.1 hnone hline

/-- A fix that writes what stands on its line changes nothing. -/
theorem round_of_written (ha : analyze settings name text = .ok a) (hf : a.fixes.head? = some f)
    (h : f.diagnostic.code = .invalidApiVersion ∧
        onLine text.toList 0 = settings.apiVersionLine.toList ∨
      f.diagnostic.code = .invalidKind ∧ onLine text.toList 1 = settings.kindLine.toList) :
    round settings name text = text := by
  obtain ⟨e, he, hedits, -⟩ := of_head?_fixes ha hf
  rcases isSettled_or_round settings name text with hsettled | ⟨a', f', ha', hf', hround⟩
  · exact round_of_isSettled hsettled
  · obtain rfl : a = a' := Except.ok.inj (ha.symm.trans ha')
    obtain rfl : f = f' := Option.some.inj (hf.symm.trans hf')
    rw [hround, hedits]
    apply String.toList_inj.1
    rcases h with ⟨hcode, hline⟩ | ⟨hcode, hline⟩
    · rw [hcode] at he
      rw [applyEdits_invalidApiVersion he, ← hline]
      exact above_append_onLine_append_below text.toList 0
    · rw [hcode] at he
      rw [applyEdits_invalidKind he, ← hline]
      exact above_append_onLine_append_below text.toList 1

/-- A document with a kind that goes on in the line below. -/
def continuedKind : String :=
  "apiVersion: kro.run/v1alpha1\nkind: ResourceGraphDefinition\n  Extra\nmetadata:\n  name: demo\n" ++
    "spec: {}\n"

theorem round_continuedKind :
    ((analyze .standard "rgd.yaml" continuedKind).toOption.map fun a =>
        a.diagnostics.map Diagnostic.code) = some [.invalidKind] ∧
      round .standard "rgd.yaml" continuedKind = continuedKind := by
  constructor
  · decide +kernel
  · decide +kernel

end ResourceGraph.QuickFix
