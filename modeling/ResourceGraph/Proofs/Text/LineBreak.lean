import ResourceGraph.Proofs.Text.FirstLine

/-!
# Lines and line breaks

A text without carriage returns other than those of its line breaks is made of its lines, each ended
by a line break, which the last one may lack (`hasLines_splitLines`). A text that is made of some
lines in this way has these and no others (`HasLines.splitLines_eq`), so what a change of a text does
to its lines is known once the new text is seen to be made of lines. A first line can be put in place
of another (`HasLines.replaceFirst`).
-/

set_option autoImplicit false

namespace ResourceGraph.Text

variable {line first new brk text after : List Char} {lines : List Line}

/-- Whether a text holds no line feed and no carriage return. -/
def IsOneLine (cs : List Char) : Prop := ∀ c ∈ cs, isLineEnd c = false

/-- The two line breaks. -/
inductive IsBreak : List Char → Prop
  | feed : IsBreak ['\n']
  | returnFeed : IsBreak ['\r', '\n']

/-- Whether a text is made of some lines: each of them ends in a line break, and the last one need
not if it is not empty. -/
inductive HasLines : List Char → List Line → Prop
  | nil : HasLines [] []
  | last {line : Line} : IsOneLine line → line ≠ [] → HasLines line [line]
  | cons {line brk text : List Char} {lines : List Line} : IsOneLine line → IsBreak brk →
    HasLines text lines → HasLines (line ++ (brk ++ text)) (line :: lines)

theorem isOneLine_iff {cs : List Char} : IsOneLine cs ↔ '\n' ∉ cs ∧ '\r' ∉ cs := by
  constructor
  · intro h
    constructor
    · intro hmem
      exact absurd (h _ hmem) (by decide)
    · intro hmem
      exact absurd (h _ hmem) (by decide)
  · rintro ⟨hfeed, hreturn⟩ c hc
    rw [isLineEnd, Bool.or_eq_false_iff, beq_eq_false_iff_ne, beq_eq_false_iff_ne]
    constructor
    · rintro rfl
      exact hfeed hc
    · rintro rfl
      exact hreturn hc

theorem IsBreak.exists_returns (h : IsBreak brk) :
    ∃ returns, AreReturns returns ∧ brk = returns ++ ['\n'] := by
  cases h with
  | feed => exact ⟨[], areReturns_nil, rfl⟩
  | returnFeed => exact ⟨['\r'], fun c hc => List.mem_singleton.1 hc, rfl⟩

/-! ## The lines of a text -/

theorem stripBreak_of_not_mem (h : '\n' ∉ line) : stripBreak line = line := by
  induction line with
  | nil => rfl
  | cons c line ih =>
    rw [List.mem_cons, not_or] at h
    rw [stripBreak, ih h.2]
    · rintro rfl
      exact absurd rfl h.1
    · rintro - rfl
      exact h.2 List.mem_cons_self

theorem splitLines_of_isOneLine (h : IsOneLine line) (hne : line ≠ []) :
    splitLines line = [line] := by
  have hfeed := (isOneLine_iff.1 h).1
  rw [splitLines, rawLines_of_not_mem hfeed hne, List.map_singleton, stripBreak_of_not_mem hfeed]

theorem splitLines_append_feed (h : '\n' ∉ first) (rest : List Char) :
    splitLines (first ++ '\n' :: rest) = stripBreak (first ++ ['\n']) :: splitLines rest := by
  rw [splitLines, rawLines_append_feed h, List.map_cons, splitLines]

theorem splitLines_append_break (hline : IsOneLine line) (hbrk : IsBreak brk) (rest : List Char) :
    splitLines (line ++ (brk ++ rest)) = line :: splitLines rest := by
  obtain ⟨returns, hreturns, hbreak⟩ := hbrk.exists_returns
  have hfeed : '\n' ∉ line ++ returns := not_mem_bare (isBare_of_forall hline) hreturns
  have hstrip : stripBreak (line ++ brk) = line := by
    rw [stripBreak_append hline]
    cases hbrk with
    | feed => exact List.append_nil line
    | returnFeed => exact List.append_nil line
  have htext : line ++ (brk ++ rest) = (line ++ returns) ++ '\n' :: rest := by
    rw [hbreak]
    simp
  rw [htext, splitLines_append_feed hfeed, List.append_assoc, ← hbreak, hstrip]

/-- The lines that a text is made of are its lines. -/
theorem HasLines.splitLines_eq (h : HasLines text lines) : splitLines text = lines := by
  induction h with
  | nil => rfl
  | last hline hne => exact splitLines_of_isOneLine hline hne
  | cons hline hbrk _ ih => rw [splitLines_append_break hline hbrk, ih]

theorem HasLines.lines_ofString {text : String} (h : HasLines text.toList lines) :
    (Source.ofString text).lines = lines :=
  h.splitLines_eq

/-- What ends in a line feed is a line and its break if no carriage return is left in it. -/
theorem exists_break (hfeed : '\n' ∉ first) (hreturn : '\r' ∉ stripBreak (first ++ ['\n'])) :
    ∃ line brk, IsOneLine line ∧ IsBreak brk ∧ first ++ ['\n'] = line ++ brk := by
  induction first with
  | nil => exact ⟨[], ['\n'], fun c hc => absurd hc List.not_mem_nil, .feed, rfl⟩
  | cons c first ih =>
    rw [List.mem_cons, not_or] at hfeed
    -- a carriage return belongs to the break only right before the line feed
    by_cases hlast : c = '\r' ∧ first = []
    · rw [hlast.1, hlast.2]
      exact ⟨[], ['\r', '\n'], fun c hc => absurd hc List.not_mem_nil, .returnFeed, rfl⟩
    · have hcons : stripBreak (c :: first ++ ['\n']) = c :: stripBreak (first ++ ['\n']) := by
        rw [List.cons_append, stripBreak]
        · rintro rfl
          exact absurd rfl hfeed.1
        · intro hc hfirst
          exact hlast ⟨hc, List.append_left_eq_self.1 hfirst⟩
      rw [hcons, List.mem_cons, not_or] at hreturn
      obtain ⟨line, brk, hline, hbrk, hsplit⟩ := ih hfeed.2 hreturn.2
      rw [isOneLine_iff] at hline
      refine ⟨c :: line, brk, isOneLine_iff.2 ⟨?_, ?_⟩, hbrk, ?_⟩
      · rw [List.mem_cons, not_or]
        exact ⟨hfeed.1, hline.1⟩
      · rw [List.mem_cons, not_or]
        exact ⟨hreturn.1, hline.2⟩
      · rw [List.cons_append, hsplit, List.cons_append]

/-- A text without carriage returns in its lines is made of its lines. -/
theorem hasLines_splitLines {text : List Char} (h : ∀ line ∈ splitLines text, '\r' ∉ line) :
    HasLines text (splitLines text) := by
  by_cases hmem : '\n' ∈ text
  · obtain ⟨first, rest, htext, hfirst⟩ := List.eq_append_cons_of_mem hmem
    -- what is below the first line feed is shorter
    have hlength : rest.length < text.length := by
      rw [htext, List.length_append, List.length_cons]
      omega
    have hreturn : '\r' ∉ stripBreak (first ++ ['\n']) := by
      apply h
      rw [htext, splitLines_append_feed hfirst]
      exact List.mem_cons_self
    obtain ⟨line, brk, hline, hbrk, hbreak⟩ := exists_break hfirst hreturn
    have hsplit : text = line ++ (brk ++ rest) := by
      rw [← List.append_assoc, ← hbreak, htext, List.append_assoc, List.singleton_append]
    have hlines : splitLines text = line :: splitLines rest := by
      rw [hsplit, splitLines_append_break hline hbrk]
    rw [hlines, List.forall_mem_cons] at h
    rw [hlines, hsplit]
    exact .cons hline hbrk (hasLines_splitLines h.2)
  · by_cases hne : text = []
    · rw [hne]
      exact .nil
    · have hsplit : splitLines text = [text] := by
        rw [splitLines, rawLines_of_not_mem hmem hne, List.map_singleton,
          stripBreak_of_not_mem hmem]
      rw [hsplit, List.forall_mem_singleton] at h
      rw [hsplit]
      exact .last (isOneLine_iff.2 ⟨hmem, h⟩) hne
termination_by text.length

/-! ## The first line -/

section Break

variable (hline : IsOneLine line) (hbrk : IsBreak brk)
include hline hbrk

theorem onLine_break (rest : List Char) : onLine (line ++ (brk ++ rest)) 0 = line := by
  obtain ⟨returns, hreturns, rfl⟩ := hbrk.exists_returns
  rw [List.append_assoc, List.singleton_append]
  exact onLine_bare_feed (isBare_of_forall hline) hreturns rest

theorem above_one_break (rest : List Char) : above (line ++ (brk ++ rest)) 1 = line ++ brk := by
  obtain ⟨returns, hreturns, rfl⟩ := hbrk.exists_returns
  rw [List.append_assoc, List.singleton_append]
  exact above_one_bare_feed (isBare_of_forall hline) hreturns rest

theorem below_one_break (rest : List Char) : below (line ++ (brk ++ rest)) 1 = below rest 0 := by
  obtain ⟨returns, hreturns, rfl⟩ := hbrk.exists_returns
  rw [List.append_assoc, List.singleton_append]
  exact below_succ_bare_feed (isBare_of_forall hline) hreturns rest 0

end Break

theorem HasLines.onLine_zero (h : HasLines text (first :: lines)) : onLine text 0 = first := by
  cases h with
  | last hline _ =>
    have hbare := onLine_bare (isBare_of_forall hline) areReturns_nil
    rwa [List.append_nil] at hbare
  | cons hline hbrk _ => exact onLine_break hline hbrk _

/-- A text is its first line and what is below it. -/
theorem HasLines.eq_append_below (h : HasLines text (first :: lines)) :
    text = first ++ Text.below text 0 := by
  have htext := onLine_append_below text
  rw [h.onLine_zero] at htext
  exact htext.symm

/-- The first line can be replaced. -/
theorem HasLines.replaceFirst (h : HasLines (first ++ after) (first :: lines))
    (hnew : IsOneLine new) (hne : new ≠ []) : HasLines (new ++ after) (new :: lines) := by
  generalize htext : first ++ after = text at h
  cases h with
  | last _ _ =>
    rw [List.append_right_eq_self.1 htext, List.append_nil]
    exact .last hnew hne
  | cons _ hbrk hrest =>
    rw [List.append_cancel_left htext]
    exact .cons hnew hbrk hrest

/-- What is below the first line is what another line can be put before. -/
theorem HasLines.replaceFirst_below (h : HasLines text (first :: lines)) (hnew : IsOneLine new)
    (hne : new ≠ []) : HasLines (new ++ Text.below text 0) (new :: lines) := by
  have htext := h.eq_append_below
  apply HasLines.replaceFirst _ hnew hne
  · exact first
  · rwa [← htext]

theorem HasLines.eq_nil (h : HasLines text []) : text = [] := by
  cases h
  rfl

/-- A second line is written after the break of the first one. -/
theorem HasLines.exists_second {second : Line} (h : HasLines text (first :: second :: lines)) :
    ∃ brk rest, IsOneLine first ∧ IsBreak brk ∧ HasLines rest (second :: lines) ∧
      text = first ++ (brk ++ rest) := by
  cases h with
  | cons hline hbrk hrest => exact ⟨_, _, hline, hbrk, hrest, rfl⟩

theorem HasLines.isOneLine (h : HasLines text (first :: lines)) : IsOneLine first := by
  cases h with
  | last hline _ => exact hline
  | cons hline _ _ => exact hline

end ResourceGraph.Text
