import ResourceGraph.Proofs.Text.Extent

/-!
# Around a line

A text is what stands above a line, the line itself and what stands below it, the line break at the
start of the latter (`above_append_onLine_append_below`). Every text begins with a bare line, one
without its line break and the carriage returns before that (`exists_bare`), and what is above and
below the first lines can be read off such a form. A text that holds no line ends and begins another
begins its first line (`splitLines_append`).
-/

set_option autoImplicit false

namespace ResourceGraph.Text

/-! ## Ends of lists -/

theorem dropTail_append_drop {α : Type} (p : α → Bool) (as : List α) :
    dropTail p as ++ as.drop (dropTail p as).length = as := by
  obtain ⟨tail, htail, -⟩ := dropTail_append p as
  have hdrop : (dropTail p as ++ tail).drop (dropTail p as).length = tail := List.drop_left
  rw [← htail] at hdrop
  rw [hdrop, ← htail]

theorem dropTail_of_forall_not {α : Type} {p : α → Bool} {as : List α}
    (h : ∀ a ∈ as, p a = false) : dropTail p as = as := by
  induction as with
  | nil => rfl
  | cons a as ih =>
    obtain ⟨ha, has⟩ := List.forall_mem_cons.1 h
    rw [dropTail, ih has]
    cases as <;> simp [ha]

theorem dropTail_dropTail {α : Type} (p : α → Bool) (as : List α) :
    dropTail p (dropTail p as) = dropTail p as := by
  obtain ⟨tail, htail, hall⟩ := dropTail_append p as
  have happend := dropTail_append_of_pos hall (dropTail p as)
  rw [← htail] at happend
  exact happend.symm

/-! ## Around a line -/

/-- The text before a line. -/
def above (text : List Char) (n : Nat) : List Char := ((rawLines text).take n).flatten

/-- A line without its line break and the carriage returns before that. -/
def onLine (text : List Char) (n : Nat) : List Char :=
  dropTail isLineEnd (((rawLines text)[n]?).getD [])

/-- The text from the end of a line on, its line break included. -/
def below (text : List Char) (n : Nat) : List Char :=
  (((rawLines text)[n]?).getD []).drop (onLine text n).length ++ ((rawLines text).drop (n + 1)).flatten

/-- Whether a line of a text begins with another text, white space at its start aside. -/
def lineHasStart (text : List Char) (n : Nat) (start : String) : Bool :=
  ((splitLines text)[n]?).any fun line => start.toList.isPrefixOf (trim line)

theorem above_zero (text : List Char) : above text 0 = [] := rfl

theorem above_append_onLine_append_below (text : List Char) (n : Nat) :
    above text n ++ (onLine text n ++ below text n) = text := by
  have hline : onLine text n ++ below text n = ((rawLines text).drop n).flatten := by
    rw [below, ← List.append_assoc, onLine, dropTail_append_drop]
    by_cases hn : n < (rawLines text).length
    · rw [List.getElem?_eq_getElem hn, Option.getD_some, List.drop_eq_getElem_cons hn,
        List.flatten_cons]
    · have hle : (rawLines text).length ≤ n := Nat.le_of_not_lt hn
      rw [List.getElem?_eq_none hle, List.drop_of_length_le hle,
        List.drop_of_length_le (Nat.le_succ_of_le hle)]
      rfl
  rw [hline, above, ← List.flatten_append, List.take_append_drop, flatten_rawLines]

/-- A text is its first line and what is below that. -/
theorem onLine_append_below (text : List Char) : onLine text 0 ++ below text 0 = text := by
  have htext := above_append_onLine_append_below text 0
  rwa [above_zero, List.nil_append] at htext

/-! ## Beginnings of texts -/

/-- The line break is among the line ends that an offset does not go past. -/
theorem dropTail_stripBreak (l : List Char) :
    dropTail isLineEnd (stripBreak l) = dropTail isLineEnd l := by
  induction l with
  | nil => rfl
  | cons c cs ih =>
    unfold stripBreak
    split
    · rename_i heq
      rw [heq]
    · rename_i heq
      rw [heq]
      rfl
    · rename_i heq
      rw [heq]
      rfl
    · rename_i heq
      obtain ⟨rfl, rfl⟩ := List.cons.inj heq
      rw [dropTail, dropTail, ih]

theorem stripBreak_append {line : List Char} (h : ∀ c ∈ line, isLineEnd c = false)
    (rest : List Char) : stripBreak (line ++ rest) = line ++ stripBreak rest := by
  induction line with
  | nil => rfl
  | cons c line ih =>
    obtain ⟨hc, hline⟩ := List.forall_mem_cons.1 h
    rw [isLineEnd, Bool.or_eq_false_iff, beq_eq_false_iff_ne, beq_eq_false_iff_ne] at hc
    rw [List.cons_append, stripBreak, ih hline]
    · rfl
    · rintro rfl
      exact absurd rfl hc.1
    · rintro rfl
      exact absurd rfl hc.2

theorem rawLines_append {line : List Char} (h : '\n' ∉ line) (hne : line ≠ [])
    (rest : List Char) : ∃ more lines, rawLines (line ++ rest) = (line ++ more) :: lines := by
  induction line with
  | nil => exact absurd rfl hne
  | cons c cs ih =>
    rw [List.mem_cons, not_or] at h
    rw [List.cons_append, rawLines, if_neg (Ne.symm h.1)]
    cases cs with
    | nil =>
      rw [List.nil_append]
      cases rawLines rest with
      | nil => exact ⟨[], [], rfl⟩
      | cons l ls => exact ⟨l, ls, rfl⟩
    | cons d ds =>
      obtain ⟨more, lines, hraw⟩ := ih h.2 (List.cons_ne_nil _ _)
      rw [hraw]
      exact ⟨more, lines, rfl⟩

/-- A text without line ends that begins another begins its first line. -/
theorem splitLines_append {line : List Char} (h : ∀ c ∈ line, isLineEnd c = false)
    (hne : line ≠ []) (rest : List Char) :
    ∃ more lines, splitLines (line ++ rest) = (line ++ more) :: lines := by
  have hfeed : '\n' ∉ line := by
    intro hmem
    exact absurd (h _ hmem) (by decide)
  obtain ⟨more, lines, hraw⟩ := rawLines_append hfeed hne rest
  refine ⟨stripBreak more, lines.map stripBreak, ?_⟩
  rw [splitLines, hraw, List.map_cons, stripBreak_append h]

/-- What begins a line and has no white space at either end begins the trimmed line. -/
theorem prefix_trim {start : Line} (h : start.isSolid = true) (rest : List Char) :
    start <+: trim (start ++ rest) := by
  obtain ⟨⟨c, cs, hfirst, hc, -⟩, before, d, hlast, hd⟩ := Line.isSolid_iff.1 h
  have hstart : trimStart (start ++ rest) = start ++ rest := by
    rw [trimStart, hfirst, List.cons_append, List.dropWhile_cons_of_neg (by simp [hc])]
  refine ⟨dropTail isBlank rest, ?_⟩
  rw [trim, hstart, trimEnd, hlast, List.append_assoc, List.append_assoc, List.singleton_append,
    List.singleton_append, dropTail_append_cons hd]

/-! ## Bare lines -/

/-- Whether a text is a line without its line break and carriage returns before that. -/
structure IsBare (line : List Char) : Prop where
  noFeed : '\n' ∉ line
  noReturn : dropTail isLineEnd line = line

theorem isBare_of_forall {line : List Char} (h : ∀ c ∈ line, isLineEnd c = false) : IsBare line := by
  refine ⟨?_, dropTail_of_forall_not h⟩
  intro hmem
  exact absurd (h _ hmem) (by decide)

theorem isBare_onLine (text : List Char) (n : Nat) : IsBare (onLine text n) := by
  refine ⟨?_, dropTail_dropTail isLineEnd _⟩
  rw [onLine]
  cases hline : (rawLines text)[n]? with
  | none => exact List.not_mem_nil
  | some line => exact not_mem_dropTail_of_mem_rawLines (List.mem_of_getElem? hline)

/-- Whether all characters of a text are carriage returns. -/
def AreReturns (cs : List Char) : Prop := ∀ c ∈ cs, c = '\r'

theorem areReturns_nil : AreReturns [] := by
  intro c hc
  exact absurd hc List.not_mem_nil

theorem AreReturns.isLineEnd {cs : List Char} (h : AreReturns cs) :
    ∀ c ∈ cs, isLineEnd c = true := by
  intro c hc
  rw [h c hc]
  decide

theorem AreReturns.not_mem {cs : List Char} (h : AreReturns cs) : '\n' ∉ cs := by
  intro hmem
  exact absurd (h _ hmem) (by decide)

/-- A text without line feeds is a bare line and carriage returns. -/
theorem exists_bare_of_not_mem {text : List Char} (h : '\n' ∉ text) :
    ∃ line returns, IsBare line ∧ AreReturns returns ∧ text = line ++ returns := by
  obtain ⟨tail, htail, hall⟩ := dropTail_append isLineEnd text
  have hmem : ∀ c ∈ dropTail isLineEnd text ++ tail, c ≠ '\n' := by
    rw [← htail]
    rintro c hc rfl
    exact h hc
  refine ⟨dropTail isLineEnd text, tail, ⟨?_, dropTail_dropTail _ _⟩, ?_, htail⟩
  · intro hfeed
    exact hmem _ (List.mem_append_left _ hfeed) rfl
  · intro c hc
    have hend := hall c hc
    rw [isLineEnd, Bool.or_eq_true, beq_iff_eq, beq_iff_eq] at hend
    exact hend.resolve_left (hmem c (List.mem_append_right _ hc))

/-- Every text begins with a bare line, which ends the text or is ended by a line feed. -/
theorem exists_bare (text : List Char) : ∃ line returns, IsBare line ∧ AreReturns returns ∧
    (text = line ++ returns ∨ ∃ rest, text = line ++ (returns ++ '\n' :: rest)) := by
  by_cases hmem : '\n' ∈ text
  · obtain ⟨first, rest, rfl, hfirst⟩ := List.eq_append_cons_of_mem hmem
    obtain ⟨line, returns, hline, hreturns, rfl⟩ := exists_bare_of_not_mem hfirst
    exact ⟨line, returns, hline, hreturns, Or.inr ⟨rest, List.append_assoc _ _ _⟩⟩
  · obtain ⟨line, returns, hline, hreturns, htext⟩ := exists_bare_of_not_mem hmem
    exact ⟨line, returns, hline, hreturns, Or.inl htext⟩

theorem rawLines_of_not_mem {text : List Char} (h : '\n' ∉ text) (hne : text ≠ []) :
    rawLines text = [text] := by
  induction text with
  | nil => exact absurd rfl hne
  | cons c cs ih =>
    rw [List.mem_cons, not_or] at h
    rw [rawLines, if_neg (Ne.symm h.1)]
    cases cs with
    | nil => rfl
    | cons d ds => rw [ih h.2 (List.cons_ne_nil _ _)]

section Bare

variable {line returns : List Char} (hline : IsBare line) (hreturns : AreReturns returns)
include hline hreturns

theorem not_mem_bare : '\n' ∉ line ++ returns := by
  rw [List.mem_append, not_or]
  exact ⟨hline.noFeed, hreturns.not_mem⟩

theorem rawLines_bare_feed (rest : List Char) :
    rawLines (line ++ (returns ++ '\n' :: rest)) =
      (line ++ (returns ++ ['\n'])) :: rawLines rest := by
  rw [← List.append_assoc, rawLines_append_feed (not_mem_bare hline hreturns), List.append_assoc]

theorem onLine_bare_feed (rest : List Char) :
    onLine (line ++ (returns ++ '\n' :: rest)) 0 = line := by
  have hall : ∀ c ∈ returns ++ ['\n'], isLineEnd c = true := by
    intro c hc
    rcases List.mem_append.1 hc with hc | hc
    · exact hreturns.isLineEnd c hc
    · rw [List.mem_singleton.1 hc]
      decide
  rw [onLine, rawLines_bare_feed hline hreturns]
  show dropTail isLineEnd (line ++ (returns ++ ['\n'])) = line
  rw [dropTail_append_of_pos hall, hline.noReturn]

theorem length_rawLines_bare : (rawLines (line ++ returns)).length ≤ 1 := by
  by_cases hne : line ++ returns = []
  · rw [hne]
    exact Nat.zero_le 1
  · rw [rawLines_of_not_mem (not_mem_bare hline hreturns) hne]
    exact Nat.le_refl 1

theorem onLine_bare : onLine (line ++ returns) 0 = line := by
  by_cases hne : line ++ returns = []
  · rw [hne, (List.append_eq_nil_iff.1 hne).1]
    rfl
  · rw [onLine, rawLines_of_not_mem (not_mem_bare hline hreturns) hne]
    show dropTail isLineEnd (line ++ returns) = line
    rw [dropTail_append_of_pos hreturns.isLineEnd, hline.noReturn]

theorem below_bare : below (line ++ returns) 0 = returns := by
  have htext := onLine_append_below (line ++ returns)
  rw [onLine_bare hline hreturns] at htext
  exact List.append_cancel_left htext

theorem below_succ_bare (n : Nat) : below (line ++ returns) (n + 1) = [] := by
  have hlength := length_rawLines_bare hline hreturns
  have hlast : (rawLines (line ++ returns)).length ≤ n + 1 := by omega
  have hafter : (rawLines (line ++ returns)).length ≤ n + 1 + 1 := by omega
  rw [below, List.getElem?_eq_none hlast, List.drop_of_length_le hafter]
  simp

theorem above_one_bare_feed (rest : List Char) :
    above (line ++ (returns ++ '\n' :: rest)) 1 = line ++ (returns ++ ['\n']) := by
  rw [above, rawLines_bare_feed hline hreturns]
  simp

theorem below_bare_feed (rest : List Char) :
    below (line ++ (returns ++ '\n' :: rest)) 0 = returns ++ '\n' :: rest := by
  have htext := onLine_append_below (line ++ (returns ++ '\n' :: rest))
  rw [onLine_bare_feed hline hreturns] at htext
  exact List.append_cancel_left htext

theorem below_succ_bare_feed (rest : List Char) (n : Nat) :
    below (line ++ (returns ++ '\n' :: rest)) (n + 1) = below rest n := by
  rw [below, below, onLine, onLine, rawLines_bare_feed hline hreturns]
  rfl

theorem lineHasStart_succ_bare_feed (rest : List Char) (n : Nat) (start : String) :
    lineHasStart (line ++ (returns ++ '\n' :: rest)) (n + 1) start = lineHasStart rest n start := by
  rw [lineHasStart, splitLines, rawLines_bare_feed hline hreturns]
  rfl

end Bare

/-- Two lines are a bare line, a line break, and what stands below. -/
theorem exists_bare_feed {text : List Char} (h : 2 ≤ (rawLines text).length) :
    ∃ line returns rest, IsBare line ∧ AreReturns returns ∧
      text = line ++ (returns ++ '\n' :: rest) := by
  obtain ⟨line, returns, hline, hreturns, rfl | ⟨rest, htext⟩⟩ := exists_bare text
  · have hlength := length_rawLines_bare hline hreturns
    omega
  · exact ⟨line, returns, rest, hline, hreturns, htext⟩

end ResourceGraph.Text
