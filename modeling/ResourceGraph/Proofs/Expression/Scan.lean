import ResourceGraph.Expression.Scan

/-!
# Scanning a line for expressions

What the expressions of a line are is said without the scan: an expression occurs where `${`, a
non-empty body without `}`, and `}` are written (`Occurs`), and a scan (`IsScan`) takes occurrences
from left to right, none inside another, and leaves none out that does not begin inside one it took.

Proves: a line has exactly one scan, and it is what `all` gives (`all_eq_iff_isScan`); taking some
expressions first and the others later gives the same ones, and after the last there is none.
-/

set_option autoImplicit false

namespace ResourceGraph.Expression

open Text

/-- The text of an expression with a body. -/
def written (body : List Char) : List Char := '$' :: '{' :: (body ++ ['}'])

namespace Cursor

/-- Whether an expression is written at a place or somewhere after it on the line. -/
def Occurs (k : Cursor) (e : Expression) : Prop :=
  ∃ left body right, k.rest = left ++ written body ++ right ∧ body ≠ [] ∧ '}' ∉ body ∧
    e = ⟨k.line, k.column + units left, units (written body), String.ofList body⟩

/-- Whether some expressions are the ones found by reading on from a place: each is written there,
they stand apart from left to right, and every expression that is written there begins where one of
them stands. -/
structure IsScan (k : Cursor) (found : List Expression) : Prop where
  occurs : ∀ e ∈ found, k.Occurs e
  ordered : found.Pairwise fun e e' => e.endColumn ≤ e'.startColumn
  complete : ∀ e, k.Occurs e → ∃ e' ∈ found, e'.startColumn ≤ e.startColumn ∧
    e.startColumn < e'.endColumn

end Cursor

/-! ## Occurrences, character by character -/

theorem units_written (body : List Char) : units (written body) = units body + 3 := by
  have hsigil : charUnits '$' = 1 := by decide
  have hopen : charUnits '{' = 1 := by decide
  have hclose : units ['}'] = 1 := by decide
  rw [written, units, units, units_append, hsigil, hopen, hclose]
  omega

/-- A body is read where it is written. -/
theorem body?_eq_some_iff {cs body rest : List Char} :
    body? cs = some (body, rest) ↔ cs = written body ++ rest ∧ body ≠ [] ∧ '}' ∉ body := by
  constructor
  · intro h
    unfold body? at h
    split at h
    · rename_i cs'
      split at h
      · simp at h
      · rename_i body' rest' hcut
        split at h
        · simp at h
        · rename_i hne
          simp only [Option.some.injEq, Prod.mk.injEq] at h
          obtain ⟨rfl, rfl⟩ := h
          refine ⟨?_, by simpa using hne, not_mem_of_cutAt? hcut⟩
          rw [cutAt?_eq_some hcut]
          simp [written]
    · simp at h
  · rintro ⟨rfl, hne, hbrace⟩
    have hcut := cutAt?_append hbrace rest
    simp only [written, List.cons_append, List.append_assoc, List.nil_append, body?, hcut]
    simp [hne]

namespace Cursor

variable {line column : Nat} {c : Char} {cs passed rest : List Char} {k k' : Cursor}
  {e e' : Expression} {found : List Expression}

theorem not_occurs_nil : ¬ (⟨line, column, []⟩ : Cursor).Occurs e := by
  rintro ⟨left, body, right, h, -⟩
  simp [written] at h

/-- An expression is written at a place, or after its first character. -/
theorem occurs_cons : (⟨line, column, c :: cs⟩ : Cursor).Occurs e ↔
    (∃ body rest, body? (c :: cs) = some (body, rest) ∧
      e = ⟨line, column, units (written body), String.ofList body⟩) ∨
    (⟨line, column + charUnits c, cs⟩ : Cursor).Occurs e := by
  constructor
  · rintro ⟨left, body, right, htext, hne, hbrace, rfl⟩
    cases left with
    | nil =>
      left
      exact ⟨body, right, body?_eq_some_iff.2 ⟨htext, hne, hbrace⟩, rfl⟩
    | cons d left =>
      right
      obtain ⟨rfl, rfl⟩ := List.cons.inj htext
      refine ⟨left, body, right, rfl, hne, hbrace, ?_⟩
      rw [units, Nat.add_assoc]
  · rintro (⟨body, right, hbody, rfl⟩ | ⟨left, body, right, htext, hne, hbrace, rfl⟩)
    · obtain ⟨htext, hne, hbrace⟩ := body?_eq_some_iff.1 hbody
      exact ⟨[], body, right, htext, hne, hbrace, rfl⟩
    · refine ⟨c :: left, body, right, ?_, hne, hbrace, ?_⟩
      · rw [List.cons_append, List.cons_append, ← htext]
      · rw [units, Nat.add_assoc]

theorem column_le_of_occurs (h : k.Occurs e) : k.column ≤ e.startColumn := by
  obtain ⟨left, body, right, -, -, -, rfl⟩ := h
  exact Nat.le_add_right k.column (units left)

theorem startColumn_lt_endColumn (h : k.Occurs e) : e.startColumn < e.endColumn := by
  obtain ⟨left, body, right, -, -, -, rfl⟩ := h
  rw [endColumn, units_written]
  show k.column + units left < k.column + units left + (units body + 3)
  omega

/-- What is written after some text is written in the whole. -/
theorem occurs_of_passed (h : (⟨line, column + units passed, rest⟩ : Cursor).Occurs e) :
    (⟨line, column, passed ++ rest⟩ : Cursor).Occurs e := by
  induction passed generalizing column with
  | nil => exact h
  | cons c passed ih =>
    rw [List.cons_append, occurs_cons]
    right
    apply ih
    rwa [Nat.add_assoc]

/-- What is written in a whole text begins in its first part, or is written in the other. -/
theorem lt_or_occurs_of_append (h : (⟨line, column, passed ++ rest⟩ : Cursor).Occurs e) :
    e.startColumn < column + units passed ∨
      (⟨line, column + units passed, rest⟩ : Cursor).Occurs e := by
  induction passed generalizing column with
  | nil => exact Or.inr h
  | cons c passed ih =>
    rw [List.cons_append, occurs_cons] at h
    rw [units, ← Nat.add_assoc]
    rcases h with ⟨body, right, -, rfl⟩ | h
    · left
      have hpos := charUnits_pos c
      show column < column + charUnits c + units passed
      omega
    · exact ih h

/-- At most one expression is written at a column. -/
theorem occurs_unique (h : k.Occurs e) (h' : k.Occurs e')
    (hcolumn : e.startColumn = e'.startColumn) : e = e' := by
  obtain ⟨line, column, cs⟩ := k
  induction cs generalizing column with
  | nil => exact absurd h not_occurs_nil
  | cons c cs ih =>
    -- one that is written after the first character begins further right
    have hpos := charUnits_pos c
    have hright : ∀ {e : Expression}, (⟨line, column + charUnits c, cs⟩ : Cursor).Occurs e →
        column < e.startColumn := by
      intro e h
      have := column_le_of_occurs h
      simp only at this
      omega
    rcases occurs_cons.1 h with ⟨body, right, hbody, rfl⟩ | hrest
    · rcases occurs_cons.1 h' with ⟨body', right', hbody', rfl⟩ | hrest'
      · rw [hbody, Option.some.injEq, Prod.mk.injEq] at hbody'
        rw [hbody'.1]
      · exact absurd hcolumn (Nat.ne_of_lt (hright hrest'))
    · rcases occurs_cons.1 h' with ⟨body', right', -, rfl⟩ | hrest'
      · exact absurd hcolumn.symm (Nat.ne_of_lt (hright hrest))
      · exact ih (column + charUnits c) hrest hrest'

/-! ## One expression -/

/-- What a search finds: the first expression that is written, and the place where its text ends. -/
structure IsNext (k : Cursor) (e : Expression) (k' : Cursor) : Prop where
  occurs : k.Occurs e
  first : ∀ e', k.Occurs e' → e.startColumn ≤ e'.startColumn
  line : k'.line = k.line
  column : k'.column = e.endColumn
  passed : ∃ passed, k.rest = passed ++ k'.rest ∧ k'.column = k.column + units passed ∧ passed ≠ []

theorem search_eq_none_iff : search line column cs = none ↔
    ∀ e, ¬ (⟨line, column, cs⟩ : Cursor).Occurs e := by
  induction cs generalizing column with
  | nil =>
    constructor
    · intro _ e
      exact not_occurs_nil
    · intro _
      rfl
  | cons c cs ih =>
    rw [search]
    cases hbody : body? (c :: cs) with
    | none =>
      simp only [occurs_cons, hbody]
      rw [ih]
      simp
    | some found =>
      obtain ⟨body, right⟩ := found
      constructor
      · intro h
        simp at h
      · intro h
        exact absurd (occurs_cons.2 (Or.inl ⟨body, right, hbody, rfl⟩)) (h _)

theorem isNext_of_search (h : search line column cs = some (e, k')) :
    IsNext ⟨line, column, cs⟩ e k' := by
  induction cs generalizing column with
  | nil => simp [search] at h
  | cons c cs ih =>
    rw [search] at h
    cases hbody : body? (c :: cs) with
    | none =>
      -- nothing is written at the first character, so all is as for the text after it
      rw [hbody] at h
      have hnext := ih h
      obtain ⟨passed, hrest, hcolumn, hpassed⟩ := hnext.passed
      have hiff : ∀ e, (⟨line, column, c :: cs⟩ : Cursor).Occurs e ↔
          (⟨line, column + charUnits c, cs⟩ : Cursor).Occurs e := by
        intro e
        rw [occurs_cons, hbody]
        simp
      refine ⟨(hiff e).2 hnext.occurs, ?_, hnext.line, hnext.column, c :: passed, ?_, ?_, by simp⟩
      · intro e' h'
        exact hnext.first e' ((hiff e').1 h')
      · simp only at hrest
        rw [List.cons_append, ← hrest]
      · rw [hcolumn, units, ← Nat.add_assoc]
    | some found =>
      obtain ⟨body, right⟩ := found
      obtain ⟨htext, hne, hbrace⟩ := body?_eq_some_iff.1 hbody
      rw [hbody] at h
      simp only [Option.some.injEq, Prod.mk.injEq, ← units_written] at h
      obtain ⟨rfl, rfl⟩ := h
      refine ⟨occurs_cons.2 (Or.inl ⟨body, right, hbody, rfl⟩), ?_, rfl, rfl, written body, htext,
        rfl, by simp [written]⟩
      intro e' h'
      exact column_le_of_occurs h'

theorem next?_eq_none_iff : k.next? = none ↔ ∀ e, ¬ k.Occurs e := search_eq_none_iff

theorem isNext_of_next? (h : k.next? = some (e, k')) : k.IsNext e k' := isNext_of_search h

theorem length_lt_of_next? (h : k.next? = some (e, k')) : k'.rest.length < k.rest.length := by
  obtain ⟨passed, hrest, -, hpassed⟩ := (isNext_of_next? h).passed
  have hpos := List.length_pos_iff.2 hpassed
  rw [hrest, List.length_append]
  omega

/-- An expression that is written after the first one is written where its text ends or later, or
begins inside it. -/
theorem IsNext.occurs_iff (h : k.IsNext e k') (hcolumn : k'.column ≤ e'.startColumn) :
    k.Occurs e' ↔ k'.Occurs e' := by
  obtain ⟨passed, hrest, hpassed, -⟩ := h.passed
  have hline := h.line
  obtain ⟨line, column, cs⟩ := k
  obtain ⟨line', column', cs'⟩ := k'
  simp only at hrest hpassed hline
  subst hrest hpassed hline
  constructor
  · intro hoccurs
    rcases lt_or_occurs_of_append hoccurs with hlt | hrest
    · exact absurd hlt (Nat.not_lt.2 hcolumn)
    · exact hrest
  · intro hoccurs
    exact occurs_of_passed hoccurs

/-! ## All expressions -/

theorem isScan_nil_iff : k.IsScan [] ↔ k.next? = none := by
  rw [next?_eq_none_iff]
  constructor
  · intro h e hoccurs
    obtain ⟨e', hmem, -⟩ := h.complete e hoccurs
    simp at hmem
  · intro h
    refine ⟨by simp, List.Pairwise.nil, ?_⟩
    intro e hoccurs
    exact absurd hoccurs (h e)

/-- The first expression and a scan of what follows it make a scan. -/
theorem IsNext.isScan_cons (h : k.IsNext e k') (hscan : k'.IsScan found) :
    k.IsScan (e :: found) := by
  have hafter : ∀ e' ∈ found, e.endColumn ≤ e'.startColumn := by
    intro e' he'
    rw [← h.column]
    exact column_le_of_occurs (hscan.occurs e' he')
  refine ⟨?_, List.Pairwise.cons hafter hscan.ordered, ?_⟩
  · intro e' he'
    rcases List.mem_cons.1 he' with rfl | he'
    · exact h.occurs
    · exact (h.occurs_iff (h.column ▸ hafter e' he')).2 (hscan.occurs e' he')
  · intro e' hoccurs
    rcases Nat.lt_or_ge e'.startColumn e.endColumn with hinside | hright
    · exact ⟨e, List.mem_cons_self, h.first e' hoccurs, hinside⟩
    · have hrest := (h.occurs_iff (h.column ▸ hright)).1 hoccurs
      obtain ⟨m, hm, hbegins⟩ := hscan.complete e' hrest
      exact ⟨m, List.mem_cons_of_mem e hm, hbegins⟩

/-- A scan begins with the first expression, and goes on with a scan of what follows it. -/
theorem IsNext.exists_of_isScan (h : k.IsNext e k') (hscan : k.IsScan found) :
    ∃ found', found = e :: found' ∧ k'.IsScan found' := by
  obtain ⟨m, hm, hmle, hmlt⟩ := hscan.complete e h.occurs
  -- the expression at which the first one begins is that one, as none is written before it
  have hcolumn : m.startColumn = e.startColumn :=
    Nat.le_antisymm hmle (h.first m (hscan.occurs m hm))
  obtain rfl := occurs_unique (hscan.occurs m hm) h.occurs hcolumn
  cases found with
  | nil => simp at hm
  | cons head found' =>
    obtain ⟨hhead, hordered⟩ := List.pairwise_cons.1 hscan.ordered
    have hfirst : m = head := by
      rcases List.mem_cons.1 hm with rfl | hm'
      · rfl
      · -- else the first expression of the scan would end before the first one on the line
        have hoccurs := hscan.occurs head List.mem_cons_self
        have hle := h.first head hoccurs
        have hlt := startColumn_lt_endColumn hoccurs
        have hend := hhead m hm'
        omega
    subst hfirst
    refine ⟨found', rfl, ?_, hordered, ?_⟩
    · intro e' he'
      have hright := hhead e' he'
      exact (h.occurs_iff (h.column ▸ hright)).1 (hscan.occurs e' (List.mem_cons_of_mem m he'))
    · intro e' hoccurs
      have hright := column_le_of_occurs hoccurs
      obtain ⟨m', hm', hle, hlt⟩ := hscan.complete e' ((h.occurs_iff hright).2 hoccurs)
      rcases List.mem_cons.1 hm' with rfl | hm'
      · rw [h.column] at hright
        omega
      · exact ⟨m', hm', hle, hlt⟩

theorem isScan_iff_of_none (hnone : k.next? = none) : k.IsScan found ↔ found = [] := by
  constructor
  · intro hscan
    rw [List.eq_nil_iff_forall_not_mem]
    intro e he
    exact next?_eq_none_iff.1 hnone e (hscan.occurs e he)
  · rintro rfl
    exact isScan_nil_iff.2 hnone

theorem isScan_iff_of_some (hnext : k.next? = some (e, k')) :
    k.IsScan found ↔ ∃ found', found = e :: found' ∧ k'.IsScan found' := by
  constructor
  · intro hscan
    exact (isNext_of_next? hnext).exists_of_isScan hscan
  · rintro ⟨found', rfl, hscan⟩
    exact (isNext_of_next? hnext).isScan_cons hscan

theorem take_of_none (hnone : k.next? = none) (n : Nat) : take n k = [] := by
  cases n with
  | zero => rfl
  | succ n => rw [take, hnone]

theorem take_succ_of_some (hnext : k.next? = some (e, k')) (n : Nat) :
    take (n + 1) k = e :: take n k' := by
  rw [take, hnext]

/-- The scan of a line is what taking as many expressions as there are characters gives. -/
theorem isScan_iff_take {n : Nat} (hn : k.rest.length ≤ n) :
    k.IsScan found ↔ take n k = found := by
  induction n generalizing k found with
  | zero =>
    cases hnext : k.next? with
    | none => rw [isScan_iff_of_none hnext, take_of_none hnext, eq_comm]
    | some next =>
      -- an expression would take up characters
      have hlt := length_lt_of_next? hnext
      omega
  | succ n ih =>
    cases hnext : k.next? with
    | none => rw [isScan_iff_of_none hnext, take_of_none hnext, eq_comm]
    | some next =>
      obtain ⟨e, k'⟩ := next
      have hlt := length_lt_of_next? hnext
      rw [isScan_iff_of_some hnext, take_succ_of_some hnext]
      constructor
      · rintro ⟨found', rfl, hscan⟩
        rw [(ih (by omega)).1 hscan]
      · rintro rfl
        exact ⟨take n k', rfl, (ih (by omega)).2 rfl⟩

theorem isScan_iff_all : k.IsScan found ↔ k.all = found := isScan_iff_take (Nat.le_refl _)

theorem isScan_all (k : Cursor) : k.IsScan k.all := isScan_iff_all.2 rfl

theorem all_of_some (hnext : k.next? = some (e, k')) : k.all = e :: k'.all :=
  isScan_iff_all.1 ((isNext_of_next? hnext).isScan_cons (isScan_all k'))

/-! ## Some expressions first -/

theorem skip_of_none (hnone : k.next? = none) (n : Nat) : skip n k = k := by
  cases n with
  | zero => rfl
  | succ n => rw [skip, hnone]

theorem skip_succ_of_some (hnext : k.next? = some (e, k')) (n : Nat) :
    skip (n + 1) k = skip n k' := by
  rw [skip, hnext]

/-- Some expressions, and all from the place after them, are all expressions. -/
theorem take_append_all (n : Nat) (k : Cursor) : take n k ++ (skip n k).all = k.all := by
  induction n generalizing k with
  | zero => rfl
  | succ n ih =>
    cases hnext : k.next? with
    | none => rw [take_of_none hnext, skip_of_none hnext, List.nil_append]
    | some next =>
      obtain ⟨e, k'⟩ := next
      rw [take_succ_of_some hnext, skip_succ_of_some hnext, all_of_some hnext, List.cons_append, ih]

/-- No expression comes after as many as there are. -/
theorem next?_skip_of_length_le {n : Nat} (h : k.all.length ≤ n) : (skip n k).next? = none := by
  induction n generalizing k with
  | zero =>
    rw [skip, ← isScan_nil_iff, isScan_iff_all]
    exact List.eq_nil_of_length_eq_zero (Nat.le_zero.1 h)
  | succ n ih =>
    cases hnext : k.next? with
    | none => rw [skip_of_none hnext, hnext]
    | some next =>
      obtain ⟨e, k'⟩ := next
      rw [all_of_some hnext, List.length_cons] at h
      rw [skip_succ_of_some hnext]
      exact ih (by omega)

theorem length_take_le (n : Nat) (k : Cursor) : (take n k).length ≤ n := by
  induction n generalizing k with
  | zero => exact Nat.le_refl 0
  | succ n ih =>
    cases hnext : k.next? with
    | none =>
      rw [take_of_none hnext]
      exact Nat.zero_le _
    | some next =>
      rw [take_succ_of_some hnext, List.length_cons]
      exact Nat.succ_le_succ (ih next.2)

end Cursor

/-- **The expressions of a line are exactly the ones written there from left to right.** They are
the only scan of the line. As many calls as the line has characters reach the last of them, however
many were asked for one by one before the others, and after the last one there is none. -/
theorem all_eq_iff_isScan (line : Nat) (text : Line) :
    (∀ found, (Cursor.start line text).all = found ↔ (Cursor.start line text).IsScan found) ∧
    (∀ n, Cursor.take n (Cursor.start line text) ++ ((Cursor.start line text).skip n).all =
      (Cursor.start line text).all) ∧
    (∀ n more, (((Cursor.start line text).skip n).skip
      (((Cursor.start line text).skip n).all.length + more)).next? = none) ∧
    ∀ more, ((Cursor.start line text).skip (text.length + more)).next? = none := by
  refine ⟨?_, ?_, ?_, ?_⟩
  · intro found
    exact Cursor.isScan_iff_all.symm
  · intro n
    exact Cursor.take_append_all n _
  · intro n more
    exact Cursor.next?_skip_of_length_le (Nat.le_add_right _ more)
  · intro more
    apply Cursor.next?_skip_of_length_le
    exact Nat.le_trans (Cursor.length_take_le text.length _) (Nat.le_add_right _ more)

/-- A body may hold further openings, empty braces hold none, and columns count UTF-16 units. -/
example : (Cursor.start 0 "é$\x7b\x7d𝄞$\x7ba$\x7bb\x7d$$\x7bc".toList).all =
    [⟨0, 6, 7, "a$\x7bb"⟩] := by decide

end ResourceGraph.Expression
