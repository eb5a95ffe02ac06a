import ResourceGraph.Proofs.Text.FirstLine

/-!
# Sources with another layout

A displacement gives the lines of a source other numbers and moves what is on them to the right. One
source is another one displaced (`Source.Displaces`) if it has the same entries at their new places,
and the same values after them. This follows from the lines alone (`Relaid.displaces`): the lines
that carry structure are moved, each to the place of its new number, and all others carry none.

Two changes of a text displace it: lines without structure are put between its lines
(`displaces_of_insertLines`), and all lines but the blank ones are indented by the same number of
spaces (`displaces_of_indentBy`).
-/

set_option autoImplicit false

namespace ResourceGraph

open Text

/-- New numbers for the lines of a source, and a number of columns by which all that is on them moves
to the right. -/
structure Displacement where
  line : Nat → Nat
  columns : Nat

namespace Displacement

/-- The place to which a position moves. -/
def position (d : Displacement) (p : Position) : Position := ⟨d.line p.line, p.character + d.columns⟩

/-- An entry at the place to which it moves. -/
def entry (d : Displacement) (e : Entry) : Entry := ⟨d.line e.line, e.indent + d.columns, e.content⟩

end Displacement

/-- Whether a source is another one displaced: the entries are the same at their new places, the line
after the last one is where it moves to, and the value after any column of an entry is the same. -/
structure Source.Displaces (s : Source) (d : Displacement) (s' : Source) : Prop where
  entries : s'.entries = s.entries.map d.entry
  lineCount : s'.lineCount = d.line s.lineCount
  valueAt : ∀ e ∈ s.entries, ∀ column ≤ e.indent + units e.content,
    s'.valueAt? (d.position ⟨e.line, column⟩) =
      (s.valueAt? ⟨e.line, column⟩).map fun (start, value) => (d.position start, value)

namespace Line

/-- A line without the carriage returns at its end, of which a line break takes up the last one. -/
def bare (line : Line) : Line := dropTail isLineEnd line

/-- Whether a line is another one moved to the right by a number of spaces, carriage returns at their
ends aside. -/
def IsMoved (n : Nat) (line line' : Line) : Prop := line'.bare = List.replicate n ' ' ++ line.bare

/-- What stands on a line from a column on: the number of blanks before it, and its text without a
comment and white space at the end. -/
def scalar (column : Nat) (line : Line) : Nat × List Char :=
  let rest := fromColumn column line
  (units (rest.takeWhile isIndent), trimEnd (cutComment (rest.dropWhile isIndent)))

end Line

theorem Source.valueAt?_eq (s : Source) (p : Position) :
    s.valueAt? p = (s.line? p.line).map fun line =>
      (p.advance (line.scalar p.character).1, (line.scalar p.character).2) := rfl

/-! ## Line ends -/

namespace Text

theorem isBlank_of_isLineEnd {c : Char} (h : isLineEnd c = true) : isBlank c = true := by
  simp only [isLineEnd, Bool.or_eq_true, beq_iff_eq] at h
  rcases h with rfl | rfl <;> decide

theorem isIndent_of_isLineEnd {c : Char} (h : isLineEnd c = true) : isIndent c = false := by
  simp only [isLineEnd, Bool.or_eq_true, beq_iff_eq] at h
  rcases h with rfl | rfl <;> decide

theorem takeWhile_append_of_neg {p : Char → Bool} {tail : List Char} (h : ∀ c ∈ tail, p c = false)
    (cs : List Char) : (cs ++ tail).takeWhile p = cs.takeWhile p := by
  induction cs with
  | nil =>
    cases tail with
    | nil => rfl
    | cons c tail => simp [h c List.mem_cons_self]
  | cons c cs ih => simp only [List.cons_append, List.takeWhile_cons, ih]

theorem dropWhile_append_of_neg {p : Char → Bool} {tail : List Char} (h : ∀ c ∈ tail, p c = false)
    (cs : List Char) : (cs ++ tail).dropWhile p = cs.dropWhile p ++ tail := by
  induction cs with
  | nil =>
    cases tail with
    | nil => rfl
    | cons c tail => simp [h c List.mem_cons_self]
  | cons c cs ih =>
    simp only [List.cons_append, List.dropWhile_cons, ih]
    split <;> rfl

theorem trim_append_blank (cs : List Char) {gap : List Char} (h : ∀ c ∈ gap, isBlank c = true) :
    trim (cs ++ gap) = trim cs := by
  have hgap : gap.dropWhile isBlank = [] := trimStart_eq_nil_iff.2 h
  rw [trim, trim, trimStart, trimStart, List.dropWhile_append]
  split
  · rename_i hempty
    rw [List.isEmpty_iff.1 hempty, hgap]
  · exact trimEnd_append_blank _ h

theorem fromColumn_append {n : Nat} {cs : List Char} (h : n ≤ units cs) (tail : List Char) :
    fromColumn n (cs ++ tail) = fromColumn n cs ++ tail := by
  induction cs generalizing n with
  | nil =>
    obtain rfl : n = 0 := Nat.le_zero.1 h
    cases tail <;> rfl
  | cons c cs ih =>
    rw [units] at h
    rw [List.cons_append, fromColumn, fromColumn, ih (by omega)]
    split <;> rfl

theorem cutComment_cons {c : Char} {cs : List Char} (h : c = ' ' → cs.head? ≠ some '#') :
    cutComment (c :: cs) = c :: cutComment cs := by
  rw [cutComment]
  rintro rest rfl rfl
  exact h rfl rfl

/-- Line ends begin no comment, and they are dropped where no comment drops them. -/
theorem trimEnd_cutComment_append {ends : List Char} (h : ∀ c ∈ ends, isLineEnd c = true)
    (cs : List Char) : trimEnd (cutComment (cs ++ ends)) = trimEnd (cutComment cs) := by
  induction cs using cutComment.induct with
  | case1 =>
    have hblank : ∀ c ∈ cutComment ends, isBlank c = true :=
      fun c hc => isBlank_of_isLineEnd (h c ((cutComment_sublist ends).subset hc))
    exact trimEnd_append_blank [] hblank
  | case2 rest => rfl
  | case3 c cs hother ih =>
    have hcut : c = ' ' → cs.head? ≠ some '#' := by
      rintro rfl hhead
      obtain ⟨rest, rfl⟩ := List.head?_eq_some_iff.1 hhead
      exact hother rest rfl rfl
    -- a number sign after the space would be a line end
    have hcutEnds : c = ' ' → (cs ++ ends).head? ≠ some '#' := by
      intro hc hhead
      cases cs with
      | nil =>
        have hend := h '#' (List.mem_of_head? hhead)
        exact absurd hend (by decide)
      | cons d cs => exact hcut hc hhead
    rw [List.cons_append, cutComment_cons hcut, cutComment_cons hcutEnds]
    simp only [trimEnd, dropTail] at ih ⊢
    rw [ih]

end Text

/-! ## Moved lines -/

namespace Line

variable {n m column : Nat} {line line' : Line}

theorem exists_bare_append (line : Line) :
    ∃ ends, line = line.bare ++ ends ∧ ∀ c ∈ ends, isLineEnd c = true :=
  dropTail_append isLineEnd line

theorem trim_bare (line : Line) : trim line.bare = trim line := by
  obtain ⟨ends, hline, hends⟩ := exists_bare_append line
  have htrim := trim_append_blank line.bare fun c hc => isBlank_of_isLineEnd (hends c hc)
  rw [← hline] at htrim
  exact htrim.symm

theorem indentation_bare (line : Line) : line.bare.indentation = line.indentation := by
  obtain ⟨ends, hline, hends⟩ := exists_bare_append line
  have htake := takeWhile_append_of_neg (fun c hc => isIndent_of_isLineEnd (hends c hc)) line.bare
  rw [← hline] at htake
  rw [indentation, indentation, htake]

theorem scalar_bare (h : column ≤ units line.bare) : line.bare.scalar column = line.scalar column := by
  obtain ⟨ends, hline, hends⟩ := exists_bare_append line
  have hindent : ∀ c ∈ ends, isIndent c = false := fun c hc => isIndent_of_isLineEnd (hends c hc)
  have hrest := fromColumn_append h ends
  rw [← hline] at hrest
  simp only [scalar, hrest, takeWhile_append_of_neg hindent, dropWhile_append_of_neg hindent,
    trimEnd_cutComment_append hends]

theorem fromColumn_replicate_append (n column : Nat) (line : Line) :
    fromColumn (column + n) (List.replicate n ' ' ++ line) = fromColumn column line := by
  induction n with
  | zero => rfl
  | succ n ih =>
    have hne : column + (n + 1) ≠ 0 := Nat.succ_ne_zero (column + n)
    have hspace : column + (n + 1) - charUnits ' ' = column + n := rfl
    rw [List.replicate_succ, List.cons_append, fromColumn, if_neg hne, hspace, ih]

/-- A moved line holds the same entry, further right. -/
theorem IsMoved.ofLine?_eq (h : IsMoved n line line') (i m : Nat) :
    Entry.ofLine? m line' =
      (Entry.ofLine? i line).map fun e => ⟨m, e.indent + n, e.content⟩ := by
  have htrim : trim line' = trim line := by
    rw [← trim_bare line', h, trim_replicate_append, trim_bare]
  have hindent : line'.indentation = line.indentation + n := by
    rw [← indentation_bare line', h, indentation_replicate_append, indentation_bare]
  simp only [Entry.ofLine?, htrim, hindent]
  split <;> rfl

/-- From a column of an entry on, a moved line holds the same value. -/
theorem IsMoved.scalar_eq (h : IsMoved n line line') {e : Entry}
    (he : Entry.ofLine? m line = some e) (hcolumn : column ≤ e.indent + units e.content) :
    line'.scalar (column + n) = line.scalar column := by
  -- the entry is that of the line without carriage returns, and is no wider
  have hbare : Entry.ofLine? m line.bare = some e := by
    simpa only [Entry.ofLine?, trim_bare, indentation_bare] using he
  have hwidth : column ≤ units line.bare := Nat.le_trans hcolumn (Entry.indent_add_units_le hbare)
  have hwidth' : column + n ≤ units line'.bare := by
    rw [h, units_append, units_replicate_space]
    omega
  calc line'.scalar (column + n)
      = line'.bare.scalar (column + n) := (scalar_bare hwidth').symm
    _ = line.bare.scalar column := by
      rw [h]
      simp only [scalar, fromColumn_replicate_append]
    _ = line.scalar column := scalar_bare hwidth

end Line

/-! ## Lines with another layout -/

/-- Whether lines, numbered from one number on, are others displaced, numbered from another: every
line that carries structure is moved, to the line with its new number, and between these are only
lines that carry none. -/
inductive Relaid (d : Displacement) : Nat → List Line → Nat → List Line → Prop
  | nil {n m : Nat} : d.line n = m → Relaid d n [] m []
  | inserted {n m : Nat} {lines lines' : List Line} {line' : Line} :
    Line.isIgnorable (trim line') = true → Relaid d n lines (m + 1) lines' →
    Relaid d n lines m (line' :: lines')
  | ignored {n m : Nat} {lines lines' : List Line} {line line' : Line} : d.line n = m →
    Line.isIgnorable (trim line) = true → Line.isIgnorable (trim line') = true →
    Relaid d (n + 1) lines (m + 1) lines' → Relaid d n (line :: lines) m (line' :: lines')
  | moved {n m : Nat} {lines lines' : List Line} {line line' : Line} : d.line n = m →
    Line.IsMoved d.columns line line' → Relaid d (n + 1) lines (m + 1) lines' →
    Relaid d n (line :: lines) m (line' :: lines')

namespace Relaid

variable {d : Displacement} {n m i : Nat} {lines lines' : List Line} {line : Line}

theorem ofLines_cons (n : Nat) (line : Line) (lines : List Line) :
    Entry.ofLines n (line :: lines) =
      (Entry.ofLine? n line).toList ++ Entry.ofLines (n + 1) lines := by
  rw [Entry.ofLines]
  cases Entry.ofLine? n line <;> rfl

theorem entries (h : Relaid d n lines m lines') :
    Entry.ofLines m lines' = (Entry.ofLines n lines).map d.entry := by
  induction h with
  | nil => rfl
  | inserted hignorable _ ih =>
    rw [ofLines_cons, Entry.ofLine?_eq_none_iff.2 hignorable, ih]
    rfl
  | ignored hline hignorable hignorable' _ ih =>
    rw [ofLines_cons, ofLines_cons, Entry.ofLine?_eq_none_iff.2 hignorable,
      Entry.ofLine?_eq_none_iff.2 hignorable', ih]
    rfl
  | @moved n m lines lines' line line' hline hmoved _ ih =>
    rw [ofLines_cons, ofLines_cons, ih, List.map_append, hmoved.ofLine?_eq n m]
    cases he : Entry.ofLine? n line with
    | none => rfl
    | some e =>
      rw [Option.map_some, Option.toList_some, Option.toList_some, List.map_singleton,
        Displacement.entry, Entry.line_of_ofLine? he, hline]

/-- The line after the last one is where it moves to. -/
theorem length (h : Relaid d n lines m lines') : m + lines'.length = d.line (n + lines.length) := by
  induction h with
  | nil hline => exact hline.symm
  | inserted _ _ ih =>
    rw [← ih, List.length_cons]
    omega
  | ignored _ _ _ _ ih =>
    rw [List.length_cons, List.length_cons, Nat.add_comm _ 1, Nat.add_comm _ 1, ← Nat.add_assoc,
      ← Nat.add_assoc, ih]
  | moved _ _ _ ih =>
    rw [List.length_cons, List.length_cons, Nat.add_comm _ 1, Nat.add_comm _ 1, ← Nat.add_assoc,
      ← Nat.add_assoc, ih]

/-- A line that carries structure is moved to the line with its new number. -/
theorem exists_moved (h : Relaid d n lines m lines') (hi : lines[i]? = some line)
    (hkeep : Line.isIgnorable (trim line) = false) : ∃ k line', d.line (n + i) = m + k ∧
      lines'[k]? = some line' ∧ line.IsMoved d.columns line' := by
  induction h generalizing i with
  | nil => exact absurd hi.symm (Option.some_ne_none line)
  | inserted hignorable _ ih =>
    obtain ⟨k, line', hline, hk, hmoved⟩ := ih hi
    exact ⟨k + 1, line', by omega, hk, hmoved⟩
  | ignored hfirst hignorable hignorable' _ ih =>
    cases i with
    | zero =>
      obtain rfl := Option.some.inj hi
      rw [hignorable] at hkeep
      exact absurd hkeep (by decide)
    | succ i =>
      obtain ⟨k, line', hline, hk, hmoved⟩ := ih hi
      exact ⟨k + 1, line', by rw [← Nat.add_assoc, Nat.add_right_comm, hline]; omega, hk, hmoved⟩
  | moved hfirst hmoved _ ih =>
    cases i with
    | zero =>
      obtain rfl := Option.some.inj hi
      exact ⟨0, _, hfirst, rfl, hmoved⟩
    | succ i =>
      obtain ⟨k, line', hline, hk, hmoved⟩ := ih hi
      exact ⟨k + 1, line', by rw [← Nat.add_assoc, Nat.add_right_comm, hline]; omega, hk, hmoved⟩

/-- Sources whose lines are displaced are displaced. -/
theorem displaces {s s' : Source} (h : Relaid d 0 s.lines 0 s'.lines) : s.Displaces d s' := by
  refine ⟨?_, ?_, ?_⟩
  · rw [s.entries_eq, s'.entries_eq]
    exact h.entries
  · have hlength := h.length
    rw [Nat.zero_add, Nat.zero_add] at hlength
    exact hlength
  · intro e he column hcolumn
    rw [s.entries_eq] at he
    obtain ⟨i, line, hi, hentry⟩ := Entry.mem_ofLines he
    -- an entry stands on a line that carries structure, so that line is moved
    have hkeep : Line.isIgnorable (trim line) = false := by
      rw [← Bool.not_eq_true]
      intro hignorable
      rw [Entry.ofLine?_eq_none_iff.2 hignorable] at hentry
      exact absurd hentry.symm (Option.some_ne_none e)
    obtain ⟨k, line', hline, hk, hmoved⟩ := h.exists_moved hi hkeep
    have hnumber : e.line = i := (Entry.line_of_ofLine? hentry).trans (Nat.zero_add i)
    rw [Nat.zero_add, Nat.zero_add] at hline
    have hat : s.line? e.line = some line := by
      rw [hnumber]
      exact hi
    have hat' : s'.line? (d.line e.line) = some line' := by
      rw [hnumber, hline]
      exact hk
    rw [Source.valueAt?_eq, Source.valueAt?_eq, hat]
    show (s'.line? (d.line e.line)).map _ = _
    rw [hat', Option.map_some, Option.map_some, Option.map_some]
    show some (_, _) = some (_, _)
    rw [Displacement.position, hmoved.scalar_eq hentry hcolumn]
    simp only [Displacement.position, Position.advance, Nat.add_right_comm]

end Relaid

/-! ## Lines between others -/

/-- Lines with others put between them: `gaps i` before the line with the number `i`, and after all
lines those for the number that follows. -/
def insertLines (gaps : Nat → List Line) : Nat → List Line → List Line
  | n, [] => gaps n
  | n, line :: rest => gaps n ++ line :: insertLines gaps (n + 1) rest

/-- The number of a line after all the lines that are put before it. -/
def renumber (gaps : Nat → List Line) (n : Nat) : Nat :=
  n + ((List.range (n + 1)).flatMap gaps).length

section Insertion

variable {gaps : Nat → List Line} {n m : Nat} {lines lines' extra : List Line}

theorem renumber_zero (gaps : Nat → List Line) : 0 + (gaps 0).length = renumber gaps 0 := by
  simp [renumber]

theorem renumber_succ (gaps : Nat → List Line) (n : Nat) :
    renumber gaps (n + 1) = renumber gaps n + 1 + (gaps (n + 1)).length := by
  rw [renumber, List.range_succ, List.flatMap_append, List.length_append, List.flatMap_singleton,
    renumber]
  omega

theorem exists_number_insertLines {i : Nat} {line : Line}
    (hm : m + (gaps n).length = renumber gaps n) (hi : lines[i]? = some line) :
    ∃ k, m + k = renumber gaps (n + i) ∧ (insertLines gaps n lines)[k]? = some line := by
  induction lines generalizing n m i with
  | nil => exact absurd hi.symm (Option.some_ne_none line)
  | cons first rest ih =>
    cases i with
    | zero =>
      -- only the lines of its gap stand before the first line
      exact ⟨(gaps n).length, hm, by simpa [insertLines] using hi⟩
    | succ i =>
      obtain ⟨k, hk, hline⟩ := ih (renumber_succ gaps n).symm hi
      refine ⟨(gaps n).length + (k + 1), ?_, ?_⟩
      · rw [← Nat.add_assoc, hm, Nat.add_comm k 1, ← Nat.add_assoc, hk, Nat.add_right_comm,
          Nat.add_assoc]
      · rw [insertLines, List.getElem?_append_right (Nat.le_add_right _ _), Nat.add_sub_cancel_left]
        exact hline

/-- A line stands under its number among the lines that are put around it. -/
theorem getElem?_insertLines {i : Nat} (hi : i < lines.length) :
    (insertLines gaps 0 lines)[renumber gaps i]? = lines[i]? := by
  obtain ⟨k, hk, hline⟩ := exists_number_insertLines (renumber_zero gaps)
    (List.getElem?_eq_getElem hi)
  rw [Nat.zero_add, Nat.zero_add] at hk
  rw [← hk, hline, List.getElem?_eq_getElem hi]

theorem Relaid.append_inserted {d : Displacement}
    (hextra : ∀ line ∈ extra, Line.isIgnorable (trim line) = true)
    (h : Relaid d n lines (m + extra.length) lines') : Relaid d n lines m (extra ++ lines') := by
  induction extra generalizing m with
  | nil => exact h
  | cons line extra ih =>
    obtain ⟨hline, hextra⟩ := List.forall_mem_cons.1 hextra
    rw [List.length_cons, Nat.add_comm _ 1, ← Nat.add_assoc] at h
    exact .inserted hline (ih hextra h)

theorem isIgnorable_of_map_bare {others : List Line}
    (hothers : ∀ line ∈ others, Line.isIgnorable (trim line) = true)
    (h : extra.map Line.bare = others.map Line.bare) :
    ∀ line ∈ extra, Line.isIgnorable (trim line) = true := by
  intro line hline
  have hmem : line.bare ∈ others.map Line.bare := h ▸ List.mem_map_of_mem hline
  obtain ⟨other, hother, hbare⟩ := List.mem_map.1 hmem
  rw [← Line.trim_bare line, ← hbare, Line.trim_bare]
  exact hothers other hother

theorem relaid_insertLines (hgaps : ∀ i, ∀ line ∈ gaps i, Line.isIgnorable (trim line) = true)
    (hm : m + (gaps n).length = renumber gaps n)
    (h : lines'.map Line.bare = (insertLines gaps n lines).map Line.bare) :
    Relaid ⟨renumber gaps, 0⟩ n lines m lines' := by
  induction lines generalizing n m lines' with
  | nil =>
    rw [insertLines] at h
    have hlength : lines'.length = (gaps n).length := by
      simpa only [List.length_map] using congrArg List.length h
    have hextra := isIgnorable_of_map_bare (hgaps n) h
    rw [← List.append_nil lines']
    exact Relaid.append_inserted hextra (.nil (by rw [hlength, hm]))
  | cons line rest ih =>
    rw [insertLines, List.map_append, List.map_cons] at h
    -- the lines up to the one that is kept are those of its gap
    obtain ⟨extra, below, rfl, hextra, hbelow⟩ := List.map_eq_append_iff.1 h
    obtain ⟨line', rest', rfl, hline, hrest⟩ := List.map_eq_cons_iff.1 hbelow
    have hlength : extra.length = (gaps n).length := by
      simpa only [List.length_map] using congrArg List.length hextra
    have hnumber : m + extra.length = renumber gaps n := by rw [hlength, hm]
    refine Relaid.append_inserted (isIgnorable_of_map_bare (hgaps n) hextra)
      (.moved hnumber.symm hline (ih ?_ hrest))
    rw [hnumber, renumber_succ]

end Insertion

/-- Lines without structure that are put between those of a source displace it by their number. -/
theorem displaces_of_insertLines {s s' : Source} {gaps : Nat → List Line}
    (hgaps : ∀ i, ∀ line ∈ gaps i, Line.isIgnorable (trim line) = true)
    (h : s'.lines.map Line.bare = (insertLines gaps 0 s.lines).map Line.bare) :
    s.Displaces ⟨renumber gaps, 0⟩ s' := by
  exact Relaid.displaces (relaid_insertLines hgaps (renumber_zero gaps) h)

/-- A line stands under its new number in a source with lines between its own. -/
theorem line?_of_insertLines {s s' : Source} {gaps : Nat → List Line} {i : Nat}
    (h : s'.lines.map Line.bare = (insertLines gaps 0 s.lines).map Line.bare)
    (hi : i < s.lineCount) :
    (s'.line? (renumber gaps i)).map Line.bare = (s.line? i).map Line.bare := by
  show s'.lines[renumber gaps i]?.map Line.bare = s.lines[i]?.map Line.bare
  rw [← List.getElem?_map, h, List.getElem?_map, getElem?_insertLines hi]

/-! ## Indented lines -/

/-- A line after a number of spaces, unless it is blank. -/
def Line.indentBy (n : Nat) (line : Line) : Line :=
  if line.all isBlank then line else List.replicate n ' ' ++ line

theorem Line.isMoved_replicate_append (n : Nat) (line : Line) :
    line.IsMoved n (List.replicate n ' ' ++ line) := by
  induction n with
  | zero => rfl
  | succ n ih =>
    have hspace : isLineEnd ' ' = false := by decide
    have hcons := dropTail_append_cons hspace [] (List.replicate n ' ' ++ line)
    rw [IsMoved, bare, List.replicate_succ, List.cons_append]
    exact hcons.trans (congrArg (' ' :: ·) ih)

theorem trim_of_all_isBlank {line : Line} (h : line.all isBlank = true) : trim line = [] :=
  trim_append_blank [] (List.all_eq_true.1 h)

theorem relaid_map_indentBy (columns n : Nat) (lines : List Line) :
    Relaid ⟨id, columns⟩ n lines n (lines.map (Line.indentBy columns)) := by
  induction lines generalizing n with
  | nil => exact .nil rfl
  | cons line lines ih =>
    rw [List.map_cons, Line.indentBy]
    split
    · rename_i hblank
      have hignorable : Line.isIgnorable (trim line) = true := by
        rw [trim_of_all_isBlank hblank]
        rfl
      exact .ignored rfl hignorable hignorable (ih (n + 1))
    · exact .moved rfl (Line.isMoved_replicate_append columns line) (ih (n + 1))

/-- Spaces before every line that is not blank displace a source to the right. -/
theorem displaces_of_indentBy {s s' : Source} {n : Nat}
    (h : s'.lines = s.lines.map (Line.indentBy n)) : s.Displaces ⟨id, n⟩ s' := by
  apply Relaid.displaces
  rw [h]
  exact relaid_map_indentBy n 0 s.lines

end ResourceGraph
