import ResourceGraph.Text.Source

/-!
# Solid lines

A solid line begins and ends with characters that are not white space, and does not begin a comment.
Indented by spaces, it is read back as it is: its entry has the number of the spaces as indentation
and the line itself as content (`ofLine?_indented`). A text whose lines all are solid under their
indentation has exactly these lines (`splitLines_flatMap`).
-/

set_option autoImplicit false

namespace ResourceGraph

open Text

namespace Line

/-- Whether a line begins and ends with characters that are not white space, and does not begin with
a hash. -/
def isSolid (line : Line) : Bool :=
  line.head?.any (fun c => !isBlank c && c != '#') && line.getLast?.any fun c => !isBlank c

theorem isSolid_iff {line : Line} : line.isSolid = true ↔
    (∃ c rest, line = c :: rest ∧ isBlank c = false ∧ c ≠ '#') ∧
      ∃ before c, line = before ++ [c] ∧ isBlank c = false := by
  constructor
  · intro h
    simp only [isSolid, Bool.and_eq_true, Option.any_eq_true] at h
    obtain ⟨⟨c, hc, hfirst⟩, d, hd, hlast⟩ := h
    obtain ⟨rest, rfl⟩ := List.head?_eq_some_iff.1 hc
    obtain ⟨before, hbefore⟩ := List.getLast?_eq_some_iff.1 hd
    simp only [Bool.not_eq_true', bne_iff_ne] at hfirst hlast
    exact ⟨⟨c, rest, rfl, hfirst.1, hfirst.2⟩, before, d, hbefore, hlast⟩
  · rintro ⟨⟨c, rest, rfl, hblank, hhash⟩, before, d, hline, hlast⟩
    have hd : (c :: rest).getLast? = some d := by rw [hline]; simp
    simp [isSolid, hblank, hhash, hd, hlast]

end Line

namespace Text

theorem isBlank_space : isBlank ' ' = true := by decide

theorem isBlank_of_isIndent {c : Char} (h : isIndent c = true) : isBlank c = true := by
  simp only [isIndent, Bool.or_eq_true, beq_iff_eq] at h
  rcases h with rfl | rfl <;> decide

theorem isIndent_of_not_isBlank {c : Char} (h : isBlank c = false) : isIndent c = false := by
  cases hc : isIndent c with
  | false => rfl
  | true => rw [isBlank_of_isIndent hc] at h; simp at h

theorem dropTail_append_of_pos {α : Type} {p : α → Bool} {tail : List α}
    (h : ∀ a ∈ tail, p a = true) (as : List α) : dropTail p (as ++ tail) = dropTail p as := by
  have htail : dropTail p tail = [] := by
    induction tail with
    | nil => rfl
    | cons a tail ih =>
      obtain ⟨ha, htail⟩ := List.forall_mem_cons.1 h
      rw [dropTail, ih htail, if_pos ha]
  induction as with
  | nil => exact htail
  | cons a as ih => rw [List.cons_append, dropTail, dropTail, ih]

theorem dropTail_append_cons {α : Type} {p : α → Bool} {a : α} (h : p a = false)
    (before after : List α) :
    dropTail p (before ++ a :: after) = before ++ a :: dropTail p after := by
  induction before with
  | nil =>
    rw [List.nil_append, dropTail]
    cases dropTail p after <;> simp [h]
  | cons b before ih =>
    rw [List.cons_append, dropTail, ih]
    cases before <;> rfl

theorem dropTail_append_singleton {α : Type} {p : α → Bool} (as : List α) {a : α}
    (h : p a = false) : dropTail p (as ++ [a]) = as ++ [a] :=
  dropTail_append_cons h as []

theorem trimEnd_append_blank (cs : List Char) {gap : List Char} (h : ∀ c ∈ gap, isBlank c = true) :
    trimEnd (cs ++ gap) = trimEnd cs :=
  dropTail_append_of_pos h cs

theorem trimStart_eq_nil_iff {cs : List Char} : trimStart cs = [] ↔ ∀ c ∈ cs, isBlank c = true := by
  induction cs with
  | nil => simp [trimStart]
  | cons c cs ih =>
    rw [trimStart] at ih
    cases hc : isBlank c with
    | true => simp [trimStart, hc, ih]
    | false => simp [trimStart, hc]

theorem trimEnd_of_isSolid {line : Line} (h : line.isSolid = true) : trimEnd line = line := by
  obtain ⟨-, before, c, rfl, hc⟩ := Line.isSolid_iff.1 h
  exact dropTail_append_singleton before hc

theorem forall_mem_replicate_space {p : Char → Bool} (hp : p ' ' = true) (n : Nat) :
    ∀ c ∈ List.replicate n ' ', p c = true := by
  intro c hc
  rw [List.eq_of_mem_replicate hc]
  exact hp

theorem trim_replicate_append (n : Nat) (line : Line) :
    trim (List.replicate n ' ' ++ line) = trim line := by
  rw [trim, trim, trimStart, trimStart,
    List.dropWhile_append_of_pos (forall_mem_replicate_space isBlank_space n)]

/-- The spaces before a solid line are all that trimming drops. -/
theorem trim_indented {line : Line} (h : line.isSolid = true) (n : Nat) :
    trim (List.replicate n ' ' ++ line) = line := by
  obtain ⟨c, rest, hline, hc, -⟩ := (Line.isSolid_iff.1 h).1
  have hstart : trimStart line = line := by
    rw [trimStart, hline, List.dropWhile_cons_of_neg (by simp [hc])]
  rw [trim_replicate_append, trim, hstart, trimEnd_of_isSolid h]

theorem units_replicate_space (n : Nat) : units (List.replicate n ' ') = n := by
  induction n with
  | zero => rfl
  | succ n ih =>
    have hspace : charUnits ' ' = 1 := by decide
    rw [List.replicate_succ, units, ih, hspace]
    omega

theorem indentation_replicate_append (n : Nat) (line : Line) :
    Line.indentation (List.replicate n ' ' ++ line) = Line.indentation line + n := by
  rw [Line.indentation, List.takeWhile_append_of_pos (forall_mem_replicate_space (by decide) n),
    units_append, units_replicate_space, Nat.add_comm, Line.indentation]

theorem indentation_indented {line : Line} (h : line.isSolid = true) (n : Nat) :
    Line.indentation (List.replicate n ' ' ++ line) = n := by
  obtain ⟨c, rest, hline, hc, -⟩ := (Line.isSolid_iff.1 h).1
  have hnone : Line.indentation line = 0 := by
    rw [Line.indentation, hline, List.takeWhile_cons_of_neg (by simp [isIndent_of_not_isBlank hc])]
    rfl
  rw [indentation_replicate_append, hnone, Nat.zero_add]

end Text

/-- A solid line under its indentation is an entry. -/
theorem Entry.ofLine?_indented {line : Line} (h : line.isSolid = true) (n indent : Nat) :
    Entry.ofLine? n (List.replicate indent ' ' ++ line) = some ⟨n, indent, line⟩ := by
  obtain ⟨c, rest, hline, -, hc⟩ := (Line.isSolid_iff.1 h).1
  have hkeep : line.isIgnorable = false := by simpa [hline, Line.isIgnorable] using hc
  simp only [Entry.ofLine?, trim_indented h, indentation_indented h, hkeep]
  simp

/-! ## Lines of a text -/

namespace Text

theorem rawLines_append_feed {line : List Char} (h : '\n' ∉ line) (rest : List Char) :
    rawLines (line ++ '\n' :: rest) = (line ++ ['\n']) :: rawLines rest := by
  induction line with
  | nil => simp [rawLines]
  | cons c line ih =>
    simp only [List.mem_cons, not_or] at h
    have hc : c ≠ '\n' := by
      rintro rfl
      exact h.1 rfl
    simp [rawLines, hc, ih h.2]

theorem stripBreak_append_feed {before : List Char} {c : Char} (hc : isBlank c = false) :
    stripBreak (before ++ [c] ++ ['\n']) = before ++ [c] := by
  have hreturn : c ≠ '\r' := by rintro rfl; revert hc; decide
  induction before with
  | nil => simp [stripBreak, hreturn]
  | cons b before ih =>
    -- a break takes the last two characters at most, and more of them are left
    have hlong : ∀ as : List Char, as = before ++ [c] ++ ['\n'] →
        stripBreak (b :: as) = b :: stripBreak as := by
      intro as has
      match as, has with
      | [], has => simp at has
      | [a], has =>
        have hlen := congrArg List.length has
        simp at hlen
      | a :: a' :: as, _ => simp [stripBreak]
    simp only [List.cons_append] at hlong ⊢
    rw [hlong _ rfl, ih]

/-- Lines without line feeds that end with characters other than white space, each ended by a line
feed, are the lines of their text. -/
theorem splitLines_flatMap {lines : List Line}
    (h : ∀ line ∈ lines, '\n' ∉ line ∧ ∃ before c, line = before ++ [c] ∧ isBlank c = false) :
    splitLines (lines.flatMap fun line => line ++ ['\n']) = lines := by
  induction lines with
  | nil => rfl
  | cons line lines ih =>
    obtain ⟨hfeed, before, c, hline, hc⟩ := h line (by simp)
    have hrest : splitLines (lines.flatMap fun line => line ++ ['\n']) = lines := by
      apply ih
      intro l hl
      exact h l (List.mem_cons_of_mem _ hl)
    rw [splitLines] at hrest ⊢
    rw [List.flatMap_cons, List.append_assoc, List.singleton_append, rawLines_append_feed hfeed,
      List.map_cons, hrest, hline, stripBreak_append_feed hc]

end Text

end ResourceGraph
