import ResourceGraph.Proofs.Text.LineBreak
import ResourceGraph.Proofs.Text.Replacement

/-!
# Offsets and lines

Lines are read off a text in two ways. The lines of a source lack their line break, a line feed with
the carriage return before it. A byte offset is counted on the line up to its line feed, without all
of the carriage returns at its end. The two lines are the same unless the line of the source still
ends in a carriage return (`Text.onLine_of_getElem?`).

Proves: the offset of a position is between two characters of the text, offsets are in the order of
their positions, and between the offsets of two columns of a line stands the part of the line that
is between these columns (`Source.offsetAt_cuts_lines`).
-/

set_option autoImplicit false

namespace ResourceGraph

namespace Text

/-- The characters from a byte offset up to another one. -/
def between (start stop : Nat) (cs : List Char) : List Char :=
  takeBytes (stop - start) (dropBytes start cs)

theorem between_append (before inside after : List Char) :
    between (bytes before) (bytes before + bytes inside) (before ++ (inside ++ after)) =
      inside := by
  rw [between, dropBytes_append, Nat.add_sub_cancel_left, takeBytes_append]

/-- The offset of a column that stands between characters. -/
theorem columnOffset_units (before after : List Char) :
    columnOffset (units before) (before ++ after) = bytes before := by
  induction before with
  | nil => exact columnOffset_zero after
  | cons c before ih =>
    have hpos := charUnits_pos c
    rw [List.cons_append, units, bytes, columnOffset, if_neg (by omega), Nat.add_sub_cancel_left,
      ih]

/-! ## Two readings of a line -/

theorem not_mem_stripBreak_concat {body : List Char} (h : '\n' ∉ body) :
    '\n' ∉ stripBreak (body ++ ['\n']) := by
  induction body with
  | nil => exact List.not_mem_nil
  | cons c body ih =>
    rw [List.mem_cons, not_or] at h
    -- a carriage return right before the line feed is dropped with it
    by_cases hbreak : c = '\r' ∧ body = []
    · rw [hbreak.1, hbreak.2]
      exact List.not_mem_nil
    · rw [List.cons_append, stripBreak, List.mem_cons, not_or]
      · exact ⟨h.1, ih h.2⟩
      · intro hc
        exact absurd hc.symm h.1
      · intro hc hbody
        exact hbreak ⟨hc, List.append_left_eq_self.1 hbody⟩

/-- The part of a raw line before its line break holds no line feed. -/
theorem not_mem_stripBreak {text l : List Char} (h : l ∈ rawLines text) :
    '\n' ∉ stripBreak l := by
  obtain ⟨body, hbody, rfl | rfl⟩ := exists_body_of_mem_rawLines h
  · rw [stripBreak_of_not_mem hbody]
    exact hbody
  · exact not_mem_stripBreak_concat hbody

/-- A line that does not end in a carriage return is the one that offsets are counted on. -/
theorem onLine_of_getElem? {text : List Char} {n : Nat} {line : Line}
    (hline : (splitLines text)[n]? = some line) (hreturn : line.getLast? ≠ some '\r') :
    onLine text n = line := by
  rw [splitLines, List.getElem?_map] at hline
  obtain ⟨l, hl, rfl⟩ := Option.map_eq_some_iff.1 hline
  rw [onLine, hl, Option.getD_some, ← dropTail_stripBreak]
  have hfeed := not_mem_stripBreak (List.mem_of_getElem? hl)
  rcases List.eq_nil_or_concat' (stripBreak l) with hnil | ⟨start, c, hconcat⟩
  · rw [hnil]
    rfl
  · -- the last character is neither of the two that offsets leave out
    rw [hconcat] at hreturn hfeed ⊢
    rw [List.getLast?_concat, Ne, Option.some.injEq] at hreturn
    rw [List.mem_append, List.mem_singleton, not_or] at hfeed
    apply dropTail_append_singleton
    rw [isLineEnd, Bool.or_eq_false_iff, beq_eq_false_iff_ne, beq_eq_false_iff_ne]
    exact ⟨Ne.symm hfeed.2, hreturn⟩

end Text

open Text

namespace Source

/-- **Offsets cut a text as columns cut its lines.** Every offset is within the text and between two
of its characters, and a position that is not after another has an offset that is not after that of
the other. On a line that does not end in a carriage return, what stands between the offsets of two
columns is what stands between these columns. -/
theorem offsetAt_cuts_lines (text : String) :
    (∀ p, (ofString text).offsetAt p ≤ bytes text.toList ∧
      ∃ before after, text.toList = before ++ after ∧
        (ofString text).offsetAt p = bytes before) ∧
    (∀ p q : Position, p.isAtMost q = true →
      (ofString text).offsetAt p ≤ (ofString text).offsetAt q) ∧
    ∀ n before inside after, (ofString text).line? n = some (before ++ (inside ++ after)) →
      (before ++ (inside ++ after)).getLast? ≠ some '\r' →
      between ((ofString text).offsetAt ⟨n, units before⟩)
        ((ofString text).offsetAt ⟨n, units (before ++ inside)⟩) text.toList = inside := by
  refine ⟨?_, ?_, ?_⟩
  · intro p
    obtain ⟨before, after, htext, hoffset⟩ := exists_cut_at_offset text.toList p
    refine ⟨?_, before, after, htext, hoffset⟩
    show Text.offsetAt text.toList p ≤ _
    rw [hoffset, htext, bytes_append]
    exact Nat.le_add_right _ _
  · intro p q h
    exact offsetAt_le_of_isAtMost h text.toList
  · intro n before inside after hline hreturn
    have honLine := onLine_of_getElem? hline hreturn
    have htext := above_append_onLine_append_below text.toList n
    rw [honLine] at htext
    have hfirst : (ofString text).offsetAt ⟨n, units before⟩ =
        bytes (above text.toList n ++ before) := by
      show Text.offsetAt text.toList _ = _
      rw [offsetAt_eq, honLine, columnOffset_units, bytes_append]
    have hsecond : (ofString text).offsetAt ⟨n, units (before ++ inside)⟩ =
        bytes (above text.toList n ++ before) + bytes inside := by
      show Text.offsetAt text.toList _ = _
      rw [offsetAt_eq, honLine, ← List.append_assoc, columnOffset_units, bytes_append, bytes_append,
        Nat.add_assoc]
    have hsplit : text.toList = (above text.toList n ++ before) ++
        (inside ++ (after ++ below text.toList n)) := by
      refine htext.symm.trans ?_
      simp only [List.append_assoc]
    have hbetween := between_append (above text.toList n ++ before) inside
      (after ++ below text.toList n)
    rw [← hsplit] at hbetween
    rw [hfirst, hsecond, hbetween]

theorem offsetAt_cuts_lines_returnFeed :
    let s := ofString "a: 😀é\r\nb\r\r\nlast"
    s.offsetAt ⟨1, 0⟩ ≤ s.offsetAt ⟨7, 2⟩ ∧
      s.line? 0 = some ("a: ".toList ++ ("😀".toList ++ "é".toList)) ∧
      between (s.offsetAt ⟨0, 3⟩) (s.offsetAt ⟨0, 5⟩) s.text.toList = "😀".toList := by
  obtain ⟨-, hordered, hcut⟩ := offsetAt_cuts_lines "a: 😀é\r\nb\r\r\nlast"
  have hline : (ofString "a: 😀é\r\nb\r\r\nlast").line? 0 =
      some ("a: ".toList ++ ("😀".toList ++ "é".toList)) := by decide +kernel
  refine ⟨hordered ⟨1, 0⟩ ⟨7, 2⟩ (by decide), hline, ?_⟩
  exact hcut 0 "a: ".toList "😀".toList "é".toList hline (by decide +kernel)

end Source

end ResourceGraph
