import ResourceGraph.Proofs.Text.FirstLine
import ResourceGraph.Text.Edit

/-!
# Edits along lines

An edit of a whole line, or an insertion at the start of the text or at the end of a line, changes
nothing else (`applyEdits_lineRange`, `applyEdits_origin`, `applyEdits_lineEnd`): the columns and
offsets that edits go through cut the text exactly there, whatever characters and line breaks it
has.
An edit of the first line can be made together with one after it (`applyEdits_lineRange_cons`).
-/

set_option autoImplicit false

namespace ResourceGraph

namespace Text

/-! ## Cutting at offsets -/

theorem charBytes_pos (c : Char) : 0 < charBytes c := by
  unfold charBytes
  split
  · decide
  · split
    · decide
    · split <;> decide

theorem takeBytes_append (as bs : List Char) : takeBytes (bytes as) (as ++ bs) = as := by
  induction as with
  | nil => cases bs <;> rfl
  | cons a as ih =>
    have hpos := charBytes_pos a
    rw [List.cons_append, takeBytes, bytes, if_neg (by omega), Nat.add_sub_cancel_left, ih]

theorem dropBytes_append (as bs : List Char) : dropBytes (bytes as) (as ++ bs) = bs := by
  induction as with
  | nil => cases bs <;> rfl
  | cons a as ih =>
    have hpos := charBytes_pos a
    rw [List.cons_append, dropBytes, bytes, if_neg (by omega), Nat.add_sub_cancel_left, ih]

theorem takeBytes_append_dropBytes (n : Nat) (cs : List Char) :
    takeBytes n cs ++ dropBytes n cs = cs := by
  induction cs generalizing n with
  | nil => rfl
  | cons c cs ih =>
    rw [takeBytes, dropBytes]
    split
    · rfl
    · rw [List.cons_append, ih]

/-- A boundary is the number of bytes before some place in the text. -/
theorem isBoundary_iff {n : Nat} {cs : List Char} : isBoundary n cs = true ↔
    ∃ before after, cs = before ++ after ∧ n = bytes before := by
  rw [isBoundary, beq_iff_eq]
  constructor
  · intro h
    exact ⟨takeBytes n cs, dropBytes n cs, (takeBytes_append_dropBytes n cs).symm, h.symm⟩
  · rintro ⟨before, after, rfl, rfl⟩
    rw [takeBytes_append]

/-- A column that is not before the end of a line is its end. -/
theorem columnOffset_of_units_le {n : Nat} {cs : List Char} (h : units cs ≤ n) :
    columnOffset n cs = bytes cs := by
  induction cs generalizing n with
  | nil => rfl
  | cons c cs ih =>
    have hpos := charUnits_pos c
    rw [units] at h
    rw [columnOffset, if_neg (by omega), ih (by omega), bytes]

theorem columnOffset_zero (cs : List Char) : columnOffset 0 cs = 0 := by
  cases cs <;> rfl

/-- Offsets on a line count from the bytes above it. -/
theorem offsetAt_eq (text : List Char) (n column : Nat) :
    offsetAt text ⟨n, column⟩ = bytes (above text n) + columnOffset column (onLine text n) := by
  by_cases hn : n < (rawLines text).length
  · rw [onLine, List.getElem?_eq_getElem hn]
    exact offsetInLines_eq_bytes hn column
  · have hle : (rawLines text).length ≤ n := Nat.le_of_not_lt hn
    rw [onLine, List.getElem?_eq_none hle, above, List.take_of_length_le hle]
    exact offsetInLines_of_length_le hle column

theorem offsetAt_lineStart (text : List Char) (n : Nat) :
    offsetAt text ⟨n, 0⟩ = bytes (above text n) := by
  rw [offsetAt_eq, columnOffset_zero, Nat.add_zero]

theorem offsetAt_lineEnd (text : String) (n : Nat) :
    offsetAt text.toList ((Source.ofString text).lineEnd n) =
      bytes (above text.toList n) + bytes (onLine text.toList n) := by
  show offsetAt text.toList ⟨n, (((splitLines text.toList)[n]?).map units).getD 0⟩ = _
  rw [offsetAt_eq, columnOffset_of_units_le]
  -- the line ends that the line still has make it wider only
  rw [onLine, splitLines, List.getElem?_map]
  cases (rawLines text.toList)[n]? with
  | none => exact Nat.le_refl _
  | some l =>
    show units (dropTail isLineEnd l) ≤ units (stripBreak l)
    rw [← dropTail_stripBreak]
    exact units_le_of_sublist (dropTail_sublist isLineEnd (stripBreak l))

end Text

/-! ## Edits -/

open Text

theorem Position.isAtMost_iff {p q : Position} : p.isAtMost q = true ↔
    p.line < q.line ∨ p.line = q.line ∧ p.character ≤ q.character := by
  simp [Position.isAtMost]

theorem TextEdit.splice_append (before inside after new : List Char) :
    splice (before ++ (inside ++ after)) (bytes before) (bytes before + bytes inside) new =
      before ++ (new ++ after) := by
  rw [splice, takeBytes_append, ← List.append_assoc, ← bytes_append, dropBytes_append,
    List.append_assoc]

/-- A single edit is carried out by one replacement. -/
theorem applyEdits_singleton {text : String} {e : TextEdit} {before inside after : List Char}
    (htext : text.toList = before ++ (inside ++ after))
    (hstart : offsetAt text.toList e.range.start = bytes before)
    (hstop : offsetAt text.toList e.range.stop = bytes before + bytes inside) :
    (applyEdits text [e]).toList = before ++ (e.newText.toList ++ after) := by
  have hmax : max (bytes before + bytes inside) (bytes before) = bytes before + bytes inside :=
    Nat.max_eq_left (Nat.le_add_right _ _)
  rw [applyEdits, String.toList_ofList]
  show TextEdit.applyTo text.toList text.toList e = _
  rw [TextEdit.applyTo, hstart, hstop, hmax, htext]
  exact TextEdit.splice_append before inside after e.newText.toList

theorem applyEdits_insert {text : String} {p : Position} {before after : List Char}
    (htext : text.toList = before ++ after) (hoffset : offsetAt text.toList p = bytes before)
    (new : String) : (applyEdits text [.insert p new]).toList = before ++ (new.toList ++ after) :=
  @applyEdits_singleton text (.insert p new) before [] after htext hoffset hoffset

/-- Replacing a whole line changes nothing else. -/
theorem applyEdits_lineRange (text : String) (n : Nat) (new : String) :
    (applyEdits text [⟨(Source.ofString text).lineRange n, new⟩]).toList =
      above text.toList n ++ (new.toList ++ below text.toList n) :=
  applyEdits_singleton (above_append_onLine_append_below text.toList n).symm
    (offsetAt_lineStart text.toList n) (offsetAt_lineEnd text n)

theorem applyEdits_origin (text new : String) :
    (applyEdits text [.insert .origin new]).toList = new.toList ++ text.toList := by
  have htext : text.toList = [] ++ text.toList := (List.nil_append _).symm
  exact applyEdits_insert htext (offsetAt_lineStart text.toList 0) new

/-- An insertion at the end of a line changes nothing else. -/
theorem applyEdits_lineEnd (text : String) (n : Nat) (new : String) :
    (applyEdits text [.insert ((Source.ofString text).lineEnd n) new]).toList =
      above text.toList n ++ onLine text.toList n ++ (new.toList ++ below text.toList n) := by
  have hoffset := offsetAt_lineEnd text n
  rw [← bytes_append] at hoffset
  have htext := (above_append_onLine_append_below text.toList n).symm
  rw [← List.append_assoc] at htext
  exact applyEdits_insert htext hoffset new

/-- Replacing the first line as well as making a later edit changes what that edit leaves in its
first line only. -/
theorem applyEdits_lineRange_cons {text : String} {e : TextEdit} {after : List Char} (new : String)
    (hstart : e.range.start.isAtMost .origin = false)
    (he : (applyEdits text [e]).toList = onLine text.toList 0 ++ after) :
    (applyEdits text [⟨(Source.ofString text).lineRange 0, new⟩, e]).toList =
      new.toList ++ after := by
  have hordered : TextEdit.ordered [⟨(Source.ofString text).lineRange 0, new⟩, e] =
      [e, ⟨(Source.ofString text).lineRange 0, new⟩] := by
    show (if e.range.start.isAtMost .origin = true then _ else _) = _
    rw [hstart]
    rfl
  rw [applyEdits, String.toList_ofList] at he ⊢
  rw [hordered]
  show TextEdit.applyTo text.toList (TextEdit.applyTo text.toList text.toList e) _ = _
  have hfirst : offsetAt text.toList ((Source.ofString text).lineRange 0).start = 0 :=
    offsetAt_lineStart text.toList 0
  have hlast : offsetAt text.toList ((Source.ofString text).lineRange 0).stop =
      bytes (onLine text.toList 0) :=
    (offsetAt_lineEnd text 0).trans (Nat.zero_add _)
  have hsplice := TextEdit.splice_append [] (onLine text.toList 0) after new.toList
  rw [TextEdit.applyTo, hfirst, hlast, Nat.max_eq_left (Nat.zero_le _)]
  rw [bytes, Nat.zero_add, List.nil_append, ← he] at hsplice
  exact hsplice

end ResourceGraph
