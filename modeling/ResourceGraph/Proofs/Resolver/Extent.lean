import ResourceGraph.Proofs.Text.Extent
import ResourceGraph.Resolver.Basic

/-!
# Where a resolved position can be

Whatever the text and the path, the indentation resolver answers with a position on a line of the
text, not past the end of that line, or with the position that stands for "not found"
(`holds_position`, `holds_afterKey`). The search reads every column off an entry, and what it adds to
the indentation of an entry is text of that entry (`Walk.le_of_descend`).
-/

set_option autoImplicit false

namespace ResourceGraph

open Text

namespace Line

theorem Key.width_le {content : Line} {k : Key} (h : key? content = some k) :
    k.width ≤ units content := by
  have hcolon : charUnits ':' = 1 := by decide
  rw [key?_eq_some h, units_append, units, Key.width, hcolon]
  omega

/-- The marker of an item and its body take up the whole line. -/
theorem Item.offset_add_units_body {content : Line} {item : Item} (h : item? content = some item) :
    item.offset + units item.body = units content := by
  have hdash : charUnits '-' = 1 := by decide
  unfold item? at h
  split at h
  · obtain rfl := Option.some.inj h
    rfl
  · rename_i c cs
    split at h
    · obtain rfl := Option.some.inj h
      have hsplit := units_takeWhile_add isIndent (c :: cs)
      show 1 + units ((c :: cs).takeWhile isIndent) + units ((c :: cs).dropWhile isIndent) =
        charUnits '-' + units (c :: cs)
      omega
    · exact absurd h.symm (Option.some_ne_none item)
  · exact absurd h.symm (Option.some_ne_none item)

end Line

namespace Walk

variable {pending path : List Segment} {column found : Nat} {content : Line} {w : Walk} {e : Entry}
  {entries : List Entry} {p : Position}

/-- A key is found where the line has that key, if nothing is searched after it. -/
theorem of_descend_key {name : String} {rest : List Segment}
    (h : descend (.key name :: rest) column content w = .found found) :
    rest = [] ∧ ∃ k, Line.key? content = some k ∧ k.key = name.toList ∧
      found = column + k.width := by
  rw [descend] at h
  split at h
  · simp at h
  · rename_i k hkey
    split at h
    · simp at h
    · rename_i hname
      split at h
      · rename_i hrest
        exact ⟨List.isEmpty_iff.1 hrest, k, hkey, Decidable.not_not.1 hname,
          (Outcome.found.inj h).symm⟩
      · simp at h

/-- An index is found at a marker, and what is searched after it is found in the rest of the line. -/
theorem of_descend_index {i : Nat} {rest : List Segment}
    (h : descend (.index i :: rest) column content w = .found found) :
    ∃ item, Line.item? content = some item ∧ (rest = [] ∧ found = column ∨
      rest ≠ [] ∧ ∃ w', descend rest (column + item.offset) item.body w' = .found found) := by
  rw [descend] at h
  split at h
  · simp at h
  · rename_i item hitem
    simp only at h
    split at h
    · simp at h
    · split at h
      · simp at h
      · split at h
        · rename_i hrest
          exact ⟨item, hitem, Or.inl ⟨List.isEmpty_iff.1 hrest, (Outcome.found.inj h).symm⟩⟩
        · rename_i hrest
          exact ⟨item, hitem, Or.inr ⟨fun hnil => hrest (List.isEmpty_iff.2 hnil), _, h⟩⟩

/-- What is found on a line is not past its end. -/
theorem le_of_descend (h : descend pending column content w = .found found) :
    found ≤ column + units content := by
  -- each marker moves the column and takes the text up to it off the line
  induction pending generalizing column content w with
  | nil => simp [descend] at h
  | cons segment rest ih =>
    cases segment with
    | key name =>
      obtain ⟨-, k, hkey, -, rfl⟩ := of_descend_key h
      exact Nat.add_le_add_left (Line.Key.width_le hkey) column
    | index i =>
      obtain ⟨item, hitem, ⟨-, rfl⟩ | ⟨-, w', hrest⟩⟩ := of_descend_index h
      · exact Nat.le_add_right _ _
      · have hbody := Line.Item.offset_add_units_body hitem
        have hle := ih hrest
        omega

theorem le_of_step (h : step path e w = .found found) : found ≤ e.indent + units e.content := by
  rw [step] at h
  split at h
  · split at h
    · exact le_of_descend h
    · split at h
      · simp at h
      · exact le_of_descend h
  · exact le_of_descend h

/-- What is found stands in an entry. -/
theorem exists_entry_of_run (h : run path entries w = some p) :
    ∃ e ∈ entries, p.line = e.line ∧ p.character ≤ e.indent + units e.content := by
  induction entries generalizing w with
  | nil => simp [run] at h
  | cons e rest ih =>
    rw [run] at h
    split at h
    · rename_i column hstep
      obtain rfl := Option.some.inj h
      exact ⟨e, List.mem_cons_self, rfl, le_of_step hstep⟩
    · obtain ⟨e', he', hline, hcolumn⟩ := ih h
      exact ⟨e', List.mem_cons_of_mem _ he', hline, hcolumn⟩

end Walk

/-- A path is located in an entry, not past its end. -/
theorem exists_entry_of_locate? {entries : List Entry} {path : Path} {p : Position}
    (h : locate? entries path = some p) :
    ∃ e ∈ entries, p.line = e.line ∧ p.character ≤ e.indent + units e.content := by
  rw [locate?] at h
  split at h
  · exact absurd h.symm (Option.some_ne_none p)
  · exact Walk.exists_entry_of_run h

/-- A path is located on a line, not past its end. -/
theorem exists_line_of_locate? {s : Source} {path : Path} {p : Position}
    (h : locate? s.entries path = some p) :
    ∃ line, s.line? p.line = some line ∧ p.character ≤ units line := by
  obtain ⟨e, he, hline, hcolumn⟩ := exists_entry_of_locate? h
  rw [s.entries_eq] at he
  obtain ⟨i, line, hi, hentry⟩ := Entry.mem_ofLines he
  rw [Nat.zero_add] at hentry
  refine ⟨line, ?_, Nat.le_trans hcolumn (Entry.indent_add_units_le hentry)⟩
  rw [hline, Entry.line_of_ofLine? hentry]
  exact hi

namespace Resolver

/-- The line of a key is the first one that is written with it. -/
theorem keyLine?_eq_findIdx? (key : List Char) (n : Nat) (lines : List Line) :
    keyLine? key n lines =
      (lines.findIdx? fun line => (Line.key? (trim line)).any (·.key == key)).map (· + n) := by
  induction lines generalizing n with
  | nil => rfl
  | cons line lines ih =>
    rw [keyLine?, List.findIdx?_cons, ih]
    split
    · simp
    · rw [Option.map_map]
      congr 1
      funext i
      show i + (n + 1) = i + 1 + n
      omega

theorem lt_of_keyLine? {key : List Char} {m : Nat} {lines : List Line}
    (h : keyLine? key 0 lines = some m) : m < lines.length := by
  rw [keyLine?_eq_findIdx?] at h
  obtain ⟨i, hi, rfl⟩ := Option.map_eq_some_iff.1 h
  exact (List.findIdx?_eq_some_iff_getElem.1 hi).1

/-- **The position of a path is within the source**, or stands for "not found". -/
theorem holds_position (s : Source) (path : Path) : s.Holds (indentation.position s path) := by
  show s.Holds ((locate? s.entries path).getD s.endPosition)
  cases hlocate : locate? s.entries path with
  | none => exact Or.inr rfl
  | some p => exact Or.inl (exists_line_of_locate? hlocate)

/-- The position of a path stands for "not found" exactly if the path is not located. -/
theorem position_eq_endPosition_iff {s : Source} {path : Path} :
    indentation.position s path = s.endPosition ↔ locate? s.entries path = none := by
  show (locate? s.entries path).getD s.endPosition = s.endPosition ↔ _
  cases hlocate : locate? s.entries path with
  | none => exact iff_of_true rfl rfl
  | some p =>
    -- a located path is on a line of the source
    obtain ⟨line, hline, -⟩ := exists_line_of_locate? hlocate
    have hlt : p.line < s.lineCount := (List.getElem?_eq_some_iff.1 hline).1
    refine iff_of_false ?_ (Option.some_ne_none p)
    intro hend
    have hlast : p.line = s.lineCount := congrArg Position.line hend
    omega

/-- The position of a path that is located. -/
theorem position_of_locate? {s : Source} {path : Path} {p : Position}
    (h : locate? s.entries path = some p) : indentation.position s path = p := by
  show (locate? s.entries path).getD s.endPosition = p
  rw [h]
  rfl

/-- The start of the line after a key is within the source, or past its last line. -/
theorem holds_afterKey (s : Source) (key : String) : s.Holds (indentation.afterKey s key) := by
  show s.Holds (((keyLine? key.toList 0 s.lines).map fun n =>
    (⟨n + 1, 0⟩ : Position)).getD s.endPosition)
  cases hkey : keyLine? key.toList 0 s.lines with
  | none => exact Or.inr rfl
  | some n =>
    have hlt : n < s.lineCount := lt_of_keyLine? hkey
    rcases Nat.lt_or_eq_of_le (Nat.succ_le_of_lt hlt) with hnext | hlast
    · exact Or.inl ⟨s.lines[n + 1], List.getElem?_eq_getElem hnext, Nat.zero_le _⟩
    · right
      show (⟨n + 1, 0⟩ : Position) = ⟨s.lineCount, 0⟩
      rw [← hlast]

end Resolver

end ResourceGraph
