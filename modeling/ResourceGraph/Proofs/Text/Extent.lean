import ResourceGraph.Diagnostic.Report
import ResourceGraph.Proofs.Text.Solid

/-!
# Extents

How far the parts of a line reach. What is read off a line is never wider than the line: an entry
(`indent_add_units_le`), the part from a column on (`add_units_fromColumn_le`), the value written
there (`Source.bounds_of_valueAt?`). The offset of a position is that of a character, and a range on
one line covers the bytes of some characters of that line (`Source.isOnLine_spanOf`).
-/

set_option autoImplicit false

namespace ResourceGraph

open Text

/-! ## Widths -/

namespace Text

theorem units_le_of_sublist {as bs : List Char} (h : as.Sublist bs) : units as ≤ units bs := by
  induction h with
  | slnil => exact Nat.le_refl _
  | cons c _ ih =>
    rw [units]
    omega
  | cons_cons c _ ih =>
    rw [units, units]
    omega

theorem units_takeWhile_add (p : Char → Bool) (cs : List Char) :
    units (cs.takeWhile p) + units (cs.dropWhile p) = units cs := by
  rw [← units_append, List.takeWhile_append_dropWhile]

theorem dropTail_sublist {α : Type} (p : α → Bool) (as : List α) :
    (dropTail p as).Sublist as := by
  obtain ⟨tail, hsplit, -⟩ := dropTail_append p as
  have hprefix : dropTail p as <+: as := ⟨tail, hsplit.symm⟩
  exact hprefix.sublist

theorem cutComment_sublist (cs : List Char) : (cutComment cs).Sublist cs := by
  induction cs with
  | nil => exact List.Sublist.slnil
  | cons c cs ih =>
    unfold cutComment
    split
    · exact List.nil_sublist _
    · exact List.nil_sublist _
    · rename_i heq
      rw [← (List.cons.inj heq).1, ← (List.cons.inj heq).2]
      exact ih.cons_cons c

/-- The part of a line from one of its columns on is no wider than what is left there. -/
theorem add_units_fromColumn_le {n : Nat} {cs : List Char} (h : n ≤ units cs) :
    n + units (fromColumn n cs) ≤ units cs := by
  induction cs generalizing n with
  | nil => simpa [fromColumn, units] using h
  | cons c cs ih =>
    by_cases hn : n = 0
    · simp [fromColumn, hn]
    · -- a column inside the character counts as the end of it
      rw [units] at h
      have hrest := ih (n := n - charUnits c) (by omega)
      rw [fromColumn, if_neg hn, units]
      omega

/-- The indentation of a line and its text without leading white space do not overlap. -/
theorem indentation_add_units_trimStart_le (line : Line) :
    Line.indentation line + units (trimStart line) ≤ units line := by
  induction line with
  | nil => exact Nat.le_refl _
  | cons c cs ih =>
    by_cases hindent : isIndent c = true
    · have hblank := isBlank_of_isIndent hindent
      simp only [Line.indentation, trimStart] at ih ⊢
      rw [List.takeWhile_cons_of_pos hindent, List.dropWhile_cons_of_pos hblank, units, units]
      omega
    · have hsub := units_le_of_sublist (List.dropWhile_sublist isBlank (l := c :: cs))
      rw [Line.indentation, List.takeWhile_cons_of_neg hindent, units, Nat.zero_add]
      exact hsub

end Text

/-- An entry is no wider than its line. -/
theorem Entry.indent_add_units_le {n : Nat} {line : Line} {e : Entry}
    (h : Entry.ofLine? n line = some e) : e.indent + units e.content ≤ units line := by
  rw [Entry.ofLine?] at h
  split at h
  · exact absurd h.symm (Option.some_ne_none e)
  · obtain rfl := Option.some.inj h
    have htrim := units_le_of_sublist (dropTail_sublist isBlank (trimStart line))
    have hstart := indentation_add_units_trimStart_le line
    show Line.indentation line + units (trimEnd (trimStart line)) ≤ units line
    rw [trimEnd]
    omega

/-! ## Ranges on a line -/

namespace Source

/-- Whether a position is on a line of a source and not past its end, or stands for "not found". -/
def Holds (s : Source) (p : Position) : Prop :=
  (∃ line, s.line? p.line = some line ∧ p.character ≤ units line) ∨ p = s.endPosition

/-- Whether a range runs along one line of a source, and ends no later than that line, or begins at
the position that stands for "not found". -/
structure Bounds (s : Source) (r : Range) : Prop where
  oneLine : r.stop.line = r.start.line
  ordered : r.start.character ≤ r.stop.character
  inside : (∃ line, s.line? r.start.line = some line ∧ r.stop.character ≤ units line) ∨
    r.start = s.endPosition

theorem bounds_point {s : Source} {p : Position} (h : s.Holds p) : s.Bounds (.point p) :=
  ⟨rfl, Nat.le_refl _, h⟩

theorem bounds_lineRange {s : Source} {n : Nat} (h : n < s.lineCount) : s.Bounds (s.lineRange n) := by
  have hline : s.line? n = some s.lines[n] := List.getElem?_eq_getElem h
  refine ⟨rfl, Nat.zero_le _, Or.inl ⟨s.lines[n], hline, ?_⟩⟩
  show ((s.line? n).map units).getD 0 ≤ units s.lines[n]
  rw [hline]
  exact Nat.le_refl _

theorem holds_lineEnd {s : Source} {n : Nat} (h : n < s.lineCount) : s.Holds (s.lineEnd n) :=
  (bounds_lineRange h).inside.imp_right fun hend => by
    -- the line is there, so its start is not past the last line
    have hline := congrArg Position.line hend
    exact absurd hline (Nat.ne_of_lt h)

/-- The value written from a position of a line is within the line. -/
theorem bounds_of_valueAt? {s : Source} {p start : Position} {value : List Char}
    (hp : s.Holds p) (h : s.valueAt? p = some (start, value)) :
    s.Bounds ⟨start, start.advance (units value)⟩ := by
  obtain ⟨line, hline, hvalue⟩ := Option.map_eq_some_iff.1 h
  obtain ⟨rfl, rfl⟩ := Prod.mk.inj hvalue
  have hcolumn : p.character ≤ units line := by
    rcases hp with ⟨line', hline', hle⟩ | rfl
    · rw [hline', Option.some.injEq] at hline
      rwa [← hline]
    · exact Nat.zero_le _
  have hrest := add_units_fromColumn_le hcolumn
  have hcut := units_takeWhile_add isIndent (fromColumn p.character line)
  have hcomment := units_le_of_sublist
    (cutComment_sublist ((fromColumn p.character line).dropWhile isIndent))
  have htrim := units_le_of_sublist
    (dropTail_sublist isBlank (cutComment ((fromColumn p.character line).dropWhile isIndent)))
  refine ⟨rfl, Nat.le_add_right _ _, Or.inl ⟨line, hline, ?_⟩⟩
  show p.character + units ((fromColumn p.character line).takeWhile isIndent) +
    units (trimEnd (cutComment ((fromColumn p.character line).dropWhile isIndent))) ≤ units line
  rw [trimEnd]
  omega

end Source

/-! ## Offsets -/

namespace Text

theorem flatten_rawLines (text : List Char) : (rawLines text).flatten = text := by
  induction text with
  | nil => rfl
  | cons c cs ih =>
    unfold rawLines
    split
    · rw [List.flatten_cons, ih]
      rfl
    · cases hrest : rawLines cs with
      | nil =>
        rw [hrest] at ih
        simpa using ih
      | cons l ls =>
        rw [hrest] at ih
        simpa using ih

/-- A raw line holds no line feed but the one that ends it. -/
theorem exists_body_of_mem_rawLines {text l : List Char} (h : l ∈ rawLines text) :
    ∃ body, '\n' ∉ body ∧ (l = body ∨ l = body ++ ['\n']) := by
  induction text generalizing l with
  | nil => exact absurd h List.not_mem_nil
  | cons c text ih =>
    unfold rawLines at h
    split at h
    · rename_i hc
      rcases List.mem_cons.1 h with rfl | h
      · exact ⟨[], List.not_mem_nil, .inr (by rw [hc]; rfl)⟩
      · exact ih h
    · rename_i hc
      have hcons : ∀ {body : List Char}, '\n' ∉ body → '\n' ∉ c :: body := by
        intro body hbody
        rw [List.mem_cons, not_or]
        exact ⟨Ne.symm hc, hbody⟩
      split at h
      · exact ⟨[c], hcons List.not_mem_nil, .inl (List.mem_singleton.1 h)⟩
      · rename_i first rest hraw
        rw [hraw] at ih
        rcases List.mem_cons.1 h with rfl | h
        · -- the line goes on as the first line of the rest of the text
          obtain ⟨body, hbody, hfirst | hfirst⟩ := ih List.mem_cons_self
          · exact ⟨c :: body, hcons hbody, .inl (congrArg (c :: ·) hfirst)⟩
          · exact ⟨c :: body, hcons hbody, .inr (congrArg (c :: ·) hfirst)⟩
        · exact ih (List.mem_cons_of_mem first h)

/-- A line feed is only at the end of a raw line. -/
theorem not_mem_dropTail_of_mem_rawLines {text l : List Char} (h : l ∈ rawLines text) :
    '\n' ∉ dropTail isLineEnd l := by
  obtain ⟨body, hbody, hl⟩ := exists_body_of_mem_rawLines h
  have hdrop : dropTail isLineEnd l = dropTail isLineEnd body := by
    rcases hl with rfl | rfl
    · rfl
    · exact dropTail_append_of_pos (by simp [isLineEnd]) body
  rw [hdrop]
  intro hmem
  exact hbody ((dropTail_sublist isLineEnd body).subset hmem)

/-- The offset of a column is the length of the characters before it. -/
theorem columnOffset_eq_bytes (n : Nat) (cs : List Char) :
    ∃ before, cs = before ++ fromColumn n cs ∧ columnOffset n cs = bytes before := by
  induction cs generalizing n with
  | nil => exact ⟨[], rfl, rfl⟩
  | cons c cs ih =>
    by_cases hn : n = 0
    · exact ⟨[], by simp [fromColumn, hn], by simp [columnOffset, hn, bytes]⟩
    · obtain ⟨before, hsplit, hoffset⟩ := ih (n - charUnits c)
      refine ⟨c :: before, ?_, ?_⟩
      · rw [fromColumn, if_neg hn, List.cons_append, ← hsplit]
      · rw [columnOffset, if_neg hn, bytes, hoffset]

/-- Two columns cut a line at characters: their offsets are the lengths of what stands before them.
-/
theorem exists_cut_at_columns {m n : Nat} (h : m ≤ n) (cs : List Char) :
    ∃ before inside after, cs = before ++ inside ++ after ∧ columnOffset m cs = bytes before ∧
      columnOffset n cs = bytes before + bytes inside := by
  induction cs generalizing m n with
  | nil => exact ⟨[], [], [], rfl, rfl, rfl⟩
  | cons c cs ih =>
    by_cases hm : m = 0
    · obtain ⟨inside, hsplit, hoffset⟩ := columnOffset_eq_bytes n (c :: cs)
      refine ⟨[], inside, fromColumn n (c :: cs), hsplit, by simp [columnOffset, hm, bytes], ?_⟩
      rw [hoffset, bytes, Nat.zero_add]
    · have hn : n ≠ 0 := by omega
      obtain ⟨before, inside, after, hsplit, hfirst, hsecond⟩ :=
        ih (show m - charUnits c ≤ n - charUnits c by omega)
      refine ⟨c :: before, inside, after, by simp [hsplit], ?_, ?_⟩
      · rw [columnOffset, if_neg hm, bytes, hfirst]
      · rw [columnOffset, if_neg hn, bytes, hsecond, Nat.add_assoc]

theorem flatten_eq_of_getElem {α : Type} {lines : List (List α)} {n : Nat} (h : n < lines.length) :
    lines.flatten = (lines.take n).flatten ++ lines[n] ++ (lines.drop (n + 1)).flatten := by
  rw [List.append_assoc, ← List.flatten_cons, ← List.flatten_append, List.getElem_cons_drop h,
    List.take_append_drop]

/-- The offset of a position on a line is the length of the lines before and of the characters
before its column. -/
theorem offsetInLines_eq_bytes {lines : List (List Char)} {n : Nat} (h : n < lines.length)
    (column : Nat) : offsetInLines lines n column =
      bytes (lines.take n).flatten + columnOffset column (dropTail isLineEnd lines[n]) := by
  induction lines generalizing n with
  | nil => simp at h
  | cons l ls ih =>
    cases n with
    | zero => simp [offsetInLines, bytes]
    | succ n =>
      have hn : n < ls.length := by simpa using h
      rw [offsetInLines, ih hn, List.take_succ_cons, List.flatten_cons, bytes_append,
        List.getElem_cons_succ, Nat.add_assoc]

theorem offsetInLines_of_length_le {lines : List (List Char)} {n : Nat} (h : lines.length ≤ n)
    (column : Nat) : offsetInLines lines n column = bytes lines.flatten := by
  induction lines generalizing n with
  | nil => rfl
  | cons l ls ih =>
    cases n with
    | zero => simp at h
    | succ n =>
      have hn : ls.length ≤ n := by simpa using h
      rw [offsetInLines, ih hn, List.flatten_cons, bytes_append]

theorem length_splitLines (text : List Char) : (splitLines text).length = (rawLines text).length := by
  rw [splitLines, List.length_map]

/-! ## Sizes -/

/-- The first number that 32 bits do not hold. -/
def columnLimit : Nat := 4294967296

/-- A text has no more lines than units. -/
theorem length_rawLines_le (text : List Char) : (rawLines text).length ≤ units text := by
  induction text with
  | nil => exact Nat.le_refl _
  | cons c cs ih =>
    have hpos := charUnits_pos c
    rw [units]
    unfold rawLines
    split
    · rw [List.length_cons]
      omega
    · cases hrest : rawLines cs with
      | nil =>
        show 1 ≤ _
        omega
      | cons l ls =>
        rw [hrest] at ih
        exact Nat.le_trans ih (Nat.le_add_left _ _)

theorem stripBreak_sublist (l : List Char) : (stripBreak l).Sublist l := by
  induction l with
  | nil => exact List.Sublist.slnil
  | cons c cs ih =>
    unfold stripBreak
    split
    · exact List.nil_sublist _
    · exact List.nil_sublist _
    · exact List.nil_sublist _
    · rename_i heq
      rw [← (List.cons.inj heq).1, ← (List.cons.inj heq).2]
      exact ih.cons_cons c

/-- No line is wider than its text. -/
theorem units_le_of_mem_splitLines {text : List Char} {line : Line} (h : line ∈ splitLines text) :
    units line ≤ units text := by
  obtain ⟨l, hl, rfl⟩ := List.mem_map.1 h
  obtain ⟨n, hn, rfl⟩ := List.mem_iff_getElem.1 hl
  have htext := flatten_eq_of_getElem hn
  rw [flatten_rawLines] at htext
  have hstrip := units_le_of_sublist (stripBreak_sublist (rawLines text)[n])
  have hunits := congrArg units htext
  rw [units_append, units_append] at hunits
  omega

end Text

/-- Whether a span is the stretch of some characters of a text, none of which is a line feed. -/
def Span.IsOnLine (span : Span) (text : List Char) : Prop :=
  ∃ before inside after, text = before ++ inside ++ after ∧ span.offset = bytes before ∧
    span.length = bytes inside ∧ '\n' ∉ inside

namespace Source

variable {text : String}

/-- Lines and columns within a text are not larger than the text. -/
theorem bounds_le_units {r : Range} (h : (ofString text).Bounds r) :
    r.start.line ≤ units text.toList ∧ (r.stop.character ≤ units text.toList ∨
      r.start = (ofString text).endPosition) := by
  have hcount : (splitLines text.toList).length ≤ units text.toList := by
    rw [length_splitLines]
    exact length_rawLines_le text.toList
  rcases h.inside with ⟨line, hline, hstop⟩ | hend
  · obtain ⟨hlt, hget⟩ := List.getElem?_eq_some_iff.1 hline
    have hmem : line ∈ splitLines text.toList := hget ▸ List.getElem_mem hlt
    have hlt' : r.start.line < (splitLines text.toList).length := hlt
    refine ⟨by omega, Or.inl (Nat.le_trans hstop (units_le_of_mem_splitLines hmem))⟩
  · refine ⟨?_, Or.inr hend⟩
    rw [hend]
    exact hcount

/-- Columns of one line bound the stretch of the characters between them. -/
theorem isOnLine_of_columns {n a b : Nat} (hn : n < (rawLines text.toList).length) (hab : a ≤ b) :
    ((ofString text).spanOf ⟨⟨n, a⟩, ⟨n, b⟩⟩).IsOnLine text.toList := by
  have hoffset : ∀ column, (ofString text).offsetAt ⟨n, column⟩ =
      bytes ((rawLines text.toList).take n).flatten +
        columnOffset column (dropTail isLineEnd (rawLines text.toList)[n]) :=
    fun column => offsetInLines_eq_bytes hn column
  obtain ⟨tail, htail, -⟩ := dropTail_append isLineEnd (rawLines text.toList)[n]
  obtain ⟨before, inside, after, hcut, hstart, hstop⟩ :=
    exists_cut_at_columns hab (dropTail isLineEnd (rawLines text.toList)[n])
  have htext := flatten_eq_of_getElem hn
  rw [flatten_rawLines, htail, hcut] at htext
  refine ⟨((rawLines text.toList).take n).flatten ++ before, inside,
    after ++ tail ++ ((rawLines text.toList).drop (n + 1)).flatten, ?_, ?_, ?_, ?_⟩
  · refine htext.trans ?_
    simp only [List.append_assoc]
  · show (ofString text).offsetAt ⟨n, a⟩ = _
    rw [hoffset, hstart, bytes_append]
  · show max ((ofString text).offsetAt ⟨n, b⟩) ((ofString text).offsetAt ⟨n, a⟩) -
      (ofString text).offsetAt ⟨n, a⟩ = _
    rw [hoffset, hoffset, hstart, hstop]
    omega
  · intro hmem
    apply not_mem_dropTail_of_mem_rawLines (List.getElem_mem hn)
    rw [hcut]
    simp [hmem]

/-- **A range within a source covers characters of one line.** -/
theorem isOnLine_spanOf {r : Range} (h : (ofString text).Bounds r) :
    ((ofString text).spanOf r).IsOnLine text.toList := by
  obtain ⟨⟨n, a⟩, ⟨m, b⟩⟩ := r
  obtain rfl : m = n := h.oneLine
  rcases h.inside with ⟨line, hline, -⟩ | hend
  · have hcount : m < (splitLines text.toList).length := (List.getElem?_eq_some_iff.1 hline).1
    rw [length_splitLines] at hcount
    exact isOnLine_of_columns hcount h.ordered
  · -- past the last line every column is at the end of the text
    have hm : m = (splitLines text.toList).length := congrArg Position.line hend
    rw [length_splitLines] at hm
    have hoffset : ∀ column, (ofString text).offsetAt ⟨m, column⟩ = bytes text.toList := by
      intro column
      show offsetInLines (rawLines text.toList) m column = _
      rw [offsetInLines_of_length_le (Nat.le_of_eq hm.symm), flatten_rawLines]
    refine ⟨text.toList, [], [], by simp, hoffset a, ?_, by simp⟩
    show max ((ofString text).offsetAt ⟨m, b⟩) ((ofString text).offsetAt ⟨m, a⟩) -
      (ofString text).offsetAt ⟨m, a⟩ = 0
    rw [hoffset, hoffset]
    omega

end Source

end ResourceGraph
