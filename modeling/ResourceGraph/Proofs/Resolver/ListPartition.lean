import ResourceGraph.Proofs.Resolver.Lookup
import ResourceGraph.Proofs.Resolver.Order

/-!
# The items of a list as a partition of its lines

A list is opened by the first entry that is written with its name and nothing else, and it ends at
the first entry below that is indented less, or that is no item and not indented deeper
(`Source.ListEnds`). Its items divide the lines from the first marker to that end among them.

Proves: on every text the items are numbered in order, have one column, follow each other without a
gap and reach up to the end of the list (`listItems_partition`). The line of each item begins with
its marker right after the indentation exactly if no other white space stands in between: spaces and
tabs count as indentation, but the text of a line begins after all its white space.
-/

set_option autoImplicit false

namespace ResourceGraph

open Text

/-- Whether an entry ends the list that another one opens. -/
def Entry.Exits (opening e : Entry) : Prop :=
  e.indent < opening.indent ∨ Line.item? e.content = none ∧ e.indent ≤ opening.indent

/-- Whether a list marker stands at a column of a line, with only indentation before it and nothing
or white space after it. -/
def Line.HasMarkerAt (line : Line) (column : Nat) : Prop :=
  ∃ indent rest, line = indent ++ '-' :: rest ∧ (∀ c ∈ indent, isIndent c = true) ∧
    column = units indent ∧ StartsBlank rest

namespace Source

/-- Whether an entry opens the list with a name: it is the first one written as the name, a colon
and nothing else but a comment. -/
def OpensList (s : Source) (name : String) (opening : Entry) : Prop :=
  ∃ before below, s.entries = before ++ opening :: below ∧
    ListItem.opensBlock name.toList opening.content = true ∧
    ∀ e ∈ before, ListItem.opensBlock name.toList e.content = false

/-- Whether the list that an entry opens ends at a line: that of the first entry below it that is
outside the list, or the end of the document if there is none. -/
structure ListEnds (s : Source) (opening : Entry) (stop : Nat) : Prop where
  below : opening.line < stop
  reaches : stop = s.lineCount ∨ ∃ e ∈ s.entries, e.line = stop ∧ opening.Exits e
  inside : ∀ e ∈ s.entries, opening.line < e.line → e.line < stop → ¬ opening.Exits e

/-- Whether the lines of a list are divided among some items with their markers at one column. -/
structure IsPartition (s : Source) (opening : Entry) (column stop : Nat)
    (items : List ListItem) : Prop where
  numbered : ∀ (i : Nat) (item : ListItem), items[i]? = some item → item.index = i
  aligned : ∀ item ∈ items, item.column = column
  marked : ∀ item ∈ items, ∃ line, s.line? item.line = some line ∧ line.indentation = column ∧
    (Line.item? (trim line)).isSome = true ∧ (line.HasMarkerAt column ↔ line.IsFlush)
  bounds : ∀ item ∈ items,
    opening.line < item.line ∧ item.line < item.endLine ∧ item.endLine ≤ s.lineCount
  contiguous : ∀ (i : Nat) (item next : ListItem), items[i]? = some item →
    items[i + 1]? = some next → item.endLine = next.line
  last : ∀ item ∈ items.getLast?, item.endLine = stop
  ordered : items.Pairwise fun first second =>
    first.line < second.line ∧ first.endLine ≤ second.line
  complete : ∀ e ∈ s.entries, opening.line < e.line → e.line < stop →
    ListItem.isMarkerAt column e = true → ∃ item ∈ items, item.line = e.line

end Source

/-! ## The parts of a list -/

namespace ListItem

variable {opened lineCount endLine column : Nat} {opening e : Entry} {entries tail : List Entry}

theorem closes_iff : closes opening.indent e = true ↔ opening.Exits e := by
  rw [closes, Entry.Exits, Bool.or_eq_true, Bool.and_eq_true, decide_eq_true_eq,
    decide_eq_true_eq, Option.isNone_iff_eq_none]

/-- A block ends at the line of the first entry after it. -/
theorem block_snd (h : entries = (block lineCount opened entries).1 ++ tail) :
    (block lineCount opened entries).2 = (tail.head?.map Entry.line).getD lineCount := by
  induction entries with
  | nil =>
    obtain rfl : tail = [] := h.symm
    rfl
  | cons e entries ih =>
    rw [block] at h ⊢
    split at h
    · rename_i hcloses
      obtain rfl : e :: entries = tail := h
      rw [if_pos hcloses]
      rfl
    · rename_i hcloses
      rw [if_neg hcloses]
      exact ih (List.cons.inj h).2

theorem exists_markers_eq (entries : List Entry) :
    ∃ column, markers entries = entries.filter (isMarkerAt column) := by
  rw [markers]
  split
  · rename_i hnone
    refine ⟨0, (List.filter_eq_nil_iff.2 ?_).symm⟩
    intro e he hmarker
    exact List.filter_eq_nil_iff.1 hnone e he (Bool.and_eq_true_iff.1 hmarker).1
  · rename_i first rest hmarked
    refine ⟨first.indent, ?_⟩
    rw [List.filter_filter]
    apply List.filter_congr
    intro e _
    exact Bool.and_comm _ _

/-- The item at an index is that of the marker there, and goes up to the next marker. -/
theorem getElem?_number (endLine i j : Nat) (entries : List Entry) :
    (number endLine i entries)[j]? = entries[j]?.map fun e =>
      ⟨i + j, e.line, e.indent, (entries[j + 1]?.map Entry.line).getD endLine⟩ := by
  induction entries generalizing i j with
  | nil => rfl
  | cons e entries ih =>
    cases entries with
    | nil => cases j <;> rfl
    | cons next entries =>
      cases j with
      | zero => rfl
      | succ j =>
        have hindex : i + 1 + j = i + (j + 1) := by omega
        rw [number, List.getElem?_cons_succ, ih, hindex]
        rfl

theorem length_number (endLine i : Nat) (entries : List Entry) :
    (number endLine i entries).length = entries.length := by
  have hlength := congrArg List.length (map_number endLine i entries)
  rwa [List.length_map, List.length_map] at hlength

end ListItem

/-! ## Markers and indentation -/

theorem Line.startsBlank_of_item? {content tail : List Char} {item : Item}
    (h : item? content = some item) (htail : ∀ c ∈ tail, isBlank c = true) :
    ∃ rest, content ++ tail = '-' :: rest ∧ StartsBlank rest := by
  obtain ⟨blanks, hsplit, -, hblanks, -, hbare⟩ := of_item? h
  refine ⟨blanks ++ item.body ++ tail, by rw [hsplit]; rfl, ?_⟩
  cases blanks with
  | nil =>
    rw [hbare rfl]
    exact startsBlank_of_forall htail
  | cons c blanks =>
    intro d hd
    obtain rfl := Option.some.inj hd
    exact isBlank_of_isIndent (hblanks _ List.mem_cons_self)

theorem Entry.indentation_eq {n : Nat} {line : Line} {e : Entry} (he : ofLine? n line = some e) :
    line.indentation = e.indent := by
  rw [ofLine?] at he
  split at he
  · exact absurd he.symm (Option.some_ne_none e)
  · rw [← Option.some.inj he]

/-- The line of a marker has it at its indentation exactly if its text begins there. -/
theorem Entry.hasMarkerAt_iff {n : Nat} {line : Line} {e : Entry} (he : ofLine? n line = some e)
    (hmarker : (Line.item? e.content).isSome = true) :
    line.HasMarkerAt e.indent ↔ line.IsFlush := by
  constructor
  · rintro ⟨indent, rest, rfl, hindent, -, -⟩
    right
    intro c hc
    rw [List.dropWhile_append_of_pos hindent] at hc
    obtain rfl : '-' = c := Option.some.inj hc
    decide
  · intro hflush
    obtain ⟨item, hitem⟩ := Option.isSome_iff_exists.1 hmarker
    obtain ⟨-, indent, tail, hline, hunits, hindent, -, htail⟩ := Entry.of_ofLine? hflush he
    obtain ⟨rest, hrest, hblank⟩ := Line.startsBlank_of_item? hitem htail
    refine ⟨indent, rest, ?_, hindent, hunits, hblank⟩
    rw [hline, List.append_assoc, hrest]

/-! ## The entries of a source -/

namespace Source

variable {s : Source} {name : String} {opening e : Entry} {before below : List Entry}

theorem exists_line_of_mem_entries (he : e ∈ s.entries) :
    ∃ line, s.line? e.line = some line ∧ Entry.ofLine? e.line line = some e := by
  rw [s.entries_eq] at he
  obtain ⟨n, line, hn, hentry⟩ := Entry.mem_ofLines he
  rw [Nat.zero_add] at hentry
  obtain rfl := Entry.line_of_ofLine? hentry
  exact ⟨line, hn, hentry⟩

theorem line_lt_of_mem_entries (he : e ∈ s.entries) : e.line < s.lineCount := by
  obtain ⟨line, hline, -⟩ := exists_line_of_mem_entries he
  exact (List.getElem?_eq_some_iff.1 hline).1

theorem pairwise_entries (s : Source) : s.entries.Pairwise fun e e' => e.line < e'.line := by
  rw [s.entries_eq]
  exact Entry.pairwise_ofLines 0 s.lines

theorem pairwise_below (hsplit : s.entries = before ++ opening :: below) :
    below.Pairwise fun e e' => e.line < e'.line := by
  have hlines := s.pairwise_entries
  rw [hsplit, List.pairwise_append, List.pairwise_cons] at hlines
  exact hlines.2.1.2

/-- The entries below another are those that follow it. -/
theorem mem_below_iff (hsplit : s.entries = before ++ opening :: below) :
    e ∈ below ↔ e ∈ s.entries ∧ opening.line < e.line := by
  have hlines := s.pairwise_entries
  rw [hsplit, List.pairwise_append, List.pairwise_cons] at hlines
  obtain ⟨-, ⟨hbelow, -⟩, hbefore⟩ := hlines
  rw [hsplit]
  constructor
  · intro he
    exact ⟨List.mem_append_right _ (List.mem_cons_of_mem _ he), hbelow e he⟩
  · rintro ⟨he, hlt⟩
    rcases List.mem_append.1 he with he | he
    · have habove := hbefore e he opening List.mem_cons_self
      omega
    · rcases List.mem_cons.1 he with rfl | he
      · exact absurd hlt (Nat.lt_irrefl _)
      · exact he

/-! ## The end of a list -/

section Block

variable {inner tail : List Entry} {stop : Nat}

/-- The entries of a block are those above its end. -/
theorem mem_inner_iff (hlines : (inner ++ tail).Pairwise fun e e' => e.line < e'.line)
    (hcount : ∀ e ∈ inner, e.line < s.lineCount)
    (hstop : stop = (tail.head?.map Entry.line).getD s.lineCount) :
    e ∈ inner ↔ e ∈ inner ++ tail ∧ e.line < stop := by
  obtain ⟨-, htail, hacross⟩ := List.pairwise_append.1 hlines
  constructor
  · intro he
    refine ⟨List.mem_append_left _ he, ?_⟩
    cases tail with
    | nil =>
      rw [hstop]
      exact hcount e he
    | cons first rest =>
      rw [hstop]
      exact hacross e he first List.mem_cons_self
  · rintro ⟨he, hlt⟩
    rcases List.mem_append.1 he with he | he
    · exact he
    · -- the entries after the block are not above its end, which is at the first of them
      exfalso
      cases tail with
      | nil => exact List.not_mem_nil he
      | cons first rest =>
        rw [hstop] at hlt
        rcases List.mem_cons.1 he with rfl | he
        · exact Nat.lt_irrefl _ hlt
        · exact Nat.lt_asymm hlt ((List.pairwise_cons.1 htail).1 e he)

end Block

/-- The block below an opening entry is what stands above the end of its list. -/
theorem exists_listEnds (hsplit : s.entries = before ++ opening :: below) :
    s.ListEnds opening (ListItem.block s.lineCount opening.indent below).2 ∧
      ∀ e, e ∈ (ListItem.block s.lineCount opening.indent below).1 ↔
        e ∈ s.entries ∧ opening.line < e.line ∧
          e.line < (ListItem.block s.lineCount opening.indent below).2 := by
  obtain ⟨tail, hbelow, hinner, htail⟩ :=
    ListItem.exists_block_append s.lineCount opening.indent below
  have hstop := ListItem.block_snd hbelow
  -- from here on only the entries inside and after the block count, not how they were cut
  generalize (ListItem.block s.lineCount opening.indent below).1 = inner at *
  generalize (ListItem.block s.lineCount opening.indent below).2 = stop at *
  have hentries : ∀ e, e ∈ inner ++ tail ↔ e ∈ s.entries ∧ opening.line < e.line := by
    intro e
    rw [← hbelow]
    exact mem_below_iff hsplit
  have hlines : (inner ++ tail).Pairwise fun e e' => e.line < e'.line := by
    rw [← hbelow]
    exact pairwise_below hsplit
  have hcount : ∀ e ∈ inner, e.line < s.lineCount := by
    intro e he
    exact line_lt_of_mem_entries ((hentries e).1 (List.mem_append_left _ he)).1
  have hmem : ∀ e, e ∈ inner ↔ e ∈ s.entries ∧ opening.line < e.line ∧ e.line < stop := by
    intro e
    rw [mem_inner_iff hlines hcount hstop, hentries, and_assoc]
  refine ⟨⟨?_, ?_, ?_⟩, hmem⟩
  · cases tail with
    | nil =>
      rw [hstop]
      apply line_lt_of_mem_entries
      rw [hsplit]
      exact List.mem_append_right _ List.mem_cons_self
    | cons first rest =>
      rw [hstop]
      exact ((hentries first).1 (List.mem_append_right _ List.mem_cons_self)).2
  · cases tail with
    | nil => exact Or.inl hstop
    | cons first rest =>
      have hfirst := ((hentries first).1 (List.mem_append_right _ List.mem_cons_self)).1
      exact Or.inr ⟨first, hfirst, hstop.symm, ListItem.closes_iff.1 (htail first rfl)⟩
  · -- an entry above the end is inside the block, where none closes it
    intro e he hlt hbefore hexits
    have hclosed := hinner e ((hmem e).2 ⟨he, hlt, hbefore⟩)
    rw [ListItem.closes_iff.2 hexits] at hclosed
    exact absurd hclosed.symm Bool.false_ne_true

theorem ListEnds.le_lineCount {stop : Nat} (h : s.ListEnds opening stop) : stop ≤ s.lineCount := by
  rcases h.reaches with rfl | ⟨e, he, rfl, -⟩
  · exact Nat.le_refl _
  · exact Nat.le_of_lt (line_lt_of_mem_entries he)

/-! ## The items of a list -/

theorem exists_marked_line {column : Nat} (he : e ∈ s.entries)
    (hmarker : ListItem.isMarkerAt column e = true) :
    ∃ line, s.line? e.line = some line ∧ line.indentation = column ∧
      (Line.item? (trim line)).isSome = true ∧ (line.HasMarkerAt column ↔ line.IsFlush) := by
  rw [ListItem.isMarkerAt, Bool.and_eq_true, beq_iff_eq] at hmarker
  obtain ⟨hmarker, rfl⟩ := hmarker
  obtain ⟨line, hline, hentry⟩ := exists_line_of_mem_entries he
  refine ⟨line, hline, Entry.indentation_eq hentry, ?_, Entry.hasMarkerAt_iff hentry hmarker⟩
  rwa [← Entry.content_of_ofLine? hentry]

section Items

variable {column stop : Nat} {markers : List Entry} {i : Nat} {item : ListItem}

theorem exists_marker_of_getElem? (h : (ListItem.number stop 0 markers)[i]? = some item) :
    ∃ e, markers[i]? = some e ∧
      item = ⟨i, e.line, e.indent, (markers[i + 1]?.map Entry.line).getD stop⟩ := by
  rw [ListItem.getElem?_number, Nat.zero_add] at h
  obtain ⟨e, he, hitem⟩ := Option.map_eq_some_iff.1 h
  exact ⟨e, he, hitem.symm⟩

theorem exists_marker_of_mem (h : item ∈ ListItem.number stop 0 markers) :
    ∃ i e, markers[i]? = some e ∧
      item = ⟨i, e.line, e.indent, (markers[i + 1]?.map Entry.line).getD stop⟩ := by
  obtain ⟨i, hi⟩ := List.mem_iff_getElem?.1 h
  exact ⟨i, exists_marker_of_getElem? hi⟩

theorem line_lt_of_getElem? {j : Nat} {first second : Entry}
    (hlines : markers.Pairwise fun e e' => e.line < e'.line) (hfirst : markers[i]? = some first)
    (hsecond : markers[j]? = some second) (hij : i < j) : first.line < second.line := by
  obtain ⟨hi, rfl⟩ := List.getElem?_eq_some_iff.1 hfirst
  obtain ⟨hj, rfl⟩ := List.getElem?_eq_some_iff.1 hsecond
  exact List.pairwise_iff_getElem.1 hlines i j hi hj hij

/-- The items of markers in the order of their lines go up to the items after them. -/
theorem pairwise_number (hlines : markers.Pairwise fun e e' => e.line < e'.line) :
    (ListItem.number stop 0 markers).Pairwise fun first second =>
      first.line < second.line ∧ first.endLine ≤ second.line := by
  rw [List.pairwise_iff_getElem]
  intro i j hi hj hij
  obtain ⟨e, he, hfirst⟩ := exists_marker_of_getElem? (List.getElem?_eq_getElem hi)
  obtain ⟨e', he', hsecond⟩ := exists_marker_of_getElem? (List.getElem?_eq_getElem hj)
  rw [hfirst, hsecond]
  refine ⟨line_lt_of_getElem? hlines he he' hij, ?_⟩
  have hlength := (List.getElem?_eq_some_iff.1 he').1
  have hnext : markers[i + 1]? = some markers[i + 1] := List.getElem?_eq_getElem (by omega)
  rw [hnext]
  -- the next marker is that of the later item, or above it
  rcases Nat.lt_or_eq_of_le (Nat.succ_le_of_lt hij) with hlt | rfl
  · exact Nat.le_of_lt (line_lt_of_getElem? hlines hnext he' hlt)
  · rw [← hnext, he']
    exact Nat.le_refl _

/-- The markers of a list make a partition of it. -/
theorem isPartition_number (hends : s.ListEnds opening stop)
    (hlines : markers.Pairwise fun e e' => e.line < e'.line)
    (hmarkers : ∀ e, e ∈ markers ↔ ListItem.isMarkerAt column e = true ∧ e ∈ s.entries ∧
      opening.line < e.line ∧ e.line < stop) :
    s.IsPartition opening column stop (ListItem.number stop 0 markers) := by
  have hmarker : ∀ {i : Nat} {e : Entry}, markers[i]? = some e →
      ListItem.isMarkerAt column e = true ∧ e ∈ s.entries ∧ opening.line < e.line ∧
        e.line < stop :=
    fun h => (hmarkers _).1 (List.mem_of_getElem? h)
  refine ⟨?_, ?_, ?_, ?_, ?_, ?_, pairwise_number hlines, ?_⟩
  · intro i item h
    obtain ⟨e, -, rfl⟩ := exists_marker_of_getElem? h
    rfl
  · intro item h
    obtain ⟨i, e, he, rfl⟩ := exists_marker_of_mem h
    exact beq_iff_eq.1 (Bool.and_eq_true_iff.1 (hmarker he).1).2
  · intro item h
    obtain ⟨i, e, he, rfl⟩ := exists_marker_of_mem h
    exact exists_marked_line (hmarker he).2.1 (hmarker he).1
  · intro item h
    obtain ⟨i, e, he, rfl⟩ := exists_marker_of_mem h
    obtain ⟨-, -, hbelow, hbefore⟩ := hmarker he
    refine ⟨hbelow, ?_⟩
    cases hnext : markers[i + 1]? with
    | none => exact ⟨hbefore, hends.le_lineCount⟩
    | some next =>
      have hlt := line_lt_of_mem_entries (hmarker hnext).2.1
      exact ⟨line_lt_of_getElem? hlines he hnext (Nat.lt_succ_self i), Nat.le_of_lt hlt⟩
  · intro i item next h hnext
    obtain ⟨e, -, rfl⟩ := exists_marker_of_getElem? h
    obtain ⟨e', he', rfl⟩ := exists_marker_of_getElem? hnext
    rw [he']
    rfl
  · intro item h
    rw [Option.mem_def, List.getLast?_eq_getElem?, ListItem.length_number] at h
    obtain ⟨e, he, rfl⟩ := exists_marker_of_getElem? h
    have hlength := (List.getElem?_eq_some_iff.1 he).1
    have hnone : markers[markers.length - 1 + 1]? = none := List.getElem?_eq_none (by omega)
    rw [hnone]
    rfl
  · intro e he hbelow hbefore hcolumn
    obtain ⟨i, hi⟩ := List.mem_iff_getElem?.1 ((hmarkers e).2 ⟨hcolumn, he, hbelow, hbefore⟩)
    refine ⟨⟨i, e.line, e.indent, (markers[i + 1]?.map Entry.line).getD stop⟩, ?_, rfl⟩
    apply List.mem_of_getElem? (i := i)
    rw [ListItem.getElem?_number, hi, Nat.zero_add]
    rfl

end Items

/-- The items of the list that an entry opens. -/
theorem OpensList.exists_listItems (h : s.OpensList name opening) : ∃ before below,
    s.entries = before ++ opening :: below ∧ listItems s name =
      ListItem.number (ListItem.block s.lineCount opening.indent below).2 0
        (ListItem.markers (ListItem.block s.lineCount opening.indent below).1) := by
  obtain ⟨before, below, hsplit, hopens, hbefore⟩ := h
  have hskip : ∀ e ∈ before, (!ListItem.opensBlock name.toList e.content) = true := by
    intro e he
    rw [hbefore e he]
    rfl
  have hdrop : (s.entries.dropWhile fun e => !ListItem.opensBlock name.toList e.content) =
      opening :: below := by
    rw [hsplit, List.dropWhile_append_of_pos hskip,
      List.dropWhile_cons_of_neg (by simp [hopens])]
  refine ⟨before, below, hsplit, ?_⟩
  rw [listItems, hdrop]

theorem OpensList.exists_isPartition (h : s.OpensList name opening) :
    ∃ column stop, s.ListEnds opening stop ∧
      s.IsPartition opening column stop (listItems s name) := by
  obtain ⟨before, below, hsplit, hitems⟩ := h.exists_listItems
  obtain ⟨hends, hmem⟩ := exists_listEnds hsplit
  obtain ⟨column, hmarkers⟩ :=
    ListItem.exists_markers_eq (ListItem.block s.lineCount opening.indent below).1
  refine ⟨column, _, hends, ?_⟩
  rw [hitems, hmarkers]
  apply isPartition_number hends
  · obtain ⟨tail, hbelow, -, -⟩ := ListItem.exists_block_append s.lineCount opening.indent below
    have hlines := pairwise_below hsplit
    rw [hbelow, List.pairwise_append] at hlines
    exact hlines.1.filter _
  · intro e
    rw [List.mem_filter, hmem, and_comm]

/-- Without an entry that opens it a list has no items. -/
theorem exists_opensList (h : listItems s name ≠ []) : ∃ opening, s.OpensList name opening := by
  cases hdrop : s.entries.dropWhile fun e => !ListItem.opensBlock name.toList e.content with
  | nil =>
    rw [listItems, hdrop] at h
    exact absurd rfl h
  | cons opening below =>
    refine ⟨opening, s.entries.takeWhile fun e => !ListItem.opensBlock name.toList e.content, below,
      ?_, ?_, ?_⟩
    · rw [← hdrop, List.takeWhile_append_dropWhile]
    · have hhead : opening ∈ (s.entries.dropWhile fun e =>
          !ListItem.opensBlock name.toList e.content).head? := by
        rw [hdrop]
        rfl
      have hopens := head?_dropWhile_eq_false hhead
      rwa [Bool.not_eq_false'] at hopens
    · intro e he
      have hpassed := List.mem_takeWhile_imp he
      rwa [Bool.not_eq_true'] at hpassed

end Source

/-- **The items of a list partition its lines.** They are numbered from zero in order and have one
column; each is on a line of its own below the entry that opens the list, whose text is a list
marker and its body; each goes up to the line of the next one, and the last up to the end of the
list; and no marker of the list at that column is left out. What opens the list is the first entry
with its name, and without such an entry there are no items. -/
theorem listItems_partition (s : Source) (name : String) :
    (∀ opening, s.OpensList name opening → ∃ column stop, s.ListEnds opening stop ∧
      s.IsPartition opening column stop (listItems s name)) ∧
    (listItems s name ≠ [] → ∃ opening, s.OpensList name opening) := by
  constructor
  · intro opening hopens
    exact hopens.exists_isPartition
  · intro hne
    exact Source.exists_opensList hne

/-- A list with a nested marker, a comment, and a no-break space before its second marker. -/
def spacedItems : Source :=
  Source.ofString "list: # all\n  - x\n    - deep\n# note\n  \u00a0- y\nend: 1\n"

/-- The entry that opens it. -/
def spacedOpening : Entry := ⟨0, 0, "list: # all".toList⟩

/-- A no-break space puts the marker of the second item to the right of its column. -/
theorem listItems_partition_noBreakSpace :
    (spacedItems.OpensList "list" spacedOpening ∧ listItems spacedItems "list" ≠ []) ∧
      listItems spacedItems "list" = [⟨0, 1, 2, 4⟩, ⟨1, 4, 2, 5⟩] ∧
      spacedItems.ListEnds spacedOpening 5 ∧
      ∃ line, spacedItems.line? 4 = some line ∧ ¬ line.HasMarkerAt 2 := by
  have hopens : spacedItems.OpensList "list" spacedOpening :=
    ⟨[], spacedItems.entries.tail, by decide +kernel, by decide +kernel, by simp⟩
  have hitems : listItems spacedItems "list" = [⟨0, 1, 2, 4⟩, ⟨1, 4, 2, 5⟩] := by decide +kernel
  have hne : listItems spacedItems "list" ≠ [] := by
    rw [hitems]
    exact List.cons_ne_nil _ _
  obtain ⟨column, stop, hends, hpartition⟩ :=
    (listItems_partition spacedItems "list").1 spacedOpening hopens
  rw [hitems] at hpartition
  obtain rfl : 5 = stop := hpartition.last ⟨1, 4, 2, 5⟩ rfl
  obtain rfl : 2 = column := hpartition.aligned ⟨1, 4, 2, 5⟩ (by simp)
  obtain ⟨line, hline, -, -, hmarker⟩ := hpartition.marked ⟨1, 4, 2, 5⟩ (by simp)
  refine ⟨⟨hopens, hne⟩, hitems, hends, line, hline, ?_⟩
  rw [hmarker]
  have hspace : spacedItems.line? 4 = some [' ', ' ', '\u00a0', '-', ' ', 'y'] := by
    decide +kernel
  obtain rfl := Option.some.inj (hline.symm.trans hspace)
  decide

end ResourceGraph
