import ResourceGraph.Proofs.Layout.Tree
import ResourceGraph.Proofs.Text.Value

/-!
# Sites of a printed document

A path has a site exactly when it leads to a part of the tree (`descend?_map_value`). The text of
the document at a site is the one that the path names: the last key and its colon stand right before
the position, or the marker of the last item right at it (`exists_line_of_site?`). From the position
of a scalar the source reads that scalar (`valueAt?_of_site?`).
-/

set_option autoImplicit false

namespace ResourceGraph

open Text

namespace Block

theorem cutAtKey?_eq_some {key : String} {entries before : List (String × Block)} {value : Block}
    (h : cutAtKey? key entries = some (before, value)) :
    (∀ e ∈ before, e.1 ≠ key) ∧ ∃ after, entries = before ++ (key, value) :: after := by
  induction entries generalizing before with
  | nil => simp [cutAtKey?] at h
  | cons e entries ih =>
    obtain ⟨k, v⟩ := e
    by_cases hk : k = key
    · simp only [cutAtKey?, hk, if_true, Option.some.injEq, Prod.mk.injEq] at h
      obtain ⟨rfl, rfl⟩ := h
      exact ⟨by simp, entries, by simp [hk]⟩
    · simp only [cutAtKey?, hk, if_false] at h
      obtain ⟨⟨before', value'⟩, hcut, heq⟩ := Option.map_eq_some_iff.1 h
      simp only [Prod.mk.injEq] at heq
      obtain ⟨rfl, rfl⟩ := heq
      obtain ⟨hbefore, after, rfl⟩ := ih hcut
      refine ⟨?_, after, rfl⟩
      intro e he
      rcases List.mem_cons.1 he with rfl | he
      · exact hk
      · exact hbefore e he

theorem cutAtKey?_append {key : String} {before : List (String × Block)}
    (h : ∀ e ∈ before, e.1 ≠ key) (value : Block) (after : List (String × Block)) :
    cutAtKey? key (before ++ (key, value) :: after) = some (before, value) := by
  induction before with
  | nil => simp [cutAtKey?]
  | cons e before ih =>
    have hrest : ∀ e' ∈ before, e'.1 ≠ key := fun e' he' => h e' (List.mem_cons_of_mem e he')
    rw [List.cons_append, cutAtKey?, if_neg (h e List.mem_cons_self), ih hrest]
    rfl

theorem cutAtKey?_map_snd (key : String) (entries : List (String × Block)) :
    (cutAtKey? key entries).map Prod.snd = entries.lookup key := by
  induction entries with
  | nil => rfl
  | cons e entries ih =>
    obtain ⟨k, v⟩ := e
    by_cases hk : k = key
    · simp [cutAtKey?, hk]
    · have hne : (key == k) = false := by simpa using fun h => hk h.symm
      rw [cutAtKey?, if_neg hk, List.lookup_cons, hne, ← ih, Option.map_map]
      rfl

end Block

namespace Site

open Block

variable {step : Nat} {s t : Site}

/-- The site of a key: its mapping, cut at the key, and what stands before it. -/
theorem child?_key {key : String} (h : s.child? step (.key key) = some t) :
    ∃ before after, s.value = .mapping (before ++ (key, t.value) :: after) ∧
      (∀ e ∈ before, e.1 ≠ key) ∧
      t.position = ⟨s.line + (entriesRows step s.column before).length,
        s.column + units key.toList + 1⟩ ∧
      t.column = columnBelow step s.column t.value ∧ t.line = t.position.line + 1 := by
  unfold child? at h
  cases hvalue : s.value with
  | mapping entries =>
    rw [hvalue] at h
    obtain ⟨⟨before, value⟩, hcut, rfl⟩ := Option.map_eq_some_iff.1 h
    obtain ⟨hbefore, after, hentries⟩ := cutAtKey?_eq_some hcut
    exact ⟨before, after, by rw [hentries], hbefore, rfl, rfl, rfl⟩
  | scalar text => simp [hvalue] at h
  | list deeper items => simp [hvalue] at h

/-- The site of an index: its list, cut at the item, and what stands before it. -/
theorem child?_index {i : Nat} (h : s.child? step (.index i) = some t) :
    ∃ deeper before after, s.value = .list deeper (before ++ t.value :: after) ∧
      before.length = i ∧
      t.position = ⟨s.line + (itemsRows step s.column before).length, s.column⟩ ∧
      t.column = s.column + 2 ∧ t.line = t.position.line := by
  unfold child? at h
  cases hvalue : s.value with
  | list deeper items =>
    rw [hvalue] at h
    obtain ⟨item, hitem, rfl⟩ := Option.map_eq_some_iff.1 h
    obtain ⟨hi, hget⟩ := List.getElem?_eq_some_iff.1 hitem
    refine ⟨deeper, items.take i, items.drop (i + 1), ?_, ?_, rfl, rfl, rfl⟩
    · rw [← hget, List.getElem_cons_drop hi, List.take_append_drop]
    · simp [Nat.le_of_lt hi]
  | scalar text => simp [hvalue] at h
  | mapping entries => simp [hvalue] at h

/-- An entry of a mapping has a site. -/
theorem child?_key_of_value {key : String} {before after : List (String × Block)} {value : Block}
    (hvalue : s.value = .mapping (before ++ (key, value) :: after))
    (hbefore : ∀ e ∈ before, e.1 ≠ key) :
    s.child? step (.key key) = some
      ⟨⟨s.line + (entriesRows step s.column before).length, s.column + units key.toList + 1⟩,
        columnBelow step s.column value, s.line + (entriesRows step s.column before).length + 1,
        value⟩ := by
  unfold child?
  simp only [hvalue, cutAtKey?_append hbefore]
  rfl

/-- An entry of a well-formed mapping has a site. -/
theorem exists_child?_entry (step : Nat) (hs : s.value.isWellFormed = true) {key : String}
    {before after : List (String × Block)} {value : Block}
    (hvalue : s.value = .mapping (before ++ (key, value) :: after)) :
    isWord key.toList = true ∧ ∃ u, s.child? step (.key key) = some u ∧
      u.position = ⟨s.line + (entriesRows step s.column before).length,
        s.column + (units key.toList + 1)⟩ ∧
      u.line = s.line + (entriesRows step s.column before).length + 1 ∧ u.value = value := by
  rw [hvalue] at hs
  obtain ⟨-, hkeys, hentries⟩ := isWellFormed_mapping.1 hs
  have hbefore : ∀ e ∈ before, e.1 ≠ key := by
    rw [List.map_append, List.map_cons, List.nodup_append] at hkeys
    intro e he
    exact hkeys.2.2 e.1 (List.mem_map_of_mem he) key List.mem_cons_self
  exact ⟨(hentries (key, value) (by simp)).1, _, child?_key_of_value hvalue hbefore, rfl, rfl, rfl⟩

/-- An item of a list has a site. -/
theorem child?_index_of_value {deeper : Bool} {before after : List Block} {item : Block}
    (hvalue : s.value = .list deeper (before ++ item :: after)) :
    s.child? step (.index before.length) = some
      ⟨⟨s.line + (itemsRows step s.column before).length, s.column⟩, s.column + 2,
        s.line + (itemsRows step s.column before).length, item⟩ := by
  unfold child?
  simp [hvalue]

theorem child?_map_value (segment : Segment) :
    (s.child? step segment).map Site.value = s.value.child? segment := by
  cases segment with
  | key key =>
    unfold child?
    cases hvalue : s.value with
    | mapping entries =>
      simp only [Block.child?, ← cutAtKey?_map_snd, Option.map_map]
      rfl
    | scalar text => rfl
    | list deeper items => rfl
  | index i =>
    unfold child?
    cases hvalue : s.value with
    | list deeper items =>
      simp only [Block.child?, Option.map_map]
      cases items[i]? <;> rfl
    | scalar text => rfl
    | mapping entries => rfl

/-- What a segment leads to has a site. -/
theorem exists_child? (step : Nat) {segment : Segment} {part : Block}
    (h : s.value.child? segment = some part) :
    ∃ u, s.child? step segment = some u ∧ u.value = part := by
  have hsite : (s.child? step segment).map Site.value = some part := by rw [child?_map_value, h]
  exact Option.map_eq_some_iff.1 hsite

/-- A path has a site exactly when it leads to a part, and the site holds that part. -/
theorem descend?_map_value (path : List Segment) :
    (s.descend? step path).map Site.value = s.value.at? path := by
  induction path generalizing s with
  | nil => rfl
  | cons segment rest ih =>
    have hchild : (s.child? step segment).map Site.value = s.value.child? segment :=
      child?_map_value segment
    rw [descend?, at?, ← hchild]
    cases s.child? step segment with
    | none => rfl
    | some u => exact ih

theorem value_child? {segment : Segment} (h : s.child? step segment = some t) :
    s.value.child? segment = some t.value := by
  rw [← child?_map_value segment, h]
  rfl

theorem value_at? {path : List Segment} (h : s.descend? step path = some t) :
    s.value.at? path = some t.value := by
  rw [← descend?_map_value path, h]
  rfl

theorem value_isWellFormed_of_child? {segment : Segment} (h : s.child? step segment = some t)
    (hs : s.value.isWellFormed = true) : t.value.isWellFormed = true :=
  isWellFormed_of_child? (value_child? h) hs

theorem value_isWellFormed_of_descend? {path : List Segment} (h : s.descend? step path = some t)
    (hs : s.value.isWellFormed = true) : t.value.isWellFormed = true :=
  isWellFormed_of_at? (value_at? h) hs

theorem column_le_of_child? {segment : Segment} (h : s.child? step segment = some t) :
    s.column ≤ t.column := by
  cases segment with
  | key key =>
    obtain ⟨before, after, -, -, -, hcolumn, -⟩ := child?_key h
    rw [hcolumn]
    exact le_columnBelow step s.column t.value
  | index i =>
    obtain ⟨deeper, before, after, -, -, -, hcolumn, -⟩ := child?_index h
    omega

theorem column_lt_of_child? (hstep : 0 < step) {segment : Segment}
    (h : s.child? step segment = some t) {entries : List (String × Block)}
    (ht : t.value = .mapping entries) : s.column < t.column := by
  cases segment with
  | key key =>
    obtain ⟨before, after, -, -, -, hcolumn, -⟩ := child?_key h
    rw [hcolumn, ht, columnBelow]
    · omega
    · simp
  | index i =>
    obtain ⟨deeper, before, after, -, -, -, hcolumn, -⟩ := child?_index h
    omega

/-- A path leads on only from a collection. -/
theorem value_ne_scalar_of_descend? {path : List Segment} (h : s.descend? step path = some t)
    (hpath : path ≠ []) (text : String) : s.value ≠ .scalar text := by
  intro hs
  obtain ⟨segment, rest, rfl⟩ := List.exists_cons_of_ne_nil hpath
  cases segment <;> simp [descend?, child?, hs] at h

theorem descend?_singleton (segment : Segment) :
    s.descend? step [segment] = s.child? step segment := by
  rw [descend?]
  cases s.child? step segment <;> rfl

theorem descend?_append (path rest : List Segment) :
    s.descend? step (path ++ rest) = (s.descend? step path).bind (descend? step rest) := by
  induction path generalizing s with
  | nil => rfl
  | cons segment path ih =>
    rw [List.cons_append, descend?, descend?, Option.bind_assoc]
    congr 1
    funext u
    exact ih

end Site

/-- A path has a site in a printed document exactly when it leads to a part of the tree. -/
theorem Block.site?_map_value (step : Nat) (root : Block) (path : List Segment) :
    (root.site? step path).map Site.value = root.at? path :=
  Site.descend?_map_value path

theorem Block.site?_append {step : Nat} {root : Block} {path : List Segment} {s : Site}
    (h : root.site? step path = some s) (rest : List Segment) :
    root.site? step (path ++ rest) = s.descend? step rest := by
  rw [site?] at h
  rw [site?, Site.descend?_append, h, Option.bind_some]

/-! ## The text at a site -/

/-- How the text before and after a position is written: a key with its colon before it and the
scalar of the value after it, or the marker of an item after it. -/
def Segment.Around (value : Block) (left right : Line) : Segment → Prop
  | .key name => (∃ before, left = before ++ name.toList ++ [':']) ∧ right = value.inline
  | .index _ => ∃ after, right = '-' :: ' ' :: after

/-- Whether a row shows at a column what a segment leads to. -/
def Row.Shows (r : Row) (column : Nat) (segment : Segment) (value : Block) : Prop :=
  ∃ left right, r.content = left ++ right ∧ r.indent + units left = column ∧
    segment.Around value left right

namespace Site

open Block

variable {step : Nat} {s t : Site}

theorem units_marker (line : Line) : units ('-' :: ' ' :: line) = 2 + units line := by
  have hdash : charUnits '-' = 1 := by decide
  have hspace : charUnits ' ' = 1 := by decide
  rw [units, units, hdash, hspace]
  omega

/-- A marker takes the two columns that the first row of its item is indented more. -/
theorem shows_marked {r : Row} {column character : Nat} {segment : Segment} {value : Block}
    (h : r.Shows character segment value) (hindent : r.indent = column + 2) :
    (⟨column, '-' :: ' ' :: r.content⟩ : Row).Shows character segment value := by
  obtain ⟨left, right, hcontent, hcolumn, haround⟩ := h
  refine ⟨'-' :: ' ' :: left, right, by simp [hcontent], ?_, ?_⟩
  · rw [units_marker]
    show column + (2 + units left) = character
    omega
  · cases segment with
    | key key =>
      obtain ⟨⟨before, rfl⟩, hright⟩ := haround
      exact ⟨⟨'-' :: ' ' :: before, rfl⟩, hright⟩
    | index i => exact haround

/-- The row of a key stands at its site. -/
theorem keyRow_of_child?_key {key : String} (h : s.child? step (.key key) = some t) :
    ∃ i, (rows step s.column s.value)[i]? = some (keyRow s.column key t.value) ∧
      t.position.line = s.line + i := by
  obtain ⟨before, after, hvalue, -, hposition, -⟩ := child?_key h
  refine ⟨(entriesRows step s.column before).length, ?_, by rw [hposition]⟩
  rw [hvalue, rows, entriesRows_append, entriesRows]
  simp

theorem exists_row_child? {segment : Segment} (h : s.child? step segment = some t)
    (hs : s.value.isWellFormed = true) :
    ∃ i row, (rows step s.column s.value)[i]? = some row ∧ t.position.line = s.line + i ∧
      row.Shows t.position.character segment t.value := by
  cases segment with
  | key key =>
    obtain ⟨before, after, -, -, hposition, -⟩ := child?_key h
    obtain ⟨i, hrow, hline⟩ := keyRow_of_child?_key h
    refine ⟨i, keyRow s.column key t.value, hrow, hline, key.toList ++ [':'], t.value.inline,
      by simp [keyRow], ?_, ⟨[], by simp⟩, rfl⟩
    have hcolon : units [':'] = 1 := by decide
    rw [hposition, units_append, hcolon, keyRow]
    exact (Nat.add_assoc _ _ _).symm
  | index i =>
    obtain ⟨deeper, before, after, hvalue, -, hposition, -⟩ := child?_index h
    have hitem : t.value.isWellFormed = true := value_isWellFormed_of_child? h hs
    obtain ⟨content, rest, hrows⟩ := rows_eq_cons step hitem (s.column + 2)
    refine ⟨(itemsRows step s.column before).length, ⟨s.column, '-' :: ' ' :: content⟩, ?_, ?_, ?_⟩
    · rw [hvalue, rows, itemsRows_append, itemsRows, hrows]
      simp [markFirst]
    · rw [hposition]
    · exact ⟨[], '-' :: ' ' :: content, rfl, by rw [hposition]; rfl, content, rfl⟩

/-- The rows below a key stand among the rows of its mapping. -/
theorem row_of_child?_key {key : String} {u : Site} {i : Nat} {row : Row}
    (hu : s.child? step (.key key) = some u) (hscalar : ∀ text, u.value ≠ .scalar text)
    (hrow : (rows step u.column u.value)[i]? = some row) :
    ∃ j, (rows step s.column s.value)[j]? = some row ∧ u.line + i = s.line + j := by
  obtain ⟨before, after, hvalue, -, hposition, hcolumn, hline⟩ := child?_key hu
  have hbelow : rowsBelow step s.column u.value = rows step u.column u.value := by
    rw [hcolumn, rowsBelow_of_ne_scalar step s.column hscalar]
  obtain ⟨hi, -⟩ := List.getElem?_eq_some_iff.1 hrow
  refine ⟨(entriesRows step s.column before).length + (i + 1), ?_, ?_⟩
  · -- one row further down, since the row of the key comes first
    rw [hvalue, rows, entriesRows_append, entriesRows, hbelow,
      List.getElem?_append_right (Nat.le_add_right _ _), Nat.add_sub_cancel_left,
      List.cons_append, List.getElem?_cons_succ, List.getElem?_append_left hi, hrow]
  · rw [hline, hposition]
    show s.line + _ + 1 + i = s.line + (_ + (i + 1))
    omega

/-- The rows of an item stand among the rows of its list, the first of them behind a marker. -/
theorem shows_of_child?_index {k : Nat} {last : Segment} {u : Site} {i : Nat} {row : Row}
    {character : Nat} {value : Block} (hu : s.child? step (.index k) = some u)
    (hs : s.value.isWellFormed = true)
    (hrow : (rows step u.column u.value)[i]? = some row) (hshows : row.Shows character last value) :
    ∃ j row', (rows step s.column s.value)[j]? = some row' ∧ u.line + i = s.line + j ∧
      row'.Shows character last value := by
  obtain ⟨deeper, before, after, hvalue, -, hposition, hcolumn, hline⟩ := child?_index hu
  have hitem : u.value.isWellFormed = true := value_isWellFormed_of_child? hu hs
  obtain ⟨content, rest, hrows⟩ := rows_eq_cons step hitem (s.column + 2)
  have hprinted : ∀ j,
      (rows step s.column s.value)[(itemsRows step s.column before).length + j]? =
      (markFirst s.column (rows step (s.column + 2) u.value) ++
        itemsRows step s.column after)[j]? := by
    intro j
    rw [hvalue, rows, itemsRows_append, itemsRows,
      List.getElem?_append_right (Nat.le_add_right _ _), Nat.add_sub_cancel_left]
  have hstart : u.line + i = s.line + ((itemsRows step s.column before).length + i) := by
    rw [hline, hposition]
    exact Nat.add_assoc _ _ _
  rw [hcolumn, hrows] at hrow
  rw [hrows] at hprinted
  cases i with
  | zero =>
    -- the first row of the item stands behind its marker
    simp only [List.getElem?_cons_zero, Option.some.injEq] at hrow
    subst hrow
    exact ⟨_, _, hprinted 0, hstart, shows_marked hshows rfl⟩
  | succ i =>
    -- the other rows are printed as they are
    obtain ⟨hi, -⟩ := List.getElem?_eq_some_iff.1 hrow
    refine ⟨_, row, ?_, hstart, hshows⟩
    rw [hprinted (i + 1), markFirst, List.cons_append, List.getElem?_cons_succ]
    rw [List.getElem?_cons_succ] at hrow
    rw [List.getElem?_append_left (by simpa using hi), hrow]

/-- At the site of a path the rows show what its last segment leads to. -/
theorem exists_row_descend? {path : List Segment} {last : Segment}
    (h : s.descend? step (path ++ [last]) = some t) (hs : s.value.isWellFormed = true) :
    ∃ i row, (rows step s.column s.value)[i]? = some row ∧ t.position.line = s.line + i ∧
      row.Shows t.position.character last t.value := by
  -- the row is found at the last step of the path, and lifted through the parts above it
  induction path generalizing s with
  | nil =>
    obtain ⟨u, hu, htu⟩ := Option.bind_eq_some_iff.1 h
    simp only [descend?, Option.some.injEq] at htu
    subst htu
    exact exists_row_child? hu hs
  | cons segment path ih =>
    rw [List.cons_append, descend?] at h
    obtain ⟨u, hu, hrest⟩ := Option.bind_eq_some_iff.1 h
    obtain ⟨i, row, hrow, hline, hshows⟩ := ih hrest (value_isWellFormed_of_child? hu hs)
    have hlifted : ∃ j row', (rows step s.column s.value)[j]? = some row' ∧
        u.line + i = s.line + j ∧ row'.Shows t.position.character last t.value := by
      cases segment with
      | key key =>
        obtain ⟨j, hrow', hlines⟩ :=
          row_of_child?_key hu (value_ne_scalar_of_descend? hrest (by simp)) hrow
        exact ⟨j, row, hrow', hlines, hshows⟩
      | index k => exact shows_of_child?_index hu hs hrow hshows
    obtain ⟨j, row', hrow', hlines, hshows'⟩ := hlifted
    exact ⟨j, row', hrow', by rw [hline, hlines], hshows'⟩

/-- The parts below a site stand on the lines of its rows. -/
theorem line_of_descend? {path : List Segment} (hpath : path ≠ [])
    (h : s.descend? step path = some t) (hs : s.value.isWellFormed = true) :
    ∃ i < (rows step s.column s.value).length, t.position.line = s.line + i := by
  rw [← List.dropLast_concat_getLast hpath] at h
  obtain ⟨i, row, hrow, hline, -⟩ := exists_row_descend? h hs
  obtain ⟨hi, -⟩ := List.getElem?_eq_some_iff.1 hrow
  exact ⟨i, hi, hline⟩

/-- The rows of an item end before the line of every later item. -/
theorem lines_le_of_child?_index {i j : Nat} {u w : Site} (hji : j < i)
    (hu : s.child? step (.index j) = some u) (hw : s.child? step (.index i) = some w) :
    u.line + (rows step u.column u.value).length ≤ w.line := by
  obtain ⟨_, before, after, hvalue, hj, hposition, hcolumn, hline⟩ := child?_index hu
  obtain ⟨_, before', after', hvalue', hi, hposition', -, hline'⟩ := child?_index hw
  -- the items before the later one begin with those before the earlier one and that one itself
  have hbefore : before' = before ++ u.value :: after.take (i - j - 1) := by
    rw [hvalue] at hvalue'
    have hitems : before ++ u.value :: after = before' ++ w.value :: after' :=
      (Block.list.inj hvalue').2
    have htake := congrArg (List.take i) hitems
    rw [← hi, List.take_left, hi, List.take_append, hj, List.take_of_length_le (by omega)] at htake
    have hcons : i - j = i - j - 1 + 1 := by omega
    rw [← htake, hcons, List.take_succ_cons, Nat.add_sub_cancel]
  rw [hline, hline', hposition, hposition', hcolumn, hbefore, itemsRows_append, itemsRows,
    List.length_append, List.length_append, length_markFirst]
  show s.line + _ + _ ≤ s.line + _
  omega

end Site

namespace Block

/-- The line at a site shows what the last segment of its path leads to. -/
theorem exists_line_of_site? {step : Nat} {root : Block} (hroot : root.isWellFormed = true)
    {path : List Segment} {last : Segment} {t : Site}
    (h : root.site? step (path ++ [last]) = some t) :
    ∃ left right, (root.lines step)[t.position.line]? = some (left ++ right) ∧
      units left = t.position.character ∧ last.Around t.value left right := by
  obtain ⟨i, row, hrow, hline, left, right, hcontent, hcolumn, haround⟩ :=
    Site.exists_row_descend? h hroot
  have hi : t.position.line = i := by simpa using hline
  refine ⟨List.replicate row.indent ' ' ++ left, right, ?_, ?_, ?_⟩
  · rw [lines, List.getElem?_map, hi, hrow, Option.map_some, Row.line, hcontent, List.append_assoc]
  · rw [units_append, units_replicate_space, hcolumn]
  · cases last with
    | key key =>
      obtain ⟨⟨before, rfl⟩, hright⟩ := haround
      exact ⟨⟨List.replicate row.indent ' ' ++ before, by simp⟩, hright⟩
    | index k => exact haround

end Block

/-! ## Reading a scalar from its site -/

/-- From the position of a scalar entry the source reads its text, one column further. -/
theorem Source.valueAt?_of_site? {step : Nat} {root : Block} (hroot : root.isWellFormed = true)
    {s : Source} (hs : s.lines = root.lines step) {path : List Segment} {key text : String}
    {t : Site} (h : root.site? step (path ++ [.key key]) = some t) (ht : t.value = .scalar text) :
    s.valueAt? t.position = some (t.position.advance 1, text.toList) := by
  obtain ⟨left, right, hline, hcolumn, -, hright⟩ := Block.exists_line_of_site? hroot h
  have htext : Block.isScalarText text.toList = true := by
    have hvalue := Site.value_isWellFormed_of_descend? h hroot
    rwa [ht] at hvalue
  have hsolid := Block.isSolid_of_isScalarText htext
  obtain ⟨⟨c, rest, hcons, hc, -⟩, -, -, hhash, -⟩ := Block.isScalarText_iff.1 htext
  -- right of the position stand one blank and the scalar
  have hrest : fromColumn t.position.character (left ++ right) = ' ' :: text.toList := by
    rw [← hcolumn, fromColumn_units, hright, ht, Block.inline]
  -- the scalar does not begin with a blank, so exactly the one before it is dropped
  have hdrop : (' ' :: text.toList).dropWhile isIndent = text.toList := by
    rw [hcons]
    simp [isIndent_of_not_isBlank hc, show isIndent ' ' = true by decide]
  have htake : units ((' ' :: text.toList).takeWhile isIndent) = 1 := by
    rw [hcons]
    simp [isIndent_of_not_isBlank hc, show isIndent ' ' = true by decide, units,
      show charUnits ' ' = 1 by decide]
  rw [valueAt?, line?, hs, hline, Option.map_some, hrest]
  simp only [hdrop, htake, cutComment_of_not_mem hhash, trimEnd_of_isSolid hsolid]

end ResourceGraph
