import ResourceGraph.Proofs.Layout.Tree

/-!
# The parts of a block

`Block.parts` lists a block and everything in it, at every depth. What a path leads to is among them
(`mem_parts_of_at?`), so a path that leads nowhere from any of the parts but the first, the block
itself, leads somewhere from the root alone (`leadsOnlyFromRoot_of_parts`). A block is printed with
at most as many markers as there are list items in it, at all depths together
(`countP_isMarked_rows`).
-/

set_option autoImplicit false

namespace ResourceGraph

open Text

/-- Whether a row begins with the marker of a list item. -/
def Row.isMarked (r : Row) : Bool := (Line.item? r.content).isSome

namespace Block

/-- Whether a block is a list. -/
def isList : Block → Bool
  | .list _ _ => true
  | _ => false

mutual

/-- A block and all its parts. -/
def parts : Block → List Block
  | .scalar text => [.scalar text]
  | .mapping entries => .mapping entries :: entriesParts entries
  | .list deeper items => .list deeper items :: itemsParts items

/-- The values of some entries and all their parts. -/
def entriesParts : List (String × Block) → List Block
  | [] => []
  | (_, value) :: rest => parts value ++ entriesParts rest

/-- Some items and all their parts. -/
def itemsParts : List Block → List Block
  | [] => []
  | item :: rest => parts item ++ itemsParts rest

end

mutual

/-- The number of list items in a block, at all depths together. -/
def itemCount : Block → Nat
  | .scalar _ => 0
  | .mapping entries => entriesItemCount entries
  | .list _ items => itemsItemCount items

/-- The number of list items in the values of some entries. -/
def entriesItemCount : List (String × Block) → Nat
  | [] => 0
  | (_, value) :: rest => itemCount value + entriesItemCount rest

/-- The number of some items and of the list items in them. -/
def itemsItemCount : List Block → Nat
  | [] => 0
  | item :: rest => 1 + itemCount item + itemsItemCount rest

end

variable {b root part : Block} {entries : List (String × Block)} {items : List Block}
  {deeper : Bool} {path : List Segment}

/-! ## Parts and paths -/

theorem mem_entriesParts : part ∈ entriesParts entries ↔ ∃ e ∈ entries, part ∈ e.2.parts := by
  induction entries with
  | nil => simp [entriesParts]
  | cons e entries ih =>
    obtain ⟨key, value⟩ := e
    simp [entriesParts, ih]

theorem mem_itemsParts : part ∈ itemsParts items ↔ ∃ item ∈ items, part ∈ item.parts := by
  induction items with
  | nil => simp [itemsParts]
  | cons item items ih => simp [itemsParts, ih]

theorem mem_parts_self (b : Block) : b ∈ b.parts := by
  cases b <;> simp [parts]

/-- The parts of an entry's value are parts of the mapping. -/
theorem mem_parts_of_entry {e : String × Block} (he : e ∈ entries) (h : part ∈ e.2.parts) :
    part ∈ (mapping entries).parts := by
  rw [parts]
  exact List.mem_cons_of_mem _ (mem_entriesParts.2 ⟨e, he, h⟩)

/-- The parts of an item are parts of the list. -/
theorem mem_parts_of_item {item : Block} (hitem : item ∈ items) (h : part ∈ item.parts) :
    part ∈ (list deeper items).parts := by
  rw [parts]
  exact List.mem_cons_of_mem _ (mem_itemsParts.2 ⟨item, hitem, h⟩)

/-- The parts of what a segment leads to are parts of the block, and not the block itself. -/
theorem mem_parts_tail_of_child? {segment : Segment} {next : Block}
    (hnext : root.child? segment = some next) (h : part ∈ next.parts) :
    part ∈ root.parts.tail := by
  cases segment with
  | key key =>
    cases root with
    | mapping entries => exact mem_entriesParts.2 ⟨_, mem_of_lookup hnext, h⟩
    | scalar text => simp [child?] at hnext
    | list deeper items => simp [child?] at hnext
  | index i =>
    cases root with
    | list deeper items => exact mem_itemsParts.2 ⟨_, List.mem_of_getElem? hnext, h⟩
    | scalar text => simp [child?] at hnext
    | mapping entries => simp [child?] at hnext

/-- What a path leads to is a part. -/
theorem mem_parts_of_at? (h : root.at? path = some part) : part ∈ root.parts := by
  -- along the path, since the part is among those of what the first segment leads to
  induction path generalizing root with
  | nil =>
    obtain rfl := Option.some.inj h
    exact mem_parts_self root
  | cons segment path ih =>
    obtain ⟨next, hnext, hrest⟩ := Option.bind_eq_some_iff.1 h
    exact List.mem_of_mem_tail (mem_parts_tail_of_child? hnext (ih hrest))

/-- Whether no part of a tree but the tree itself has something at a path. -/
def LeadsOnlyFromRoot (root : Block) (path : List Segment) : Prop :=
  ∀ before, before ≠ [] → root.at? (before ++ path) = none

/-- Whether a path leads from the root alone shows in the parts. -/
theorem leadsOnlyFromRoot_of_parts (h : ∀ part ∈ root.parts.tail, part.at? path = none) :
    root.LeadsOnlyFromRoot path := by
  intro before hbefore
  obtain ⟨segment, rest, rfl⟩ := List.exists_cons_of_ne_nil hbefore
  rw [at?_append]
  cases hat : root.at? (segment :: rest) with
  | none => rfl
  | some part =>
    obtain ⟨next, hnext, hrest⟩ := Option.bind_eq_some_iff.1 hat
    exact h part (mem_parts_tail_of_child? hnext (mem_parts_of_at? hrest))

/-! ## Columns -/

/-- Only the markers of a list may stand at the column of the key above them. -/
theorem columnBelow_eq_or {step : Nat} (hstep : 0 < step) (column : Nat) (value : Block) :
    column < columnBelow step column value ∨
      column = columnBelow step column value ∧ value.isList = true := by
  cases value with
  | scalar text | mapping entries =>
    left
    rw [columnBelow]
    · omega
    · simp
  | list deeper items =>
    cases deeper with
    | false => exact Or.inr ⟨rfl, rfl⟩
    | true =>
      left
      rw [columnBelow]
      · omega
      · simp

/-! ## Markers -/

theorem item?_of_head? {line : Line} (h : line.head? ≠ some '-') : Line.item? line = none := by
  unfold Line.item?
  split
  · simp at h
  · simp at h
  · rfl

theorem item?_keyRow {column : Nat} {key : String} {value : Block}
    (hkey : isWord key.toList = true) :
    Line.item? (keyRow column key value).content = none := by
  obtain ⟨c, rest, hcons, -⟩ := exists_cons_of_isWord hkey
  have hhead := head?_ne_of_isWord hkey
  apply item?_of_head?
  rw [hcons] at hhead
  rw [keyRow, hcons]
  exact hhead

theorem isMarked_keyRow {column : Nat} {key : String} {value : Block}
    (hkey : isWord key.toList = true) : (keyRow column key value).isMarked = false := by
  rw [Row.isMarked, item?_keyRow hkey]
  rfl

theorem countP_isMarked_markFirst (column : Nat) (printed : List Row) :
    (markFirst column printed).countP Row.isMarked ≤ 1 + printed.countP Row.isMarked := by
  cases printed with
  | nil => simp [markFirst]
  | cons r printed =>
    rw [markFirst, List.countP_cons, List.countP_cons]
    split <;> omega

variable {step : Nat}

theorem countP_isMarked_rowsBelow {value : Block}
    (h : ∀ column, (rows step column value).countP Row.isMarked ≤ value.itemCount) (column : Nat) :
    (rowsBelow step column value).countP Row.isMarked ≤ value.itemCount := by
  cases value with
  | scalar text => simp [rowsBelow]
  | mapping _ | list _ _ =>
    rw [rowsBelow_of_ne_scalar step column (by simp)]
    exact h _

theorem countP_isMarked_entriesRows {entries : List (String × Block)}
    (hwords : ∀ e ∈ entries, isWord e.1.toList = true)
    (h : ∀ e ∈ entries, ∀ column, (rows step column e.2).countP Row.isMarked ≤ e.2.itemCount)
    (column : Nat) :
    (entriesRows step column entries).countP Row.isMarked ≤ entriesItemCount entries := by
  induction entries with
  | nil => simp [entriesRows]
  | cons e entries ih =>
    obtain ⟨key, value⟩ := e
    have hkey : (keyRow column key value).isMarked = false :=
      isMarked_keyRow (hwords (key, value) List.mem_cons_self)
    have hvalue := countP_isMarked_rowsBelow (h (key, value) List.mem_cons_self) column
    have hrest := ih (fun e he => hwords e (List.mem_cons_of_mem _ he))
      fun e he => h e (List.mem_cons_of_mem _ he)
    rw [entriesRows, List.cons_append, List.countP_cons_of_neg (by simp [hkey]),
      List.countP_append, entriesItemCount]
    exact Nat.add_le_add hvalue hrest

theorem countP_isMarked_itemsRows_of_rows {items : List Block}
    (h : ∀ item ∈ items, ∀ column, (rows step column item).countP Row.isMarked ≤ item.itemCount)
    (column : Nat) :
    (itemsRows step column items).countP Row.isMarked ≤ itemsItemCount items := by
  induction items with
  | nil => simp [itemsRows]
  | cons item items ih =>
    have hfirst := countP_isMarked_markFirst column (rows step (column + 2) item)
    have hitem := h item List.mem_cons_self (column + 2)
    have hrest := ih fun item' h' => h item' (List.mem_cons_of_mem _ h')
    rw [itemsRows, List.countP_append, itemsItemCount]
    omega

/-- A block is printed with at most as many markers as there are list items in it. -/
theorem countP_isMarked_rows (hb : b.isWellFormed = true) (column : Nat) :
    (rows step column b).countP Row.isMarked ≤ b.itemCount := by
  induction b using induct generalizing column with
  | scalar text =>
    obtain ⟨⟨c, rest, hcons, -, hdash⟩, -⟩ := isScalarText_iff.1 hb
    have hitem : Line.item? text.toList = none := by
      apply item?_of_head?
      rw [hcons]
      simpa using hdash
    simp [rows, Row.isMarked, hitem]
  | mapping entries ih =>
    obtain ⟨-, -, hentries⟩ := isWellFormed_mapping.1 hb
    rw [rows, itemCount]
    exact countP_isMarked_entriesRows (fun e he => (hentries e he).1)
      (fun e he => ih e he (hentries e he).2) column
  | list deeper items ih =>
    obtain ⟨-, hitems⟩ := isWellFormed_list.1 hb
    rw [rows, itemCount]
    exact countP_isMarked_itemsRows_of_rows (fun item h => ih item h (hitems item h)) column

/-- Some items are printed with at most as many markers as there are list items in them, and the
items themselves. -/
theorem countP_isMarked_itemsRows (hitems : ∀ item ∈ items, item.isWellFormed = true)
    (column : Nat) :
    (itemsRows step column items).countP Row.isMarked ≤ itemsItemCount items :=
  countP_isMarked_itemsRows_of_rows (fun item h => countP_isMarked_rows (hitems item h)) column

theorem itemsItemCount_eq_zero (h : itemsItemCount items = 0) : items = [] := by
  cases items with
  | nil => rfl
  | cons item items =>
    rw [itemsItemCount] at h
    omega

/-- The rows of some items stand right of the column of their markers, or are markers at it. -/
theorem isMarked_or_lt_of_mem_itemsRows (hitems : ∀ item ∈ items, item.isWellFormed = true)
    {column : Nat} {r : Row} (hr : r ∈ itemsRows step column items) :
    column < r.indent ∨ column = r.indent ∧ r.isMarked = true := by
  obtain ⟨item, hitem, hr⟩ := mem_itemsRows.1 hr
  rcases mem_markFirst hr with ⟨row, hrow, rfl⟩ | hr
  · right
    refine ⟨rfl, ?_⟩
    rw [Row.isMarked, Line.item?_marked (isPrinted_of_mem_rows (hitems item hitem) hrow).1]
    rfl
  · left
    have hindent := le_indent_of_mem_rows hr
    omega

end Block

end ResourceGraph
