import ResourceGraph.Proofs.Layout.Parts
import ResourceGraph.Proofs.Resolver.Printed

/-!
# Searches that start over

A search that is inside a block starts over at the first row outside it (`run_of_beginsOutside`).
Until then it passes over the rows of a block in which the next segment of the path is missing: one
without the key (`run_no_key`), a list that is too short (`run_no_item`), or any rows with too few
markers (`run_few_markers`).
-/

set_option autoImplicit false

namespace ResourceGraph

open Text Block

namespace Block

/-- A row at the column of a block is not written with a key that the block does not have. -/
theorem key_ne_of_mem_rows {step column : Nat} (hstep : 0 < step) {b : Block}
    (hb : b.isWellFormed = true) {name : String} (hname : name.toList.head? ≠ some '-')
    (habsent : b.child? (.key name) = none) {r : Row} (hr : r ∈ rows step column b)
    (hcolumn : r.indent = column) {k : Line.Key} (hk : Line.key? r.content = some k) :
    k.key ≠ name.toList := by
  cases b with
  | scalar text =>
    -- a scalar has no colon
    rw [rows, List.mem_singleton] at hr
    obtain ⟨-, -, hcolon, -⟩ := isScalarText_iff.1 hb
    rw [hr] at hk
    have htext : text.toList = k.head ++ ':' :: k.rest := Line.key?_eq_some hk
    rw [htext] at hcolon
    exact absurd (List.mem_append_right _ List.mem_cons_self) hcolon
  | mapping entries =>
    rw [rows] at hr
    refine key_ne_of_mem_entriesRows hstep hname ?_ hr hcolumn hk
    intro e he
    refine ⟨((isWellFormed_mapping.1 hb).2.2 e he).1, ?_⟩
    rintro rfl
    have hnone := List.lookup_eq_none_iff.1 habsent e he
    simp at hnone
  | list deeper items =>
    rw [rows] at hr
    obtain ⟨item, -, hr⟩ := mem_itemsRows.1 hr
    -- the other rows of an item are right of the column
    rcases mem_markFirst hr with ⟨row, -, rfl⟩ | hr
    · exact Line.key_ne_of_marked hname hk
    · have hindent := le_indent_of_mem_rows hr
      omega

end Block

namespace Walk

variable {path rest : List Segment} {name : String} {i n anchor column step : Nat}
  {child : Option Nat} {tail : List Entry}

/-! ## Rows outside the block -/

/-- Whether the first of some entries is outside a block whose key or marker stands at a column:
it is further left, or at the column and, where markers there would go on with the block, none. -/
def BeginsOutside (column : Nat) (markers : Bool) (tail : List Entry) : Prop :=
  ∀ e ∈ tail.head?, e.indent < column ∨
    e.indent = column ∧ (markers = true → Line.item? e.content = none)

theorem beginsOutside_nil (column : Nat) (markers : Bool) : BeginsOutside column markers [] := by
  intro e he
  simp at he

theorem BeginsOutside.mono {a b : Nat} {m m' : Bool} (h : BeginsOutside a m tail)
    (hlt : a < b ∨ a = b ∧ (m' = true → m = true)) : BeginsOutside b m' tail := by
  intro e he
  rcases hlt with hlt | ⟨rfl, hm⟩
  · left
    rcases h e he with hleft | ⟨hsame, -⟩ <;> omega
  · rcases h e he with hleft | ⟨hsame, hitem⟩
    · exact Or.inl hleft
    · exact Or.inr ⟨hsame, fun h' => hitem (hm h')⟩

theorem BeginsOutside.of_le {a b : Nat} {m : Bool} (h : BeginsOutside a m tail) (hle : a ≤ b) :
    BeginsOutside b m tail := by
  apply h.mono
  rcases Nat.lt_or_eq_of_le hle with hlt | hsame
  · exact Or.inl hlt
  · exact Or.inr ⟨hsame, id⟩

/-- A search for a key goes on with the block at no marker. -/
theorem BeginsOutside.of_true {m : Bool} (h : BeginsOutside column true tail) :
    BeginsOutside column m tail :=
  h.mono (Or.inr ⟨rfl, fun _ => rfl⟩)

/-- The rows of the entries that follow in a mapping are outside the value of an entry. -/
theorem beginsOutside_entriesRows {entries : List (String × Block)}
    (hentries : ∀ e ∈ entries, isWord e.1.toList = true) (h : BeginsOutside column true tail) :
    BeginsOutside column true (Row.numbered n (entriesRows step column entries) ++ tail) := by
  cases entries with
  | nil =>
    rw [entriesRows]
    exact h
  | cons e entries =>
    intro e' he'
    rw [entriesRows, List.cons_append, Row.numbered, List.cons_append, List.head?_cons,
      Option.mem_some_iff] at he'
    rw [← he']
    right
    refine ⟨rfl, ?_⟩
    intro _
    show Line.item? (keyRow column e.1 e.2).content = none
    exact item?_keyRow (hentries e List.mem_cons_self)

/-- The rows of the items that follow in a list are outside an item. -/
theorem beginsOutside_itemsRows {items : List Block}
    (hitems : ∀ item ∈ items, item.isWellFormed = true) (h : BeginsOutside column false tail) :
    BeginsOutside column false (Row.numbered n (itemsRows step column items) ++ tail) := by
  cases items with
  | nil =>
    rw [itemsRows]
    exact h
  | cons item items =>
    obtain ⟨content, below, hrows⟩ :=
      rows_eq_cons step (hitems item List.mem_cons_self) (column + 2)
    intro e he
    rw [itemsRows, hrows, markFirst, List.cons_append, Row.numbered, List.cons_append,
      List.head?_cons, Option.mem_some_iff] at he
    rw [← he]
    right
    exact ⟨rfl, fun h => absurd h Bool.false_ne_true⟩

/-- A search inside a block starts over at the first row outside it. -/
theorem run_of_beginsOutside {w : Walk} (hinside : w.inside = true)
    (h : BeginsOutside w.anchor (w.pending.head?.any Segment.isIndex) tail) :
    run path tail w = run path tail (start path) := by
  cases tail with
  | nil => rfl
  | cons e tail =>
    have hleaves : w.leaves e = true := by
      rcases h e rfl with hleft | ⟨hsame, hitem⟩
      · simp [leaves, hleft]
      · cases hindex : w.pending.head?.any Segment.isIndex with
        | false => simp [leaves, hsame, hindex]
        | true => simp [leaves, hsame, hitem hindex]
    exact run_of_leaves hinside hleaves tail

/-! ## Blocks that are passed over -/

/-- A block without the searched key is passed over. -/
theorem run_no_key (hstep : 0 < step) {b : Block} (hb : b.isWellFormed = true)
    (hname : name.toList.head? ≠ some '-') (habsent : b.child? (.key name) = none)
    (hanchor : anchor < column) (hchild : child = none ∨ child = some column)
    (tail : List Entry) :
    run path (Row.numbered n (rows step column b) ++ tail)
        (enter (.key name :: rest) anchor child) =
      run path tail (enter (.key name :: rest) anchor (some column)) := by
  rw [run_fix_rows hb hanchor hchild]
  apply run_append_of_going
  intro e he
  obtain ⟨r, hr, hindent, hcontent⟩ := Row.mem_numbered he
  have hcolumn := le_indent_of_mem_rows hr
  rw [← hindent] at hcolumn
  apply step_other_key (by omega) hcolumn
  intro hsame k hk
  rw [hcontent] at hk
  exact key_ne_of_mem_rows hstep hb hname habsent hr (hindent ▸ hsame) hk

/-- A list with too few items is passed over in the search for an item. -/
theorem run_no_item {items : List Block} (hanchor : anchor ≤ column) (hne : items ≠ [])
    (hitems : ∀ item ∈ items, item.isWellFormed = true) (hlength : items.length ≤ i)
    (tail : List Entry) :
    run path (Row.numbered n (itemsRows step column items) ++ tail)
        (enter (.index i :: rest) anchor child) =
      run path tail (counting i rest anchor child column (0 + items.length)) := by
  rw [run_fix_items hanchor hne hitems]
  apply run_counted_items hanchor hitems
  omega

/-- Rows with too few markers are passed over in the search for an item. -/
theorem run_few_markers {printed : List Row} {w : Walk} (hpending : w.pending = .index i :: rest)
    (hinside : w.inside = true →
      ∀ r ∈ printed, w.anchor < r.indent ∨ w.anchor = r.indent ∧ r.isMarked = true)
    (hfew : w.seen + printed.countP Row.isMarked ≤ i) (tail : List Entry) :
    ∃ fixed seen, run path (Row.numbered n printed ++ tail) w =
      run path tail { w with itemColumn := fixed, seen := seen } := by
  -- the markers that were passed and those that are left are at most as many as the index
  induction printed generalizing n w with
  | nil => exact ⟨w.itemColumn, w.seen, rfl⟩
  | cons r printed ih =>
    rw [List.countP_cons] at hfew
    have hleaves : w.inside = true → w.leaves ⟨n, r.indent, r.content⟩ = false := by
      intro h
      apply leaves_eq_false
      rcases hinside h r List.mem_cons_self with hright | ⟨hsame, hmarked⟩
      · exact Or.inl hright
      · exact Or.inr ⟨hsame, by rw [hpending]; rfl, hmarked⟩
    have hseen : r.isMarked = true → w.seen < i := by
      intro h
      rw [if_pos h] at hfew
      omega
    obtain ⟨fixed, seen, hstep, hle⟩ : ∃ fixed seen,
        Walk.step path ⟨n, r.indent, r.content⟩ w =
          .going { w with itemColumn := fixed, seen := seen } ∧
        seen ≤ w.seen + if r.isMarked then 1 else 0 := step_unwanted hpending hleaves hseen
    have hfew' : seen + printed.countP Row.isMarked ≤ i := by omega
    rw [Row.numbered, List.cons_append, run, hstep]
    exact ih (w := { w with itemColumn := fixed, seen := seen }) hpending
      (fun h r' h' => hinside h r' (List.mem_cons_of_mem _ h')) hfew'

/-- A search for an item inside a block starts over after rows with too few markers. -/
theorem run_few_markers_inside {printed : List Row}
    (hinside : ∀ r ∈ printed, anchor < r.indent ∨ anchor = r.indent ∧ r.isMarked = true)
    (hfew : printed.countP Row.isMarked ≤ i) (houtside : BeginsOutside anchor true tail) :
    run path (Row.numbered n printed ++ tail) (enter (.index i :: rest) anchor child) =
      run path tail (start path) := by
  have hseen : (enter (.index i :: rest) anchor child).seen + printed.countP Row.isMarked ≤ i := by
    rw [enter, Nat.zero_add]
    exact hfew
  obtain ⟨fixed, seen, hrun⟩ := run_few_markers rfl (fun _ => hinside) hseen tail
  rw [hrun]
  exact run_of_beginsOutside rfl houtside

/-- A row that is not written with the first key of the path is passed over from the start. -/
theorem run_start_row {r : Row}
    (h : ∀ k, Line.key? r.content = some k → k.key ≠ name.toList) (below : List Row)
    (tail : List Entry) :
    run (.key name :: rest) (Row.numbered n (r :: below) ++ tail) (start (.key name :: rest)) =
      run (.key name :: rest) (Row.numbered (n + 1) below ++ tail)
        (start (.key name :: rest)) := by
  have habove : ∀ r' ∈ [r], ∀ k, Line.key? r'.content = some k → k.key ≠ name.toList := by
    intro r' hr'
    rw [List.mem_singleton.1 hr']
    exact h
  have hsplit : r :: below = [r] ++ below := rfl
  rw [hsplit, Row.numbered_append, List.append_assoc, run_start_rows habove]
  rfl

/-- A document with too few markers has no item to begin with. -/
theorem run_start_few_markers {printed : List Row} (hfew : printed.countP Row.isMarked ≤ i) :
    run (.index i :: rest) (Row.numbered n printed) (start (.index i :: rest)) = none := by
  have hseen : (start (.index i :: rest)).seen + printed.countP Row.isMarked ≤ i := by
    rw [start, Nat.zero_add]
    exact hfew
  obtain ⟨fixed, seen, hrun⟩ :=
    run_few_markers rfl (fun h => absurd h Bool.false_ne_true) hseen []
  rw [List.append_nil] at hrun
  rw [hrun]
  rfl

end Walk

end ResourceGraph
