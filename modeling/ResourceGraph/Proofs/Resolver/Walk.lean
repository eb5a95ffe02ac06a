import ResourceGraph.Proofs.Text.Written
import ResourceGraph.Resolver.Locate

/-!
# Steps of the search for a path

What one entry does to a search that is inside a block. While a key is searched, entries that stand
deeper than the block's column or have other keys change nothing, and the entry of the key itself
either ends the search or enters the key's block. While items are counted, entries right of the
markers change nothing, each marker counts, and the marker of the wanted item ends the search or
enters the item. The first entry of a block fixes its column.
-/

set_option autoImplicit false

namespace ResourceGraph.Walk

variable {path rest : List Segment} {name : String} {i n anchor column seen : Nat}
  {child : Option Nat} {content : Line} {e : Entry} {es : List Entry} {w : Walk}

/-- The search among the items of a list whose markers stand at a column, some of which have been
passed. -/
def counting (i : Nat) (rest : List Segment) (anchor : Nat) (child : Option Nat)
    (column seen : Nat) : Walk :=
  ⟨.index i :: rest, true, anchor, child, some column, seen⟩

/-! ## One segment -/

/-- What matching a first segment against the text at a column comes to, whichever segments follow
it. The text is passed over, at most with one more marker counted before a wanted item; or the
segment is found, and the search goes on below its key or behind its marker. -/
inductive FirstMatch (first : Segment) (column : Nat) (content : Line) (w : Walk) : Prop
  | passed (fixed : Option Nat) (seen : Nat) :
    (∀ i, first = .index i → w.seen ≤ i → seen ≤ i) →
    (∀ rest pending, descend (first :: rest) column content { w with pending := pending } =
      .going { w with pending := pending, itemColumn := fixed, seen := seen }) →
    FirstMatch first column content w
  | key (found : Nat) : column ≤ found →
    (∀ rest pending, descend (first :: rest) column content { w with pending := pending } =
      if rest.isEmpty then .found found else .going (enter rest column none)) →
    FirstMatch first column content w
  | marker (inner : Nat) (body : Line) (child : Option Nat) : column < inner →
    (∀ rest pending, descend (first :: rest) column content { w with pending := pending } =
      if rest.isEmpty then .found column
      else descend rest inner body (enter rest column child)) →
    FirstMatch first column content w

theorem firstMatch (first : Segment) (column : Nat) (content : Line) (w : Walk) :
    FirstMatch first column content w := by
  have hpass : ∀ i, first = .index i → w.seen ≤ i → w.seen ≤ i := fun _ _ h => h
  cases first with
  | key name =>
    cases hkey : Line.key? content with
    | none =>
      apply FirstMatch.passed w.itemColumn w.seen hpass
      intro rest pending
      rw [descend, hkey]
    | some k =>
      by_cases hname : k.key = name.toList
      · apply FirstMatch.key (column + k.width) (Nat.le_add_right column k.width)
        intro rest pending
        simp [descend, hkey, hname]
      · apply FirstMatch.passed w.itemColumn w.seen hpass
        intro rest pending
        simp [descend, hkey, hname]
  | index i =>
    cases hitem : Line.item? content with
    | none =>
      apply FirstMatch.passed w.itemColumn w.seen hpass
      intro rest pending
      rw [descend, hitem]
    | some item =>
      by_cases hcolumn : w.itemColumn.getD column = column
      · rcases Nat.lt_or_ge w.seen i with hlt | hge
        · -- the marker is counted, and the wanted one is still to come
          apply FirstMatch.passed (some column) (w.seen + 1)
          · intro j hj _
            obtain rfl := Segment.index.inj hj
            exact hlt
          · intro rest pending
            simp [descend, hitem, hcolumn, hlt]
        · obtain ⟨blanks, -, hoffset, -⟩ := Line.of_item? hitem
          have hinner : column < column + item.offset := by omega
          apply FirstMatch.marker (column + item.offset) item.body
            (if item.body.isEmpty then none else some (column + item.offset)) hinner
          intro rest pending
          simp [descend, hitem, hcolumn, Nat.not_lt.2 hge]
      · -- a marker at another column belongs to another list
        apply FirstMatch.passed (some (w.itemColumn.getD column)) w.seen hpass
        intro rest pending
        simp [descend, hitem, hcolumn]

/-! ## One entry -/

/-- Entries that change nothing are passed over. -/
theorem run_append_of_going (h : ∀ e ∈ es, step path e w = .going w) (tail : List Entry) :
    run path (es ++ tail) w = run path tail w := by
  induction es with
  | nil => rfl
  | cons e es ih =>
    rw [List.cons_append, run, h e (by simp)]
    exact ih fun e' he' => h e' (List.mem_cons_of_mem _ he')

/-- An entry right of the anchor is inside the block, and so is a marker at the anchor while items
are counted. -/
theorem leaves_eq_false (h : w.anchor < e.indent ∨ w.anchor = e.indent ∧
    w.pending.head?.any Segment.isIndex = true ∧ (Line.item? e.content).isSome = true) :
    w.leaves e = false := by
  rcases h with h | ⟨hsame, hindex, hitem⟩
  · have hlt : ¬ e.indent < w.anchor := by omega
    have hne : ¬ e.indent = w.anchor := by omega
    simp [leaves, hlt, hne]
  · simp [leaves, hsame, hindex, hitem]

/-- An entry inside the block, and not in a block nested in it, is matched. -/
theorem step_eq_descend (hinside : w.inside = true) (hleaves : w.leaves e = false)
    (hnested : w.isNested e.indent = false) :
    step path e w = descend w.pending e.indent e.content (w.fixChild e.indent) := by
  simp [step, hinside, hleaves, hnested]

/-- An entry changes nothing, or it is matched: with what is searched, or with the whole path where
the search starts over. -/
theorem step_cases (path : List Segment) (e : Entry) (w : Walk) :
    step path e w = .going w ∨ ∃ u, (u = start path ∨ u.pending = w.pending) ∧
      step path e w = descend u.pending e.indent e.content u := by
  rw [step]
  split
  · split
    · exact Or.inr ⟨start path, Or.inl rfl, rfl⟩
    · split
      · exact Or.inl rfl
      · have hpending : (w.fixChild e.indent).pending = w.pending := by
          rw [fixChild]
          split <;> rfl
        exact Or.inr ⟨w.fixChild e.indent, Or.inr hpending, by rw [hpending]⟩
  · exact Or.inr ⟨w, Or.inr rfl, rfl⟩

/-! ## The search from the start -/

/-- An entry outside the block is read as it is from the start. -/
theorem run_of_leaves (hinside : w.inside = true) (hleaves : w.leaves e = true)
    (tail : List Entry) : run path (e :: tail) w = run path (e :: tail) (start path) := by
  have hrestart : step path e w = step path e (start path) := by
    rw [step, if_pos hinside, if_pos hleaves]
    rfl
  rw [run, run, hrestart]

/-- Entries without the first key of the path are passed over. -/
theorem run_start_other (h : ∀ e ∈ es, ∀ k, Line.key? e.content = some k → k.key ≠ name.toList)
    (tail : List Entry) :
    run (.key name :: rest) (es ++ tail) (start (.key name :: rest)) =
      run (.key name :: rest) tail (start (.key name :: rest)) := by
  apply run_append_of_going
  intro e he
  show descend (.key name :: rest) e.indent e.content _ = _
  rw [descend]
  cases hk : Line.key? e.content with
  | none => rfl
  | some k => simp [h e he k hk]

/-- A path whose first key no entry is written with is not found. -/
theorem run_start_eq_none
    (h : ∀ e ∈ es, ∀ k, Line.key? e.content = some k → k.key ≠ name.toList) :
    run (.key name :: rest) es (start (.key name :: rest)) = none := by
  calc run (.key name :: rest) es (start (.key name :: rest))
      = run (.key name :: rest) (es ++ []) (start (.key name :: rest)) := by
        rw [List.append_nil]
    _ = none := run_start_other h []

theorem step_start_key {k : Line.Key} (hk : Line.key? content = some k)
    (hname : k.key = name.toList) :
    step (.key name :: rest) ⟨n, column, content⟩ (start (.key name :: rest)) =
      if rest.isEmpty then .found (column + k.width) else .going (enter rest column none) := by
  show descend (.key name :: rest) column content _ = _
  rw [descend, hk]
  simp [hname]

/-! ## Searching a key -/

/-- An entry that is deeper than the block's column, or has another key, changes nothing. -/
theorem step_other_key (hanchor : anchor < e.indent) (hcolumn : column ≤ e.indent)
    (hkey : e.indent = column → ∀ k, Line.key? e.content = some k → k.key ≠ name.toList) :
    step path e (enter (.key name :: rest) anchor (some column)) =
      .going (enter (.key name :: rest) anchor (some column)) := by
  have hleaves : (enter (.key name :: rest) anchor (some column)).leaves e = false :=
    leaves_eq_false (Or.inl hanchor)
  rcases Nat.lt_or_eq_of_le hcolumn with hdeep | hsame
  · -- a deeper entry belongs to a nested block
    have hnested : (enter (.key name :: rest) anchor (some column)).isNested e.indent = true := by
      simp [isNested, enter, Segment.isIndex, hdeep]
    rw [step, hleaves, hnested]
    rfl
  · -- an entry at the column of the keys is matched, and its key is another one
    have hnested : (enter (.key name :: rest) anchor (some column)).isNested e.indent = false := by
      simp [isNested, enter, Segment.isIndex, hsame]
    rw [step_eq_descend rfl hleaves hnested]
    show descend (.key name :: rest) e.indent e.content
      (enter (.key name :: rest) anchor (some column)) = _
    rw [descend]
    cases hk : Line.key? e.content with
    | none => rfl
    | some k => simp [hkey hsame.symm k hk]

/-- The entry of the searched key ends the search, or enters the block of the key. -/
theorem step_same_key {k : Line.Key} (hanchor : anchor < column)
    (hk : Line.key? content = some k) (hname : k.key = name.toList) :
    step path ⟨n, column, content⟩ (enter (.key name :: rest) anchor (some column)) =
      if rest.isEmpty then .found (column + k.width) else .going (enter rest column none) := by
  have hnested : (enter (.key name :: rest) anchor (some column)).isNested column = false := by
    simp [isNested, enter, Segment.isIndex]
  rw [step_eq_descend rfl (leaves_eq_false (Or.inl hanchor)) hnested]
  show descend (.key name :: rest) column content _ = _
  rw [descend, hk]
  simp [hname]

/-- The first entry below a found segment fixes the column of the keys. -/
theorem run_fix_key (hanchor : anchor < e.indent) (hchild : child = none ∨ child = some e.indent) :
    run path (e :: es) (enter (.key name :: rest) anchor child) =
      run path (e :: es) (enter (.key name :: rest) anchor (some e.indent)) := by
  rcases hchild with rfl | rfl
  · -- reading the entry fixes the column before the entry is matched
    have hstep : step path e (enter (.key name :: rest) anchor none) =
        step path e (enter (.key name :: rest) anchor (some e.indent)) := by
      rw [step_eq_descend rfl (leaves_eq_false (Or.inl hanchor)) (by simp [isNested, enter]),
        step_eq_descend rfl (leaves_eq_false (Or.inl hanchor)) (by simp [isNested, enter])]
      simp [fixChild, enter, Segment.isIndex]
    rw [run, run, hstep]
  · rfl

/-! ## Counting items -/

/-- While an item is searched, every entry inside the block is matched. -/
theorem step_index (hpending : w.pending = .index i :: rest)
    (hleaves : w.inside = true → w.leaves e = false) :
    step path e w = descend (.index i :: rest) e.indent e.content w := by
  cases hinside : w.inside with
  | false =>
    rw [step, hinside, hpending]
    rfl
  | true =>
    -- no block is nested below a list, and no entry fixes the column of its keys
    have hnested : w.isNested e.indent = false := by
      rw [isNested, hpending]
      rfl
    have hfix : w.fixChild e.indent = w := by
      rw [fixChild, hpending]
      rfl
    rw [step_eq_descend hinside (hleaves hinside) hnested, hfix, hpending]

/-- While items are counted, an entry right of the markers, or a marker, is matched. -/
theorem step_counting (h : anchor < e.indent ∨
    anchor = e.indent ∧ (Line.item? e.content).isSome = true) :
    step path e (counting i rest anchor child column seen) =
      descend (.index i :: rest) e.indent e.content (counting i rest anchor child column seen) := by
  refine step_eq_descend rfl (leaves_eq_false ?_) rfl
  rcases h with h | ⟨hsame, hitem⟩
  · exact Or.inl h
  · exact Or.inr ⟨hsame, rfl, hitem⟩

/-- An entry right of the markers changes nothing. -/
theorem step_inner (hanchor : anchor ≤ column) (hcolumn : column < e.indent) :
    step path e (counting i rest anchor child column seen) =
      .going (counting i rest anchor child column seen) := by
  have hne : ¬ column = e.indent := by omega
  rw [step_counting (Or.inl (by omega)), descend]
  cases Line.item? e.content with
  | none => rfl
  | some item => simp [counting, hne]

theorem step_counting_marker {item : Line.Item} (hanchor : anchor ≤ column)
    (hitem : Line.item? content = some item) :
    step path ⟨n, column, content⟩ (counting i rest anchor child column seen) =
      descend (.index i :: rest) column content (counting i rest anchor child column seen) := by
  apply step_counting
  rcases Nat.lt_or_eq_of_le hanchor with h | h
  · exact Or.inl h
  · exact Or.inr ⟨h, by rw [hitem]; rfl⟩

/-- A marker before the wanted item is counted. -/
theorem step_marker {item : Line.Item} (hanchor : anchor ≤ column)
    (hitem : Line.item? content = some item) (hseen : seen < i) :
    step path ⟨n, column, content⟩ (counting i rest anchor child column seen) =
      .going (counting i rest anchor child column (seen + 1)) := by
  rw [step_counting_marker hanchor hitem, descend, hitem]
  simp [counting, hseen]

/-- The marker of the wanted item ends the search, or its line goes on with the item. -/
theorem step_wanted {item : Line.Item} (hanchor : anchor ≤ column)
    (hitem : Line.item? content = some item) :
    step path ⟨n, column, content⟩ (counting i rest anchor child column i) =
      if rest.isEmpty then .found column
      else descend rest (column + item.offset) item.body
        (enter rest column (if item.body.isEmpty then none else some (column + item.offset))) := by
  rw [step_counting_marker hanchor hitem, descend, hitem]
  simp [counting]

/-- A marker that is not the wanted one, or an entry without a marker, is at most counted. -/
theorem step_unwanted (hpending : w.pending = .index i :: rest)
    (hleaves : w.inside = true → w.leaves e = false)
    (hseen : (Line.item? e.content).isSome = true → w.seen < i) :
    ∃ fixed seen, step path e w = .going { w with itemColumn := fixed, seen := seen } ∧
      seen ≤ w.seen + if (Line.item? e.content).isSome then 1 else 0 := by
  rw [step_index hpending hleaves, descend]
  cases hitem : Line.item? e.content with
  | none => exact ⟨w.itemColumn, w.seen, rfl, Nat.le_add_right _ _⟩
  | some item =>
    have hlt : w.seen < i := hseen (by rw [hitem]; rfl)
    by_cases hcolumn : w.itemColumn.getD e.indent = e.indent
    · exact ⟨some e.indent, w.seen + 1, by simp [hcolumn, hlt], Nat.le_refl _⟩
    · exact ⟨some (w.itemColumn.getD e.indent), w.seen, by simp [hcolumn], Nat.le_add_right _ _⟩

/-- The first marker fixes the column of the markers. -/
theorem run_fix_marker {item : Line.Item} (hanchor : anchor ≤ column)
    (hitem : Line.item? content = some item) :
    run path (⟨n, column, content⟩ :: es) (enter (.index i :: rest) anchor child) =
      run path (⟨n, column, content⟩ :: es) (counting i rest anchor child column 0) := by
  have hleaves : (enter (.index i :: rest) anchor child).leaves ⟨n, column, content⟩ = false := by
    apply leaves_eq_false
    rcases Nat.lt_or_eq_of_le hanchor with h | h
    · exact Or.inl h
    · exact Or.inr ⟨h, rfl, by rw [hitem]; rfl⟩
  have hstep : step path ⟨n, column, content⟩ (enter (.index i :: rest) anchor child) =
      step path ⟨n, column, content⟩ (counting i rest anchor child column 0) := by
    rw [step_counting_marker hanchor hitem, step_eq_descend rfl hleaves rfl]
    show descend (.index i :: rest) column content _ = _
    rw [descend, descend, hitem]
    simp [enter, counting, fixChild, Segment.isIndex]
  rw [run, run, hstep]

/-- What follows a marker on its line is read as an entry of its own would be. -/
theorem step_enter_item :
    step path ⟨n, column + 2, content⟩ (enter rest column (some (column + 2))) =
      descend rest (column + 2) content (enter rest column (some (column + 2))) := by
  have hleaves : (enter rest column (some (column + 2))).leaves ⟨n, column + 2, content⟩ = false :=
    leaves_eq_false (Or.inl (by simp [enter]))
  have hnested : (enter rest column (some (column + 2))).isNested (column + 2) = false := by
    simp [isNested, enter]
  -- the column of the block is the one of the entry already
  have hfix : (enter rest column (some (column + 2))).fixChild (column + 2) =
      enter rest column (some (column + 2)) := by
    unfold fixChild
    split <;> rfl
  rw [step_eq_descend rfl hleaves hnested, hfix]
  rfl

end ResourceGraph.Walk
