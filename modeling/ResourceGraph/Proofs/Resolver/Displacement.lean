import ResourceGraph.Proofs.Resolver.Extent
import ResourceGraph.Proofs.Text.Displacement

/-!
# Lookup in displaced entries

The search for a path compares columns with columns only, and it never looks at the numbers of lines.
So one entry moved to the right does to a search at columns that are moved as much what it did before
(`Walk.step_displaced`), and the search of a whole text ends at the same place, moved
(`locate?_displaced`). The same holds of the block of a list and its markers
(`listItems_displaced`).
-/

set_option autoImplicit false

namespace ResourceGraph

variable {d : Displacement} {s s' : Source}

theorem add_beq_add_right (m n k : Nat) : (m + k == n + k) = (m == n) := by
  rw [Bool.eq_iff_iff, beq_iff_eq, beq_iff_eq, Nat.add_right_cancel_iff]

/-! ## The search for a path -/

namespace Walk

variable {n : Nat} {w : Walk} {e e' : Entry}

/-- A search among entries that stand a number of columns further right. A search that has found
nothing has no column yet, so it is the same. -/
def displaced (n : Nat) (w : Walk) : Walk :=
  { w with
    anchor := if w.inside then w.anchor + n else w.anchor
    child := w.child.map (· + n)
    itemColumn := w.itemColumn.map (· + n) }

/-- What a search among entries further right comes to. -/
def Outcome.displaced (n : Nat) : Outcome → Outcome
  | .found column => .found (column + n)
  | .going w => .going (w.displaced n)

theorem enter_displaced (rest : List Segment) (column : Nat) (child : Option Nat) (n : Nat) :
    (enter rest column child).displaced n = enter rest (column + n) (child.map (· + n)) := rfl

theorem getD_map_add (column : Option Nat) (default n : Nat) :
    (column.map (· + n)).getD (default + n) = column.getD default + n := by
  cases column <;> rfl

/-- Matching segments against a text further right finds them there. -/
theorem descend_displaced (n : Nat) (pending : List Segment) (column : Nat) (content : Line)
    (w : Walk) : descend pending (column + n) content (w.displaced n) =
      (descend pending column content w).displaced n := by
  -- one marker may follow another on the same line, so the induction is on the segments
  induction pending generalizing column content w with
  | nil => rfl
  | cons first rest ih =>
    cases first with
    | key name =>
      rw [descend, descend]
      cases hkey : Line.key? content with
      | none => rfl
      | some k =>
        by_cases hname : k.key = name.toList
        · cases rest with
          | nil => simp [hname, Outcome.displaced, Nat.add_right_comm]
          | cons next rest => simp [hname, Outcome.displaced, enter_displaced]
        · simp [hname, Outcome.displaced]
    | index i =>
      rw [descend, descend]
      cases hitem : Line.item? content with
      | none => rfl
      | some item =>
        have hfixed : (w.displaced n).itemColumn.getD (column + n) = w.itemColumn.getD column + n :=
          getD_map_add w.itemColumn column n
        by_cases hcolumn : w.itemColumn.getD column = column
        · by_cases hseen : w.seen < i
          · -- the marker is counted, and the wanted one is still to come
            simp [hcolumn, hseen, Outcome.displaced, displaced]
          · have hseen' : ¬ (w.displaced n).seen < i := hseen
            -- the text after a marker begins as far right of it as before
            have hinner : column + n + item.offset = column + item.offset + n :=
              Nat.add_right_comm column n item.offset
            cases rest with
            | nil => simp [hfixed, hcolumn, hseen, hseen', Outcome.displaced]
            | cons next rest =>
              have hrest := ih (column + item.offset) item.body
                (enter (next :: rest) column
                  (if item.body.isEmpty then none else some (column + item.offset)))
              have hchild : (if item.body.isEmpty then none else some (column + item.offset)).map
                  (· + n) = if item.body.isEmpty then none else some (column + item.offset + n) := by
                split <;> rfl
              rw [enter_displaced, hchild] at hrest
              simpa [hfixed, hcolumn, hseen, hseen', hinner] using hrest
        · -- a marker at another column belongs to another list
          simp [hcolumn, Outcome.displaced, displaced]

/-- An entry further right leaves the block further right if it left it before. -/
theorem leaves_displaced (hinside : w.inside = true) (hindent : e'.indent = e.indent + n)
    (hcontent : e'.content = e.content) : (w.displaced n).leaves e' = w.leaves e := by
  simp [leaves, displaced, hinside, hindent, hcontent, add_beq_add_right]

theorem isNested_displaced (n : Nat) (w : Walk) (indent : Nat) :
    (w.displaced n).isNested (indent + n) = w.isNested indent := by
  cases hchild : w.child <;> simp [isNested, displaced, hchild]

theorem fixChild_displaced (n : Nat) (w : Walk) (indent : Nat) :
    (w.displaced n).fixChild (indent + n) = (w.fixChild indent).displaced n := by
  have hfixed := getD_map_add w.child indent n
  by_cases hindex : w.pending.head?.any Segment.isIndex = true
  · simp [fixChild, displaced, hindex]
  · simp [fixChild, displaced, hindex, hfixed]

/-- **An entry further right does to a search further right what it did before.** -/
theorem step_displaced (path : List Segment) (w : Walk) (hindent : e'.indent = e.indent + n)
    (hcontent : e'.content = e.content) :
    step path e' (w.displaced n) = (step path e w).displaced n := by
  have hstart : start path = (start path).displaced n := rfl
  have hinside : (w.displaced n).inside = w.inside := rfl
  have hpending : (w.displaced n).pending = w.pending := rfl
  rw [step, step, hinside, hpending, hindent, hcontent, isNested_displaced, fixChild_displaced]
  split
  · rename_i hfound
    rw [leaves_displaced hfound hindent hcontent]
    split
    · -- outside the block the search starts over, and it starts without a column
      rw [hstart, descend_displaced]
      rfl
    · split
      · rfl
      · exact descend_displaced n w.pending e.indent e.content (w.fixChild e.indent)
  · exact descend_displaced n w.pending e.indent e.content w

/-- A search of displaced entries ends at the same place, displaced. -/
theorem run_displaced (d : Displacement) (path : List Segment) (entries : List Entry) (w : Walk) :
    run path (entries.map d.entry) (w.displaced d.columns) =
      (run path entries w).map d.position := by
  induction entries generalizing w with
  | nil => rfl
  | cons e rest ih =>
    have hstep : step path (d.entry e) (w.displaced d.columns) =
        (step path e w).displaced d.columns := step_displaced path w rfl rfl
    rw [List.map_cons, run, run, hstep]
    cases step path e w with
    | found column => rfl
    | going w' => exact ih w'

end Walk

theorem locate?_displaced (d : Displacement) (entries : List Entry) (path : Path) :
    locate? (entries.map d.entry) path = (locate? entries path).map d.position := by
  rw [locate?, locate?]
  split
  · rfl
  · exact Walk.run_displaced d path.segments entries (Walk.start path.segments)

/-! ## The items of a list -/

/-- A list item at the place to which it moves. -/
def Displacement.item (d : Displacement) (item : ListItem) : ListItem :=
  ⟨item.index, d.line item.line, item.column + d.columns, d.line item.endLine⟩

namespace ListItem

theorem closes_displaced (d : Displacement) (opened : Nat) (e : Entry) :
    closes (opened + d.columns) (d.entry e) = closes opened e := by
  simp [closes, Displacement.entry]

theorem block_displaced (d : Displacement) (lineCount opened : Nat) (entries : List Entry) :
    block (d.line lineCount) (opened + d.columns) (entries.map d.entry) =
      ((block lineCount opened entries).1.map d.entry, d.line (block lineCount opened entries).2) := by
  induction entries with
  | nil => rfl
  | cons e rest ih =>
    rw [List.map_cons, block, block, closes_displaced]
    split
    · rfl
    · rw [ih]
      rfl

theorem markers_displaced (d : Displacement) (entries : List Entry) :
    markers (entries.map d.entry) = (markers entries).map d.entry := by
  have hmarked : (entries.map d.entry).filter (fun e => (Line.item? e.content).isSome) =
      (entries.filter fun e => (Line.item? e.content).isSome).map d.entry := by
    rw [List.filter_map]
    rfl
  rw [markers, markers, hmarked]
  cases entries.filter fun e => (Line.item? e.content).isSome with
  | nil => rfl
  | cons first rest =>
    have hcolumn : ((fun e : Entry => e.indent == (d.entry first).indent) ∘ d.entry) =
        fun e => e.indent == first.indent := by
      funext e
      exact add_beq_add_right e.indent first.indent d.columns
    show ((first :: rest).map d.entry).filter _ = _
    rw [List.filter_map, hcolumn]

theorem number_displaced (d : Displacement) (endLine i : Nat) (entries : List Entry) :
    number (d.line endLine) i (entries.map d.entry) = (number endLine i entries).map d.item := by
  induction entries generalizing i with
  | nil => rfl
  | cons e rest ih =>
    cases rest with
    | nil => rfl
    | cons next rest =>
      have hrest := ih (i + 1)
      rw [List.map_cons] at hrest
      rw [List.map_cons, List.map_cons, number, number, List.map_cons, hrest]
      rfl

end ListItem

/-! ## Displaced sources -/

namespace Source.Displaces

variable (h : s.Displaces d s')
include h

theorem locate? (path : Path) :
    ResourceGraph.locate? s'.entries path = (ResourceGraph.locate? s.entries path).map d.position := by
  rw [h.entries, locate?_displaced]

theorem position_eq_endPosition_iff (path : Path) :
    Resolver.indentation.position s' path = s'.endPosition ↔
      Resolver.indentation.position s path = s.endPosition := by
  rw [Resolver.position_eq_endPosition_iff, Resolver.position_eq_endPosition_iff, h.locate? path,
    Option.map_eq_none_iff]

theorem position_of_ne {path : Path}
    (hne : Resolver.indentation.position s path ≠ s.endPosition) :
    Resolver.indentation.position s' path =
      d.position (Resolver.indentation.position s path) := by
  rw [Ne, Resolver.position_eq_endPosition_iff] at hne
  obtain ⟨p, hp⟩ := Option.ne_none_iff_exists'.1 hne
  have hlocate := h.locate? path
  rw [hp] at hlocate
  rw [Resolver.position_of_locate? hlocate, Resolver.position_of_locate? hp]

/-- The items of a list move, and so do the lines at which they end. -/
theorem listItems (name : String) :
    ResourceGraph.listItems s' name = (ResourceGraph.listItems s name).map d.item := by
  have hopens : (s.entries.map d.entry).dropWhile
      (fun e => !ListItem.opensBlock name.toList e.content) =
      (s.entries.dropWhile fun e => !ListItem.opensBlock name.toList e.content).map d.entry := by
    rw [List.dropWhile_map]
    rfl
  rw [ResourceGraph.listItems, ResourceGraph.listItems, h.entries, hopens, h.lineCount]
  cases s.entries.dropWhile fun e => !ListItem.opensBlock name.toList e.content with
  | nil => rfl
  | cons opening below =>
    show ListItem.number (ListItem.block (d.line s.lineCount) (opening.indent + d.columns)
      (below.map d.entry)).2 0 (ListItem.markers (ListItem.block (d.line s.lineCount)
        (opening.indent + d.columns) (below.map d.entry)).1) = _
    rw [ListItem.block_displaced, ListItem.markers_displaced, ListItem.number_displaced]

end Source.Displaces

end ResourceGraph
