import ResourceGraph.Proofs.Resolver.Restart

/-!
# Paths that lead nowhere

The search for a path starts over wherever it leaves a block, at any depth. What it finds in a
printed document is therefore the end of a path of the tree that ends with the searched one
(`exists_site_of_locate?`), and a path that ends none is at the end of the document
(`position_eq_endPosition`).

Two kinds of path are left out. A key that begins with a dash may be read off the marker of an item.
An index counts the first markers below its key, at whatever depth they stand, and takes the markers
after an item for markers in it; `Block.noticesMiss` says that where a path breaks off at an index,
it is asked of a list that no such markers follow, or there are too few markers to be misread.

The search comes to a part of the tree in one of three ways: it starts over at its first row, or at
its second, or it goes on with a path that the part lacks (`Searched`). A mapping or a list is
searched as the parts right below it are, so one induction over the tree covers all three.
-/

set_option autoImplicit false

namespace ResourceGraph

open Text Block

/-- Whether a segment is never read off the marker of an item. -/
def Segment.isUnmarked : Segment → Bool
  | .key name => name.toList.head? != some '-'
  | .index _ => true

namespace Block

/-- The number of list items, at all depths together, after the item that an index leads to. -/
def itemsAfter : Segment → Block → Nat
  | .index i, .list _ items => itemsItemCount (items.drop (i + 1))
  | _, _ => 0

/-- Whether the search notices that a segment is missing in a part, after which a number of items
follow in the list that the part is an item of. It notices a missing key. It notices a missing index
in a list that no items follow, or if there are no more items than the index in the part and after
it together. -/
def noticesSegment (after : Nat) (b : Block) : Segment → Bool
  | .key _ => true
  | .index i => b.isList && after == 0 || decide (b.itemCount + after ≤ i)

/-- Whether the search notices where a path breaks off in a part, after which a number of items
follow. -/
def noticesMiss : Nat → List Segment → Block → Bool
  | _, [], _ => true
  | after, segment :: rest, b =>
    match b.child? segment with
    | some part => noticesMiss (b.itemsAfter segment) rest part
    | none => b.noticesSegment after segment

/-- Whether a path begins with an index that a block lacks. -/
def lacksIndex (b : Block) : List Segment → Bool
  | .index i :: _ => (b.child? (.index i)).isNone
  | _ => false

theorem itemsAfter_of_value {i : Nat} {b item : Block} {deeper : Bool} {before after : List Block}
    (hvalue : b = .list deeper (before ++ item :: after)) (hlength : before.length = i) :
    b.itemsAfter (.index i) = itemsItemCount after := by
  rw [hvalue, itemsAfter, ← hlength, List.append_cons, List.drop_left' (by simp)]

theorem noticesMiss_cons_of_child? {after : Nat} {segment : Segment} {rest : List Segment}
    {b part : Block} (hpart : b.child? segment = some part)
    (h : b.noticesMiss after (segment :: rest) = true) :
    part.noticesMiss (b.itemsAfter segment) rest = true := by
  rw [noticesMiss, hpart] at h
  exact h

/-- Where an index is missing, nothing follows the part and it is a list, or there are no more items
than the index. -/
theorem of_noticesMiss_index {after i : Nat} {rest : List Segment} {b : Block}
    (hnone : b.child? (.index i) = none)
    (h : b.noticesMiss after (.index i :: rest) = true) :
    (b.isList = true ∧ after = 0) ∨ b.itemCount + after ≤ i := by
  rw [noticesMiss, hnone] at h
  simpa [noticesSegment] using h

/-- What is noticed before some items is noticed before none. -/
theorem noticesMiss_zero {after : Nat} {path : List Segment} {b : Block}
    (h : b.noticesMiss after path = true) : b.noticesMiss 0 path = true := by
  cases path with
  | nil => rfl
  | cons segment rest =>
    cases hpart : b.child? segment with
    | some part =>
      rw [noticesMiss, hpart] at h ⊢
      exact h
    | none =>
      rw [noticesMiss, hpart]
      cases segment with
      | key name => rfl
      | index i =>
        rcases of_noticesMiss_index hpart h with ⟨hself, -⟩ | hfew
        · simp [noticesSegment, hself]
        · have hfew' : b.itemCount ≤ i := by omega
          simp [noticesSegment, hfew']

/-- A path of keys breaks off at a key only. -/
theorem noticesMiss_map_key (after : Nat) (keys : List String) (b : Block) :
    b.noticesMiss after (keys.map .key) = true := by
  induction keys generalizing after b with
  | nil => rfl
  | cons key keys ih =>
    rw [List.map_cons, noticesMiss]
    cases b.child? (.key key) with
    | none => rfl
    | some part => exact ih _ part

/-- A path that a part lacks, in a way that the search notices. -/
structure Lacks (after : Nat) (path : List Segment) (b : Block) : Prop where
  absent : b.at? path = none
  unmarked : ∀ segment ∈ path, segment.isUnmarked = true
  notices : b.noticesMiss after path = true

theorem Lacks.ne_nil {after : Nat} {path : List Segment} {b : Block}
    (h : b.Lacks after path) : path ≠ [] := by
  rintro rfl
  exact absurd h.absent (Option.some_ne_none b)

/-- Where the first segment leads on, the others are lacking below. -/
theorem Lacks.of_child? {after : Nat} {segment : Segment} {rest : List Segment}
    {b part : Block} (h : b.Lacks after (segment :: rest))
    (hpart : b.child? segment = some part) : part.Lacks (b.itemsAfter segment) rest := by
  refine ⟨?_, ?_, noticesMiss_cons_of_child? hpart h.notices⟩
  · rw [← h.absent, at?, hpart]
    rfl
  · intro s hs
    exact h.unmarked s (List.mem_cons_of_mem segment hs)

theorem Lacks.zero {after : Nat} {path : List Segment} {b : Block} (h : b.Lacks after path) :
    b.Lacks 0 path :=
  ⟨h.absent, h.unmarked, noticesMiss_zero h.notices⟩

end Block

namespace Walk

variable {path rest pending : List Segment} {name : String} {i n anchor column step : Nat}
  {child : Option Nat} {tail : List Entry}

/-! ## Where a search ends -/

/-- A search for a path ends at the site of a path below some site that ends with it, or it starts
over where a tail of the entries begins. -/
def EndsBelow (step : Nat) (path : List Segment) (s : Site) (tail : List Entry)
    (result : Option Position) : Prop :=
  (∃ before t, s.descend? step (before ++ path) = some t ∧ result = some t.position) ∨
    result = run path tail (start path)

/-- A search that ends below a part, or starts over after it, ends below the block of the part. -/
theorem EndsBelow.trans {segment : Segment} {s u : Site} {tail' : List Entry}
    {result : Option Position} (hu : s.child? step segment = some u)
    (h : EndsBelow step path u tail' result)
    (hrest : EndsBelow step path s tail (run path tail' (start path))) :
    EndsBelow step path s tail result := by
  rcases h with ⟨before, t, ht, hresult⟩ | hresult
  · left
    refine ⟨segment :: before, t, ?_, hresult⟩
    rw [List.cons_append, Site.descend?, hu]
    exact ht
  · rw [hresult]
    exact hrest

/-- A search that has come to a block at a column and goes on with a path that is not in it. -/
structure Misses (column : Nat) (b : Block) (pending : List Segment) (anchor : Nat)
    (child : Option Nat) (tail : List Entry) : Prop where
  lacks : b.Lacks 0 pending
  /-- Only the markers of a list may stand at the column of the key above them. -/
  right : anchor < column ∨ anchor = column ∧ b.isList = true
  fixed : child = none ∨ child = some column
  beginsOutside : BeginsOutside column true tail
  /-- A marker may follow the part, unless it is taken for one in it. -/
  outside : BeginsOutside anchor (b.lacksIndex pending) tail

/-- What the search for a path does in a part of the tree, whichever way it comes there. -/
structure Searched (step : Nat) (path : List Segment) (b : Block) : Prop where
  /-- It starts over at the first row. -/
  fresh : ∀ s : Site, s.value = b → ∀ tail, BeginsOutside s.column true tail →
    EndsBelow step path s tail
      (run path (Row.numbered s.line (rows step s.column b) ++ tail) (start path))
  /-- It starts over at the second row, since the first goes behind a marker. -/
  below : ∀ s : Site, s.value = b → ∀ tail, BeginsOutside s.column true tail →
    EndsBelow step path s tail
      (run path (Row.numbered (s.line + 1) (rows step s.column b).tail ++ tail) (start path))
  /-- It has found the segments above the part, and the pending ones are not in it. -/
  missing : ∀ s : Site, s.value = b → ∀ pending anchor child tail,
    Misses s.column b pending anchor child tail →
    EndsBelow step path s tail
      (run path (Row.numbered s.line (rows step s.column b) ++ tail) (enter pending anchor child))

theorem Misses.anchor_le {b : Block} (h : Misses column b pending anchor child tail) :
    anchor ≤ column := by
  rcases h.right with hlt | ⟨hsame, -⟩ <;> omega

theorem Misses.anchor_lt {b : Block} (h : Misses column b pending anchor child tail)
    (hlist : b.isList = false) : anchor < column := by
  rcases h.right with hlt | ⟨-, hself⟩
  · exact hlt
  · rw [hlist] at hself
    exact absurd hself Bool.false_ne_true

/-- Where an index is missing, no marker after the part is taken for one in it. -/
theorem Misses.beginsOutside_anchor {b : Block}
    (h : Misses column b (.index i :: rest) anchor child tail)
    (hnone : b.child? (.index i) = none) : BeginsOutside anchor true tail := by
  have hlacks : b.lacksIndex (.index i :: rest) = true := by
    rw [lacksIndex, hnone]
    rfl
  rw [← hlacks]
  exact h.outside

/-- Where the first pending segment is missing, the search passes over the block. -/
theorem endsBelow_of_passed (hstep : 0 < step) {s : Site} (hs : s.value.isWellFormed = true)
    {segment : Segment} (hmiss : Misses s.column s.value (segment :: rest) anchor child tail)
    (hnone : s.value.child? segment = none) (hanchor : anchor < s.column)
    (hlist : segment.isIndex = true → s.value.isList = false) :
    EndsBelow step path s tail (run path (Row.numbered s.line (rows step s.column s.value) ++ tail)
      (enter (segment :: rest) anchor child)) := by
  right
  cases segment with
  | key name =>
    have hname : name.toList.head? ≠ some '-' := by
      simpa [Segment.isUnmarked] using hmiss.lacks.unmarked _ List.mem_cons_self
    rw [run_no_key hstep hs hname hnone hanchor hmiss.fixed]
    apply run_of_beginsOutside rfl
    exact hmiss.outside.mono (Or.inr ⟨rfl, fun h => absurd h Bool.false_ne_true⟩)
  | index i =>
    have hfew : s.value.itemCount ≤ i := by
      rcases of_noticesMiss_index hnone hmiss.lacks.notices with ⟨hself, -⟩ | hfew
      · rw [hlist rfl] at hself
        exact absurd hself Bool.false_ne_true
      · exact hfew
    have hmarkers : (rows step s.column s.value).countP Row.isMarked ≤ i :=
      Nat.le_trans (countP_isMarked_rows hs s.column) hfew
    apply run_few_markers_inside ?_ hmarkers (hmiss.beginsOutside_anchor hnone)
    intro r hr
    left
    have hindent := le_indent_of_mem_rows hr
    omega

/-! ## Below a key -/

section BelowKey

variable {s u : Site} (hstep : 0 < step) (hu : s.child? step (.key name) = some u)
include hu

/-- A search that starts over below a key. -/
theorem endsBelow_value (h : Searched step path u.value)
    (htail : BeginsOutside s.column true tail) :
    EndsBelow step path u tail
      (run path (Row.numbered u.line (rowsBelow step s.column u.value) ++ tail) (start path)) := by
  obtain ⟨-, -, -, -, -, hcolumn, -⟩ := Site.child?_key hu
  cases hvalue : u.value with
  | scalar text =>
    -- nothing is printed below the key
    rw [rowsBelow]
    exact Or.inr rfl
  | mapping _ | list _ _ =>
    rw [rowsBelow_of_ne_scalar step s.column (by simp), ← hvalue, ← hcolumn]
    exact h.fresh u rfl tail (htail.of_le (Site.column_le_of_child? hu))

include hstep

/-- A search that has found a key, below which the pending path is missing. -/
theorem endsBelow_missing_value (h : Searched step path u.value)
    (hlacks : u.value.Lacks 0 pending) (htail : BeginsOutside s.column true tail) :
    EndsBelow step path u tail
      (run path (Row.numbered u.line (rowsBelow step s.column u.value) ++ tail)
        (enter pending s.column none)) := by
  obtain ⟨-, -, -, -, -, hcolumn, -⟩ := Site.child?_key hu
  have hright : s.column < u.column ∨ s.column = u.column ∧ u.value.isList = true := by
    rw [hcolumn]
    exact columnBelow_eq_or hstep s.column u.value
  cases hvalue : u.value with
  | scalar text =>
    -- the rows after the key are outside it
    rw [rowsBelow]
    right
    exact run_of_beginsOutside rfl htail.of_true
  | mapping _ | list _ _ =>
    rw [rowsBelow_of_ne_scalar step s.column (by simp), ← hvalue, ← hcolumn]
    exact h.missing u rfl pending s.column none tail
      ⟨hlacks, hright, Or.inl rfl, htail.of_le (Site.column_le_of_child? hu), htail.of_true⟩

/-- A search that has found the first key of the path. -/
theorem endsBelow_found_key (hs : s.value.isWellFormed = true)
    (h : Searched step (.key name :: rest) u.value)
    (hunmarked : ∀ segment ∈ rest, segment.isUnmarked = true)
    (hnotices : s.value.noticesMiss 0 (.key name :: rest) = true)
    (htail : BeginsOutside s.column true tail) {outer : List Entry}
    (hrest : EndsBelow step (.key name :: rest) s outer
      (run (.key name :: rest) tail (start (.key name :: rest)))) :
    EndsBelow step (.key name :: rest) s outer
      (if rest.isEmpty then some u.position
      else run (.key name :: rest)
        (Row.numbered u.line (rowsBelow step s.column u.value) ++ tail)
        (enter rest s.column none)) := by
  cases hat : u.descend? step rest with
  | some t =>
    -- the rest of the path is below the key, and is found there
    left
    refine ⟨[], t, ?_, ?_⟩
    · rw [List.nil_append, Site.descend?, hu]
      exact hat
    · by_cases hempty : rest = []
      · rw [hempty, Site.descend?, Option.some.injEq] at hat
        rw [hempty, ← hat]
        rfl
      · obtain ⟨-, -, -, -, -, hcolumn, -⟩ := Site.child?_key hu
        rw [List.isEmpty_eq_false_iff.2 hempty,
          rowsBelow_of_ne_scalar step s.column (Site.value_ne_scalar_of_descend? hat hempty),
          ← hcolumn]
        exact run_descend? hstep hempty (Site.value_isWellFormed_of_child? hu hs) hat
          (Site.column_le_of_child? hu) (fun _ => Site.column_lt_of_child? hstep hu) (Or.inl rfl)
          tail
  | none =>
    have habsent : u.value.at? rest = none := by
      rw [← Site.descend?_map_value rest, hat]
      rfl
    have hlacks : u.value.Lacks 0 rest :=
      ⟨habsent, hunmarked, noticesMiss_cons_of_child? (Site.value_child? hu) hnotices⟩
    rw [List.isEmpty_eq_false_iff.2 hlacks.ne_nil]
    exact (endsBelow_missing_value hstep hu h hlacks htail).trans hu hrest

end BelowKey

/-! ## Mappings -/

/-- The rows of the later entries begin on the line after those of an entry. -/
theorem line_after_entry {s u : Site} {before : List (String × Block)} (key : String)
    (hline : u.line = s.line + (entriesRows step s.column before).length + 1) :
    u.line + (rowsBelow step s.column u.value).length =
      s.line + (entriesRows step s.column (before ++ [(key, u.value)])).length := by
  simp only [entriesRows_append, entriesRows, List.length_append, List.length_cons,
    List.append_nil]
  omega

section Mapping

variable {s : Site} {entries before after : List (String × Block)} (hstep : 0 < step)
  (hs : s.value.isWellFormed = true)
  (hunmarked : ∀ segment ∈ rest, segment.isUnmarked = true)
  (hnotices : s.value.noticesMiss 0 (.key name :: rest) = true)

include hs in
/-- The rows of the entries of a mapping from one of them on are outside those before it. -/
theorem beginsOutside_entries (hvalue : s.value = .mapping (before ++ after))
    (htail : BeginsOutside s.column true tail) :
    BeginsOutside s.column true
      (Row.numbered n (entriesRows step s.column after) ++ tail) := by
  rw [hvalue, isWellFormed_mapping] at hs
  obtain ⟨-, -, hentries⟩ := hs
  apply beginsOutside_entriesRows ?_ htail
  intro e he
  exact (hentries e (List.mem_append_right before he)).1

include hstep hs hunmarked hnotices

/-- A search that starts over at an entry of a mapping. -/
theorem endsBelow_entriesRows (hvalue : s.value = .mapping (before ++ after))
    (hsearched : ∀ e ∈ after, Searched step (.key name :: rest) e.2)
    (hn : n = s.line + (entriesRows step s.column before).length)
    (htail : BeginsOutside s.column true tail) :
    EndsBelow step (.key name :: rest) s tail
      (run (.key name :: rest) (Row.numbered n (entriesRows step s.column after) ++ tail)
        (start (.key name :: rest))) := by
  -- the induction is on the entries that are left, with those before them general
  induction after generalizing before n with
  | nil => exact Or.inr rfl
  | cons e after ih =>
    obtain ⟨key, value⟩ := e
    obtain ⟨hword, u, hu, hposition, hline, rfl⟩ := Site.exists_child?_entry step hs hvalue
    rw [← hn] at hposition hline
    have hsearch : Searched step (.key name :: rest) u.value :=
      hsearched (key, u.value) List.mem_cons_self
    -- what follows the entry is outside it, and is passed by induction
    have hvalue' : s.value = .mapping ((before ++ [(key, u.value)]) ++ after) := by
      rw [hvalue, List.append_cons]
    have hrest := ih hvalue' (fun e he => hsearched e (List.mem_cons_of_mem _ he))
      (line_after_entry key (by rw [hline, hn]))
    by_cases hname : key = name
    · -- the path begins at this entry
      subst hname
      rw [run_key_row step after (step_start_key (key?_keyRow hword) rfl), ← hposition, ← hline]
      exact endsBelow_found_key hstep hu hs hsearch hunmarked hnotices
        (beginsOutside_entries hs hvalue' htail) hrest
    · -- the search is still at its start in the value of the entry
      have hother : ∀ k, Line.key? (keyRow s.column key u.value).content = some k →
          k.key ≠ name.toList := by
        intro k hk
        exact key_ne_of_keyRow hword hname hk
      rw [entriesRows, List.cons_append, run_start_row hother, Row.numbered_append,
        List.append_assoc, ← hline]
      exact (endsBelow_value hu hsearch (beginsOutside_entries hs hvalue' htail)).trans hu hrest

/-- A search that starts over after an entry of a mapping. -/
theorem endsBelow_after_entry {u : Site} {key : String}
    (hvalue : s.value = .mapping (before ++ (key, u.value) :: after))
    (hline : u.line = s.line + (entriesRows step s.column before).length + 1)
    (hsearched : ∀ e ∈ after, Searched step (.key name :: rest) e.2)
    (htail : BeginsOutside s.column true tail) :
    BeginsOutside s.column true
        (Row.numbered (u.line + (rowsBelow step s.column u.value).length)
          (entriesRows step s.column after) ++ tail) ∧
      EndsBelow step (.key name :: rest) s tail
        (run (.key name :: rest)
          (Row.numbered (u.line + (rowsBelow step s.column u.value).length)
            (entriesRows step s.column after) ++ tail) (start (.key name :: rest))) := by
  have hvalue' : s.value = .mapping ((before ++ [(key, u.value)]) ++ after) := by
    rw [hvalue, List.append_cons]
  exact ⟨beginsOutside_entries hs hvalue' htail,
    endsBelow_entriesRows hstep hs hunmarked hnotices hvalue' hsearched
      (line_after_entry key hline) htail⟩

/-- A search that starts over below the first key of a mapping. -/
theorem endsBelow_tail_mapping (hvalue : s.value = .mapping entries)
    (hsearched : ∀ e ∈ entries, Searched step (.key name :: rest) e.2)
    (htail : BeginsOutside s.column true tail) :
    EndsBelow step (.key name :: rest) s tail
      (run (.key name :: rest)
        (Row.numbered (s.line + 1) (rows step s.column s.value).tail ++ tail)
        (start (.key name :: rest))) := by
  have hne := (isWellFormed_mapping.1 (hvalue ▸ hs)).1
  obtain ⟨⟨key, value⟩, after, rfl⟩ := List.exists_cons_of_ne_nil hne
  have hsplit : s.value = .mapping ([] ++ (key, value) :: after) := hvalue
  obtain ⟨-, u, hu, -, hline, rfl⟩ := Site.exists_child?_entry step hs hsplit
  obtain ⟨houtside, hrest⟩ := endsBelow_after_entry hstep hs hunmarked hnotices hsplit hline
    (fun e he => hsearched e (List.mem_cons_of_mem _ he)) htail
  rw [entriesRows, List.length_nil, Nat.add_zero] at hline
  rw [hvalue, rows, entriesRows, List.cons_append, List.tail_cons, Row.numbered_append,
    List.append_assoc, ← hline]
  exact (endsBelow_value hu (hsearched _ List.mem_cons_self) houtside).trans hu hrest

/-- A search for what is missing in a mapping. -/
theorem endsBelow_missing_mapping (hvalue : s.value = .mapping entries)
    (hsearched : ∀ e ∈ entries, Searched step (.key name :: rest) e.2)
    (hmiss : Misses s.column s.value pending anchor child tail) :
    EndsBelow step (.key name :: rest) s tail
      (run (.key name :: rest) (Row.numbered s.line (rows step s.column s.value) ++ tail)
        (enter pending anchor child)) := by
  have hnolist : s.value.isList = false := by
    rw [hvalue]
    rfl
  have hanchor := hmiss.anchor_lt hnolist
  obtain ⟨segment, others, rfl⟩ := List.exists_cons_of_ne_nil hmiss.lacks.ne_nil
  cases hchild : s.value.child? segment with
  | none => exact endsBelow_of_passed hstep hs hmiss hchild hanchor fun _ => hnolist
  | some part =>
    obtain ⟨u, hu, rfl⟩ := Site.exists_child? step hchild
    cases segment with
    | index i =>
      rw [hvalue] at hchild
      exact absurd hchild.symm (Option.some_ne_none _)
    | key key =>
      -- the key is found, and what is pending is missing below it
      have hlacks := hmiss.lacks.of_child? hchild
      obtain ⟨before, after, hsplit, hline, hrun⟩ :=
        run_child?_key hstep hs hu hanchor hmiss.fixed tail
      obtain rfl : entries = before ++ (key, u.value) :: after := by
        rw [hvalue] at hsplit
        exact Block.mapping.inj hsplit
      obtain ⟨houtside, hrest⟩ := endsBelow_after_entry hstep hs hunmarked hnotices hvalue
        hline (fun e he => hsearched e (by simp [he])) hmiss.beginsOutside
      rw [hrun, List.isEmpty_eq_false_iff.2 hlacks.ne_nil]
      exact (endsBelow_missing_value hstep hu (hsearched (key, u.value) (by simp)) hlacks
        houtside).trans hu hrest

end Mapping

/-! ## Lists -/

/-- The rows of the later items begin on the line after those of an item. -/
theorem line_after_item {s u : Site} {before : List Block}
    (hline : u.line = s.line + (itemsRows step s.column before).length)
    (hcolumn : u.column = s.column + 2) :
    u.line + (rows step u.column u.value).length =
      s.line + (itemsRows step s.column (before ++ [u.value])).length := by
  simp only [itemsRows_append, itemsRows, List.length_append, List.append_nil, length_markFirst,
    hcolumn]
  omega

section List

variable {s : Site} {deeper : Bool} {items before after : List Block}
  (hs : s.value.isWellFormed = true)
include hs

/-- The rows of the items of a list from one of them on are outside those before it. -/
theorem beginsOutside_items (hvalue : s.value = .list deeper (before ++ after))
    (htail : BeginsOutside s.column true tail) :
    BeginsOutside s.column false
      (Row.numbered n (itemsRows step s.column after) ++ tail) := by
  rw [hvalue, isWellFormed_list] at hs
  obtain ⟨-, hitems⟩ := hs
  apply beginsOutside_itemsRows ?_ htail.of_true
  intro item hitem
  exact hitems item (List.mem_append_right before hitem)

/-- A search that starts over right after the row with the marker of an item. -/
theorem endsBelow_tail_itemsRows {item : Block}
    (hvalue : s.value = .list deeper (before ++ item :: after)) (h : Searched step path item)
    (hn : n = s.line + (itemsRows step s.column before).length)
    (htail : BeginsOutside s.column true tail)
    (hrest : ∀ m, m = s.line + (itemsRows step s.column (before ++ [item])).length →
      EndsBelow step path s tail
        (run path (Row.numbered m (itemsRows step s.column after) ++ tail) (start path))) :
    EndsBelow step path s tail
      (run path (Row.numbered (n + 1) (itemsRows step s.column (item :: after)).tail ++ tail)
        (start path)) := by
  obtain ⟨u, hu, hcolumn, hline, rfl⟩ : ∃ u, s.child? step (.index before.length) = some u ∧
      u.column = s.column + 2 ∧ u.line = n ∧ u.value = item :=
    ⟨_, Site.child?_index_of_value hvalue, rfl, by rw [hn], rfl⟩
  obtain ⟨content, below, hrows⟩ :=
    rows_eq_cons step (Site.value_isWellFormed_of_child? hu hs) (s.column + 2)
  have hlines : n + 1 + below.length =
      s.line + (itemsRows step s.column (before ++ [u.value])).length := by
    simp only [itemsRows_append, itemsRows, List.length_append, List.append_nil, length_markFirst,
      hrows, List.length_cons]
    omega
  have hvalue' : s.value = .list deeper ((before ++ [u.value]) ++ after) := by
    rw [hvalue, List.append_cons]
  -- the markers of the later items are left of the rows of this one
  have houtside : BeginsOutside u.column true
      (Row.numbered (n + 1 + below.length) (itemsRows step s.column after) ++ tail) :=
    (beginsOutside_items hs hvalue' htail).mono (Or.inl (by omega))
  have hbelow := h.below u rfl _ houtside
  rw [hcolumn, hrows, List.tail_cons, hline] at hbelow
  rw [itemsRows, hrows, markFirst, List.cons_append, List.tail_cons, Row.numbered_append,
    List.append_assoc]
  exact hbelow.trans hu (hrest _ hlines)

/-- A search that starts over at an item of a list. -/
theorem endsBelow_itemsRows (hname : name.toList.head? ≠ some '-')
    (hvalue : s.value = .list deeper (before ++ after))
    (hsearched : ∀ item ∈ after, Searched step (.key name :: rest) item)
    (hn : n = s.line + (itemsRows step s.column before).length)
    (htail : BeginsOutside s.column true tail) :
    EndsBelow step (.key name :: rest) s tail
      (run (.key name :: rest) (Row.numbered n (itemsRows step s.column after) ++ tail)
        (start (.key name :: rest))) := by
  induction after generalizing before n with
  | nil => exact Or.inr rfl
  | cons item after ih =>
    have hvalue' : s.value = .list deeper ((before ++ [item]) ++ after) := by
      rw [hvalue, List.append_cons]
    have hrest := endsBelow_tail_itemsRows hs hvalue (hsearched item List.mem_cons_self) hn htail
      fun m hm => ih hvalue' (fun item' h => hsearched item' (List.mem_cons_of_mem _ h)) hm
    -- the key of the row with the marker begins with a dash
    rw [hvalue, isWellFormed_list] at hs
    obtain ⟨content, below, hrows⟩ := rows_eq_cons step (hs.2 item (by simp)) (s.column + 2)
    have hmarker : ∀ k, Line.key? ('-' :: ' ' :: content) = some k → k.key ≠ name.toList := by
      intro k hk
      exact Line.key_ne_of_marked hname hk
    rw [itemsRows, hrows, markFirst, List.cons_append] at hrest ⊢
    rw [run_start_row hmarker]
    exact hrest

/-- A search that starts over right after the first row of a list. -/
theorem endsBelow_tail_list (hname : name.toList.head? ≠ some '-')
    (hvalue : s.value = .list deeper items)
    (hsearched : ∀ item ∈ items, Searched step (.key name :: rest) item)
    (htail : BeginsOutside s.column true tail) :
    EndsBelow step (.key name :: rest) s tail
      (run (.key name :: rest)
        (Row.numbered (s.line + 1) (rows step s.column s.value).tail ++ tail)
        (start (.key name :: rest))) := by
  have hne := (isWellFormed_list.1 (hvalue ▸ hs)).1
  obtain ⟨item, after, rfl⟩ := List.exists_cons_of_ne_nil hne
  have hsplit : s.value = .list deeper ([] ++ item :: after) := hvalue
  have hvalue' : s.value = .list deeper ([item] ++ after) := hvalue
  rw [hvalue, rows]
  apply endsBelow_tail_itemsRows hs hsplit (hsearched item List.mem_cons_self) rfl htail
  intro m hm
  exact endsBelow_itemsRows hs hname hvalue'
    (fun item' h => hsearched item' (List.mem_cons_of_mem _ h)) hm htail

/-- A search for a key in a list passes over it, or leaves the block above at the first marker. -/
theorem endsBelow_missing_key (hstep : 0 < step) (hname : name.toList.head? ≠ some '-')
    (hvalue : s.value = .list deeper items)
    (hsearched : ∀ item ∈ items, Searched step (.key name :: rest) item) {key : String}
    (hmiss : Misses s.column s.value (.key key :: pending) anchor child tail) :
    EndsBelow step (.key name :: rest) s tail
      (run (.key name :: rest) (Row.numbered s.line (rows step s.column s.value) ++ tail)
        (enter (.key key :: pending) anchor child)) := by
  have hnone : s.value.child? (.key key) = none := by
    rw [hvalue]
    rfl
  rcases hmiss.right with hlt | ⟨hsame, -⟩
  · exact endsBelow_of_passed hstep hs hmiss hnone hlt fun h => absurd h Bool.false_ne_true
  · -- the markers are at the column of the key above the list
    have hsplit : s.value = .list deeper ([] ++ items) := hvalue
    have houtside : BeginsOutside anchor false
        (Row.numbered s.line (itemsRows step s.column items) ++ tail) := by
      rw [hsame]
      exact beginsOutside_items hs hsplit hmiss.beginsOutside
    rw [hvalue, rows, run_of_beginsOutside rfl houtside]
    exact endsBelow_itemsRows hs hname hsplit hsearched rfl hmiss.beginsOutside

/-- Where the items from one on are too few for an index, the search for it in that item passes over
all of them. -/
theorem run_followed_item {u : Site} (hvalue : s.value = .list deeper (before ++ u.value :: after))
    (hcolumn : u.column = s.column + 2) (hlacks : u.value.Lacks (itemsItemCount after) pending)
    (hindex : u.value.lacksIndex pending = true) (hafter : after ≠ [])
    (htail : BeginsOutside s.column true tail) :
    run path (Row.numbered u.line (rows step u.column u.value) ++
        (Row.numbered (u.line + (rows step u.column u.value).length)
          (itemsRows step s.column after) ++ tail)) (enter pending s.column child) =
      run path tail (start path) := by
  rw [hvalue, isWellFormed_list] at hs
  have hafterWell : ∀ item ∈ after, item.isWellFormed = true := by
    intro item hitem
    exact hs.2 item (by simp [hitem])
  obtain ⟨segment, others, rfl⟩ := List.exists_cons_of_ne_nil hlacks.ne_nil
  cases segment with
  | key key => exact absurd hindex Bool.false_ne_true
  | index i =>
    have hfew : u.value.itemCount + itemsItemCount after ≤ i := by
      rcases of_noticesMiss_index (Option.isNone_iff_eq_none.1 hindex) hlacks.notices with
        ⟨-, hnone⟩ | hfew
      · exact absurd (itemsItemCount_eq_zero hnone) hafter
      · exact hfew
    have hitem : (rows step u.column u.value).countP Row.isMarked ≤ u.value.itemCount :=
      countP_isMarked_rows (hs.2 u.value (by simp)) u.column
    have hlater : (itemsRows step s.column after).countP Row.isMarked ≤ itemsItemCount after :=
      countP_isMarked_itemsRows hafterWell s.column
    rw [← List.append_assoc, ← Row.numbered_append]
    apply run_few_markers_inside ?_ ?_ htail
    · intro r hr
      rcases List.mem_append.1 hr with hr | hr
      · have hindent := le_indent_of_mem_rows hr
        left
        omega
      · exact isMarked_or_lt_of_mem_itemsRows hafterWell hr
    · rw [List.countP_append]
      omega

/-- A search that has found an item, in which the pending path is missing. -/
theorem endsBelow_missing_item (hname : name.toList.head? ≠ some '-')
    (hvalue : s.value = .list deeper items)
    (hsearched : ∀ item ∈ items, Searched step (.key name :: rest) item) {u : Site}
    (hu : s.child? step (.index i) = some u)
    (hmiss : Misses s.column s.value (.index i :: pending) anchor child tail) :
    EndsBelow step (.key name :: rest) s tail
      (run (.key name :: rest) (Row.numbered s.line (rows step s.column s.value) ++ tail)
        (enter (.index i :: pending) anchor child)) := by
  obtain ⟨deeper', before, after, hsplit, hlength, hline, hcolumn, hrun⟩ :=
    run_child?_index hs hu hmiss.anchor_le tail
  have hitems : items = before ++ u.value :: after := by
    rw [hvalue] at hsplit
    exact (Block.list.inj hsplit).2
  have hsplit' : s.value = .list deeper' ((before ++ [u.value]) ++ after) := by
    rw [hsplit, List.append_cons]
  have hlacks : u.value.Lacks (itemsItemCount after) pending := by
    rw [← itemsAfter_of_value hsplit hlength]
    exact hmiss.lacks.of_child? (Site.value_child? hu)
  rw [hrun, List.isEmpty_eq_false_iff.2 hlacks.ne_nil]
  by_cases hfollowed : u.value.lacksIndex pending = true ∧ after ≠ []
  · -- the markers of the later items are counted too, but there are too few of them
    obtain ⟨hindex, hafter⟩ := hfollowed
    right
    exact run_followed_item hs hsplit hcolumn hlacks hindex hafter hmiss.beginsOutside
  · have hafter : ∀ item ∈ after, Searched step (.key name :: rest) item := by
      intro item hitem
      exact hsearched item (by simp [hitems, hitem])
    have hrest := endsBelow_itemsRows hs hname hsplit' hafter (line_after_item hline hcolumn)
      hmiss.beginsOutside
    have hlater : BeginsOutside s.column false
        (Row.numbered (u.line + (rows step u.column u.value).length)
          (itemsRows step s.column after) ++ tail) :=
      beginsOutside_items hs hsplit' hmiss.beginsOutside
    have hsearch : Searched step (.key name :: rest) u.value :=
      hsearched u.value (by simp [hitems])
    refine (hsearch.missing u rfl pending s.column (some u.column) _ ?_).trans hu hrest
    refine ⟨hlacks.zero, Or.inl (by omega), Or.inr rfl, hlater.mono (Or.inl (by omega)), ?_⟩
    rcases Decidable.not_and_iff_or_not.1 hfollowed with hindex | hlast
    · -- the later markers are at the column of the one that was found
      rw [Bool.eq_false_iff.2 hindex]
      exact hlater
    · rw [Decidable.not_not.1 hlast, itemsRows]
      exact hmiss.beginsOutside.of_true

/-- A search for what is missing in a list. -/
theorem endsBelow_missing_list (hstep : 0 < step) (hname : name.toList.head? ≠ some '-')
    (hvalue : s.value = .list deeper items)
    (hsearched : ∀ item ∈ items, Searched step (.key name :: rest) item)
    (hmiss : Misses s.column s.value pending anchor child tail) :
    EndsBelow step (.key name :: rest) s tail
      (run (.key name :: rest) (Row.numbered s.line (rows step s.column s.value) ++ tail)
        (enter pending anchor child)) := by
  obtain ⟨segment, others, rfl⟩ := List.exists_cons_of_ne_nil hmiss.lacks.ne_nil
  cases segment with
  | key key => exact endsBelow_missing_key hs hstep hname hvalue hsearched hmiss
  | index i =>
    cases hchild : s.value.child? (.index i) with
    | some part =>
      obtain ⟨u, hu, -⟩ := Site.exists_child? step hchild
      exact endsBelow_missing_item hs hname hvalue hsearched hu hmiss
    | none =>
      -- all items are counted, and the list ends before the wanted one
      obtain ⟨hne, hitems⟩ := isWellFormed_list.1 (hvalue ▸ hs)
      have hlength : items.length ≤ i := by
        rw [hvalue] at hchild
        exact List.getElem?_eq_none_iff.1 hchild
      right
      rw [hvalue, rows, run_no_item hmiss.anchor_le hne hitems hlength]
      exact run_of_beginsOutside rfl (hmiss.beginsOutside_anchor hchild)

end List

/-! ## The whole search -/

/-- A scalar holds nothing that a search could find. -/
theorem searched_scalar (hstep : 0 < step) (hname : name.toList.head? ≠ some '-') {text : String}
    (hb : (scalar text).isWellFormed = true) :
    Searched step (.key name :: rest) (.scalar text) := by
  refine ⟨?_, ?_, ?_⟩
  · intro s _ tail _
    have hother : ∀ k, Line.key? text.toList = some k → k.key ≠ name.toList := by
      intro k hk
      have hmem : ⟨s.column, text.toList⟩ ∈ rows step s.column (.scalar text) := by
        rw [rows]
        exact List.mem_cons_self
      exact key_ne_of_mem_rows hstep hb hname rfl hmem rfl hk
    right
    rw [rows, run_start_row hother]
    rfl
  · intro s _ tail _
    exact Or.inr rfl
  · intro s hvalue pending anchor child tail hmiss
    rw [← hvalue] at hb hmiss ⊢
    have hnolist : s.value.isList = false := by
      rw [hvalue]
      rfl
    obtain ⟨segment, others, rfl⟩ := List.exists_cons_of_ne_nil hmiss.lacks.ne_nil
    have hnone : s.value.child? segment = none := by
      rw [hvalue]
      cases segment <;> rfl
    exact endsBelow_of_passed hstep hb hmiss hnone (hmiss.anchor_lt hnolist) fun _ => hnolist

/-- **Whichever way the search for a path comes to a part of a printed tree, it ends below the part
at the site of a path that ends with the searched one, or starts over after the part.** -/
theorem searched (hstep : 0 < step)
    (hunmarked : ∀ segment ∈ .key name :: rest, segment.isUnmarked = true) {b : Block}
    (hb : b.isWellFormed = true)
    (hnotices : ∀ part ∈ b.parts, part.noticesMiss 0 (.key name :: rest) = true) :
    Searched step (.key name :: rest) b := by
  have hname : name.toList.head? ≠ some '-' := by
    simpa [Segment.isUnmarked] using hunmarked _ List.mem_cons_self
  have hrest : ∀ segment ∈ rest, segment.isUnmarked = true :=
    fun segment h => hunmarked segment (List.mem_cons_of_mem _ h)
  -- a part is searched as the parts right below it are
  induction b using Block.induct with
  | scalar text => exact searched_scalar hstep hname hb
  | mapping entries ih =>
    have hself := hnotices _ (mem_parts_self _)
    have hsearched : ∀ e ∈ entries, Searched step (.key name :: rest) e.2 := by
      intro e he
      apply ih e he ((isWellFormed_mapping.1 hb).2.2 e he).2
      intro part hpart
      exact hnotices part (mem_parts_of_entry he hpart)
    refine ⟨?_, ?_, ?_⟩
    · intro s hvalue tail htail
      rw [← hvalue] at hb hself
      have hsplit : s.value = .mapping ([] ++ entries) := hvalue
      rw [rows]
      exact endsBelow_entriesRows hstep hb hrest hself hsplit hsearched rfl htail
    · intro s hvalue tail htail
      rw [← hvalue] at hb hself ⊢
      exact endsBelow_tail_mapping hstep hb hrest hself hvalue hsearched htail
    · intro s hvalue pending anchor child tail hmiss
      rw [← hvalue] at hb hself hmiss ⊢
      exact endsBelow_missing_mapping hstep hb hrest hself hvalue hsearched hmiss
  | list deeper items ih =>
    have hsearched : ∀ item ∈ items, Searched step (.key name :: rest) item := by
      intro item hitem
      apply ih item hitem ((isWellFormed_list.1 hb).2 item hitem)
      intro part hpart
      exact hnotices part (mem_parts_of_item hitem hpart)
    refine ⟨?_, ?_, ?_⟩
    · intro s hvalue tail htail
      rw [← hvalue] at hb
      have hsplit : s.value = .list deeper ([] ++ items) := hvalue
      rw [rows]
      exact endsBelow_itemsRows hb hname hsplit hsearched rfl htail
    · intro s hvalue tail htail
      rw [← hvalue] at hb ⊢
      exact endsBelow_tail_list hb hname hvalue hsearched htail
    · intro s hvalue pending anchor child tail hmiss
      rw [← hvalue] at hb hmiss ⊢
      exact endsBelow_missing_list hb hstep hname hvalue hsearched hmiss

end Walk

/-- Whether the search for a path notices that the path breaks off, wherever in a tree it begins. -/
def Block.noticesAbsence (root : Block) (path : List Segment) : Bool :=
  path.all Segment.isUnmarked && root.parts.all fun part => part.noticesMiss 0 path

theorem Block.noticesAbsence_iff {root : Block} {path : List Segment} :
    root.noticesAbsence path = true ↔ (∀ segment ∈ path, segment.isUnmarked = true) ∧
      ∀ part ∈ root.parts, part.noticesMiss 0 path = true := by
  rw [noticesAbsence, Bool.and_eq_true, List.all_eq_true, List.all_eq_true]

section Printed

variable {step : Nat} {root : Block} {path : List Segment} (hstep : 0 < step)
  (hroot : root.isWellFormed = true) (hlist : root.isList = false)
  (hnotices : root.noticesAbsence path = true) {s : Source} (hlines : s.lines = root.lines step)
include hstep hroot hlist hnotices hlines

/-- **A path is only found where some path that ends with it is printed.** -/
theorem exists_site_of_locate? {p : Position} (h : locate? s.entries ⟨path⟩ = some p) :
    ∃ before t, root.site? step (before ++ path) = some t ∧ t.position = p := by
  obtain ⟨hunmarked, hparts⟩ := noticesAbsence_iff.1 hnotices
  rw [locate?_printed hroot hlines] at h
  cases path with
  | nil => exact absurd h.symm (Option.some_ne_none p)
  | cons first rest =>
    replace h : Walk.run (first :: rest) (Row.numbered 0 (rows step 0 root))
        (Walk.start (first :: rest)) = some p := h
    cases first with
    | key name =>
      have hsearched := Walk.searched hstep hunmarked hroot hparts
      have hends := hsearched.fresh ⟨.origin, 0, 0, root⟩ rfl [] (Walk.beginsOutside_nil 0 true)
      rw [List.append_nil, h] at hends
      rcases hends with ⟨before, t, ht, hp⟩ | hnone
      · exact ⟨before, t, ht, (Option.some.inj hp).symm⟩
      · exact absurd hnone (Option.some_ne_none p)
    | index i =>
      -- the root is no list, so there must be too few items in all its lists
      have hnone : root.child? (.index i) = none := by
        cases root with
        | scalar _ | mapping _ => rfl
        | list _ _ => exact absurd hlist.symm Bool.false_ne_true
      rcases of_noticesMiss_index hnone (hparts root (mem_parts_self root)) with
        ⟨hself, -⟩ | hfew
      · rw [hlist] at hself
        exact absurd hself Bool.false_ne_true
      · have hmarkers : (rows step 0 root).countP Row.isMarked ≤ i :=
          Nat.le_trans (countP_isMarked_rows hroot 0) hfew
        rw [Walk.run_start_few_markers hmarkers] at h
        exact absurd h.symm (Option.some_ne_none p)

/-- **A path that ends no path of a printed tree resolves to the end of the document.** -/
theorem Resolver.position_eq_endPosition (habsent : ∀ before, root.at? (before ++ path) = none) :
    indentation.position s ⟨path⟩ = s.endPosition := by
  have hnone : locate? s.entries ⟨path⟩ = none := by
    cases h : locate? s.entries ⟨path⟩ with
    | none => rfl
    | some p =>
      obtain ⟨before, t, ht, -⟩ :=
        exists_site_of_locate? hstep hroot hlist hnotices hlines h
      have hvalue := site?_map_value step root (before ++ path)
      rw [ht, habsent before] at hvalue
      exact absurd hvalue (Option.some_ne_none t.value)
  rw [Resolver.position_indentation, hnone]
  rfl

end Printed

end ResourceGraph
