import ResourceGraph.Proofs.Layout.Site
import ResourceGraph.Proofs.Resolver.Walk
import ResourceGraph.Resolver.Basic

/-!
# Paths of a printed document

Every path of a printed document is found where it is printed
(`position_indentation_printed`): a search inside a block passes over the rows of other keys and of
the items before the wanted one, and is at the first row of the wanted part when it enters that part
(`run_descend?`). The only condition is on the first key, since the search for it reads every line:
no line above its own may be written with it.
-/

set_option autoImplicit false

namespace ResourceGraph

open Text Block

namespace Block

/-- Whether no line above the one of a top-level key is written with that key. -/
def isNewKey (step : Nat) (root : Block) (first : String) : Bool :=
  (root.site? step [.key first]).all fun top =>
    ((root.lines step).take top.position.line).all fun line =>
      (Line.key? (trim line)).all fun k => k.key != first.toList

theorem key_ne_of_isNewKey {step : Nat} {root : Block} {first : String} {top : Site}
    (hroot : root.isWellFormed = true) (htop : root.site? step [.key first] = some top)
    (hnew : root.isNewKey step first = true) :
    ∀ r ∈ (rows step 0 root).take top.position.line,
      ∀ k, Line.key? r.content = some k → k.key ≠ first.toList := by
  intro r hr k hk
  rw [isNewKey, htop, Option.all_some, List.all_eq_true] at hnew
  have hline : r.line ∈ (root.lines step).take top.position.line := by
    rw [lines, ← List.map_take]
    exact List.mem_map_of_mem hr
  have hsolid := (isPrinted_of_mem_rows hroot (List.mem_of_mem_take hr)).1
  have hkey := hnew r.line hline
  rw [Row.line, trim_indented hsolid, hk] at hkey
  simpa using hkey

/-- A row at the column of some entries is written with the key of one of them, or begins with a
dash. -/
theorem key_ne_of_mem_entriesRows {step column : Nat} (hstep : 0 < step) {name : String}
    (hname : name.toList.head? ≠ some '-') {entries : List (String × Block)}
    (hentries : ∀ e ∈ entries, isWord e.1.toList = true ∧ e.1 ≠ name) {r : Row}
    (hr : r ∈ entriesRows step column entries) (hcolumn : r.indent = column) {k : Line.Key}
    (hk : Line.key? r.content = some k) : k.key ≠ name.toList := by
  rcases key_of_mem_entriesRows hstep hr hcolumn with ⟨e, he, rfl⟩ | ⟨content, hmarked⟩
  · obtain ⟨hword, hne⟩ := hentries e he
    exact key_ne_of_keyRow hword hne hk
  · -- the key of a row with a marker begins with its dash
    rw [hmarked] at hk
    exact Line.key_ne_of_marked hname hk

end Block

namespace Walk

variable {path rest : List Segment} {name : String} {i n anchor column seen step : Nat}
  {child : Option Nat}

/-! ## Rows that are passed over -/

theorem run_deeper_rows {below : List Row} (hanchor : anchor ≤ column)
    (hdeep : ∀ r ∈ below, column < r.indent) (tail : List Entry) :
    run path (Row.numbered n below ++ tail) (counting i rest anchor child column seen) =
      run path tail (counting i rest anchor child column seen) := by
  apply run_append_of_going
  intro e he
  obtain ⟨r, hr, hindent, -⟩ := Row.mem_numbered he
  apply step_inner hanchor
  rw [hindent]
  exact hdeep r hr

/-- The rows of an item: the one that goes behind its marker, and those right of the marker. -/
theorem rows_item (step column : Nat) {item : Block} (hitem : item.isWellFormed = true) :
    ∃ content below, rows step (column + 2) item = ⟨column + 2, content⟩ :: below ∧
      content.isSolid = true ∧ ∀ r ∈ below, column < r.indent := by
  obtain ⟨content, below, hrows⟩ := rows_eq_cons step hitem (column + 2)
  refine ⟨content, below, hrows, ?_, ?_⟩
  · have hfirst : ⟨column + 2, content⟩ ∈ rows step (column + 2) item := by
      rw [hrows]
      exact List.mem_cons_self
    exact (isPrinted_of_mem_rows hitem hfirst).1
  · intro r hr
    have hmem : r ∈ rows step (column + 2) item := by
      rw [hrows]
      exact List.mem_cons_of_mem _ hr
    have hindent := le_indent_of_mem_rows hmem
    omega

/-- The items before the wanted one are counted. -/
theorem run_counted_items {items : List Block} (hanchor : anchor ≤ column)
    (hitems : ∀ item ∈ items, item.isWellFormed = true) (hseen : seen + items.length ≤ i)
    (tail : List Entry) :
    run path (Row.numbered n (itemsRows step column items) ++ tail)
        (counting i rest anchor child column seen) =
      run path tail (counting i rest anchor child column (seen + items.length)) := by
  induction items generalizing n seen with
  | nil =>
    rw [itemsRows]
    rfl
  | cons item items ih =>
    obtain ⟨content, below, hrows, hsolid, hdeep⟩ :=
      rows_item step column (hitems item List.mem_cons_self)
    rw [List.length_cons] at hseen
    have hlength : seen + (item :: items).length = seen + 1 + items.length := by
      rw [List.length_cons]
      omega
    have hmarker : Walk.step path ⟨n, column, '-' :: ' ' :: content⟩
        (counting i rest anchor child column seen) =
        .going (counting i rest anchor child column (seen + 1)) :=
      step_marker hanchor (Line.item?_marked hsolid) (by omega)
    -- the marker is counted, and is not the wanted one, since fewer than `i` were seen
    rw [itemsRows, hrows, markFirst, Row.numbered_append, List.append_assoc, Row.numbered,
      List.cons_append, run, hmarker]
    show run path _ (counting i rest anchor child column (seen + 1)) = _
    -- the rest of the item is right of its marker
    rw [run_deeper_rows hanchor hdeep, hlength]
    exact ih (fun item' h => hitems item' (List.mem_cons_of_mem _ h)) (by omega)

/-- The first row of a list is a marker, and fixes the column of the markers. -/
theorem run_fix_items {items : List Block} (hanchor : anchor ≤ column) (hne : items ≠ [])
    (hitems : ∀ item ∈ items, item.isWellFormed = true) (tail : List Entry) :
    run path (Row.numbered n (itemsRows step column items) ++ tail)
        (enter (.index i :: rest) anchor child) =
      run path (Row.numbered n (itemsRows step column items) ++ tail)
        (counting i rest anchor child column 0) := by
  obtain ⟨first, others, rfl⟩ := List.exists_cons_of_ne_nil hne
  obtain ⟨content, below, hrows, hsolid, -⟩ :=
    rows_item step column (hitems first List.mem_cons_self)
  rw [itemsRows, hrows]
  exact run_fix_marker hanchor (Line.item?_marked hsolid)

/-- The entries of other keys are passed over. -/
theorem run_other_entries {entries : List (String × Block)} (hstep : 0 < step)
    (hanchor : anchor < column) (hname : name.toList.head? ≠ some '-')
    (hentries : ∀ e ∈ entries, isWord e.1.toList = true ∧ e.1 ≠ name) (tail : List Entry) :
    run path (Row.numbered n (entriesRows step column entries) ++ tail)
        (enter (.key name :: rest) anchor (some column)) =
      run path tail (enter (.key name :: rest) anchor (some column)) := by
  apply run_append_of_going
  intro e he
  obtain ⟨r, hr, hindent, hcontent⟩ := Row.mem_numbered he
  -- deeper rows are never searched for a key, and those at the column hold another one
  have hcolumn := le_indent_of_mem_entriesRows hr
  rw [← hindent] at hcolumn
  apply step_other_key (by omega) hcolumn
  intro hsame k hk
  rw [hcontent] at hk
  exact key_ne_of_mem_entriesRows hstep hname hentries hr (hindent ▸ hsame) hk

/-- The first row of a block fixes the column of its keys. -/
theorem run_fix_rows {b : Block} (hb : b.isWellFormed = true) (hanchor : anchor < column)
    (hchild : child = none ∨ child = some column) (tail : List Entry) :
    run path (Row.numbered n (rows step column b) ++ tail)
        (enter (.key name :: rest) anchor child) =
      run path (Row.numbered n (rows step column b) ++ tail)
        (enter (.key name :: rest) anchor (some column)) := by
  obtain ⟨content, below, hrows⟩ := rows_eq_cons step hb column
  rw [hrows]
  exact run_fix_key hanchor hchild

/-! ## Rows at which the search goes on -/

/-- The row of the searched key ends the search, or the search goes on below it. -/
theorem run_key_row (step : Nat) {w : Walk} {value : Block} (after : List (String × Block))
    (hrow : Walk.step path ⟨n, column, (keyRow column name value).content⟩ w =
      if rest.isEmpty then .found (column + (units name.toList + 1))
      else .going (enter rest column none)) (tail : List Entry) :
    run path (Row.numbered n (entriesRows step column ((name, value) :: after)) ++ tail) w =
      if rest.isEmpty then some ⟨n, column + (units name.toList + 1)⟩
      else run path (Row.numbered (n + 1) (rowsBelow step column value) ++
        (Row.numbered (n + 1 + (rowsBelow step column value).length)
          (entriesRows step column after) ++ tail)) (enter rest column none) := by
  rw [← List.append_assoc, ← Row.numbered_append, entriesRows, List.cons_append, Row.numbered,
    List.cons_append, run]
  have hcolumn : (keyRow column name value).indent = column := rfl
  rw [hcolumn, hrow]
  cases rest.isEmpty with
  | true => rfl
  | false => rfl

/-- The marker of the wanted item ends the search, or the search goes on in the rows of the item. -/
theorem run_item_rows {item : Block} (hanchor : anchor ≤ column)
    (hitem : item.isWellFormed = true) (tail : List Entry) :
    run path (Row.numbered n (markFirst column (rows step (column + 2) item)) ++ tail)
        (counting i rest anchor child column i) =
      if rest.isEmpty then some ⟨n, column⟩
      else run path (Row.numbered n (rows step (column + 2) item) ++ tail)
        (enter rest column (some (column + 2))) := by
  obtain ⟨content, below, hrows, hsolid, -⟩ := rows_item step column hitem
  have hbody : content.isEmpty = false := by
    obtain ⟨⟨c, cs, rfl, -⟩, -⟩ := Line.isSolid_iff.1 hsolid
    rfl
  have hrow : Walk.step path ⟨n, column, '-' :: ' ' :: content⟩
      (counting i rest anchor child column i) =
      if rest.isEmpty then .found column
      else Walk.step path ⟨n, column + 2, content⟩ (enter rest column (some (column + 2))) := by
    rw [step_wanted hanchor (Line.item?_marked hsolid), step_enter_item]
    simp only [hbody, Bool.false_eq_true, if_false]
  rw [hrows, markFirst, Row.numbered, Row.numbered, List.cons_append, List.cons_append, run, hrow]
  cases rest.isEmpty with
  | true => rfl
  | false =>
    simp only [Bool.false_eq_true, if_false]
    rw [run]

/-! ## The search inside a block -/

/-- The search for a key of a printed mapping ends at its site, or goes on in the rows there. -/
theorem run_child?_key (hstep : 0 < step) {s u : Site} (hs : s.value.isWellFormed = true)
    (hu : s.child? step (.key name) = some u) (hanchor : anchor < s.column)
    (hchild : child = none ∨ child = some s.column) (tail : List Entry) :
    ∃ before after, s.value = .mapping (before ++ (name, u.value) :: after) ∧
      u.line = s.line + (entriesRows step s.column before).length + 1 ∧
      run path (Row.numbered s.line (rows step s.column s.value) ++ tail)
          (enter (.key name :: rest) anchor child) =
        if rest.isEmpty then some u.position
        else run path (Row.numbered u.line (rowsBelow step s.column u.value) ++
          (Row.numbered (u.line + (rowsBelow step s.column u.value).length)
            (entriesRows step s.column after) ++ tail)) (enter rest s.column none) := by
  obtain ⟨before, after, hvalue, hbefore, hposition, -, hline⟩ := Site.child?_key hu
  rw [run_fix_rows hs hanchor hchild]
  rw [hvalue] at hs
  have hentries := (isWellFormed_mapping.1 hs).2.2
  have hword : isWord name.toList = true := (hentries (name, u.value) (by simp)).1
  have hothers : ∀ e ∈ before, isWord e.1.toList = true ∧ e.1 ≠ name := by
    intro e he
    exact ⟨(hentries e (List.mem_append_left _ he)).1, hbefore e he⟩
  refine ⟨before, after, hvalue, by rw [hline, hposition], ?_⟩
  rw [hvalue, rows, entriesRows_append, Row.numbered_append, List.append_assoc,
    run_other_entries hstep hanchor (head?_ne_of_isWord hword) hothers, hline, hposition]
  exact run_key_row step after (step_same_key hanchor (key?_keyRow hword) rfl) tail

/-- The search for an item of a printed list ends at its marker, or goes on in the rows of the
item. -/
theorem run_child?_index {s u : Site} (hs : s.value.isWellFormed = true)
    (hu : s.child? step (.index i) = some u) (hanchor : anchor ≤ s.column) (tail : List Entry) :
    ∃ deeper before after, s.value = .list deeper (before ++ u.value :: after) ∧
      before.length = i ∧ u.line = s.line + (itemsRows step s.column before).length ∧
      u.column = s.column + 2 ∧
      run path (Row.numbered s.line (rows step s.column s.value) ++ tail)
          (enter (.index i :: rest) anchor child) =
        if rest.isEmpty then some u.position
        else run path (Row.numbered u.line (rows step u.column u.value) ++
          (Row.numbered (u.line + (rows step u.column u.value).length)
            (itemsRows step s.column after) ++ tail)) (enter rest s.column (some u.column)) := by
  obtain ⟨deeper, before, after, hvalue, hlength, hposition, hcolumn, hline⟩ := Site.child?_index hu
  rw [hvalue] at hs
  have hitems := (isWellFormed_list.1 hs).2
  have hbefore : ∀ item ∈ before, item.isWellFormed = true := by
    intro item h
    exact hitems item (List.mem_append_left _ h)
  have hseen : 0 + before.length = i := by omega
  refine ⟨deeper, before, after, hvalue, hlength, by rw [hline, hposition], hcolumn, ?_⟩
  rw [hvalue, rows, run_fix_items hanchor (by simp) hitems, itemsRows_append, Row.numbered_append,
    List.append_assoc, run_counted_items hanchor hbefore (Nat.le_of_eq hseen), hseen, itemsRows,
    Row.numbered_append, List.append_assoc, run_item_rows hanchor (hitems u.value (by simp)), hline,
    hposition, hcolumn, length_markFirst]

/-- The first pending segment is found at its site, and the search goes on in the rows there. -/
theorem run_child? (hstep : 0 < step) {segment : Segment} {s u : Site}
    (hs : s.value.isWellFormed = true) (hu : s.child? step segment = some u)
    (hrest : rest ≠ [] → ∀ text, u.value ≠ .scalar text) (hanchor : anchor ≤ s.column)
    (hmapping : ∀ entries, s.value = .mapping entries → anchor < s.column)
    (hchild : child = none ∨ child = some s.column) (tail : List Entry) :
    ∃ child' tail', (child' = none ∨ child' = some u.column) ∧
      run path (Row.numbered s.line (rows step s.column s.value) ++ tail)
          (enter (segment :: rest) anchor child) =
        if rest = [] then some u.position
        else run path (Row.numbered u.line (rows step u.column u.value) ++ tail')
          (enter rest s.column child') := by
  cases segment with
  | key name =>
    obtain ⟨before, after, hvalue, -, -, hcolumn, -⟩ := Site.child?_key hu
    obtain ⟨_, others, -, -, hrun⟩ := run_child?_key hstep hs hu (hmapping _ hvalue) hchild tail
    refine ⟨none, Row.numbered (u.line + (rowsBelow step s.column u.value).length)
      (entriesRows step s.column others) ++ tail, Or.inl rfl, ?_⟩
    rw [hrun]
    by_cases hempty : rest = []
    · simp [hempty]
    · simp only [List.isEmpty_iff, hempty, if_false]
      rw [rowsBelow_of_ne_scalar step s.column (hrest hempty), ← hcolumn]
  | index i =>
    obtain ⟨_, _, after, -, -, -, -, hrun⟩ := run_child?_index hs hu hanchor tail
    refine ⟨some u.column, Row.numbered (u.line + (rows step u.column u.value).length)
      (itemsRows step s.column after) ++ tail, Or.inr rfl, ?_⟩
    rw [hrun]
    simp only [List.isEmpty_iff]

/-- **Inside a printed block the search ends at the site of the pending path.** -/
theorem run_descend? (hstep : 0 < step) {pending : List Segment} (hpending : pending ≠ [])
    {s t : Site} (hs : s.value.isWellFormed = true) (ht : s.descend? step pending = some t)
    (hanchor : anchor ≤ s.column)
    (hmapping : ∀ entries, s.value = .mapping entries → anchor < s.column)
    (hchild : child = none ∨ child = some s.column) (tail : List Entry) :
    run path (Row.numbered s.line (rows step s.column s.value) ++ tail)
      (enter pending anchor child) = some t.position := by
  -- the pending path loses a segment with every part that is entered
  induction pending generalizing s anchor child tail with
  | nil => exact absurd rfl hpending
  | cons segment rest ih =>
    obtain ⟨u, hu, hrest⟩ := Option.bind_eq_some_iff.1 ht
    obtain ⟨child', tail', hchild', hrun⟩ := run_child? hstep hs hu
      (Site.value_ne_scalar_of_descend? hrest) hanchor hmapping hchild tail
    rw [hrun]
    by_cases hempty : rest = []
    · rw [hempty, Site.descend?, Option.some.injEq] at hrest
      rw [if_pos hempty, hrest]
    · rw [if_neg hempty]
      exact ih hempty (Site.value_isWellFormed_of_child? hu hs) hrest
        (Site.column_le_of_child? hu) (fun _ => Site.column_lt_of_child? hstep hu) hchild' tail'

/-! ## The search from the start -/

/-- Rows without the first key of the path are passed over. -/
theorem run_start_rows {above : List Row}
    (h : ∀ r ∈ above, ∀ k, Line.key? r.content = some k → k.key ≠ name.toList)
    (tail : List Entry) :
    run (.key name :: rest) (Row.numbered n above ++ tail) (start (.key name :: rest)) =
      run (.key name :: rest) tail (start (.key name :: rest)) := by
  apply run_start_other
  intro e he k hk
  obtain ⟨r, hr, -, hcontent⟩ := Row.mem_numbered he
  rw [hcontent] at hk
  exact h r hr k hk

/-- The first key of the path is found at its site, and the search goes on below it. -/
theorem run_start {root : Block} (hroot : root.isWellFormed = true) {u : Site}
    (hu : root.site? step [.key name] = some u)
    (hnew : ∀ r ∈ (rows step 0 root).take u.position.line,
      ∀ k, Line.key? r.content = some k → k.key ≠ name.toList) :
    ∃ tail', run (.key name :: rest) (Row.numbered 0 (rows step 0 root))
        (start (.key name :: rest)) =
      if rest.isEmpty then some u.position
      else run (.key name :: rest) (Row.numbered u.line (rowsBelow step 0 u.value) ++ tail')
        (enter rest 0 none) := by
  rw [site?, Site.descend?_singleton] at hu
  obtain ⟨before, after, hvalue, -, hposition, -, hline⟩ := Site.child?_key hu
  -- the site of the first key cuts the root at its entry, and the rows before it are passed over
  simp only [Nat.zero_add] at hvalue hposition
  rw [hvalue] at hroot hnew ⊢
  have hword : isWord name.toList = true :=
    ((isWellFormed_mapping.1 hroot).2.2 (name, u.value) (by simp)).1
  have habove : ∀ r ∈ entriesRows step 0 before,
      ∀ k, Line.key? r.content = some k → k.key ≠ name.toList := by
    intro r hr
    apply hnew r
    rw [rows, entriesRows_append, hposition, List.take_left]
    exact hr
  rw [rows, entriesRows_append, Row.numbered_append, run_start_rows habove, Nat.zero_add,
    hline, hposition]
  have hkey : Walk.step (.key name :: rest)
      ⟨(entriesRows step 0 before).length, 0, (keyRow 0 name u.value).content⟩
      (start (.key name :: rest)) =
      if rest.isEmpty then .found (0 + (units name.toList + 1)) else .going (enter rest 0 none) :=
    step_start_key (key?_keyRow hword) rfl
  have hrun := run_key_row step after hkey []
  rw [List.append_nil, Nat.zero_add] at hrun
  exact ⟨_, hrun⟩

/-- From the start the search ends at the site of the path. -/
theorem run_site? (hstep : 0 < step) {root : Block} (hroot : root.isWellFormed = true) {t : Site}
    (ht : root.site? step (.key name :: rest) = some t)
    (hnew : root.isNewKey step name = true) :
    run (.key name :: rest) (Row.numbered 0 (rows step 0 root)) (start (.key name :: rest)) =
      some t.position := by
  obtain ⟨u, hu, hrest⟩ := Option.bind_eq_some_iff.1 ht
  have htop : root.site? step [.key name] = some u := by
    rw [site?, Site.descend?_singleton, hu]
  obtain ⟨tail, hrun⟩ := run_start hroot htop (key_ne_of_isNewKey hroot htop hnew)
  rw [hrun]
  by_cases hempty : rest = []
  · -- the first key is the whole path
    rw [hempty, Site.descend?, Option.some.injEq] at hrest
    rw [hempty, hrest]
    rfl
  · obtain ⟨before, after, -, -, -, hcolumn, -⟩ := Site.child?_key hu
    have hbelow : rowsBelow step 0 u.value = rows step u.column u.value := by
      rw [hcolumn, rowsBelow_of_ne_scalar step 0 (Site.value_ne_scalar_of_descend? hrest hempty)]
    rw [List.isEmpty_eq_false_iff.2 hempty, hbelow]
    exact run_descend? hstep hempty (Site.value_isWellFormed_of_child? hu hroot) hrest
      (Site.column_le_of_child? hu) (fun _ => Site.column_lt_of_child? hstep hu) (Or.inl rfl) tail

end Walk

theorem Source.lines_ofString {text : String} {lines : List Line}
    (h : splitLines text.toList = lines) : (Source.ofString text).lines = lines := h

/-- In a source with the printed lines a path is searched in the printed rows. -/
theorem locate?_printed {step : Nat} {root : Block} (hroot : root.isWellFormed = true) {s : Source}
    (hlines : s.lines = root.lines step) (path : List Segment) :
    locate? s.entries ⟨path⟩ =
      if path.isEmpty then none
      else Walk.run path (Row.numbered 0 (rows step 0 root)) (Walk.start path) := by
  rw [locate?, s.entries_eq, hlines, ofLines_lines hroot]

/-- In a source with the printed lines a path is located at its site. -/
theorem locate?_of_site? {step : Nat} {root : Block} {first : String} {rest : List Segment}
    (hstep : 0 < step) (hroot : root.isWellFormed = true) {s : Source}
    (hlines : s.lines = root.lines step) (hnew : root.isNewKey step first = true) {t : Site}
    (ht : root.site? step (.key first :: rest) = some t) :
    locate? s.entries ⟨.key first :: rest⟩ = some t.position := by
  rw [locate?_printed hroot hlines, List.isEmpty_cons, if_neg (by simp),
    Walk.run_site? hstep hroot ht hnew]

namespace Resolver

variable {step : Nat} {root : Block} {first : String} {rest : List Segment}

theorem position_indentation (s : Source) (path : Path) :
    indentation.position s path = (locate? s.entries path).getD s.endPosition := rfl

/-- In a source with the printed lines the position of a path is the one of its site. -/
theorem position_of_site? (hstep : 0 < step) (hroot : root.isWellFormed = true) {s : Source}
    (hlines : s.lines = root.lines step) (hnew : root.isNewKey step first = true) {t : Site}
    (ht : root.site? step (.key first :: rest) = some t) :
    indentation.position s ⟨.key first :: rest⟩ = t.position := by
  rw [position_indentation, locate?_of_site? hstep hroot hlines hnew ht]
  rfl

/-- **Every path of a printed document is found where it is printed**: at the site of the path,
where the last key and its colon end, or the marker of the last item begins. The lines above the
first key must not be written with it. -/
theorem position_indentation_printed {text : String} (hstep : 0 < step)
    (hroot : root.isWellFormed = true) (hlines : splitLines text.toList = root.lines step)
    (hnew : root.isNewKey step first = true)
    (hpath : (root.at? (.key first :: rest)).isSome = true) :
    ∃ site left right, root.site? step (.key first :: rest) = some site ∧
      indentation.position (Source.ofString text) ⟨.key first :: rest⟩ = site.position ∧
      (root.lines step)[site.position.line]? = some (left ++ right) ∧
      units left = site.position.character ∧
      (List.getLast (.key first :: rest) (List.cons_ne_nil _ _)).Around site.value left right ∧
      root.at? (.key first :: rest) = some site.value := by
  obtain ⟨value, hvalue⟩ := Option.isSome_iff_exists.1 hpath
  have hsite := site?_map_value step root (.key first :: rest)
  rw [hvalue] at hsite
  obtain ⟨site, ht, rfl⟩ := Option.map_eq_some_iff.1 hsite
  have hpath := List.dropLast_concat_getLast (List.cons_ne_nil (Segment.key first) rest)
  obtain ⟨left, right, hline, hcolumn, haround⟩ :=
    exists_line_of_site? hroot (hpath.symm ▸ ht : root.site? step (_ ++ [_]) = some site)
  exact ⟨site, left, right, ht, position_of_site? hstep hroot hlines hnew ht, hline, hcolumn,
    haround, hvalue⟩

/-- A document with a list at the column of its key, whose first item holds a list of lists. -/
def nestedLists : Block :=
  .mapping [("id", .scalar "x"), ("spec", .list false [
    .mapping [("id", .scalar "a"), ("list", .list true [
      .list false [.scalar "b", .mapping [("id", .scalar "c"), ("type", .scalar "d")]]])],
    .mapping [("id", .scalar "e"), ("type", .scalar "f")]])]

theorem position_indentation_nestedLists :
    (0 < 3 ∧ nestedLists.isWellFormed = true ∧
      splitLines (nestedLists.text 3).toList = nestedLists.lines 3 ∧
      nestedLists.isNewKey 3 "spec" = true ∧
      (nestedLists.at? [.key "spec", .index 1, .key "type"]).isSome = true) ∧
    ∃ site left right, nestedLists.site? 3 [.key "spec", .index 1, .key "type"] = some site ∧
      indentation.position (Source.ofString (nestedLists.text 3))
        ⟨[.key "spec", .index 1, .key "type"]⟩ = site.position ∧
      (nestedLists.lines 3)[site.position.line]? = some (left ++ right) ∧
      units left = site.position.character ∧
      (Segment.key "type").Around site.value left right ∧
      nestedLists.at? [.key "spec", .index 1, .key "type"] = some site.value := by
  have hroot : nestedLists.isWellFormed = true := by decide
  have hnew : nestedLists.isNewKey 3 "spec" = true := by decide
  have hpath : (nestedLists.at? [.key "spec", .index 1, .key "type"]).isSome = true := by decide
  exact ⟨⟨by decide, hroot, splitLines_text hroot, hnew, hpath⟩,
    position_indentation_printed (by decide) hroot (splitLines_text hroot) hnew hpath⟩

end Resolver

end ResourceGraph
