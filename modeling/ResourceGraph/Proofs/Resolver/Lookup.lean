import Mathlib.Data.List.TakeWhile
import ResourceGraph.Proofs.Resolver.Extent
import ResourceGraph.Proofs.Resolver.Walk
import ResourceGraph.Proofs.Text.Word

/-!
# The lookups of items and of lines after keys

A resolver answers two questions besides that for a path: where an item of a named list stands, and
where the line after a key begins. Both are answered by scans of their own, and both agree with the
answers for paths on every text (`lookups_agree`).

The items of a list are collected in one pass, and a path with an index counts them. Both leave the
list at the same entries (`Walk.leaves_eq_closes`), and in between the markers that are collected
are those that are counted (`Walk.run_items`). Once the list is left the search for a path starts
over, so the answers can differ past the last item, but only if the name is written again.
-/

set_option autoImplicit false

namespace ResourceGraph

open Text

/-- Whether a line is written with a key. -/
def Line.hasKey (name : List Char) (content : Line) : Bool :=
  (key? content).any fun k => k.key == name

theorem Line.hasKey_iff {name : List Char} {content : Line} :
    content.hasKey name = true ↔ ∃ k, key? content = some k ∧ k.key = name := by
  rw [hasKey, Option.any_eq_true]
  simp only [beq_iff_eq]

theorem Line.hasKey_eq_false_iff {name : List Char} {content : Line} :
    content.hasKey name = false ↔ ∀ k, key? content = some k → k.key ≠ name := by
  rw [Bool.eq_false_iff, Ne, hasKey_iff]
  constructor
  · intro h k hk hname
    exact h ⟨k, hk, hname⟩
  · rintro h ⟨k, hk, hname⟩
    exact h k hk hname

/-- Blank lines have no key, and that of a comment begins with its hash. -/
theorem Line.hasKey_of_isIgnorable {name : List Char} {content : Line}
    (hname : name.head? ≠ some '#') (h : content.isIgnorable = true) :
    content.hasKey name = false := by
  apply hasKey_eq_false_iff.2
  intro k hk
  cases content with
  | nil => simp [key?] at hk
  | cons c cs =>
    obtain rfl : c = '#' := by simpa [isIgnorable] using h
    rintro rfl
    exact hname (key?_comment hk)

/-- The position of an entry's text. -/
def Entry.position (e : Entry) : Position := ⟨e.line, e.indent⟩

namespace ListItem

variable {name : List Char} {opened lineCount endLine : Nat} {content : Line} {e : Entry}
  {entries : List Entry}

/-! ## Lists -/

theorem opensBlock_iff {k : Line.Key} (hk : Line.key? content = some k) :
    opensBlock name content = true ↔ k.key = name ∧ Line.isIgnorable (trim k.rest) = true := by
  rw [opensBlock, hk, Option.any_some, Bool.and_eq_true, beq_iff_eq]

theorem hasKey_of_opensBlock (h : opensBlock name content = true) :
    Line.hasKey name content = true := by
  obtain ⟨k, hk, -⟩ := (Option.any_eq_true _ _).1 h
  exact Line.hasKey_iff.2 ⟨k, hk, ((opensBlock_iff hk).1 h).1⟩

theorem not_opensBlock (h : Line.hasKey name content = false) :
    opensBlock name content = false := by
  apply Bool.eq_false_iff.2
  intro hopens
  rw [hasKey_of_opensBlock hopens] at h
  exact absurd h.symm Bool.false_ne_true

/-- A block goes up to the first entry that ends its list. -/
theorem exists_block_append (lineCount opened : Nat) (entries : List Entry) :
    ∃ tail, entries = (block lineCount opened entries).1 ++ tail ∧
      (∀ e ∈ (block lineCount opened entries).1, closes opened e = false) ∧
      ∀ e ∈ tail.head?, closes opened e = true := by
  induction entries with
  | nil => exact ⟨[], rfl, by simp [block], by simp⟩
  | cons e entries ih =>
    rw [block]
    split
    · rename_i hcloses
      refine ⟨e :: entries, rfl, by simp, ?_⟩
      intro e' he'
      obtain rfl := Option.some.inj he'
      exact hcloses
    · rename_i hcloses
      obtain ⟨tail, hsplit, hinner, htail⟩ := ih
      refine ⟨tail, congrArg (e :: ·) hsplit, ?_, htail⟩
      intro e' he'
      rcases List.mem_cons.1 he' with rfl | he'
      · exact Bool.eq_false_iff.2 hcloses
      · exact hinner e' he'

/-- Each item is at its marker. -/
theorem map_number (endLine i : Nat) (entries : List Entry) :
    (number endLine i entries).map (fun item => (⟨item.line, item.column⟩ : Position)) =
      entries.map Entry.position := by
  induction entries generalizing i with
  | nil => rfl
  | cons e entries ih =>
    cases entries with
    | nil => rfl
    | cons next entries =>
      rw [number, List.map_cons, List.map_cons, ih]
      rfl

/-- Whether an entry is a list marker at a column. -/
def isMarkerAt (column : Nat) (e : Entry) : Bool :=
  (Line.item? e.content).isSome && e.indent == column

theorem markers_cons_of_none (h : Line.item? e.content = none) (entries : List Entry) :
    markers (e :: entries) = markers entries := by
  rw [markers, markers, List.filter_cons_of_neg (by simp [h])]

theorem markers_cons_of_some {item : Line.Item} (h : Line.item? e.content = some item)
    (entries : List Entry) :
    markers (e :: entries) = (e :: entries).filter (isMarkerAt e.indent) := by
  rw [markers, List.filter_cons_of_pos (by simp [h])]
  show (e :: entries.filter _).filter _ = _
  rw [List.filter_cons_of_pos (by simp), List.filter_cons_of_pos (by simp [isMarkerAt, h]),
    List.filter_filter]
  congr 2
  funext e'
  exact Bool.and_comm _ _

end ListItem

namespace Walk

variable {path rest : List Segment} {name : String} {i j anchor column seen : Nat}
  {child : Option Nat} {e : Entry} {es tail : List Entry} {w : Walk}

/-! ## Counting the items of a list -/

/-- A search for an item leaves a list where the list ends. -/
theorem leaves_eq_closes (hpending : w.pending = .index i :: rest) (e : Entry) :
    w.leaves e = ListItem.closes w.anchor e := by
  rw [leaves, ListItem.closes, hpending]
  cases hitem : Line.item? e.content with
  | none =>
    simp only [List.head?_cons, Option.any_some, Option.isSome_none, Option.isNone_none,
      Bool.and_false, Bool.not_false, Bool.and_true, Bool.true_and]
    by_cases hlt : e.indent < w.anchor
    · simp [hlt]
    · by_cases heq : e.indent = w.anchor
      · simp [heq]
      · have hle : ¬ e.indent ≤ w.anchor := by omega
        simp [hlt, heq, hle]
  | some item => simp [Segment.isIndex]

/-- Inside a list every entry is matched. -/
theorem step_in_list (hpending : w.pending = .index i :: rest)
    (h : ListItem.closes w.anchor e = false) :
    step path e w = descend (.index i :: rest) e.indent e.content w := by
  apply step_index hpending
  intro _
  rw [leaves_eq_closes hpending, h]

/-- Inside a list a marker at the column is counted or, after enough of them, found. -/
theorem step_counting_list (h : ListItem.closes anchor e = false) :
    step path e (counting i [] anchor child column seen) =
      if ListItem.isMarkerAt column e then
        if seen < i then .going (counting i [] anchor child column (seen + 1)) else .found column
      else .going (counting i [] anchor child column seen) := by
  have hmatched : step path e (counting i [] anchor child column seen) =
      descend [.index i] e.indent e.content (counting i [] anchor child column seen) :=
    step_in_list rfl h
  rw [hmatched, descend]
  cases hitem : Line.item? e.content with
  | none => simp [ListItem.isMarkerAt, hitem]
  | some item =>
    by_cases hcolumn : e.indent = column
    · simp [ListItem.isMarkerAt, hitem, hcolumn, counting]
    · have hne : ¬ column = e.indent := fun heq => hcolumn heq.symm
      simp [ListItem.isMarkerAt, hitem, hcolumn, hne, counting]

/-- The markers at the column are counted, and the one that is wanted is found. -/
theorem run_counting (h : ∀ e ∈ es, ListItem.closes anchor e = false) (tail : List Entry) :
    run path (es ++ tail) (counting (seen + j) [] anchor child column seen) =
      ((es.filter (ListItem.isMarkerAt column))[j]?.map Entry.position).or
        (run path tail (counting (seen + j) [] anchor child column
          (seen + (es.filter (ListItem.isMarkerAt column)).length))) := by
  -- on the entries, with the markers that were passed and those that are left to pass
  induction es generalizing seen j with
  | nil => rfl
  | cons e es ih =>
    have hes : ∀ e ∈ es, ListItem.closes anchor e = false :=
      fun e' he' => h e' (List.mem_cons_of_mem e he')
    rw [List.cons_append, run, step_counting_list (h e List.mem_cons_self)]
    cases hmarker : ListItem.isMarkerAt column e with
    | false =>
      rw [List.filter_cons_of_neg (by simp [hmarker])]
      exact ih hes
    | true =>
      rw [List.filter_cons_of_pos hmarker, List.length_cons]
      cases j with
      | zero =>
        have hcolumn : e.indent = column := by
          rw [ListItem.isMarkerAt, Bool.and_eq_true, beq_iff_eq] at hmarker
          exact hmarker.2
        simp [Entry.position, hcolumn]
      | succ j =>
        have hnext : ∀ n, seen + (n + 1) = seen + 1 + n := by omega
        rw [if_pos rfl, if_pos (by omega), hnext j, hnext (List.length _),
          List.getElem?_cons_succ]
        exact ih hes

/-- The items of a list are found by their indexes, and past the last one the search goes on after
the list. -/
theorem run_items (h : ∀ e ∈ es, ListItem.closes anchor e = false) (tail : List Entry) :
    ∃ w : Walk, w.inside = true ∧ w.anchor = anchor ∧ w.pending = [.index i] ∧
      run path (es ++ tail) (enter [.index i] anchor child) =
        ((ListItem.markers es)[i]?.map Entry.position).or (run path tail w) := by
  induction es with
  | nil => exact ⟨enter [.index i] anchor child, rfl, rfl, rfl, rfl⟩
  | cons e es ih =>
    have hclosed := h e List.mem_cons_self
    cases hitem : Line.item? e.content with
    | none =>
      -- before the first marker nothing is counted
      have hstep : step path e (enter [.index i] anchor child) =
          .going (enter [.index i] anchor child) := by
        rw [step_in_list (w := enter [.index i] anchor child) rfl hclosed, descend, hitem]
      rw [List.cons_append, run, hstep, ListItem.markers_cons_of_none hitem]
      exact ih fun e' he' => h e' (List.mem_cons_of_mem e he')
    | some item =>
      -- the first marker fixes the column, and from there on all of them are counted
      have hanchor : anchor ≤ e.indent := by
        rw [ListItem.closes, Bool.or_eq_false_iff, decide_eq_false_iff_not] at hclosed
        omega
      have hrun : run path ((e :: es) ++ tail) (counting (0 + i) [] anchor child e.indent 0) = _ :=
        run_counting h tail
      rw [Nat.zero_add, Nat.zero_add] at hrun
      rw [ListItem.markers_cons_of_some hitem]
      exact ⟨counting i [] anchor child e.indent _, rfl, rfl, rfl,
        (run_fix_marker hanchor hitem).trans hrun⟩

end Walk

/-! ## Lists -/

section List

variable {s : Source} {name : String} {before after : List Entry} {e : Entry}

/-- The items of the list that the first entry with its name opens. -/
theorem listItems_eq (hentries : s.entries = before ++ e :: after)
    (hbefore : ∀ e' ∈ before, Line.hasKey name.toList e'.content = false)
    (hopens : ListItem.opensBlock name.toList e.content = true) :
    listItems s name = ListItem.number (ListItem.block s.lineCount e.indent after).2 0
      (ListItem.markers (ListItem.block s.lineCount e.indent after).1) := by
  have hskip : ∀ e' ∈ before, (!ListItem.opensBlock name.toList e'.content) = true := by
    intro e' he'
    simp [ListItem.not_opensBlock (hbefore e' he')]
  have hdrop : (s.entries.dropWhile fun e => !ListItem.opensBlock name.toList e.content) =
      e :: after := by
    rw [hentries, List.dropWhile_append_of_pos hskip,
      List.dropWhile_cons_of_neg (by simp [hopens])]
  rw [listItems, hdrop]

/-- An item of the list is located where the list has it, and past the last item the search goes on
after the list. -/
theorem locate?_item (hentries : s.entries = before ++ e :: after)
    (hbefore : ∀ e' ∈ before, Line.hasKey name.toList e'.content = false)
    (hopens : ListItem.opensBlock name.toList e.content = true) (i : Nat) :
    ∃ tail, tail <:+ after ∧ locate? s.entries ⟨[.key name, .index i]⟩ =
      ((listItems s name)[i]?.map fun item => (⟨item.line, item.column⟩ : Position)).or
        (Walk.run [.key name, .index i] tail (Walk.start [.key name, .index i])) := by
  obtain ⟨tail, hsplit, hinner, htail⟩ :=
    ListItem.exists_block_append s.lineCount e.indent after
  refine ⟨tail, ⟨_, hsplit.symm⟩, ?_⟩
  have hitems : (listItems s name)[i]?.map (fun item => (⟨item.line, item.column⟩ : Position)) =
      (ListItem.markers (ListItem.block s.lineCount e.indent after).1)[i]?.map Entry.position := by
    rw [listItems_eq hentries hbefore hopens, ← List.getElem?_map, ← List.getElem?_map,
      ListItem.map_number]
  obtain ⟨w, hinside, hanchor, hpending, hrun⟩ :
      ∃ w : Walk, w.inside = true ∧ w.anchor = e.indent ∧ w.pending = [.index i] ∧
        Walk.run [.key name, .index i] (_ ++ tail) (Walk.enter [.index i] e.indent none) = _ :=
    Walk.run_items hinner tail
  -- the entry after the list is outside its block
  have hrestart : Walk.run [.key name, .index i] tail w =
      Walk.run [.key name, .index i] tail (Walk.start [.key name, .index i]) := by
    cases tail with
    | nil => rfl
    | cons e' tail =>
      apply Walk.run_of_leaves hinside
      rw [Walk.leaves_eq_closes hpending, hanchor]
      exact htail e' rfl
  obtain ⟨k, hk, hname⟩ := Line.hasKey_iff.1 (ListItem.hasKey_of_opensBlock hopens)
  have hkey : Walk.step [.key name, .index i] e (Walk.start [.key name, .index i]) =
      .going (Walk.enter [.index i] e.indent none) := Walk.step_start_key hk hname
  have hother : ∀ e' ∈ before, ∀ k, Line.key? e'.content = some k → k.key ≠ name.toList :=
    fun e' he' => Line.hasKey_eq_false_iff.1 (hbefore e' he')
  calc locate? s.entries ⟨[.key name, .index i]⟩
      = Walk.run [.key name, .index i] (before ++ e :: after)
          (Walk.start [.key name, .index i]) := by rw [← hentries]; rfl
    _ = Walk.run [.key name, .index i] (e :: after) (Walk.start [.key name, .index i]) :=
        Walk.run_start_other hother (e :: after)
    _ = Walk.run [.key name, .index i] after (Walk.enter [.index i] e.indent none) := by
        rw [Walk.run, hkey]
    _ = ((listItems s name)[i]?.map fun item => (⟨item.line, item.column⟩ : Position)).or
          (Walk.run [.key name, .index i] tail (Walk.start [.key name, .index i])) := by
        rw [hitems, ← hrestart, ← hrun, ← hsplit]

namespace Source

/-- Whether the first entry that is written with a name, if there is any, has nothing but white
space or a comment after its colon. -/
def opensList (s : Source) (name : String) : Bool :=
  (s.entries.find? fun e => Line.hasKey name.toList e.content).all fun e =>
    (Line.key? e.content).all fun k => Line.isIgnorable (trim k.rest)

/-- Whether no two entries are written with a name. -/
def namesOnce (s : Source) (name : String) : Bool :=
  s.entries.countP (fun e => Line.hasKey name.toList e.content) ≤ 1

end Source

namespace Resolver

/-- A name that no entry is written with has no list, and no path that begins with it is found. -/
theorem position_item_of_not_hasKey
    (h : ∀ e ∈ s.entries, Line.hasKey name.toList e.content = false) (i : Nat) :
    indentation.listItem s name i = indentation.position s ⟨[.key name, .index i]⟩ := by
  have hitems : listItems s name = [] := by
    have hdrop :
        (s.entries.dropWhile fun e => !ListItem.opensBlock name.toList e.content) = [] := by
      apply List.dropWhile_eq_nil_iff.2
      intro e he
      simp [ListItem.not_opensBlock (h e he)]
    rw [listItems, hdrop]
  have hnone : locate? s.entries ⟨[.key name, .index i]⟩ = none :=
    Walk.run_start_eq_none fun e he => Line.hasKey_eq_false_iff.1 (h e he)
  rw [position_eq_endPosition_iff.2 hnone]
  show ((listItems s name)[i]?.map _).getD s.endPosition = s.endPosition
  rw [hitems]
  rfl

/-- The two answers for an item agree as far as the list goes, and everywhere if the name is written
once. -/
theorem position_item (hopens : s.opensList name = true) :
    (∀ i < (listItems s name).length,
      indentation.listItem s name i = indentation.position s ⟨[.key name, .index i]⟩) ∧
    (s.namesOnce name = true →
      ∀ i, indentation.listItem s name i =
        indentation.position s ⟨[.key name, .index i]⟩) := by
  cases hfind : s.entries.find? fun e => Line.hasKey name.toList e.content with
  | none =>
    have hnone : ∀ e ∈ s.entries, Line.hasKey name.toList e.content = false := by
      intro e he
      exact Bool.eq_false_iff.2 (List.find?_eq_none.1 hfind e he)
    exact ⟨fun i _ => position_item_of_not_hasKey hnone i,
      fun _ i => position_item_of_not_hasKey hnone i⟩
  | some e =>
    obtain ⟨hkey, before, after, hentries, hbefore⟩ := List.find?_eq_some_iff_append.1 hfind
    replace hbefore : ∀ e' ∈ before, Line.hasKey name.toList e'.content = false := by
      intro e' he'
      simpa using hbefore e' he'
    have hopening : ListItem.opensBlock name.toList e.content = true := by
      obtain ⟨k, hk, hname⟩ := Line.hasKey_iff.1 hkey
      rw [Source.opensList, hfind, Option.all_some, hk, Option.all_some] at hopens
      exact (ListItem.opensBlock_iff hk).2 ⟨hname, hopens⟩
    have hlocate := locate?_item hentries hbefore hopening
    constructor
    · intro i hi
      obtain ⟨tail, -, hitem⟩ := hlocate i
      rw [List.getElem?_eq_getElem hi, Option.map_some, Option.some_or] at hitem
      rw [position_of_locate? hitem]
      show ((listItems s name)[i]?.map _).getD s.endPosition = _
      rw [List.getElem?_eq_getElem hi]
      rfl
    · intro honce i
      obtain ⟨tail, htail, hitem⟩ := hlocate i
      -- after the list the name is not written again
      have hafter : ∀ e' ∈ tail, Line.hasKey name.toList e'.content = false := by
        intro e' he'
        rw [Source.namesOnce, hentries, List.countP_append, List.countP_cons, hkey, if_pos rfl,
          decide_eq_true_eq] at honce
        have hnone : after.countP (fun e => Line.hasKey name.toList e.content) = 0 := by omega
        exact Bool.eq_false_iff.2 (List.countP_eq_zero.1 hnone e' (htail.subset he'))
      rw [Walk.run_start_eq_none fun e' he' => Line.hasKey_eq_false_iff.1 (hafter e' he'),
        Option.or_none] at hitem
      show _ = (locate? s.entries ⟨[.key name, .index i]⟩).getD s.endPosition
      rw [hitem]
      rfl

end Resolver

end List

/-! ## Single keys -/

/-- A single key is located on the first line that is written with it. -/
theorem Walk.map_line_run_key {name : String} (hname : name.toList.head? ≠ some '#') (n : Nat)
    (lines : List Line) :
    (run [.key name] (Entry.ofLines n lines) (start [.key name])).map Position.line =
      Resolver.keyLine? name.toList n lines := by
  induction lines generalizing n with
  | nil => rfl
  | cons line lines ih =>
    rw [Entry.ofLines, Resolver.keyLine?]
    cases hentry : Entry.ofLine? n line with
    | none =>
      -- a line that is no entry is written with no such key
      have hkey := Line.hasKey_of_isIgnorable hname (Entry.ofLine?_eq_none_iff.1 hentry)
      rw [Line.hasKey] at hkey
      rw [hkey]
      exact ih (n + 1)
    | some e =>
      have hcontent := Entry.content_of_ofLine? hentry
      rw [← hcontent]
      cases hkey : Line.hasKey name.toList e.content with
      | false =>
        have hother : ∀ e' ∈ [e], ∀ k, Line.key? e'.content = some k → k.key ≠ name.toList := by
          intro e' he'
          rw [List.mem_singleton.1 he']
          exact Line.hasKey_eq_false_iff.1 hkey
        rw [Line.hasKey] at hkey
        rw [hkey]
        exact (congrArg _ (run_start_other hother _)).trans (ih (n + 1))
      | true =>
        obtain ⟨k, hk, hname'⟩ := Line.hasKey_iff.1 hkey
        have hstep : step [.key name] e (start [.key name]) = .found (e.indent + k.width) :=
          step_start_key hk hname'
        rw [Line.hasKey] at hkey
        rw [hkey]
        simp only [run, hstep, Option.map_some, if_true]
        rw [Entry.line_of_ofLine? hentry]

namespace Resolver

theorem keyLine?_eq_none_iff {key : List Char} {n : Nat} {lines : List Line} :
    keyLine? key n lines = none ↔ ∀ line ∈ lines, Line.hasKey key (trim line) = false := by
  rw [keyLine?_eq_findIdx?, Option.map_eq_none_iff, List.findIdx?_eq_none_iff]
  rfl

/-- The line of a key that begins no comment is that of its path. -/
theorem map_line_locate?_key (s : Source) {key : String} (hkey : key.toList.head? ≠ some '#') :
    (locate? s.entries ⟨[.key key]⟩).map Position.line = keyLine? key.toList 0 s.lines := by
  rw [s.entries_eq]
  exact Walk.map_line_run_key hkey 0 s.lines

/-- **The lookups agree.** Where the first line written with a name has nothing else on it, each
item of the list it opens is where the path of that item is, and where no other line is written with
the name, no path past the last item is found either. The line after a key that begins no comment is
the line after the place of that key, and both are not found exactly where no line is written with
it. -/
theorem lookups_agree (s : Source) :
    (∀ name : String, s.opensList name = true →
      (∀ i < (listItems s name).length,
        indentation.listItem s name i = indentation.position s ⟨[.key name, .index i]⟩) ∧
      (s.namesOnce name = true →
        ∀ i, indentation.listItem s name i =
          indentation.position s ⟨[.key name, .index i]⟩)) ∧
    ∀ key : String, key.toList.head? ≠ some '#' →
      (indentation.position s ⟨[.key key]⟩ = s.endPosition ↔
        ∀ line ∈ s.lines, Line.hasKey key.toList (trim line) = false) ∧
      indentation.afterKey s key =
        if indentation.position s ⟨[.key key]⟩ = s.endPosition then s.endPosition
        else ⟨(indentation.position s ⟨[.key key]⟩).line + 1, 0⟩ := by
  refine ⟨fun name hopens => ⟨?_, ?_⟩, fun key hkey => ⟨?_, ?_⟩⟩
  · intro i hi
    exact (position_item hopens).1 i hi
  · intro honce
    exact (position_item hopens).2 honce
  · rw [position_eq_endPosition_iff, ← keyLine?_eq_none_iff (n := 0), ← map_line_locate?_key s hkey,
      Option.map_eq_none_iff]
  · have hline := map_line_locate?_key s hkey
    show ((keyLine? key.toList 0 s.lines).map fun n =>
      (⟨n + 1, 0⟩ : Position)).getD s.endPosition = _
    rw [← hline]
    cases hlocate : locate? s.entries ⟨[.key key]⟩ with
    | none =>
      rw [if_pos (position_eq_endPosition_iff.2 hlocate)]
      rfl
    | some p =>
      have hfound : indentation.position s ⟨[.key key]⟩ ≠ s.endPosition := by
        rw [Ne, position_eq_endPosition_iff, hlocate]
        exact Option.some_ne_none p
      rw [if_neg hfound, position_of_locate? hlocate]
      rfl

/-- Two resources at the column of their key, of which the first has a list of its own. -/
def resourceList : Source :=
  Source.ofString "spec:\n  resources: # all\n  - id: a\n    ports:\n    - 80\n  - id: b\nkind: x\n"

theorem lookups_agree_resourceList :
    (resourceList.opensList "resources" = true ∧ resourceList.namesOnce "resources" = true ∧
      (listItems resourceList "resources").length = 2) ∧
    (indentation.position resourceList ⟨[.key "resources", .index 1]⟩ = ⟨5, 2⟩ ∧
      indentation.listItem resourceList "resources" 1 = ⟨5, 2⟩ ∧
      ∀ i, indentation.listItem resourceList "resources" i =
        indentation.position resourceList ⟨[.key "resources", .index i]⟩) ∧
    indentation.position resourceList ⟨[.key "ports"]⟩ = ⟨3, 10⟩ ∧
      indentation.afterKey resourceList "ports" = ⟨4, 0⟩ := by
  obtain ⟨hitems, hkeys⟩ := lookups_agree resourceList
  obtain ⟨hopens, honce, hlength⟩ : resourceList.opensList "resources" = true ∧
      resourceList.namesOnce "resources" = true ∧
      (listItems resourceList "resources").length = 2 := by
    decide +kernel
  obtain ⟨hitem, hports⟩ :
      indentation.position resourceList ⟨[.key "resources", .index 1]⟩ = ⟨5, 2⟩ ∧
        indentation.position resourceList ⟨[.key "ports"]⟩ = ⟨3, 10⟩ := by
    decide +kernel
  refine ⟨⟨hopens, honce, hlength⟩, ⟨hitem, ?_, (hitems "resources" hopens).2 honce⟩, hports, ?_⟩
  · rw [(hitems "resources" hopens).1 1 (by omega), hitem]
  · -- the line after the key is the one after its position
    have hfound : (⟨3, 10⟩ : Position) ≠ resourceList.endPosition := by decide +kernel
    rw [(hkeys "ports" (by decide)).2, hports, if_neg hfound]

end Resolver

end ResourceGraph
