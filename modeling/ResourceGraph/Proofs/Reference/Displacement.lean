import ResourceGraph.Proofs.Reference.Search
import ResourceGraph.Proofs.Resolver.Displacement

/-!
# Lookup does not depend on the layout

What is found in a source is found in the displaced source too, at the place to which it moves: the
positions of paths, the items of lists, and the places that references point to. A reference is looked
up by the values of ids, and these are the same in both sources. The search for a resource may try a
different number of items in each, but it finds the first one with the id
(`Source.Displaces.findResource`).

So blank lines and comments between others only renumber the lines of what is found, and spaces before
all lines that are not blank only move it to the right (`lookup_layout_invariant`).
-/

set_option autoImplicit false

namespace ResourceGraph

open Text Resolver

variable {d : Displacement} {s s' : Source}

/-! ## References -/

namespace Source.Displaces

variable (h : s.Displaces d s')
include h

theorem valueAt? {path : Path} {p : Position} (hp : ResourceGraph.locate? s.entries path = some p) :
    s'.valueAt? (d.position p) =
      (s.valueAt? p).map fun (start, value) => (d.position start, value) := by
  obtain ⟨e, he, hline, hcolumn⟩ := exists_entry_of_locate? hp
  obtain ⟨line, character⟩ := p
  obtain rfl : line = e.line := hline
  exact h.valueAt e he character hcolumn

theorem idOf? (i : Nat) : Reference.idOf? s' i =
    (Reference.idOf? s i).map fun (start, value) => (d.position start, value) := by
  rw [Reference.idOf?, Reference.idOf?, h.locate?]
  cases hlocate : ResourceGraph.locate? s.entries ((Reference.resource i).child (.key "id")) with
  | none => rfl
  | some after =>
    show (s'.valueAt? (d.position after)).bind _ = ((s.valueAt? after).bind _).map _
    rw [h.valueAt? hlocate]
    cases s.valueAt? after <;> rfl

theorem idOf?_eq_some_iff {i : Nat} {q : Position} {id : List Char} :
    Reference.idOf? s' i = some (q, id) ↔
      ∃ start, Reference.idOf? s i = some (start, id) ∧ d.position start = q := by
  rw [h.idOf?, Option.map_eq_some_iff]
  constructor
  · rintro ⟨⟨start, value⟩, hid, heq⟩
    obtain ⟨rfl, rfl⟩ := Prod.mk.inj heq
    exact ⟨start, hid, rfl⟩
  · rintro ⟨start, hid, rfl⟩
    exact ⟨(start, id), hid, rfl⟩

/-- The first resource with an id is the same one. -/
theorem findResource_eq_some_iff {i : Nat} {q : Position} {id : List Char} :
    Reference.findResource s' id = some (i, q) ↔
      ∃ start, Reference.findResource s id = some (i, start) ∧ d.position start = q := by
  -- the searches may try different numbers of items, but both find the first one with the id
  have hbefore : (∀ j < i, ∀ p, Reference.idOf? s' j ≠ some (p, id)) ↔
      ∀ j < i, ∀ p, Reference.idOf? s j ≠ some (p, id) := by
    constructor
    · intro hnone j hj p hp
      exact hnone j hj (d.position p) (h.idOf?_eq_some_iff.2 ⟨p, hp, rfl⟩)
    · intro hnone j hj p hp
      obtain ⟨start, hstart, -⟩ := h.idOf?_eq_some_iff.1 hp
      exact hnone j hj start hstart
  simp only [Reference.findResource_eq_some_iff, hbefore, h.idOf?_eq_some_iff]
  constructor
  · rintro ⟨⟨start, hid, hq⟩, hnone⟩
    exact ⟨start, ⟨hid, hnone⟩, hq⟩
  · rintro ⟨start, ⟨hid, hnone⟩, hq⟩
    exact ⟨⟨start, hid, hq⟩, hnone⟩

theorem findResource (id : List Char) : Reference.findResource s' id =
    (Reference.findResource s id).map fun (i, start) => (i, d.position start) := by
  ext ⟨i, q⟩
  rw [h.findResource_eq_some_iff, Option.map_eq_some_iff]
  constructor
  · rintro ⟨start, hfound, rfl⟩
    exact ⟨(i, start), hfound, rfl⟩
  · rintro ⟨⟨j, start⟩, hfound, heq⟩
    obtain ⟨rfl, rfl⟩ := Prod.mk.inj heq
    exact ⟨start, hfound, rfl⟩

theorem inResource (i : Nat) (keys : List String) :
    Reference.inResource s' i keys = (Reference.inResource s i keys).map d.position := by
  rw [Reference.inResource, Reference.inResource, h.locate?, h.locate?, Option.map_or]

theorem find (path : List Char) :
    Reference.find s' path = (Reference.find s path).map d.position := by
  rw [Reference.find, Reference.find]
  cases (splitOn '.' path).map trim with
  | nil => rfl
  | cons root rest =>
    rw [Reference.findSegments, Reference.findSegments]
    -- where the path points is decided by its segments and by what is found, and not by the places
    split
    · rfl
    · split
      · exact h.locate? _
      · rw [h.findResource]
        cases Reference.findResource s root with
        | none => rfl
        | some found =>
          obtain ⟨i, start⟩ := found
          show (if _ then some (d.position start) else _) = Option.map _ (if _ then _ else _)
          split
          · rfl
          · rw [h.inResource, Option.map_or]
            rfl

end Source.Displaces

/-! ## Layout -/

/-- Whether lookup in one source finds the same as in another one, displaced: paths that are not
found stay so, all others have moved, and so have the items of lists and what references point to. -/
structure Source.FindsDisplaced (s : Source) (d : Displacement) (s' : Source) : Prop where
  absent : ∀ path, indentation.position s' path = s'.endPosition ↔
    indentation.position s path = s.endPosition
  position : ∀ path, indentation.position s path ≠ s.endPosition →
    indentation.position s' path = d.position (indentation.position s path)
  items : ∀ name, listItems s' name = (listItems s name).map d.item
  reference : ∀ path, Reference.find s' path = (Reference.find s path).map d.position

theorem Source.Displaces.findsDisplaced (h : s.Displaces d s') : s.FindsDisplaced d s' :=
  ⟨h.position_eq_endPosition_iff, fun _ => h.position_of_ne, h.listItems, h.find⟩

/-- **Lookup does not depend on the layout.** Blank lines and comments between the lines of a source
only give the lines of what is found in it the numbers under which they stand now, and a number of
spaces before all lines that are not blank only moves what is found by as many columns. -/
theorem lookup_layout_invariant (s s' : Source) :
    (∀ gaps : Nat → List Line,
      (∀ i, ∀ line ∈ gaps i, Line.isIgnorable (trim line) = true) →
      s'.lines.map Line.bare = (insertLines gaps 0 s.lines).map Line.bare →
      (∀ i < s.lineCount,
        (s'.line? (renumber gaps i)).map Line.bare = (s.line? i).map Line.bare) ∧
      s.FindsDisplaced ⟨renumber gaps, 0⟩ s') ∧
    ∀ n : Nat, s'.lines = s.lines.map (Line.indentBy n) → s.FindsDisplaced ⟨id, n⟩ s' := by
  constructor
  · intro gaps hgaps hlines
    exact ⟨fun i => line?_of_insertLines hlines,
      (displaces_of_insertLines hgaps hlines).findsDisplaced⟩
  · intro n hlines
    exact (displaces_of_indentBy hlines).findsDisplaced

/-- A list whose item begins below its marker. -/
def compactList : Source :=
  Source.ofString "spec:\n  resources:\n    -\n      id: web\n      template:\n        kind: K"

/-- The same list with comments and blank lines, also between the marker and the item. -/
def spacedList : Source :=
  Source.ofString "# top\nspec:\n  resources:\n\n # items\n    -\n\t\n      id: web
      template:\n        kind: K\n# end"

/-- The lines between those of the compact list. -/
def spacing : Nat → List Line
  | 0 => ["# top".toList]
  | 2 => [[], " # items".toList]
  | 3 => [['\t']]
  | 6 => ["# end".toList]
  | _ => []

/-- The spaced list two columns further right. -/
def indentedList : Source :=
  Source.ofString "  # top\n  spec:\n    resources:\n\n   # items\n      -\n\t\n        id: web
        template:\n          kind: K\n  # end"

theorem lookup_layout_invariant_spacedList :
    (Reference.find spacedList "web.kind".toList = some ⟨9, 13⟩ ∧
      listItems spacedList "resources" = [⟨0, 5, 4, 11⟩] ∧
      indentation.position spacedList ((Reference.resource 1).child (.key "id")) =
        spacedList.endPosition) ∧
    Reference.find indentedList "web.kind".toList = some ⟨9, 15⟩ ∧
      listItems indentedList "resources" = [⟨0, 5, 6, 11⟩] := by
  have hgaps : ∀ i, ∀ line ∈ spacing i, Line.isIgnorable (trim line) = true := by
    intro i
    unfold spacing
    split <;> decide +kernel
  obtain ⟨-, hspaced⟩ := (lookup_layout_invariant compactList spacedList).1 spacing hgaps
    (by decide +kernel)
  have hindented := (lookup_layout_invariant spacedList indentedList).2 2 (by decide +kernel)
  have hfind : Reference.find spacedList "web.kind".toList = some ⟨9, 13⟩ := by
    rw [hspaced.reference]
    decide +kernel
  have hitems : listItems spacedList "resources" = [⟨0, 5, 4, 11⟩] := by
    rw [hspaced.items]
    decide +kernel
  refine ⟨⟨hfind, hitems, (hspaced.absent _).2 (by decide +kernel)⟩, ?_, ?_⟩
  · rw [hindented.reference, hfind]
    rfl
  · rw [hindented.items, hitems]
    rfl

end ResourceGraph
