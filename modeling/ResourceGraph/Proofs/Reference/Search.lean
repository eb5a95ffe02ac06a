import ResourceGraph.Proofs.Resolver.Order
import ResourceGraph.Reference

/-!
# The search for a resource

The search for an id tries one resource after the other, and stops at the first that is not there.
What it finds is the first resource with the id (`searchResource_sound`). Since the resources that
are there are those before some number, it finds every id that a resource has
(`positions_ordered_search_complete`).
-/

set_option autoImplicit false

namespace ResourceGraph.Reference

open Resolver

variable {s : Source} {id : List Char} {n first i : Nat} {start : Position}

/-- What is found is a resource with the wanted id, and none tried before it has this id. -/
theorem searchResource_sound (h : searchResource s id n first = some (i, start)) :
    first ≤ i ∧ idOf? s i = some (start, id) ∧
      ∀ j, first ≤ j → j < i → ∀ q, idOf? s j ≠ some (q, id) := by
  -- each try asks for one more index, so the induction is on the tries that are left
  induction n generalizing first with
  | zero => exact absurd h.symm (Option.some_ne_none _)
  | succ n ih =>
    have hnext (hother : ∀ q, idOf? s first ≠ some (q, id))
        (h : searchResource s id n (first + 1) = some (i, start)) :
        first ≤ i ∧ idOf? s i = some (start, id) ∧
          ∀ j, first ≤ j → j < i → ∀ q, idOf? s j ≠ some (q, id) := by
      obtain ⟨hle, hid, hbefore⟩ := ih h
      refine ⟨Nat.le_of_succ_le hle, hid, ?_⟩
      intro j hj hji
      rcases Nat.lt_or_eq_of_le hj with hlt | rfl
      · exact hbefore j hlt hji
      · exact hother
    rw [searchResource] at h
    split at h
    · exact absurd h.symm (Option.some_ne_none _)
    · split at h
      · rename_i q value hvalue
        split at h
        · rename_i heq
          obtain ⟨rfl, rfl⟩ := Prod.mk.inj (Option.some.inj h)
          rw [heq] at hvalue
          exact ⟨Nat.le_refl first, hvalue, fun j hj hji => absurd hj (Nat.not_le.2 hji)⟩
        · rename_i hne
          refine hnext ?_ h
          intro q' hq'
          rw [hvalue] at hq'
          exact hne (Prod.mk.inj (Option.some.inj hq')).2
      · rename_i hnone
        refine hnext ?_ h
        intro q hq
        rw [hnone] at hq
        exact absurd hq.symm (Option.some_ne_none _)

/-- The search stops at the first resource with the wanted id, if all before it are there. -/
theorem searchResource_eq_some
    (hthere : ∀ j ≤ i, (locate? s.entries (resource j)).isSome = true)
    (hbefore : ∀ j < i, ∀ q, idOf? s j ≠ some (q, id)) (hid : idOf? s i = some (start, id))
    (hfirst : first ≤ i) (hn : i < first + n) :
    searchResource s id n first = some (i, start) := by
  -- on the tries that are left, since each try moves on by one resource
  induction n generalizing first with
  | zero => omega
  | succ n ih =>
    have hsome := hthere first hfirst
    have hnotNone : ¬(locate? s.entries (resource first)).isNone = true := by
      rw [Option.isNone_iff_eq_none]
      intro hnone
      rw [hnone] at hsome
      exact absurd hsome (by decide)
    rw [searchResource, if_neg hnotNone]
    rcases Nat.lt_or_eq_of_le hfirst with hlt | rfl
    · have hnext : searchResource s id n (first + 1) = some (i, start) :=
        ih (Nat.succ_le_of_lt hlt) (by omega)
      split
      · rename_i q value hvalue
        have hother : value ≠ id := by
          rintro rfl
          exact hbefore first hlt q hvalue
        rw [if_neg hother]
        exact hnext
      · exact hnext
    · rw [hid]
      simp

/-- A resource with an id is there, and so are all before it. -/
theorem isSome_locate?_of_idOf? (hid : idOf? s i = some (start, id)) :
    i < s.lineCount ∧ ∀ j ≤ i, (locate? s.entries (resource j)).isSome = true := by
  obtain ⟨after, hafter, -⟩ := Option.bind_eq_some_iff.1 hid
  have hne : (resource i).segments ≠ [] := List.cons_ne_nil _ _
  obtain ⟨q, hq, -⟩ := exists_locate?_of_child hne hafter
  obtain ⟨count, hcount, hlocated⟩ := exists_itemCount s resources
  have hi : i < count := by
    apply (hlocated i).1
    show (locate? s.entries (resource i)).isSome = true
    rw [hq]
    rfl
  refine ⟨Nat.lt_of_lt_of_le hi hcount, ?_⟩
  intro j hj
  exact (hlocated j).2 (Nat.lt_of_le_of_lt hj hi)

/-- The search for a resource finds the first one with the wanted id, wherever it is. -/
theorem findResource_eq_some_iff : findResource s id = some (i, start) ↔
    idOf? s i = some (start, id) ∧ ∀ j < i, ∀ q, idOf? s j ≠ some (q, id) := by
  constructor
  · intro h
    obtain ⟨-, hid, hbefore⟩ := searchResource_sound h
    exact ⟨hid, fun j hj => hbefore j (Nat.zero_le j) hj⟩
  · rintro ⟨hid, hbefore⟩
    obtain ⟨hlt, hthere⟩ := isSome_locate?_of_idOf? hid
    exact searchResource_eq_some hthere hbefore hid (Nat.zero_le i) (by omega)

/-- **Positions follow the order of the document, and the search for a resource skips none.** A path
that goes on where another ends is found only after it, and an item of a list only on a line below
the items before it; so the indexes that are found are those before some number. The resource that
is found for an id is the first of all that have it. -/
theorem positions_ordered_search_complete (s : Source) :
    (∀ (path : Path) (segment : Segment), path.segments ≠ [] →
      indentation.position s (path.child segment) ≠ s.endPosition →
      indentation.position s path ≠ s.endPosition ∧
        (indentation.position s path).IsBefore (indentation.position s (path.child segment))) ∧
    (∀ (path : Path) (i j : Nat), i < j →
      indentation.position s (path.child (.index j)) ≠ s.endPosition →
      indentation.position s (path.child (.index i)) ≠ s.endPosition ∧
        (indentation.position s (path.child (.index i))).line <
          (indentation.position s (path.child (.index j))).line) ∧
    (∀ path : Path, ∃ n ≤ s.lineCount, ∀ i,
      indentation.position s (path.child (.index i)) ≠ s.endPosition ↔ i < n) ∧
    ∀ (id : List Char) (i : Nat) (start : Position), findResource s id = some (i, start) ↔
      idOf? s i = some (start, id) ∧ ∀ j < i, ∀ q, idOf? s j ≠ some (q, id) := by
  refine ⟨?_, ?_, exists_positionCount s, ?_⟩
  · intro path segment hpath hchild
    exact position_child_isBefore hpath hchild
  · intro path i j hij hlater
    exact position_index_line_lt hij hlater
  · intro id i start
    exact findResource_eq_some_iff

/-- Resources of which the second has no id, and the id of the third is in quotes. -/
def unnamedResource : Source :=
  Source.ofString "spec:\n  resources:\n  - id: app\n  - name: x\n  - id: \"db\"\n"

theorem positions_ordered_search_complete_unnamedResource :
    (indentation.position unnamedResource (resource 2) ≠ unnamedResource.endPosition ∧
      indentation.position unnamedResource (resource 1) ≠ unnamedResource.endPosition ∧
      (indentation.position unnamedResource (resource 1)).line <
        (indentation.position unnamedResource (resource 2)).line) ∧
    ((resource 1).segments ≠ [] ∧
      indentation.position unnamedResource ((resource 1).child (.key "name")) ≠
        unnamedResource.endPosition ∧
      (indentation.position unnamedResource (resource 1)).IsBefore
        (indentation.position unnamedResource ((resource 1).child (.key "name")))) ∧
    idOf? unnamedResource 1 = none ∧
      findResource unnamedResource ['d', 'b'] = some (2, ⟨4, 8⟩) := by
  obtain ⟨hchild, hindex, -, hsearch⟩ := positions_ordered_search_complete unnamedResource
  obtain ⟨hlast, hname⟩ :
      indentation.position unnamedResource (resource 2) ≠ unnamedResource.endPosition ∧
        indentation.position unnamedResource ((resource 1).child (.key "name")) ≠
          unnamedResource.endPosition := by
    decide +kernel
  obtain ⟨happ, hnone, hdb⟩ :
      idOf? unnamedResource 0 = some (⟨2, 8⟩, ['a', 'p', 'p']) ∧ idOf? unnamedResource 1 = none ∧
        idOf? unnamedResource 2 = some (⟨4, 8⟩, ['d', 'b']) := by
    decide +kernel
  have hne : (resource 1).segments ≠ [] := List.cons_ne_nil _ _
  refine ⟨⟨hlast, hindex resources 1 2 (by decide) hlast⟩,
    ⟨hne, hname, (hchild (resource 1) (.key "name") hne hname).2⟩, hnone, ?_⟩
  -- neither of the resources before it has the id
  refine (hsearch ['d', 'b'] 2 ⟨4, 8⟩).2 ⟨hdb, ?_⟩
  intro j hj q hq
  obtain rfl | rfl : j = 0 ∨ j = 1 := by omega
  · rw [happ] at hq
    simp at hq
  · rw [hnone] at hq
    exact absurd hq.symm (Option.some_ne_none _)

end ResourceGraph.Reference
