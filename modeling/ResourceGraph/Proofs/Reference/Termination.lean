import Mathlib.Computability.Partrec
import ResourceGraph.Proofs.Reference.Search

/-!
# Looking up references without a bound

A path with an index that is not below the number of lines is never located, since each item takes a
line of its own (`lt_lineCount_of_mem_segments`). So the search for a resource, which tries index
after index and knows no last one, comes to an end on every text.

The search without a bound is a partial function (`searchOnward`), and so is everything that rests on
it: looking up a path, the links of a document, the reference at a position. Each of them is defined
everywhere, with the value that the bounded functions compute (`lookup_terminates`).
-/

set_option autoImplicit false

namespace ResourceGraph

/-! ## Indexes of located paths -/

section Located

variable {s : Source} {p : Path} {after : List Segment} {q : Position} {i : Nat}

/-- Where a path is located, each path that it goes on from is located too. -/
theorem exists_locate?_of_append (hp : p.segments ≠ [])
    (hq : locate? s.entries ⟨p.segments ++ after⟩ = some q) :
    ∃ start, locate? s.entries p = some start := by
  induction after generalizing p with
  | nil =>
    rw [List.append_nil] at hq
    exact ⟨q, hq⟩
  | cons segment after ih =>
    have hne : (p.child segment).segments ≠ [] := by
      show p.segments ++ [segment] ≠ []
      simp
    have hsplit : p.segments ++ segment :: after = (p.child segment).segments ++ after := by
      show p.segments ++ segment :: after = p.segments ++ [segment] ++ after
      simp
    rw [hsplit] at hq
    obtain ⟨next, hnext⟩ := ih hne hq
    obtain ⟨start, hstart, -⟩ := exists_locate?_of_child hp hnext
    exact ⟨start, hstart⟩

/-- Every index of a located path is below the number of lines. -/
theorem lt_lineCount_of_mem_segments (hq : locate? s.entries p = some q)
    (hi : .index i ∈ p.segments) : i < s.lineCount := by
  obtain ⟨before, after, hsplit⟩ := List.append_of_mem hi
  have hitem : p = ⟨((⟨before⟩ : Path).child (.index i)).segments ++ after⟩ := by
    show p = ⟨before ++ [.index i] ++ after⟩
    rw [List.append_assoc, List.singleton_append, ← hsplit]
  rw [hitem] at hq
  have hne : ((⟨before⟩ : Path).child (.index i)).segments ≠ [] := by
    show before ++ [.index i] ≠ []
    simp
  obtain ⟨start, hstart⟩ := exists_locate?_of_append hne hq
  have hle := le_line_of_locate?_index hstart
  obtain ⟨line, hline, -⟩ := exists_line_of_locate? hstart
  have hlt : start.line < s.lineCount := (List.getElem?_eq_some_iff.1 hline).1
  omega

end Located

namespace Reference

open Resolver

variable {s : Source} {id : List Char} {n first last : Nat} {result : Option (Nat × Position)}

/-! ## One try -/

/-- What one try of the search for a resource comes to: the search ends, without a resource where
there is none with this index, or with the resource that has the id; or it goes on. -/
def tryIndex (s : Source) (id : List Char) (index : Nat) : Option (Option (Nat × Position)) :=
  if (locate? s.entries (resource index)).isNone then some none
  else match idOf? s index with
    | some (start, value) => if value = id then some (some (index, start)) else none
    | none => none

theorem searchResource_succ (s : Source) (id : List Char) (n first : Nat) :
    searchResource s id (n + 1) first =
      (tryIndex s id first).getD (searchResource s id n (first + 1)) := by
  rw [searchResource, tryIndex]
  cases (locate? s.entries (resource first)).isNone with
  | true => rfl
  | false =>
    cases idOf? s first with
    | none => rfl
    | some found =>
      obtain ⟨start, value⟩ := found
      by_cases hvalue : value = id
      · simp [hvalue]
      · simp [hvalue]

/-- A search that may still try enough indexes ends at the first try that ends it. -/
theorem searchResource_of_tryIndex (hend : tryIndex s id last = some result)
    (hbefore : ∀ i < last, tryIndex s id i = none) (hfirst : first ≤ last) (hn : last < first + n) :
    searchResource s id n first = result := by
  -- each try moves on by one index, so the induction is on the tries that are left
  induction n generalizing first with
  | zero => omega
  | succ n ih =>
    rw [searchResource_succ]
    rcases Nat.lt_or_eq_of_le hfirst with hlt | rfl
    · rw [hbefore first hlt, Option.getD_none]
      exact ih (Nat.succ_le_of_lt hlt) (by omega)
    · rw [hend, Option.getD_some]

/-- Some try ends the search, at the latest the one whose index is the number of lines. -/
theorem exists_last_try (s : Source) (id : List Char) : ∃ last ≤ s.lineCount,
    tryIndex s id last = some (findResource s id) ∧ ∀ i < last, tryIndex s id i = none := by
  have hlimit : (tryIndex s id s.lineCount).isSome = true := by
    have hnone : locate? s.entries (resource s.lineCount) = none := by
      by_contra hsome
      obtain ⟨q, hq⟩ := Option.ne_none_iff_exists'.1 hsome
      have hmem : Segment.index s.lineCount ∈ (resource s.lineCount).segments :=
        List.mem_append_right _ List.mem_cons_self
      exact Nat.lt_irrefl _ (lt_lineCount_of_mem_segments hq hmem)
    rw [tryIndex, hnone]
    rfl
  -- the last try is the first one that ends the search
  have hexists : ∃ i, (tryIndex s id i).isSome = true := ⟨s.lineCount, hlimit⟩
  have hle : Nat.find hexists ≤ s.lineCount := Nat.find_min' hexists hlimit
  have hbefore : ∀ i < Nat.find hexists, tryIndex s id i = none := by
    intro i hi
    exact Option.not_isSome_iff_eq_none.1 (Nat.find_min hexists hi)
  obtain ⟨result, hend⟩ := Option.isSome_iff_exists.1 (Nat.find_spec hexists)
  have hfound : findResource s id = result :=
    searchResource_of_tryIndex hend hbefore (Nat.zero_le _) (by omega)
  exact ⟨Nat.find hexists, hle, by rw [hend, hfound], hbefore⟩

/-! ## Without a bound -/

/-- The search for a resource that tries index after index, from zero on and without a last one. -/
def searchOnward (s : Source) (id : List Char) : Part (Option (Nat × Position)) :=
  Nat.rfindOpt (tryIndex s id)

/-- Where a path points, given by its segments, if the search for a resource has no bound. -/
def findSegmentsOnward (s : Source) : List (List Char) → Part (Option Position)
  | [] => .some none
  | root :: rest =>
    if root.isEmpty || rest.any List.isEmpty then .some none
    else
      let keys := rest.map String.ofList
      if root = schemaRoot then
        .some (locate? s.entries ((⟨[.key "spec", .key "schema"]⟩ : Path).descend keys))
      else (searchOnward s root).map fun found => match found with
        | none => none
        | some (index, id) => if keys.isEmpty then some id else (inResource s index keys).or (some id)

/-- Where a path points, given by its text, if the search for a resource has no bound. -/
def findOnward (s : Source) (path : List Char) : Part (Option Position) :=
  findSegmentsOnward s ((Text.splitOn '.' path).map Text.trim)

/-- The links of all expressions that point somewhere, if the search for a resource has no bound. -/
def linksOnward (s : Source) : Part (List DocumentLink) :=
  (s.expressions.mapM fun e => (findOnward s e.path.toList).map fun target =>
    target.map fun target => (⟨e.range, target⟩ : DocumentLink)).map List.reduceOption

/-- Where the expression at a position points, if the search for a resource has no bound. -/
def referenceAtOnward (s : Source) (p : Position) : Part (Option Position) :=
  match s.expressions.find? fun e => e.covers p with
  | none => .some none
  | some e => findOnward s e.path.toList

/-- The search without a bound ends, with what the bounded search finds. -/
theorem searchOnward_eq (s : Source) (id : List Char) :
    searchOnward s id = .some (findResource s id) := by
  obtain ⟨last, -, hend, hbefore⟩ := exists_last_try s id
  have hlast : last ∈ Nat.rfind fun i => Part.some (tryIndex s id i).isSome := by
    refine Nat.mem_rfind.2 ⟨?_, ?_⟩
    · rw [hend]
      exact Part.mem_some true
    · intro i hi
      rw [hbefore i hi]
      exact Part.mem_some false
  refine Part.eq_some_iff.2 (Part.mem_bind_iff.2 ⟨last, hlast, ?_⟩)
  rw [hend]
  exact Part.mem_some _

theorem findOnward_eq (s : Source) (path : List Char) :
    findOnward s path = .some (find s path) := by
  rw [findOnward, find]
  cases (Text.splitOn '.' path).map Text.trim with
  | nil => rfl
  | cons root rest =>
    simp only [findSegmentsOnward, findSegments, searchOnward_eq, Part.map_some]
    split
    · rfl
    · split <;> rfl

theorem linksOnward_eq (s : Source) : linksOnward s = .some s.links := by
  have hpure : ∀ e : Expression, ((findOnward s e.path.toList).map fun target =>
      target.map fun target => (⟨e.range, target⟩ : DocumentLink)) =
      pure ((s.targetOf e).map fun target => ⟨e.range, target⟩) := by
    intro e
    rw [findOnward_eq, Part.map_some]
    rfl
  simp only [linksOnward, hpure, List.mapM_pure]
  show Part.some ((s.expressions.map _).filterMap id) = _
  rw [List.filterMap_map]
  rfl

theorem referenceAtOnward_eq (s : Source) (p : Position) :
    referenceAtOnward s p = .some (s.referenceAt p) := by
  rw [referenceAtOnward, Source.referenceAt]
  cases s.expressions.find? fun e => e.covers p with
  | none => rfl
  | some e => exact findOnward_eq s e.path.toList

/-- **Looking up references ends on every text.** A path with an index that is not below the number
of lines is not found. So the search for a resource ends after at most one try more than there are
lines: at the try with some index up to their number, which gives what is found, after tries that
gave nothing. Without a bound on the tries, the search, the lookup of any path, the links of the
document and the reference at any position are defined, and are what they are with the bound. -/
theorem lookup_terminates (s : Source) :
    (∀ (path : Path) (i : Nat), .index i ∈ path.segments → s.lineCount ≤ i →
      indentation.position s path = s.endPosition) ∧
    (∀ id : List Char, (∃ last ≤ s.lineCount, tryIndex s id last = some (findResource s id) ∧
      ∀ i < last, tryIndex s id i = none) ∧ searchOnward s id = .some (findResource s id)) ∧
    (∀ path : List Char, findOnward s path = .some (find s path)) ∧
    linksOnward s = .some s.links ∧
    ∀ p : Position, referenceAtOnward s p = .some (s.referenceAt p) := by
  refine ⟨?_, ?_, findOnward_eq s, linksOnward_eq s, referenceAtOnward_eq s⟩
  · intro path i hi hle
    rw [position_eq_endPosition_iff]
    by_contra hsome
    obtain ⟨q, hq⟩ := Option.ne_none_iff_exists'.1 hsome
    exact Nat.not_le.2 (lt_lineCount_of_mem_segments hq hi) hle
  · intro id
    exact ⟨exists_last_try s id, searchOnward_eq s id⟩

/-- A list with several markers on its lines, and an expression that names no resource. -/
def crowdedList : Source :=
  Source.ofString "spec:\n  resources:\n  - - id: a\n    - - id: b\n  - id: $\x7bc.x\x7d\n"

theorem lookup_terminates_crowdedList :
    (.index 5 ∈ (⟨[.key "spec", .key "resources", .index 5, .index 0]⟩ : Path).segments ∧
      crowdedList.lineCount ≤ 5 ∧
      indentation.position crowdedList ⟨[.key "spec", .key "resources", .index 5, .index 0]⟩ =
        crowdedList.endPosition) ∧
    searchOnward crowdedList ['c'] = .some none ∧ linksOnward crowdedList = .some [] := by
  obtain ⟨hindex, hsearch, -, hlinks, -⟩ := lookup_terminates crowdedList
  obtain ⟨hnone, hempty⟩ :
      findResource crowdedList ['c'] = none ∧ crowdedList.links = [] := by
    decide +kernel
  refine ⟨⟨by decide, by decide +kernel, hindex _ 5 (by decide) (by decide +kernel)⟩, ?_, ?_⟩
  · rw [(hsearch ['c']).2, hnone]
  · rw [hlinks, hempty]

end Reference

end ResourceGraph
