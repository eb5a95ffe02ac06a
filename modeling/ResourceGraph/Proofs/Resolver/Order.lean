import Mathlib.Data.Nat.Find
import ResourceGraph.Proofs.Resolver.Extent
import ResourceGraph.Proofs.Resolver.Walk

/-!
# The order of located paths

A path that goes on where another one ends is located after it (`exists_locate?_of_child`), and a
later item of a list on a later line than an earlier one (`exists_locate?_of_index`). So the items
of a list that are located are those before some number (`exists_itemCount`).

Both rest on a comparison of two searches, of which the second has more to do (`Outlasts`). On every
entry they do the same, except for what they still look for, until the first search is done
(`Walk.parallel_step`, `Walk.run_parallel`). This holds also where both start over.
-/

set_option autoImplicit false

namespace ResourceGraph

/-- Whether a position is before another, on an earlier line or further left on the same. -/
def Position.IsBefore (p q : Position) : Prop :=
  p.line < q.line ∨ p.line = q.line ∧ p.character < q.character

/-- The search for the second path goes on when that for the first is done: it has one more segment
to find, or a later item. Only one more segment may be found on the same line. -/
inductive Outlasts : Bool → List Segment → List Segment → Prop
  | further (last segment : Segment) : Outlasts true [last] [last, segment]
  | later {i j : Nat} : i < j → Outlasts false [.index i] [.index j]
  | cons (first : Segment) {sameLine : Bool} {p q : List Segment} :
    Outlasts sameLine p q → Outlasts sameLine (first :: p) (first :: q)

namespace Outlasts

variable {sameLine : Bool} {p q : List Segment}

theorem append (before : List Segment) (h : Outlasts sameLine p q) :
    Outlasts sameLine (before ++ p) (before ++ q) := by
  induction before with
  | nil => exact h
  | cons first before ih => exact .cons first ih

theorem isEmpty_eq_false (h : Outlasts sameLine p q) : p.isEmpty = false ∧ q.isEmpty = false := by
  cases h <;> exact ⟨rfl, rfl⟩

/-- Both searches begin with a key, or both with an index. -/
theorem head?_any_isIndex (h : Outlasts sameLine p q) :
    q.head?.any Segment.isIndex = p.head?.any Segment.isIndex := by
  cases h <;> rfl

end Outlasts

namespace Walk

variable {path path' pending p q : List Segment} {sameLine : Bool} {column found : Nat}
  {content : Line} {e : Entry} {entries : List Entry} {w w' : Walk}

/-! ## Two searches on one entry -/

/-- Two searches in the same state, except for what they look for, of which the second has more to
do. The first has not yet passed the item it looks for. -/
structure Parallel (sameLine : Bool) (w w' : Walk) : Prop where
  outlasts : Outlasts sameLine w.pending w'.pending
  same : w' = { w with pending := w'.pending }
  seen : ∀ i rest, w.pending = .index i :: rest → w.seen ≤ i

/-- The results of two searches on one entry: both go on, or the first is done. -/
inductive Outcome.Parallel (sameLine : Bool) : Outcome → Outcome → Prop
  | going {w w' : Walk} : w.Parallel sameLine w' → Parallel sameLine (.going w) (.going w')
  | ahead {column : Nat} {w' : Walk} : Parallel sameLine (.found column) (.going w')
  | found {column column' : Nat} : sameLine = true → column < column' →
    Parallel sameLine (.found column) (.found column')

theorem parallel_start (h : Outlasts sameLine path path') :
    (start path).Parallel sameLine (start path') :=
  ⟨h, rfl, fun _ _ _ => Nat.zero_le _⟩

theorem parallel_enter (h : Outlasts sameLine p q) (column : Nat) (child : Option Nat) :
    (enter p column child).Parallel sameLine (enter q column child) :=
  ⟨h, rfl, fun _ _ _ => Nat.zero_le _⟩

/-- Where a first segment that both paths begin with is passed over, the searches stay parallel. -/
theorem parallel_passed {first : Segment} {fixed : Option Nat} {seen : Nat}
    (h : Outlasts sameLine (first :: p) (first :: q))
    (hle : ∀ i, first = .index i → w.seen ≤ i → seen ≤ i)
    (hseen : ∀ i rest, first :: p = .index i :: rest → w.seen ≤ i) :
    Parallel sameLine { w with pending := first :: p, itemColumn := fixed, seen := seen }
      { w with pending := first :: q, itemColumn := fixed, seen := seen } where
  outlasts := h
  same := rfl
  seen := by
    intro i rest hi
    obtain ⟨hfirst, -⟩ := List.cons.inj hi
    exact hle i hfirst (hseen i rest hi)

/-- What is found on a line is not before the column that is read from. -/
theorem le_found_of_descend (h : descend pending column content w = .found found) :
    column ≤ found := by
  induction pending generalizing column content w with
  | nil => simp [descend] at h
  | cons segment rest ih =>
    cases firstMatch segment column content w with
    | passed fixed seen _ hgoing => simp [hgoing rest w.pending] at h
    | key after hafter hkey =>
      rw [hkey rest w.pending] at h
      split at h
      · rwa [← Outcome.found.inj h]
      · simp at h
    | marker inner body child hinner hmarker =>
      rw [hmarker rest w.pending] at h
      split at h
      · exact Nat.le_of_eq (Outcome.found.inj h)
      · exact Nat.le_trans (Nat.le_of_lt hinner) (ih h)

/-- Searches that have different items of a list to find count the same markers up to the first of
the two. -/
theorem parallel_descend_later {i j : Nat} (hij : i < j) (hseen : w.seen ≤ i) :
    Outcome.Parallel false (descend [.index i] column content { w with pending := [.index i] })
      (descend [.index j] column content { w with pending := [.index j] }) := by
  have hnext : ∀ fixed seen, seen ≤ i → Outcome.Parallel false
      (.going { w with pending := [.index i], itemColumn := fixed, seen := seen })
      (.going { w with pending := [.index j], itemColumn := fixed, seen := seen }) := by
    intro fixed seen hle
    refine .going ⟨.later hij, rfl, ?_⟩
    intro k rest hk
    obtain ⟨hindex, -⟩ := List.cons.inj hk
    obtain rfl := Segment.index.inj hindex
    exact hle
  rw [descend, descend]
  cases Line.item? content with
  | none => exact hnext w.itemColumn w.seen hseen
  | some item =>
    by_cases hcolumn : w.itemColumn.getD column = column
    · rcases Nat.lt_or_eq_of_le hseen with hlt | rfl
      · have hlt' : w.seen < j := Nat.lt_trans hlt hij
        simpa [hcolumn, hlt, hlt'] using hnext (some column) (w.seen + 1) hlt
      · -- the marker is that of the first item, and is counted on the way to the second
        simp only [hcolumn, ne_eq, not_true_eq_false, if_false, Nat.lt_irrefl, hij, if_true,
          List.isEmpty_nil]
        exact .ahead
    · simpa [hcolumn] using hnext (some (w.itemColumn.getD column)) w.seen hseen

theorem parallel_descend (h : Outlasts sameLine p q)
    (hseen : ∀ i rest, p = .index i :: rest → w.seen ≤ i) :
    Outcome.Parallel sameLine (descend p column content { w with pending := p })
      (descend q column content { w with pending := q }) := by
  -- a segment that both paths begin with is found by both searches, or passed over by both
  induction h generalizing column content w with
  | further last segment =>
    cases firstMatch last column content w with
    | passed fixed seen hle hgoing =>
      rw [hgoing, hgoing]
      exact .going (parallel_passed (.further last segment) hle hseen)
    | key found _ hkey =>
      rw [hkey, hkey]
      exact .ahead
    | marker inner body child hinner hmarker =>
      rw [hmarker, hmarker]
      show Outcome.Parallel true (.found column) (descend [segment] inner body _)
      -- the second path may end on this line, behind the marker
      cases hfurther : descend [segment] inner body (enter [segment] column child) with
      | going w' => exact .ahead
      | found column' =>
        exact .found rfl (Nat.lt_of_lt_of_le hinner (le_found_of_descend hfurther))
  | later hij => exact parallel_descend_later hij (hseen _ [] rfl)
  | @cons first sameLine p q h ih =>
    obtain ⟨hp, hq⟩ := h.isEmpty_eq_false
    cases firstMatch first column content w with
    | passed fixed seen hle hgoing =>
      rw [hgoing, hgoing]
      exact .going (parallel_passed (.cons first h) hle hseen)
    | key found _ hkey =>
      rw [hkey, hkey, hp, hq]
      exact .going (parallel_enter h column none)
    | marker inner body child _ hmarker =>
      rw [hmarker, hmarker, hp, hq]
      exact ih (w := enter p column child) fun _ _ _ => Nat.zero_le _

/-! ## Two searches on all entries -/

theorem parallel_step (hpath : Outlasts sameLine path path') (h : w.Parallel sameLine w') :
    Outcome.Parallel sameLine (step path e w) (step path' e w') := by
  obtain ⟨houtlasts, hsame, hseen⟩ := h
  have hhead := houtlasts.head?_any_isIndex
  -- both are in the same block, and look for a key in it or for an index
  have hinside : w'.inside = w.inside := by rw [hsame]
  have hleaves : w'.leaves e = w.leaves e := by
    rw [leaves, leaves, hhead, hsame]
  have hnested : w'.isNested e.indent = w.isNested e.indent := by
    rw [isNested, isNested, hhead, hsame]
  have hfix : w'.fixChild e.indent =
      { w.fixChild e.indent with pending := w'.pending } := by
    rw [fixChild, fixChild, hhead, hsame]
    split <;> rfl
  have hfixed : w.fixChild e.indent = { w.fixChild e.indent with pending := w.pending } ∧
      (w.fixChild e.indent).seen = w.seen := by
    rw [fixChild]
    split <;> exact ⟨rfl, rfl⟩
  rw [step, step, hinside, hleaves, hnested]
  split
  · split
    · exact parallel_descend (w := start path) hpath fun _ _ _ => Nat.zero_le _
    · split
      · exact .going ⟨houtlasts, hsame, hseen⟩
      · rw [hfix, hfixed.1]
        apply parallel_descend houtlasts
        rw [hfixed.2]
        exact hseen
  · rw [hsame]
    exact parallel_descend houtlasts hseen

/-- A search that finds its path after another with less to do was ahead of it. -/
theorem run_parallel (hpath : Outlasts sameLine path path')
    (hlines : entries.Pairwise fun e e' => e.line < e'.line) (h : w.Parallel sameLine w')
    {q : Position} (hq : run path' entries w' = some q) :
    ∃ p, run path entries w = some p ∧ p.IsBefore q ∧ (sameLine = false → p.line < q.line) := by
  -- on the entries, through the states that stay parallel
  induction entries generalizing w w' with
  | nil => exact absurd hq.symm (Option.some_ne_none q)
  | cons e rest ih =>
    obtain ⟨hbelow, hrest⟩ := List.pairwise_cons.1 hlines
    have hstep := parallel_step (e := e) hpath h
    rw [run] at hq ⊢
    generalize step path e w = here at hstep ⊢
    generalize step path' e w' = there at hstep hq
    cases hstep with
    | going hgoing => exact ih hrest hgoing hq
    | @ahead column w' =>
      -- the second search ends at an entry below
      obtain ⟨e', he', hline, -⟩ := exists_entry_of_run hq
      have hlt : e.line < q.line := by
        rw [hline]
        exact hbelow e' he'
      exact ⟨⟨e.line, column⟩, rfl, Or.inl hlt, fun _ => hlt⟩
    | @found column column' hsame hlt =>
      obtain rfl := Option.some.inj hq
      refine ⟨⟨e.line, column⟩, rfl, Or.inr ⟨rfl, hlt⟩, ?_⟩
      intro hother
      rw [hsame] at hother
      exact absurd hother (by decide)

end Walk

/-- The entries of a source are on lines of their own, in order. -/
theorem Entry.pairwise_ofLines (n : Nat) (lines : List Line) :
    (Entry.ofLines n lines).Pairwise fun e e' => e.line < e'.line := by
  induction lines generalizing n with
  | nil => exact List.Pairwise.nil
  | cons line rest ih =>
    rw [Entry.ofLines]
    split
    · exact ih (n + 1)
    · rename_i e he
      refine List.pairwise_cons.2 ⟨?_, ih (n + 1)⟩
      intro e' he'
      obtain ⟨i, below, -, hbelow⟩ := Entry.mem_ofLines he'
      rw [Entry.line_of_ofLine? he, Entry.line_of_ofLine? hbelow]
      omega

/-! ## Paths and their extensions -/

section Located

variable {s : Source} {p : Path} {q : Position}

theorem exists_locate?_of_outlasts {sameLine : Bool} {p p' : Path}
    (h : Outlasts sameLine p.segments p'.segments) (hq : locate? s.entries p' = some q) :
    ∃ start, locate? s.entries p = some start ∧ start.IsBefore q ∧
      (sameLine = false → start.line < q.line) := by
  obtain ⟨hp, hp'⟩ := h.isEmpty_eq_false
  rw [locate?, hp'] at hq
  rw [locate?, hp]
  apply Walk.run_parallel h ?_ (Walk.parallel_start h) hq
  rw [s.entries_eq]
  exact Entry.pairwise_ofLines 0 s.lines

/-- A path is located before every one that goes on from it. -/
theorem exists_locate?_of_child (hp : p.segments ≠ []) {segment : Segment}
    (hq : locate? s.entries (p.child segment) = some q) :
    ∃ start, locate? s.entries p = some start ∧ start.IsBefore q := by
  obtain ⟨before, last, hsplit⟩ := (List.eq_nil_or_concat p.segments).resolve_left hp
  have houtlasts : Outlasts true p.segments (p.child segment).segments := by
    show Outlasts true p.segments (p.segments ++ [segment])
    rw [hsplit, List.concat_eq_append, List.append_assoc]
    exact (Outlasts.further last segment).append before
  obtain ⟨start, hstart, hbefore, -⟩ := exists_locate?_of_outlasts houtlasts hq
  exact ⟨start, hstart, hbefore⟩

/-- An item of a list is located on an earlier line than those after it. -/
theorem exists_locate?_of_index {i j : Nat} (hij : i < j)
    (hq : locate? s.entries (p.child (.index j)) = some q) :
    ∃ start, locate? s.entries (p.child (.index i)) = some start ∧ start.line < q.line := by
  have houtlasts :
      Outlasts false (p.child (.index i)).segments (p.child (.index j)).segments :=
    (Outlasts.later hij).append p.segments
  obtain ⟨start, hstart, -, hline⟩ := exists_locate?_of_outlasts houtlasts hq
  exact ⟨start, hstart, hline rfl⟩

/-- Each item takes a line, so an item is located no further up than its index. -/
theorem le_line_of_locate?_index {i : Nat}
    (hq : locate? s.entries (p.child (.index i)) = some q) : i ≤ q.line := by
  induction i generalizing q with
  | zero => exact Nat.zero_le _
  | succ i ih =>
    obtain ⟨start, hstart, hline⟩ := exists_locate?_of_index (Nat.lt_succ_self i) hq
    have hle := ih hstart
    omega

/-- The items that are located are those before some number, which is at most that of the lines. -/
theorem exists_itemCount (s : Source) (p : Path) : ∃ n ≤ s.lineCount, ∀ i,
    (locate? s.entries (p.child (.index i))).isSome = true ↔ i < n := by
  have hlast : locate? s.entries (p.child (.index s.lineCount)) = none := by
    by_contra hsome
    obtain ⟨q, hq⟩ := Option.ne_none_iff_exists'.1 hsome
    obtain ⟨line, hline, -⟩ := exists_line_of_locate? hq
    have hlt : q.line < s.lineCount := (List.getElem?_eq_some_iff.1 hline).1
    have hle := le_line_of_locate?_index hq
    omega
  have hexists : ∃ n, locate? s.entries (p.child (.index n)) = none := ⟨s.lineCount, hlast⟩
  -- the first index that is not located
  refine ⟨Nat.find hexists, Nat.find_min' hexists hlast, ?_⟩
  intro i
  rw [Option.isSome_iff_ne_none]
  constructor
  · intro hsome
    by_contra hle
    rcases Nat.lt_or_eq_of_le (Nat.not_lt.1 hle) with hlt | heq
    · obtain ⟨q, hq⟩ := Option.ne_none_iff_exists'.1 hsome
      obtain ⟨start, hstart, -⟩ := exists_locate?_of_index hlt hq
      rw [Nat.find_spec hexists] at hstart
      exact absurd hstart.symm (Option.some_ne_none start)
    · rw [← heq] at hsome
      exact hsome (Nat.find_spec hexists)
  · exact Nat.find_min hexists

end Located

/-! ## Positions -/

namespace Resolver

variable {s : Source} {p : Path}

theorem exists_of_position_ne (h : indentation.position s p ≠ s.endPosition) :
    ∃ q, locate? s.entries p = some q ∧ indentation.position s p = q := by
  rw [ne_eq, position_eq_endPosition_iff] at h
  obtain ⟨q, hq⟩ := Option.ne_none_iff_exists'.1 h
  exact ⟨q, hq, position_of_locate? hq⟩

theorem position_ne_of_locate? {q : Position} (h : locate? s.entries p = some q) :
    indentation.position s p ≠ s.endPosition := by
  rw [ne_eq, position_eq_endPosition_iff, h]
  exact Option.some_ne_none q

/-- A path has a position before those of the paths that go on from it. -/
theorem position_child_isBefore (hp : p.segments ≠ []) {segment : Segment}
    (h : indentation.position s (p.child segment) ≠ s.endPosition) :
    indentation.position s p ≠ s.endPosition ∧
      (indentation.position s p).IsBefore (indentation.position s (p.child segment)) := by
  obtain ⟨q, hq, hposition⟩ := exists_of_position_ne h
  obtain ⟨start, hstart, hbefore⟩ := exists_locate?_of_child hp hq
  refine ⟨position_ne_of_locate? hstart, ?_⟩
  rw [position_of_locate? hstart, hposition]
  exact hbefore

/-- An item of a list has a position above those of the items after it. -/
theorem position_index_line_lt {i j : Nat} (hij : i < j)
    (h : indentation.position s (p.child (.index j)) ≠ s.endPosition) :
    indentation.position s (p.child (.index i)) ≠ s.endPosition ∧
      (indentation.position s (p.child (.index i))).line <
        (indentation.position s (p.child (.index j))).line := by
  obtain ⟨q, hq, hposition⟩ := exists_of_position_ne h
  obtain ⟨start, hstart, hline⟩ := exists_locate?_of_index hij hq
  refine ⟨position_ne_of_locate? hstart, ?_⟩
  rw [position_of_locate? hstart, hposition]
  exact hline

/-- The items that have a position are those before some number. -/
theorem exists_positionCount (s : Source) (p : Path) : ∃ n ≤ s.lineCount, ∀ i,
    indentation.position s (p.child (.index i)) ≠ s.endPosition ↔ i < n := by
  obtain ⟨n, hn, hlocated⟩ := exists_itemCount s p
  refine ⟨n, hn, ?_⟩
  intro i
  rw [ne_eq, position_eq_endPosition_iff, ← hlocated i, Option.isSome_iff_ne_none]

end Resolver

end ResourceGraph
