import Mathlib.Data.List.Sort
import ResourceGraph.Proofs.Session.Delivery

/-!
# Waking up for due passes

A host sleeps until the time that `nextDue?` tells and then takes the due passes. The pending passes
are kept by document, and nothing is promised about the order in which such a store is gone through.
`collectDue` and `earliestDue?` say what is taken and told when it is gone through in a given order.

Proves: passes are taken at a time exactly if the told time is not after it, and afterwards the next
time told is after it; what is taken are the waiting passes that are due, of different documents and
in the order in which they were scheduled; and no order of the store makes a difference
(`takeDue_agrees_nextDue`).
-/

set_option autoImplicit false

namespace ResourceGraph.Session

open State

/-! ## Going through the pending passes in any order -/

/-- The earliest due time of some passes. -/
def earliestDue? (order : List PendingPass) : Option Nat := (order.map PendingPass.due).min?

/-- The tokens of the passes that are due at a time, gathered as some passes are gone through and
then put in the order of their numbers. -/
def collectDue (order : List PendingPass) (now : Nat) : List PassToken :=
  ((order.filter fun p => p.due ≤ now).map PendingPass.token).mergeSort
    fun a b => a.sequence ≤ b.sequence

/-- The passes that are left when those due at a time are taken out. -/
def remaining (order : List PendingPass) (now : Nat) : List PendingPass :=
  order.filter fun p => now < p.due

section Order

variable {order other : List PendingPass} {now t : Nat}

theorem earliestDue?_eq_some_iff :
    earliestDue? order = some t ↔ (∃ p ∈ order, p.due = t) ∧ ∀ p ∈ order, t ≤ p.due := by
  rw [earliestDue?, List.min?_eq_some_iff, List.mem_map, List.forall_mem_map]

theorem earliestDue?_perm (h : order.Perm other) : earliestDue? order = earliestDue? other := by
  apply Option.ext
  intro t
  simp only [earliestDue?_eq_some_iff, h.mem_iff]

/-- Some pass is due at a time exactly if the earliest due time is not after it. -/
theorem exists_due_iff :
    (∃ p ∈ order, p.due ≤ now) ↔ ∃ t, earliestDue? order = some t ∧ t ≤ now := by
  constructor
  · rintro ⟨p, hp, hdue⟩
    have hsome : (earliestDue? order).isSome = true :=
      List.isSome_min?_of_mem (List.mem_map_of_mem hp)
    obtain ⟨t, ht⟩ := Option.isSome_iff_exists.1 hsome
    exact ⟨t, ht, Nat.le_trans ((earliestDue?_eq_some_iff.1 ht).2 p hp) hdue⟩
  · rintro ⟨t, ht, hle⟩
    obtain ⟨p, hp, rfl⟩ := (earliestDue?_eq_some_iff.1 ht).1
    exact ⟨p, hp, hle⟩

theorem lt_of_earliestDue?_remaining (h : earliestDue? (remaining order now) = some t) :
    now < t := by
  obtain ⟨p, hp, rfl⟩ := (earliestDue?_eq_some_iff.1 h).1
  exact of_decide_eq_true (List.mem_filter.1 hp).2

/-- What is gathered from passes in the order of their numbers needs no sorting, and any other order
of these passes comes to the same. -/
theorem collectDue_perm (h : order.Perm other)
    (hother : other.Pairwise fun p q => p.token.sequence < q.token.sequence) :
    collectDue order now = (other.filter fun p => p.due ≤ now).map PendingPass.token := by
  have hnumbered : ((other.filter fun p => p.due ≤ now).map PendingPass.token).Pairwise
      fun a b => a.sequence < b.sequence :=
    List.pairwise_map.2 (hother.filter _)
  have hsorted : (collectDue order now).Pairwise fun a b => a.sequence ≤ b.sequence := by
    refine (List.pairwise_mergeSort ?_ ?_ _).imp of_decide_eq_true
    · intro a b c hab hbc
      exact decide_eq_true (Nat.le_trans (of_decide_eq_true hab) (of_decide_eq_true hbc))
    · intro a b
      simpa using Nat.le_total a.sequence b.sequence
  have hperm : (collectDue order now).Perm
      ((other.filter fun p => p.due ≤ now).map PendingPass.token) :=
    (List.mergeSort_perm _ _).trans ((h.filter _).map _)
  -- no two of the passes have the same number, so the order of the numbers is the only one
  have hnodup : (((other.filter fun p => p.due ≤ now).map PendingPass.token).map
      PassToken.sequence).Nodup :=
    List.pairwise_map.2 (hnumbered.imp Nat.ne_of_lt)
  refine hperm.eq_of_pairwise ?_ hsorted (hnumbered.imp Nat.le_of_lt)
  intro a b ha hb hab hba
  exact List.inj_on_of_nodup_map hnodup (hperm.mem_iff.1 ha) hb (Nat.le_antisymm hab hba)

end Order

/-! ## The scheduler -/

namespace Scheduler

variable {s : Scheduler} {now : Nat}

theorem nextDue?_eq : s.nextDue? = earliestDue? s.pending := rfl

theorem takeDue_fst :
    (s.takeDue now).1 = (s.pending.filter fun p => p.due ≤ now).map PendingPass.token := by
  rw [takeDue, List.partition_eq_filter_filter]

theorem pending_takeDue : (s.takeDue now).2.pending = remaining s.pending now := by
  have hlate : (not ∘ fun p : PendingPass => decide (p.due ≤ now)) =
      fun p => decide (now < p.due) := by
    funext p
    rw [Function.comp_apply, ← decide_not]
    simp only [Nat.not_le]
  rw [takeDue, List.partition_eq_filter_filter, hlate, remaining]

theorem takeDue_ne_nil_iff : (s.takeDue now).1 ≠ [] ↔ ∃ p ∈ s.pending, p.due ≤ now := by
  rw [takeDue_fst, Ne, List.map_eq_nil_iff, List.filter_eq_nil_iff]
  simp

end Scheduler

/-! ## The order in which passes are scheduled -/

/-- Whether two passes were scheduled by two calls of a history, the first one by the earlier call.
-/
def IssuedBefore (delay : Nat) (history : List Event) (first second : PassToken) : Prop :=
  ∃ before now between now' after,
    history = before ++ .schedule first.document now ::
      (between ++ .schedule second.document now' :: after) ∧
    first = issue delay before first.document now ∧
    second = issue delay (before ++ .schedule first.document now :: between) second.document now'

variable {delay : Nat} {history : List Event} {first second : PassToken}

/-- Passes are numbered in the order of the calls that scheduled them. -/
theorem issuedBefore_of_sequence_lt (hfirst : Issued delay history first)
    (hsecond : Issued delay history second) (h : first.sequence < second.sequence) :
    IssuedBefore delay history first second := by
  obtain ⟨before, now, after, rfl, htoken⟩ := hfirst
  obtain ⟨before', now', after', hsplit, htoken'⟩ := hsecond
  have hsequence : first.sequence = before.countP Event.isSchedule + 1 :=
    (congrArg PassToken.sequence htoken).trans (issue_sequence delay before _ now)
  have hsequence' : second.sequence = before'.countP Event.isSchedule + 1 :=
    (congrArg PassToken.sequence htoken').trans (issue_sequence delay before' _ now')
  rcases append_cons_eq_append_cons_iff.1 hsplit with ⟨rfl, -, -⟩ | ⟨between, rfl, rfl⟩ |
    ⟨between, rfl, -⟩
  · omega
  · exact ⟨before, now, between, now', after', rfl, htoken, htoken'⟩
  · -- the call of the second pass would come first, and its number would be the smaller one
    rw [List.countP_append] at hsequence
    omega

/-- The passes that a call takes are of different documents and in the order of their calls. -/
theorem pairwise_takeDue (delay : Nat) (history : List Event) (now : Nat) :
    ((run delay history).scheduler.takeDue now).1.Pairwise fun a b =>
      a.document ≠ b.document ∧ IssuedBefore delay history a b := by
  rw [Scheduler.takeDue_fst, List.pairwise_map]
  refine ((pairwise_pending delay history).filter _).imp_of_mem ?_
  intro p q hp hq hlt
  have hlatest := latest_of_waiting (mem_pending_iff_waiting.1 (List.mem_filter.1 hp).1)
  have hlatest' := latest_of_waiting (mem_pending_iff_waiting.1 (List.mem_filter.1 hq).1)
  refine ⟨?_,
    issuedBefore_of_sequence_lt (issued_of_latest hlatest) (issued_of_latest hlatest') hlt⟩
  intro hdocument
  rw [latest_unique hlatest hlatest' hdocument] at hlt
  exact Nat.lt_irrefl _ hlt

/-- **The wake-up time and the delivery of passes agree.** After any history, a call takes passes
exactly if the time told for waking up is not after its own time, and the time told next is after
it. It takes the waiting passes that are due, at most one of each document and in the order in which
they were scheduled. Whatever the order in which the store of pending passes is gone through, the
same passes are taken in the same order, the same time is told, and the same passes are left. -/
theorem takeDue_agrees_nextDue (delay : Nat) (history : List Event) (now : Nat) :
    (((run delay history).scheduler.takeDue now).1 ≠ [] ↔
      ∃ t, (run delay history).scheduler.nextDue? = some t ∧ t ≤ now) ∧
    (∀ t, ((run delay history).scheduler.takeDue now).2.nextDue? = some t → now < t) ∧
    ((run delay history).scheduler.takeDue now).1.Pairwise (fun a b =>
      a.document ≠ b.document ∧ IssuedBefore delay history a b) ∧
    (∀ token, token ∈ ((run delay history).scheduler.takeDue now).1 ↔
      ∃ p, Waiting delay history p ∧ p.due ≤ now ∧ p.token = token) ∧
    ∀ order, order.Perm (run delay history).scheduler.pending →
      collectDue order now = ((run delay history).scheduler.takeDue now).1 ∧
      earliestDue? order = (run delay history).scheduler.nextDue? ∧
      (remaining order now).Perm ((run delay history).scheduler.takeDue now).2.pending := by
  refine ⟨?_, ?_, pairwise_takeDue delay history now, fun token => mem_takeDue_iff_waiting, ?_⟩
  · rw [Scheduler.takeDue_ne_nil_iff, exists_due_iff, Scheduler.nextDue?_eq]
  · intro t ht
    rw [Scheduler.nextDue?_eq, Scheduler.pending_takeDue] at ht
    exact lt_of_earliestDue?_remaining ht
  · intro order horder
    rw [Scheduler.takeDue_fst, Scheduler.pending_takeDue]
    exact ⟨collectDue_perm horder (pairwise_pending delay history), earliestDue?_perm horder,
      horder.filter _⟩

/-- Three documents whose passes are not due in the order in which they were scheduled. -/
def overtaking : List Event := [.schedule "a" 500, .schedule "b" 0, .takeDue 50, .schedule "c" 300]

theorem takeDue_agrees_nextDue_overtaking :
    [⟨⟨"c", 3⟩, 400⟩, ⟨⟨"a", 1⟩, 600⟩, ⟨⟨"b", 2⟩, 100⟩].Perm
      (run 100 overtaking).scheduler.pending ∧
    collectDue [⟨⟨"c", 3⟩, 400⟩, ⟨⟨"a", 1⟩, 600⟩, ⟨⟨"b", 2⟩, 100⟩] 450 =
      [⟨"b", 2⟩, ⟨"c", 3⟩] ∧
    earliestDue? [⟨⟨"c", 3⟩, 400⟩, ⟨⟨"a", 1⟩, 600⟩, ⟨⟨"b", 2⟩, 100⟩] = some 100 ∧
    IssuedBefore 100 overtaking ⟨"b", 2⟩ ⟨"c", 3⟩ := by
  have hperm : [⟨⟨"c", 3⟩, 400⟩, ⟨⟨"a", 1⟩, 600⟩, ⟨⟨"b", 2⟩, 100⟩].Perm
      (run 100 overtaking).scheduler.pending := by decide
  have htaken : ((run 100 overtaking).scheduler.takeDue 450).1 = [⟨"b", 2⟩, ⟨"c", 3⟩] := by decide
  obtain ⟨-, -, hpairwise, -, horder⟩ := takeDue_agrees_nextDue 100 overtaking 450
  obtain ⟨hcollect, hearliest, -⟩ := horder _ hperm
  rw [htaken] at hcollect hpairwise
  have hnext : (run 100 overtaking).scheduler.nextDue? = some 100 := by decide
  obtain ⟨hbefore, -⟩ := List.pairwise_cons.1 hpairwise
  exact ⟨hperm, hcollect, hearliest.trans hnext, (hbefore _ List.mem_cons_self).2⟩

end ResourceGraph.Session
