import Mathlib.Data.List.Nodup
import ResourceGraph.Proofs.Session.History

/-!
# Delivery of scheduled passes

A scheduled pass waits until its delay has elapsed. After any history of calls the pending passes
are exactly those that wait (`mem_pending_iff_waiting`): a call scheduled them, and no call since
then scheduled or cancelled their document or took passes at a time that reached their due time.

Proves: passes are delivered while they are the latest ones of their documents, none of them twice,
and each by the first call that reaches its due time unless it was superseded or cancelled before
(`takeDue_delivers_once`).
-/

set_option autoImplicit false

namespace ResourceGraph.Session

namespace Event

/-- Whether a call takes passes at a time that reaches a due time. -/
def reaches (due : Nat) : Event → Bool
  | takeDue now => due ≤ now
  | _ => false

/-- Whether a call ends the wait of a pass: it makes the pass stale, or takes it. -/
def endsWait (p : PendingPass) (e : Event) : Bool :=
  e.renews p.token.document || e.reaches p.due

theorem endsWait_eq_false_iff {p : PendingPass} {e : Event} :
    e.endsWait p = false ↔ e.renews p.token.document = false ∧ e.reaches p.due = false := by
  rw [endsWait, Bool.or_eq_false_iff]

end Event

open State

/-- A pass that some schedule call of a history returned, and whose wait no call has ended since. -/
def Waiting (delay : Nat) (history : List Event) (p : PendingPass) : Prop :=
  ∃ before now after, history = before ++ .schedule p.token.document now :: after ∧
    p.token = issue delay before p.token.document now ∧ p.due = now + delay ∧
    ∀ e ∈ after, e.endsWait p = false

/-- The passes that a call returns as due. -/
def State.returned (s : State) : Event → List PassToken
  | .takeDue now => (s.scheduler.takeDue now).1
  | _ => []

/-- The passes that the calls of a history return as due from a state on, in order. -/
def taken : State → List Event → List PassToken
  | _, [] => []
  | s, e :: rest => s.returned e ++ taken (s.step e) rest

namespace Scheduler

variable {s : Scheduler} {document : String} {now : Nat} {p : PendingPass} {token : PassToken}

theorem mem_pending_schedule :
    p ∈ (s.schedule document now).2.pending ↔
      p = ⟨(s.schedule document now).1, now + s.delay⟩ ∨
        document ≠ p.token.document ∧ p ∈ s.pending := by
  simp only [schedule, List.mem_append, List.mem_filter, List.mem_singleton, bne_iff_ne, ne_comm,
    and_comm, or_comm]

theorem mem_pending_takeDue :
    p ∈ (s.takeDue now).2.pending ↔ now < p.due ∧ p ∈ s.pending := by
  simp [takeDue, List.partition_eq_filter_filter, and_comm]

theorem mem_pending_cancel :
    p ∈ (s.cancel document).pending ↔ document ≠ p.token.document ∧ p ∈ s.pending := by
  simp only [cancel, List.mem_filter, bne_iff_ne, ne_comm, and_comm]

theorem mem_takeDue :
    token ∈ (s.takeDue now).1 ↔ ∃ p ∈ s.pending, p.due ≤ now ∧ p.token = token := by
  simp [takeDue, List.partition_eq_filter_filter, and_assoc]

end Scheduler

variable {delay : Nat} {history : List Event} {token : PassToken} {e : Event} {p q : PendingPass}

/-! ## The waiting passes, call by call -/

/-- A pass waits after a call if the call scheduled it, or did not end its wait. -/
theorem waiting_concat :
    Waiting delay (history ++ [e]) p ↔
      (∃ now, e = .schedule p.token.document now ∧
        p.token = issue delay history p.token.document now ∧ p.due = now + delay) ∨
      (e.endsWait p = false ∧ Waiting delay history p) := by
  constructor
  · rintro ⟨before, now, after, hhistory, htoken, hdue, hafter⟩
    rcases concat_eq_append_cons_iff.1 hhistory with ⟨rfl, rfl, rfl⟩ | ⟨after, rfl, rfl⟩
    · exact Or.inl ⟨now, rfl, htoken, hdue⟩
    · refine Or.inr ⟨hafter e (by simp), before, now, after, rfl, htoken, hdue, ?_⟩
      intro e' he'
      exact hafter e' (List.mem_append_left _ he')
  · rintro (⟨now, rfl, htoken, hdue⟩ | ⟨he, before, now, after, rfl, htoken, hdue, hafter⟩)
    · exact ⟨history, now, [], rfl, htoken, hdue, by simp⟩
    · refine ⟨before, now, after ++ [e], by simp, htoken, hdue, ?_⟩
      intro e' he'
      rcases List.mem_append.1 he' with h | h
      · exact hafter e' h
      · rw [List.mem_singleton.1 h]
        exact he

/-- A waiting pass is the latest one of its document. -/
theorem latest_of_waiting (h : Waiting delay history p) : Latest delay history p.token := by
  obtain ⟨before, now, after, hhistory, htoken, -, hafter⟩ := h
  refine ⟨before, now, after, hhistory, htoken, ?_⟩
  intro e he
  exact (Event.endsWait_eq_false_iff.1 (hafter e he)).1

theorem delay_run (delay : Nat) (history : List Event) :
    (run delay history).scheduler.delay = delay := by
  induction history using List.reverseRecOn with
  | nil => rfl
  | append_singleton history e ih =>
    rw [run_concat]
    cases e <;> exact ih

/-- **The pending passes are the waiting ones.** -/
theorem mem_pending_iff_waiting :
    p ∈ (run delay history).scheduler.pending ↔ Waiting delay history p := by
  induction history using List.reverseRecOn with
  | nil =>
    constructor
    · intro h
      simp [run, start, Scheduler.start] at h
    · rintro ⟨before, now, after, h, -⟩
      simp at h
  | append_singleton history e ih =>
    -- a call acts on the pending passes as it acts on the waiting ones
    rw [run_concat, waiting_concat, ← ih, Event.endsWait_eq_false_iff]
    cases e with
    | schedule document now =>
      show p ∈ ((run delay history).scheduler.schedule document now).2.pending ↔ _
      rw [Scheduler.mem_pending_schedule, delay_run]
      constructor
      · rintro (rfl | ⟨hother, hpending⟩)
        · exact Or.inl ⟨now, rfl, rfl, rfl⟩
        · exact Or.inr ⟨⟨by simpa [Event.renews] using hother, rfl⟩, hpending⟩
      · rintro (⟨now', hevent, htoken, hdue⟩ | ⟨⟨hother, -⟩, hpending⟩)
        · obtain ⟨rfl, rfl⟩ := Event.schedule.inj hevent
          left
          cases p
          exact congrArg₂ PendingPass.mk htoken hdue
        · exact Or.inr ⟨by simpa [Event.renews] using hother, hpending⟩
    | cancel document =>
      show p ∈ ((run delay history).scheduler.cancel document).pending ↔ _
      rw [Scheduler.mem_pending_cancel]
      simp [Event.renews, Event.reaches]
    | takeDue now =>
      show p ∈ ((run delay history).scheduler.takeDue now).2.pending ↔ _
      rw [Scheduler.mem_pending_takeDue]
      simp [Event.renews, Event.reaches]
    | publish token' diagnostics => simp [step, Event.renews, Event.reaches]
    | set document diagnostics => simp [step, Event.renews, Event.reaches]
    | erase document => simp [step, Event.renews, Event.reaches]

/-- A call returns the waiting passes that are due. -/
theorem mem_takeDue_iff_waiting {now : Nat} :
    token ∈ ((run delay history).scheduler.takeDue now).1 ↔
      ∃ p, Waiting delay history p ∧ p.due ≤ now ∧ p.token = token := by
  simp only [Scheduler.mem_takeDue, mem_pending_iff_waiting]

/-! ## The order of the waiting passes -/

/-- The pending passes stand in the order in which they were scheduled. -/
theorem pairwise_pending (delay : Nat) (history : List Event) :
    (run delay history).scheduler.pending.Pairwise fun p q =>
      p.token.sequence < q.token.sequence := by
  induction history using List.reverseRecOn with
  | nil => exact List.Pairwise.nil
  | append_singleton history e ih =>
    rw [run_concat]
    cases e with
    | schedule document now =>
      show (List.filter _ _ ++ [_]).Pairwise _
      rw [List.pairwise_append]
      refine ⟨ih.filter _, List.pairwise_singleton _ _, ?_⟩
      -- the new pass has a larger number than any pass that was issued before
      intro p hp q hq
      obtain rfl := List.mem_singleton.1 hq
      have hwaiting := mem_pending_iff_waiting.1 (List.mem_filter.1 hp).1
      have hle := sequence_le_of_issued (issued_of_latest (latest_of_waiting hwaiting))
      have hcount := scheduled_run delay history
      show p.token.sequence < (run delay history).scheduler.scheduled + 1
      omega
    | cancel document => exact ih.filter _
    | takeDue now =>
      show (List.partition _ _).2.Pairwise _
      rw [List.partition_eq_filter_filter]
      exact ih.filter _
    | publish token' diagnostics => exact ih
    | set document diagnostics => exact ih
    | erase document => exact ih

theorem nodup_pending (delay : Nat) (history : List Event) :
    ((run delay history).scheduler.pending.map PendingPass.token).Nodup := by
  rw [List.Nodup, List.pairwise_map]
  apply (pairwise_pending delay history).imp
  intro p q hlt htoken
  rw [htoken] at hlt
  exact Nat.lt_irrefl _ hlt

/-- No two passes that wait have the same token. -/
theorem waiting_unique (hp : Waiting delay history p) (hq : Waiting delay history q)
    (htoken : p.token = q.token) : p = q :=
  List.inj_on_of_nodup_map (nodup_pending delay history) (mem_pending_iff_waiting.2 hp)
    (mem_pending_iff_waiting.2 hq) htoken

theorem nodup_returned (delay : Nat) (history : List Event) (e : Event) :
    ((run delay history).returned e).Nodup := by
  cases e with
  | takeDue now =>
    show (List.map _ (List.partition _ _).1).Nodup
    rw [List.partition_eq_filter_filter]
    exact (nodup_pending delay history).sublist (List.filter_sublist.map _)
  | schedule document now => exact List.nodup_nil
  | cancel document => exact List.nodup_nil
  | publish token' diagnostics => exact List.nodup_nil
  | set document diagnostics => exact List.nodup_nil
  | erase document => exact List.nodup_nil

/-! ## The passes returned by a history -/

theorem taken_concat (history : List Event) (s : State) (e : Event) :
    taken s (history ++ [e]) = taken s history ++ (history.foldl step s).returned e := by
  induction history generalizing s with
  | nil => simp [taken]
  | cons e' history ih => simp [taken, ih]

theorem mem_taken_concat : token ∈ taken (start delay) (history ++ [e]) ↔
    token ∈ taken (start delay) history ∨ token ∈ (run delay history).returned e := by
  rw [taken_concat, List.mem_append]
  rfl

theorem mem_returned : token ∈ (run delay history).returned e ↔
    ∃ now p, e = .takeDue now ∧ Waiting delay history p ∧ p.due ≤ now ∧ p.token = token := by
  cases e with
  | takeDue now =>
    constructor
    · intro h
      obtain ⟨p, hp⟩ := mem_takeDue_iff_waiting.1 h
      exact ⟨now, p, rfl, hp⟩
    · rintro ⟨now', p, hevent, hp⟩
      obtain rfl := Event.takeDue.inj hevent
      exact mem_takeDue_iff_waiting.2 ⟨p, hp⟩
  | schedule document now => simp [returned]
  | cancel document => simp [returned]
  | publish token' diagnostics => simp [returned]
  | set document diagnostics => simp [returned]
  | erase document => simp [returned]

/-- A pass that a history returns was waiting and due at one of its calls. -/
theorem mem_taken_iff : token ∈ taken (start delay) history ↔
    ∃ before now after p, history = before ++ .takeDue now :: after ∧
      Waiting delay before p ∧ p.due ≤ now ∧ p.token = token := by
  induction history using List.reverseRecOn with
  | nil => simp [taken]
  | append_singleton history e ih =>
    rw [mem_taken_concat, ih, mem_returned]
    constructor
    · rintro (⟨before, now, after, p, rfl, hp⟩ | ⟨now, p, rfl, hp⟩)
      · exact ⟨before, now, after ++ [e], p, by simp, hp⟩
      · exact ⟨history, now, [], p, rfl, hp⟩
    · rintro ⟨before, now, after, p, hhistory, hp⟩
      rcases concat_eq_append_cons_iff.1 hhistory with ⟨rfl, rfl, rfl⟩ | ⟨after, rfl, rfl⟩
      · exact Or.inr ⟨now, p, rfl, hp⟩
      · exact Or.inl ⟨before, now, after, p, rfl, hp⟩

theorem issued_of_mem_taken (h : token ∈ taken (start delay) history) :
    Issued delay history token := by
  obtain ⟨before, now, after, p, rfl, hwaiting, -, rfl⟩ := mem_taken_iff.1 h
  exact issued_append (issued_of_latest (latest_of_waiting hwaiting)) _

/-- A pass that was returned does not wait any more. -/
theorem not_waiting_of_mem_taken (h : p.token ∈ taken (start delay) history) :
    ¬ Waiting delay history p := by
  induction history using List.reverseRecOn with
  | nil => simp [taken] at h
  | append_singleton history e ih =>
    rw [waiting_concat]
    rintro (⟨now, rfl, htoken, -⟩ | ⟨hkeep, hwaiting⟩)
    · -- only passes that were issued before have been returned, and the new one was not
      have hissued : Issued delay history p.token := by
        rcases mem_taken_concat.1 h with h | h
        · exact issued_of_mem_taken h
        · simp [returned] at h
      have hle := sequence_le_of_issued hissued
      have hsequence := issue_sequence delay history p.token.document now
      rw [← htoken] at hsequence
      omega
    · rcases mem_taken_concat.1 h with h | h
      · exact ih h hwaiting
      · -- the call returned the pass, so it reached its due time
        obtain ⟨now, q, rfl, hq, hdue, htoken⟩ := mem_returned.1 h
        obtain rfl := waiting_unique hq hwaiting htoken
        have hreach := (Event.endsWait_eq_false_iff.1 hkeep).2
        simp only [Event.reaches, decide_eq_false_iff_not] at hreach
        exact hreach hdue

/-- **No pass is returned twice.** -/
theorem nodup_taken (delay : Nat) (history : List Event) :
    (taken (start delay) history).Nodup := by
  induction history using List.reverseRecOn with
  | nil => exact List.nodup_nil
  | append_singleton history e ih =>
    rw [taken_concat]
    apply List.Nodup.append ih (nodup_returned delay history e)
    intro token hbefore hnow
    obtain ⟨now, p, -, hwaiting, -, rfl⟩ := mem_returned.1 hnow
    exact not_waiting_of_mem_taken hbefore hwaiting

/-! ## One scheduled pass -/

section Scheduled

variable {document : String} {time : Nat} {between : List Event}

/-- A scheduled pass waits until a call ends its wait. -/
theorem waiting_of_scheduled (hkeep : ∀ e ∈ between, e.renews document = false)
    (hearly : ∀ e ∈ between, e.reaches (time + delay) = false) :
    Waiting delay (history ++ .schedule document time :: between)
      ⟨issue delay history document time, time + delay⟩ := by
  refine ⟨history, time, between, rfl, rfl, rfl, ?_⟩
  intro e he
  exact Event.endsWait_eq_false_iff.2 ⟨hkeep e he, hearly e he⟩

/-- A scheduled pass is not the latest one after a call that renews its document. -/
theorem not_latest_of_renews (he : e.renews document = true) (more : List Event) :
    ¬ Latest delay (history ++ .schedule document time :: between ++ e :: more)
      (issue delay history document time) := by
  have hissued : Issued delay (history ++ .schedule document time :: between)
      (issue delay history document time) := ⟨history, time, between, rfl, rfl⟩
  have hsplit : history ++ .schedule document time :: between ++ e :: more =
      history ++ .schedule document time :: between ++ [e] ++ more := by simp
  rw [hsplit]
  refine not_latest_append (issued_append hissued [e]) ?_ more
  rw [latest_concat]
  rintro (⟨now, -, htoken⟩ | ⟨hkeep, -⟩)
  · -- the pass that the call schedules has a larger number
    have hle := sequence_le_of_issued hissued
    have hsequence := issue_sequence delay (history ++ .schedule document time :: between)
      (issue delay history document time).document now
    rw [← htoken] at hsequence
    omega
  · have hdocument : (issue delay history document time).document = document := rfl
    rw [hdocument, he] at hkeep
    simp at hkeep

/-- The first call that reaches the due time of a pass returns it unless it was renewed before. -/
theorem mem_takeDue_scheduled_iff {now : Nat}
    (hearly : ∀ e ∈ between, e.reaches (time + delay) = false) (hdue : time + delay ≤ now) :
    issue delay history document time ∈
        ((run delay (history ++ .schedule document time :: between)).scheduler.takeDue now).1 ↔
      ∀ e ∈ between, e.renews document = false := by
  rw [mem_takeDue_iff_waiting]
  constructor
  · rintro ⟨p, hwaiting, -, htoken⟩ e he
    obtain ⟨first, last, rfl⟩ := List.append_of_mem he
    rw [← Bool.not_eq_true]
    intro hrenews
    have hlatest := latest_of_waiting hwaiting
    rw [htoken, ← List.cons_append, ← List.append_assoc] at hlatest
    exact not_latest_of_renews hrenews last hlatest
  · intro hkeep
    exact ⟨_, waiting_of_scheduled hkeep hearly, hdue, rfl⟩

/-- A pass that is renewed before a call reaches its due time is never returned. -/
theorem not_mem_taken_of_renews {more : List Event}
    (hearly : ∀ e ∈ between, e.reaches (time + delay) = false) (he : e.renews document = true) :
    issue delay history document time ∉
      taken (start delay) (history ++ .schedule document time :: between ++ e :: more) := by
  intro htaken
  obtain ⟨before, now, after, p, hsplit, hwaiting, hdue, htoken⟩ := mem_taken_iff.1 htaken
  have hlatest := latest_of_waiting hwaiting
  rw [htoken] at hlatest
  rw [List.append_assoc, List.cons_append] at hsplit
  rcases append_cons_eq_append_cons_iff.1 hsplit with ⟨-, hcall, -⟩ | ⟨rest, rfl, hrest⟩ |
    ⟨rest, rfl, -⟩
  · simp at hcall
  · rcases append_cons_eq_append_cons_iff.1 hrest with ⟨-, rfl, -⟩ | ⟨last, rfl, -⟩ |
      ⟨last, rfl, -⟩
    · simp [Event.renews] at he
    · -- the call that returns the pass comes after the one that renews its document
      rw [← List.cons_append, ← List.append_assoc] at hlatest
      exact not_latest_of_renews he last hlatest
    · -- it comes between the two, and its time does not reach the due time
      have hkeep : ∀ e ∈ rest, e.renews document = false := by
        intro e' he'
        rw [← Bool.not_eq_true]
        intro hrenews
        obtain ⟨first, second, rfl⟩ := List.append_of_mem he'
        rw [← List.cons_append, ← List.append_assoc] at hlatest
        exact not_latest_of_renews hrenews second hlatest
      have hbefore : ∀ e ∈ rest, e.reaches (time + delay) = false := by
        intro e' he'
        exact hearly e' (List.mem_append_left _ he')
      have hcall := hearly (.takeDue now) (by simp)
      simp only [Event.reaches, decide_eq_false_iff_not] at hcall
      rw [waiting_unique hwaiting (waiting_of_scheduled hkeep hbefore) htoken] at hdue
      exact hcall hdue
  · -- it comes before the pass is scheduled, and then no pass has its number
    have hle := sequence_le_of_issued (issued_append (issued_of_latest hlatest)
      (.takeDue now :: rest))
    have hsequence := issue_sequence delay (before ++ .takeDue now :: rest) document time
    omega

end Scheduled

/-- **Scheduled passes are delivered once, and only while they are the latest ones.** Every pass
that a call returns is the latest one of its document at that moment, and no pass is returned twice
in a history. The first call at which the delay of a pass has elapsed returns it exactly if no call
since then scheduled or cancelled its document, and a pass that was renewed before is never
returned. -/
theorem takeDue_delivers_once (delay : Nat) (history : List Event) :
    (∀ now, ∀ token ∈ ((run delay history).scheduler.takeDue now).1,
      Latest delay history token ∧ (run delay history).scheduler.isCurrent token = true) ∧
    (taken (start delay) history).Nodup ∧
    (∀ document time between now, (∀ e ∈ between, e.reaches (time + delay) = false) →
      time + delay ≤ now →
      (issue delay history document time ∈
          ((run delay (history ++ .schedule document time :: between)).scheduler.takeDue now).1 ↔
        ∀ e ∈ between, e.renews document = false)) ∧
    ∀ document time between e more, (∀ e ∈ between, e.reaches (time + delay) = false) →
      e.renews document = true →
      issue delay history document time ∉
        taken (start delay) (history ++ .schedule document time :: between ++ e :: more) := by
  refine ⟨?_, nodup_taken delay history, ?_, ?_⟩
  · intro now token htoken
    obtain ⟨p, hwaiting, -, rfl⟩ := mem_takeDue_iff_waiting.1 htoken
    have hlatest := latest_of_waiting hwaiting
    exact ⟨hlatest, isCurrent_iff_latest.2 hlatest⟩
  · intro document time between now hearly hdue
    exact mem_takeDue_scheduled_iff hearly hdue
  · intro document time between e more hearly he
    exact not_mem_taken_of_renews hearly he

/-- Two documents are scheduled, and neither pass is due yet when passes are taken. -/
def edited : List Event := [.schedule "a" 0, .schedule "b" 10, .takeDue 499]

theorem takeDue_delivers_once_edited :
    ((∀ e ∈ [Event.takeDue 200, .cancel "b"], e.reaches (300 + 500) = false) ∧ 300 + 500 ≤ 800 ∧
      issue 500 edited "a" 300 ∈ ((run 500 (edited ++ .schedule "a" 300 ::
        [.takeDue 200, .cancel "b"])).scheduler.takeDue 800).1 ∧
      Latest 500 (edited ++ .schedule "a" 300 :: [.takeDue 200, .cancel "b"])
        (issue 500 edited "a" 300)) ∧
    (∀ e ∈ [Event.schedule "b" 10, .takeDue 499], e.reaches (0 + 500) = false) ∧
    (Event.schedule "a" 300).renews "a" = true ∧
    issue 500 [] "a" 0 ∉ taken (start 500) ([] ++ .schedule "a" 0 ::
      [.schedule "b" 10, .takeDue 499] ++ .schedule "a" 300 :: [.takeDue 600, .takeDue 800]) := by
  have hearly : ∀ e ∈ [Event.takeDue 200, .cancel "b"], e.reaches (300 + 500) = false := by decide
  have hkeep : ∀ e ∈ [Event.takeDue 200, .cancel "b"], e.renews "a" = false := by decide
  have hearly' : ∀ e ∈ [Event.schedule "b" 10, .takeDue 499], e.reaches (0 + 500) = false := by
    decide
  have hrenews : (Event.schedule "a" 300).renews "a" = true := by decide
  obtain ⟨-, -, hreturn, -⟩ := takeDue_delivers_once 500 edited
  have hmem := (hreturn "a" 300 [.takeDue 200, .cancel "b"] 800 hearly (by decide)).2 hkeep
  obtain ⟨hlatest, -, -, -⟩ := takeDue_delivers_once 500
    (edited ++ .schedule "a" 300 :: [.takeDue 200, .cancel "b"])
  obtain ⟨-, -, -, hnever⟩ := takeDue_delivers_once 500 []
  refine ⟨⟨hearly, by decide, hmem, (hlatest 800 _ hmem).1⟩, hearly', hrenews, ?_⟩
  exact hnever "a" 0 _ _ [.takeDue 600, .takeDue 800] hearly' hrenews

end ResourceGraph.Session
