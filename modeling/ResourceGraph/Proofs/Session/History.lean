import Mathlib.Data.List.Induction
import ResourceGraph.Session.Registry

/-!
# Histories of a session

A session is driven by calls in any order. `State.run` replays a history of calls on a scheduler
and a registry. What the host may rely on is stated over histories alone: a pass is `Issued` by a
history if one of its calls scheduled it, and it is `Latest` if no call since then scheduled or
cancelled its document.

Proves: the scheduler holds exactly the latest passes as current (`isCurrent_iff_latest`), numbers
them by the schedule calls so far, and a pass that is no longer the latest one never is again.
-/

set_option autoImplicit false

namespace ResourceGraph.Session

/-- One call of the host. -/
inductive Event where
  | schedule (document : String) (now : Nat)
  | takeDue (now : Nat)
  | cancel (document : String)
  | publish (token : PassToken) (diagnostics : List Diagnostic)
  | set (document : String) (diagnostics : List Diagnostic)
  | erase (document : String)

namespace Event

/-- Whether a call schedules a pass. -/
def isSchedule : Event → Bool
  | schedule _ _ => true
  | _ => false

/-- Whether a call schedules or cancels a document, and so makes its earlier passes stale. -/
def renews (document : String) : Event → Bool
  | schedule d _ => d == document
  | cancel d => d == document
  | _ => false

end Event

/-- A scheduler and a registry. -/
structure State where
  scheduler : Scheduler
  registry : Registry

namespace State

/-- The state before any call. -/
def start (delay : Nat) : State := ⟨Scheduler.start delay, Registry.empty⟩

/-- The state after a call. -/
def step (s : State) : Event → State
  | .schedule document now => { s with scheduler := (s.scheduler.schedule document now).2 }
  | .takeDue now => { s with scheduler := (s.scheduler.takeDue now).2 }
  | .cancel document => { s with scheduler := s.scheduler.cancel document }
  | .publish token diagnostics =>
    { s with registry := (s.registry.publish s.scheduler token diagnostics).2 }
  | .set document diagnostics => { s with registry := s.registry.set document diagnostics }
  | .erase document => { s with registry := s.registry.erase document }

/-- The state after a history of calls. -/
def run (delay : Nat) (history : List Event) : State := history.foldl step (start delay)

theorem run_concat (delay : Nat) (history : List Event) (e : Event) :
    run delay (history ++ [e]) = (run delay history).step e := by
  rw [run, List.foldl_append]
  rfl

end State

namespace Scheduler

theorem isCurrent_schedule {s : Scheduler} {document : String} {now : Nat} {token : PassToken} :
    (s.schedule document now).2.isCurrent token = true ↔
      token = (s.schedule document now).1 ∨
        document ≠ token.document ∧ s.isCurrent token = true := by
  simp only [schedule, isCurrent, List.contains_iff_mem, List.mem_cons, List.mem_filter, bne_iff_ne,
    ne_comm, and_comm]

theorem isCurrent_cancel {s : Scheduler} {document : String} {token : PassToken} :
    (s.cancel document).isCurrent token = true ↔
      document ≠ token.document ∧ s.isCurrent token = true := by
  simp only [cancel, isCurrent, List.contains_iff_mem, List.mem_filter, bne_iff_ne, ne_comm,
    and_comm]

end Scheduler

open State

/-- The pass that a schedule call after a history returns. -/
def issue (delay : Nat) (before : List Event) (document : String) (now : Nat) : PassToken :=
  ((run delay before).scheduler.schedule document now).1

/-- A pass that some schedule call of a history returned. -/
def Issued (delay : Nat) (history : List Event) (token : PassToken) : Prop :=
  ∃ before now after, history = before ++ .schedule token.document now :: after ∧
    token = issue delay before token.document now

/-- The pass that the last schedule call of its document in a history returned, if the document was
not cancelled since. -/
def Latest (delay : Nat) (history : List Event) (token : PassToken) : Prop :=
  ∃ before now after, history = before ++ .schedule token.document now :: after ∧
    token = issue delay before token.document now ∧
    ∀ e ∈ after, e.renews token.document = false

variable {delay : Nat} {history : List Event} {token : PassToken} {e : Event}

/-! ## The number of a pass -/

/-- The scheduler counts the schedule calls. -/
theorem scheduled_run (delay : Nat) (history : List Event) :
    (run delay history).scheduler.scheduled = history.countP Event.isSchedule := by
  induction history using List.reverseRecOn with
  | nil => rfl
  | append_singleton history e ih =>
    rw [run_concat, List.countP_append, ← ih]
    cases e <;> rfl

/-- The number of a pass is the number of schedule calls up to its own. -/
theorem issue_sequence (delay : Nat) (before : List Event) (document : String) (now : Nat) :
    (issue delay before document now).sequence = before.countP Event.isSchedule + 1 := by
  rw [← scheduled_run delay before]
  rfl

theorem sequence_le_of_issued (h : Issued delay history token) :
    token.sequence ≤ history.countP Event.isSchedule := by
  obtain ⟨before, now, after, rfl, htoken⟩ := h
  have hsequence : token.sequence = before.countP Event.isSchedule + 1 := by
    rw [htoken]
    exact issue_sequence delay before _ now
  have hschedule : (Event.schedule token.document now).isSchedule = true := rfl
  rw [hsequence, List.countP_append, List.countP_cons_of_pos hschedule]
  omega

/-! ## The latest passes, call by call -/

theorem issued_of_latest (h : Latest delay history token) : Issued delay history token := by
  obtain ⟨before, now, after, hhistory, htoken, -⟩ := h
  exact ⟨before, now, after, hhistory, htoken⟩

theorem issued_append (h : Issued delay history token) (more : List Event) :
    Issued delay (history ++ more) token := by
  obtain ⟨before, now, after, rfl, htoken⟩ := h
  exact ⟨before, now, after ++ more, by simp, htoken⟩

/-- Two calls of one history are the same call, or one of them comes after the other. -/
theorem append_cons_eq_append_cons_iff {before after before' after' : List Event}
    {call call' : Event} :
    before ++ call :: after = before' ++ call' :: after' ↔
      (before = before' ∧ call = call' ∧ after = after') ∨
        (∃ between, before' = before ++ call :: between ∧ after = between ++ call' :: after') ∨
        ∃ between, before = before' ++ call' :: between ∧ after' = between ++ call :: after := by
  constructor
  · intro h
    rcases List.append_eq_append_iff.1 h with ⟨rest, rfl, hrest⟩ | ⟨rest, rfl, hrest⟩
    · rcases List.cons_eq_append_iff.1 hrest with ⟨rfl, hcons⟩ | ⟨between, rfl, hafter⟩
      · obtain ⟨rfl, rfl⟩ := List.cons.inj hcons
        exact Or.inl ⟨by simp, rfl, rfl⟩
      · exact Or.inr (Or.inl ⟨between, rfl, hafter⟩)
    · rcases List.cons_eq_append_iff.1 hrest with ⟨rfl, hcons⟩ | ⟨between, rfl, hafter⟩
      · obtain ⟨rfl, rfl⟩ := List.cons.inj hcons
        exact Or.inl ⟨by simp, rfl, rfl⟩
      · exact Or.inr (Or.inr ⟨between, rfl, hafter⟩)
  · rintro (⟨rfl, rfl, rfl⟩ | ⟨between, rfl, rfl⟩ | ⟨between, rfl, rfl⟩) <;> simp

/-- A call of a history with one more call is the last one, or a call of the history. -/
theorem concat_eq_append_cons_iff {before after : List Event} {call : Event} :
    history ++ [e] = before ++ call :: after ↔
      (history = before ∧ e = call ∧ after = []) ∨
        ∃ between, history = before ++ call :: between ∧ after = between ++ [e] := by
  rw [append_cons_eq_append_cons_iff]
  simp [eq_comm]

/-- A pass is the latest one after a call if the call scheduled it, or left its document alone and
the pass was the latest one before. -/
theorem latest_concat :
    Latest delay (history ++ [e]) token ↔
      (∃ now, e = .schedule token.document now ∧
        token = issue delay history token.document now) ∨
      (e.renews token.document = false ∧ Latest delay history token) := by
  constructor
  · rintro ⟨before, now, after, hhistory, htoken, hafter⟩
    rcases concat_eq_append_cons_iff.1 hhistory with ⟨rfl, rfl, rfl⟩ | ⟨after, rfl, rfl⟩
    · exact Or.inl ⟨now, rfl, htoken⟩
    · refine Or.inr ⟨hafter e (by simp), before, now, after, rfl, htoken, ?_⟩
      intro e' he'
      exact hafter e' (List.mem_append_left _ he')
  · rintro (⟨now, rfl, htoken⟩ | ⟨he, before, now, after, rfl, htoken, hafter⟩)
    · exact ⟨history, now, [], rfl, htoken, by simp⟩
    · refine ⟨before, now, after ++ [e], by simp, htoken, ?_⟩
      intro e' he'
      rcases List.mem_append.1 he' with h | h
      · exact hafter e' h
      · rw [List.mem_singleton.1 h]
        exact he

theorem not_latest_nil : ¬ Latest delay [] token := by
  rintro ⟨before, now, after, h, -⟩
  simp at h

/-- The scheduler takes a pass for current exactly if it is the latest one. -/
theorem isCurrent_iff_latest :
    (run delay history).scheduler.isCurrent token = true ↔ Latest delay history token := by
  induction history using List.reverseRecOn with
  | nil =>
    constructor
    · intro h
      simp [run, start, Scheduler.isCurrent, Scheduler.start] at h
    · intro h
      exact absurd h not_latest_nil
  | append_singleton history e ih =>
    -- a call acts on the current passes as it acts on the latest ones
    rw [run_concat, latest_concat, ← ih]
    cases e with
    | schedule document now =>
      show ((run delay history).scheduler.schedule document now).2.isCurrent token = true ↔ _
      rw [Scheduler.isCurrent_schedule]
      constructor
      · rintro (rfl | ⟨hother, hcurrent⟩)
        · exact Or.inl ⟨now, rfl, rfl⟩
        · exact Or.inr ⟨by simpa [Event.renews] using hother, hcurrent⟩
      · rintro (⟨now', hevent, htoken⟩ | ⟨hother, hcurrent⟩)
        · obtain ⟨rfl, rfl⟩ := Event.schedule.inj hevent
          exact Or.inl htoken
        · exact Or.inr ⟨by simpa [Event.renews] using hother, hcurrent⟩
    | cancel document =>
      show ((run delay history).scheduler.cancel document).isCurrent token = true ↔ _
      rw [Scheduler.isCurrent_cancel]
      simp [Event.renews]
    | takeDue now => simp [step, Scheduler.takeDue, Scheduler.isCurrent, Event.renews]
    | publish token' diagnostics => simp [step, Event.renews]
    | set document diagnostics => simp [step, Event.renews]
    | erase document => simp [step, Event.renews]

/-! ## Passes in the order of their numbers -/

/-- A document has at most one latest pass. -/
theorem latest_unique {other : PassToken} (h : Latest delay history token)
    (hother : Latest delay history other) (hdocument : token.document = other.document) :
    token = other := by
  induction history using List.reverseRecOn with
  | nil => exact absurd h not_latest_nil
  | append_singleton history e ih =>
    -- a schedule call renews its document, so only one of the two can be the new pass
    have hrenews : ∀ {t : PassToken} {now : Nat}, e = .schedule t.document now →
        e.renews t.document = true := by
      rintro t now rfl
      simp [Event.renews]
    rcases latest_concat.1 h with ⟨now, hevent, htoken⟩ | ⟨hkeep, hbefore⟩
    · rcases latest_concat.1 hother with ⟨now', hevent', hother'⟩ | ⟨hkeep', -⟩
      · obtain ⟨-, rfl⟩ := Event.schedule.inj (hevent.symm.trans hevent')
        rw [htoken, hother', hdocument]
      · rw [← hdocument, hrenews hevent] at hkeep'
        simp at hkeep'
    · rcases latest_concat.1 hother with ⟨now', hevent', -⟩ | ⟨-, hbefore'⟩
      · rw [hdocument, hrenews hevent'] at hkeep
        simp at hkeep
      · exact ih hbefore hbefore'

/-- A pass that is not the latest one of its document any more never is again. -/
theorem not_latest_append (hissued : Issued delay history token)
    (hstale : ¬ Latest delay history token) (more : List Event) :
    ¬ Latest delay (history ++ more) token := by
  induction more using List.reverseRecOn with
  | nil => rwa [List.append_nil]
  | append_singleton more e ih =>
    rw [← List.append_assoc, latest_concat]
    rintro (⟨now, -, htoken⟩ | ⟨-, hlatest⟩)
    · -- a pass scheduled now has a larger number than any issued before
      have hle := sequence_le_of_issued (issued_append hissued more)
      have hsequence := issue_sequence delay (history ++ more) token.document now
      rw [← htoken] at hsequence
      omega
    · exact ih hlatest

/-- Later in a history the latest pass of a document has no smaller number. -/
theorem sequence_le_of_latest {later : PassToken} (h : Latest delay history token)
    {more : List Event} (hlater : Latest delay (history ++ more) later)
    (hdocument : token.document = later.document) : token.sequence ≤ later.sequence := by
  induction more using List.reverseRecOn with
  | nil =>
    rw [List.append_nil] at hlater
    exact Nat.le_of_eq (congrArg PassToken.sequence (latest_unique h hlater hdocument))
  | append_singleton more e ih =>
    rw [← List.append_assoc, latest_concat] at hlater
    rcases hlater with ⟨now, -, htoken⟩ | ⟨-, hlatest⟩
    · -- the later pass was scheduled by the last call
      have hle := sequence_le_of_issued (issued_append (issued_of_latest h) more)
      have hsequence := issue_sequence delay (history ++ more) later.document now
      rw [← htoken] at hsequence
      omega
    · exact ih hlatest

end ResourceGraph.Session
