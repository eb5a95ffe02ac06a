import ResourceGraph.Proofs.Session.Publication
import ResourceGraph.Proofs.Session.WakeUp

/-!
# Documents of one session

All documents of a session share one count of passes, so what the other documents do changes the
numbers that a document's tokens carry. A host never sees these numbers: it names a pass by the call
that scheduled it. `Host` replays calls that name passes in this way, and `Host.transcript` is what
the calls of a run answer as far as one document is concerned.

A session seen from one document (`Host.view`) is changed by the calls that concern the document as
if it were the only one (`view_step`), and by no other call (`view_step_of_not_concerns`).

Proves: a run without the calls that concern other documents alone gives the same transcript, and a
name stands for the token of its schedule call to the end of the run (`transcript_alone`).
-/

set_option autoImplicit false

namespace ResourceGraph.Session

/-- How a host names a pass: by its document, and by the number of passes of the document that were
scheduled before it. -/
structure PassName where
  document : String
  number : Nat
  deriving DecidableEq, Repr

/-- One call of a host, with passes named by the calls that scheduled them. -/
inductive Call where
  | schedule (document : String) (now : Nat)
  | takeDue (now : Nat)
  | cancel (document : String)
  | publish (pass : PassName) (diagnostics : List Diagnostic)
  | set (document : String) (diagnostics : List Diagnostic)
  | erase (document : String)
  | get (document : String)
  | isCurrent (pass : PassName)

namespace Call

/-- The document that a call concerns. Passes are taken for all documents at once. -/
def document? : Call → Option String
  | schedule document _ => some document
  | takeDue _ => none
  | cancel document => some document
  | publish pass _ => some pass.document
  | set document _ => some document
  | erase document => some document
  | get document => some document
  | isCurrent pass => some pass.document

/-- Whether a call concerns a document, on its own or with all others. -/
def concerns (document : String) (c : Call) : Bool := c.document?.all (· == document)

/-- Whether a call schedules a pass of a document. -/
def schedules (document : String) : Call → Bool
  | schedule d _ => d == document
  | _ => false

end Call

/-- What a call answers: nothing, passes by their names, yes or no, or the diagnostics of a document
if it has any. -/
inductive Answer where
  | done
  | passes (names : List PassName)
  | holds (b : Bool)
  | diagnostics (found : Option (List Diagnostic))

/-- A session with the tokens that it has handed out, in order. -/
structure Host where
  state : State
  issued : List PassToken

namespace Host

/-- The host before any call. -/
def start (delay : Nat) : Host := ⟨State.start delay, []⟩

/-- The tokens of one document. -/
def tokensOf (h : Host) (document : String) : List PassToken :=
  h.issued.filter fun t => t.document == document

/-- The token that a name stands for, if the pass was scheduled. -/
def token? (h : Host) (pass : PassName) : Option PassToken :=
  (h.tokensOf pass.document)[pass.number]?

/-- The name of a token. -/
def name (h : Host) (token : PassToken) : PassName :=
  ⟨token.document, (h.tokensOf token.document).idxOf token⟩

/-- The token that a schedule call hands out. -/
def next (h : Host) (document : String) (now : Nat) : PassToken :=
  (h.state.scheduler.schedule document now).1

/-- The host after a call. The result of a pass that was never scheduled goes nowhere. -/
def step (h : Host) : Call → Host
  | .schedule document now =>
    ⟨h.state.step (.schedule document now), h.issued ++ [h.next document now]⟩
  | .takeDue now => { h with state := h.state.step (.takeDue now) }
  | .cancel document => { h with state := h.state.step (.cancel document) }
  | .publish pass diagnostics =>
    match h.token? pass with
    | none => h
    | some token => { h with state := h.state.step (.publish token diagnostics) }
  | .set document diagnostics => { h with state := h.state.step (.set document diagnostics) }
  | .erase document => { h with state := h.state.step (.erase document) }
  | .get _ => h
  | .isCurrent _ => h

/-- The host after the calls of a run. -/
def run (delay : Nat) (calls : List Call) : Host := calls.foldl step (start delay)

/-- What a call answers, as far as one document is concerned. -/
def answer (h : Host) (document : String) : Call → Answer
  | .schedule d now => .passes [(h.step (.schedule d now)).name (h.next d now)]
  | .takeDue now =>
    .passes (((h.state.scheduler.takeDue now).1.filter fun t => t.document == document).map h.name)
  | .cancel _ => .done
  | .publish pass diagnostics => .holds ((h.token? pass).any fun token =>
      (h.state.registry.publish h.state.scheduler token diagnostics).1)
  | .set _ _ => .done
  | .erase d => .diagnostics (h.state.registry.get? d)
  | .get d => .diagnostics (h.state.registry.get? d)
  | .isCurrent pass => .holds ((h.token? pass).any h.state.scheduler.isCurrent)

/-- The calls of a run that concern a document, with what they answer as far as it is concerned. -/
def transcript (document : String) : Host → List Call → List (Call × Answer)
  | _, [] => []
  | h, c :: rest =>
    if c.concerns document then (c, h.answer document c) :: transcript document (h.step c) rest
    else transcript document (h.step c) rest

end Host

/-! ## The view of one document -/

/-- A session as one document sees it, with its passes told by their numbers: how many there were,
those that wait with the times at which they are due, the latest one, and the diagnostics. -/
@[ext]
structure View where
  delay : Nat
  scheduled : Nat
  pending : List (Nat × Nat)
  latest : List Nat
  diagnostics : Option (List Diagnostic)

namespace View

/-- The view after a call that concerns the document. -/
def step (v : View) : Call → View
  | .schedule _ now => { v with
      scheduled := v.scheduled + 1
      pending := [(v.scheduled, now + v.delay)]
      latest := [v.scheduled] }
  | .takeDue now => { v with pending := v.pending.filter fun p => now < p.2 }
  | .cancel _ => { v with pending := [], latest := [] }
  | .publish pass diagnostics =>
    if v.latest.contains pass.number then { v with diagnostics := some diagnostics } else v
  | .set _ diagnostics => { v with diagnostics := some diagnostics }
  | .erase _ => { v with diagnostics := none }
  | .get _ => v
  | .isCurrent _ => v

/-- What a call that concerns the document answers. -/
def answer (v : View) (document : String) : Call → Answer
  | .schedule _ _ => .passes [⟨document, v.scheduled⟩]
  | .takeDue now =>
    .passes ((v.pending.filter fun p => p.2 ≤ now).map fun p => ⟨document, p.1⟩)
  | .cancel _ => .done
  | .publish pass _ => .holds (v.latest.contains pass.number)
  | .set _ _ => .done
  | .erase _ => .diagnostics v.diagnostics
  | .get _ => .diagnostics v.diagnostics
  | .isCurrent pass => .holds (v.latest.contains pass.number)

/-- What the calls of a run answer when they all concern the document. -/
def transcript (document : String) : View → List Call → List (Call × Answer)
  | _, [] => []
  | v, c :: rest => (c, v.answer document c) :: transcript document (v.step c) rest

end View

namespace Scheduler

/-- The pending passes of one document. -/
def pendingOf (s : Scheduler) (document : String) : List PendingPass :=
  s.pending.filter fun p => p.token.document == document

/-- The latest tokens of one document. -/
def latestOf (s : Scheduler) (document : String) : List PassToken :=
  s.latest.filter fun t => t.document == document

end Scheduler

/-- What one document sees of a session. -/
def Host.view (h : Host) (document : String) : View where
  delay := h.state.scheduler.delay
  scheduled := (h.tokensOf document).length
  pending := (h.state.scheduler.pendingOf document).map fun p =>
    ((h.tokensOf document).idxOf p.token, p.due)
  latest := (h.state.scheduler.latestOf document).map (h.tokensOf document).idxOf
  diagnostics := h.state.registry.get? document

/-! ## One document among others -/

section Filter

variable {α : Type} {f : α → String} {document other : String}

theorem filter_eq_filter_ne (h : other ≠ document) (as : List α) :
    ((as.filter fun a => f a != other).filter fun a => f a == document) =
      as.filter fun a => f a == document := by
  rw [List.filter_filter]
  apply List.filter_congr
  intro a _
  by_cases ha : f a = document
  · simp [ha, h.symm]
  · simp [ha]

theorem filter_eq_filter_ne_self (document : String) (as : List α) :
    ((as.filter fun a => f a != document).filter fun a => f a == document) = [] := by
  rw [List.filter_filter, List.filter_eq_nil_iff]
  intro a _
  simp

end Filter

namespace Scheduler

variable {s : Scheduler} {document other : String} {now : Nat}

theorem pendingOf_schedule_self : (s.schedule document now).2.pendingOf document =
    [⟨(s.schedule document now).1, now + s.delay⟩] := by
  show (List.filter _ _ ++ [_]).filter _ = _
  rw [List.filter_append, filter_eq_filter_ne_self, List.nil_append]
  exact List.filter_cons_of_pos (beq_self_eq_true document)

theorem pendingOf_schedule_other (h : other ≠ document) :
    (s.schedule other now).2.pendingOf document = s.pendingOf document := by
  show (List.filter _ _ ++ [_]).filter _ = _
  rw [List.filter_append, filter_eq_filter_ne h, List.filter_cons_of_neg (by simpa using h),
    List.filter_nil, List.append_nil]
  rfl

theorem latestOf_schedule_self :
    (s.schedule document now).2.latestOf document = [(s.schedule document now).1] := by
  show (_ :: List.filter _ _).filter _ = _
  rw [List.filter_cons_of_pos (by simp), filter_eq_filter_ne_self]
  rfl

theorem latestOf_schedule_other (h : other ≠ document) :
    (s.schedule other now).2.latestOf document = s.latestOf document := by
  show (_ :: List.filter _ _).filter _ = _
  rw [List.filter_cons_of_neg (by simpa using h), filter_eq_filter_ne h]
  rfl

theorem pendingOf_cancel_self : (s.cancel document).pendingOf document = [] :=
  filter_eq_filter_ne_self document s.pending

theorem pendingOf_cancel_other (h : other ≠ document) :
    (s.cancel other).pendingOf document = s.pendingOf document :=
  filter_eq_filter_ne h s.pending

theorem latestOf_cancel_self : (s.cancel document).latestOf document = [] :=
  filter_eq_filter_ne_self document s.latest

theorem latestOf_cancel_other (h : other ≠ document) :
    (s.cancel other).latestOf document = s.latestOf document :=
  filter_eq_filter_ne h s.latest

theorem pendingOf_takeDue : (s.takeDue now).2.pendingOf document =
    (s.pendingOf document).filter fun p => now < p.due := by
  rw [pendingOf, pending_takeDue, remaining, List.filter_comm]
  rfl

end Scheduler

namespace Registry

variable {r : Registry} {s : Scheduler} {document : String} {token : PassToken}
  {diagnostics : List Diagnostic}

theorem get?_erase_other {other : String} (h : other ≠ document) :
    (r.erase document).get? other = r.get? other :=
  lookup_filter_ne h

theorem get?_erase_self : (r.erase document).get? document = none := by
  rw [get?, erase, List.lookup_eq_none_iff]
  intro entry hentry
  rw [bne_comm]
  exact (List.mem_filter.1 hentry).2

theorem get?_publish_other (h : document ≠ token.document) :
    (r.publish s token diagnostics).2.get? document = r.get? document := by
  rw [publish]
  split
  · exact get?_set_other h
  · rfl

theorem get?_publish_self : (r.publish s token diagnostics).2.get? token.document =
    if s.isCurrent token then some diagnostics else r.get? token.document := by
  rw [publish]
  split
  · exact get?_set_self
  · rfl

theorem publish_fst : (r.publish s token diagnostics).1 = s.isCurrent token := by
  rw [publish]
  split
  · rename_i hcurrent
    exact hcurrent.symm
  · rename_i hstale
    exact (Bool.not_eq_true _ ▸ hstale).symm

end Registry

namespace Host

variable {h : Host} {document : String} {c : Call} {token : PassToken} {pass : PassName}

theorem mem_tokensOf :
    token ∈ h.tokensOf document ↔ token ∈ h.issued ∧ token.document = document := by
  rw [tokensOf, List.mem_filter, beq_iff_eq]

theorem document_of_token? (htoken : h.token? pass = some token) :
    token.document = pass.document :=
  (mem_tokensOf.1 (List.mem_of_getElem? htoken)).2

/-! ## The tokens of a session -/

/-- The tokens handed out are different ones, with the numbers counted so far, and the scheduler
keeps no others. -/
structure IsKept (h : Host) : Prop where
  numbered : ∀ t ∈ h.issued, t.sequence ≤ h.state.scheduler.scheduled
  nodup : h.issued.Nodup
  pending : ∀ p ∈ h.state.scheduler.pending, p.token ∈ h.issued
  latest : ∀ t ∈ h.state.scheduler.latest, t ∈ h.issued

theorem isKept_start (delay : Nat) : (start delay).IsKept where
  numbered := by simp [start]
  nodup := List.nodup_nil
  pending := by simp [start, State.start, Scheduler.start]
  latest := by simp [start, State.start, Scheduler.start]

/-- A new token has a number of its own. -/
theorem IsKept.next_not_mem (hkept : h.IsKept) (document : String) (now : Nat) :
    h.next document now ∉ h.issued := by
  intro hmem
  exact Nat.not_succ_le_self _ (hkept.numbered _ hmem)

theorem IsKept.schedule (hkept : h.IsKept) (document : String) (now : Nat) :
    (h.step (.schedule document now)).IsKept where
  numbered := by
    intro t ht
    rcases List.mem_append.1 ht with ht | ht
    · exact Nat.le_succ_of_le (hkept.numbered t ht)
    · rw [List.mem_singleton.1 ht]
      exact Nat.le_refl _
  nodup := by
    refine List.Nodup.append hkept.nodup (List.nodup_singleton _) ?_
    intro t ht hnew
    rw [List.mem_singleton.1 hnew] at ht
    exact hkept.next_not_mem document now ht
  pending := by
    intro p hp
    rcases Scheduler.mem_pending_schedule.1 hp with rfl | ⟨-, hp⟩
    · exact List.mem_append_right _ List.mem_cons_self
    · exact List.mem_append_left _ (hkept.pending p hp)
  latest := by
    intro t ht
    rcases List.mem_cons.1 ht with rfl | ht
    · exact List.mem_append_right _ List.mem_cons_self
    · exact List.mem_append_left _ (hkept.latest t (List.mem_filter.1 ht).1)

theorem IsKept.step (hkept : h.IsKept) (c : Call) : (h.step c).IsKept := by
  cases c with
  | schedule document now => exact hkept.schedule document now
  | takeDue now =>
    refine ⟨hkept.numbered, hkept.nodup, ?_, hkept.latest⟩
    intro p hp
    exact hkept.pending p (Scheduler.mem_pending_takeDue.1 hp).2
  | cancel document =>
    refine ⟨hkept.numbered, hkept.nodup, ?_, ?_⟩
    · intro p hp
      exact hkept.pending p (List.mem_filter.1 hp).1
    · intro t ht
      exact hkept.latest t (List.mem_filter.1 ht).1
  | publish pass diagnostics =>
    rw [Host.step]
    split
    · exact hkept
    · exact ⟨hkept.numbered, hkept.nodup, hkept.pending, hkept.latest⟩
  | set document diagnostics =>
    exact ⟨hkept.numbered, hkept.nodup, hkept.pending, hkept.latest⟩
  | erase document => exact ⟨hkept.numbered, hkept.nodup, hkept.pending, hkept.latest⟩
  | get document => exact hkept
  | isCurrent pass => exact hkept

theorem isKept_run (delay : Nat) (calls : List Call) : (run delay calls).IsKept := by
  induction calls using List.reverseRecOn with
  | nil => exact isKept_start delay
  | append_singleton calls c ih =>
    rw [run, List.foldl_append]
    exact ih.step c

theorem tokensOf_schedule_self (h : Host) (document : String) (now : Nat) :
    (h.step (.schedule document now)).tokensOf document =
      h.tokensOf document ++ [h.next document now] := by
  show (h.issued ++ [h.next document now]).filter _ = _
  rw [List.filter_append]
  exact congrArg _ (List.filter_cons_of_pos (beq_self_eq_true document))

theorem tokensOf_schedule_other {other : String} (hother : other ≠ document) (now : Nat) :
    (h.step (.schedule other now)).tokensOf document = h.tokensOf document := by
  have hnew : [h.next other now].filter (fun t => t.document == document) = [] :=
    List.filter_eq_nil_iff.2 (by simpa [next, Scheduler.schedule] using hother)
  show (h.issued ++ [h.next other now]).filter _ = _
  rw [List.filter_append, hnew, List.append_nil]
  rfl

/-- The new token of a document has the number of those before it. -/
theorem IsKept.idxOf_next (hkept : h.IsKept) (document : String) (now : Nat)
    (more : List PassToken) :
    (h.tokensOf document ++ h.next document now :: more).idxOf (h.next document now) =
      (h.tokensOf document).length := by
  have hnew : h.next document now ∉ h.tokensOf document := by
    intro hmem
    exact hkept.next_not_mem document now (mem_tokensOf.1 hmem).1
  rw [List.idxOf_append_of_notMem hnew, List.idxOf_cons_self, Nat.add_zero]

/-- The pass with a name is current exactly if its document sees its number as the latest. -/
theorem IsKept.any_isCurrent (hkept : h.IsKept) (pass : PassName) :
    (h.token? pass).any h.state.scheduler.isCurrent =
      (h.view pass.document).latest.contains pass.number := by
  rw [Bool.eq_iff_iff, Option.any_eq_true, List.contains_iff_mem]
  constructor
  · rintro ⟨token, htoken, hcurrent⟩
    obtain ⟨hlt, hget⟩ := List.getElem?_eq_some_iff.1 htoken
    refine List.mem_map.2 ⟨token, List.mem_filter.2 ⟨List.contains_iff_mem.1 hcurrent, ?_⟩, ?_⟩
    · exact beq_iff_eq.2 (document_of_token? htoken)
    · rw [← hget]
      exact (hkept.nodup.filter _).idxOf_getElem _ hlt
  · intro hlatest
    obtain ⟨token, htoken, hnumber⟩ := List.mem_map.1 hlatest
    obtain ⟨hmem, hdocument⟩ := List.mem_filter.1 htoken
    have hissued : token ∈ h.tokensOf pass.document :=
      mem_tokensOf.2 ⟨hkept.latest token hmem, beq_iff_eq.1 hdocument⟩
    refine ⟨token, ?_, List.contains_iff_mem.2 hmem⟩
    rw [token?, ← hnumber]
    exact List.getElem?_idxOf hissued

/-! ## Calls and the view -/

theorem view_congr {g : Host} (htokens : g.tokensOf document = h.tokensOf document)
    (hdelay : g.state.scheduler.delay = h.state.scheduler.delay)
    (hpending : g.state.scheduler.pendingOf document = h.state.scheduler.pendingOf document)
    (hlatest : g.state.scheduler.latestOf document = h.state.scheduler.latestOf document)
    (hget : g.state.registry.get? document = h.state.registry.get? document) :
    g.view document = h.view document := by
  rw [view, view, htokens, hdelay, hpending, hlatest, hget]

/-- A call that concerns another document changes nothing that a document sees. -/
theorem view_step_of_not_concerns (hc : c.concerns document = false) :
    (h.step c).view document = h.view document := by
  cases c with
  | schedule other now =>
    have hother : other ≠ document := beq_eq_false_iff_ne.1 hc
    exact view_congr (tokensOf_schedule_other hother now) rfl
      (Scheduler.pendingOf_schedule_other hother) (Scheduler.latestOf_schedule_other hother) rfl
  | takeDue now => exact absurd hc.symm Bool.false_ne_true
  | cancel other =>
    have hother : other ≠ document := beq_eq_false_iff_ne.1 hc
    exact view_congr rfl rfl (Scheduler.pendingOf_cancel_other hother)
      (Scheduler.latestOf_cancel_other hother) rfl
  | publish pass diagnostics =>
    have hother : document ≠ pass.document := (beq_eq_false_iff_ne.1 hc).symm
    rw [step]
    split
    · rfl
    · rename_i token htoken
      rw [← document_of_token? htoken] at hother
      exact view_congr rfl rfl rfl rfl (Registry.get?_publish_other hother)
  | set other diagnostics =>
    have hother : document ≠ other := (beq_eq_false_iff_ne.1 hc).symm
    exact view_congr rfl rfl rfl rfl (Registry.get?_set_other hother)
  | erase other =>
    have hother : document ≠ other := (beq_eq_false_iff_ne.1 hc).symm
    exact view_congr rfl rfl rfl rfl (Registry.get?_erase_other hother)
  | get other => rfl
  | isCurrent pass => rfl

theorem IsKept.view_schedule (hkept : h.IsKept) (document : String) (now : Nat) :
    (h.step (.schedule document now)).view document =
      (h.view document).step (.schedule document now) := by
  have hnumber := hkept.idxOf_next document now []
  rw [← tokensOf_schedule_self] at hnumber
  refine View.ext rfl ?_ ?_ ?_ rfl
  · show ((h.step (.schedule document now)).tokensOf document).length = _
    rw [tokensOf_schedule_self, List.length_append]
    rfl
  · show List.map _ ((h.state.scheduler.schedule document now).2.pendingOf document) = _
    rw [Scheduler.pendingOf_schedule_self]
    exact congrArg (fun n => [(n, now + h.state.scheduler.delay)]) hnumber
  · show List.map _ ((h.state.scheduler.schedule document now).2.latestOf document) = _
    rw [Scheduler.latestOf_schedule_self]
    exact congrArg (fun n => [n]) hnumber

theorem IsKept.view_publish (hkept : h.IsKept) (pass : PassName) (diagnostics : List Diagnostic) :
    (h.step (.publish pass diagnostics)).view pass.document =
      (h.view pass.document).step (.publish pass diagnostics) := by
  rw [View.step, ← hkept.any_isCurrent, Host.step]
  cases htoken : h.token? pass with
  | none => rfl
  | some token =>
    have hget : (h.state.registry.publish h.state.scheduler token diagnostics).2.get?
        token.document = if h.state.scheduler.isCurrent token then some diagnostics
          else h.state.registry.get? token.document := Registry.get?_publish_self
    rw [document_of_token? htoken] at hget
    cases hcurrent : h.state.scheduler.isCurrent token with
    | true =>
      rw [hcurrent, if_pos rfl] at hget
      rw [Option.any_some, hcurrent, if_pos rfl]
      exact View.ext rfl rfl rfl rfl hget
    | false =>
      rw [hcurrent, if_neg Bool.false_ne_true] at hget
      rw [Option.any_some, hcurrent, if_neg Bool.false_ne_true]
      exact View.ext rfl rfl rfl rfl hget

/-- A call that concerns a document changes what it sees as if there were no other. -/
theorem IsKept.view_step (hkept : h.IsKept) (hc : c.concerns document = true) :
    (h.step c).view document = (h.view document).step c := by
  cases c with
  | schedule d now =>
    obtain rfl : d = document := beq_iff_eq.1 hc
    exact hkept.view_schedule d now
  | takeDue now =>
    refine View.ext rfl rfl ?_ rfl rfl
    show List.map _ ((h.state.scheduler.takeDue now).2.pendingOf document) =
      List.filter _ (List.map _ _)
    rw [Scheduler.pendingOf_takeDue, List.filter_map]
    rfl
  | cancel d =>
    obtain rfl : d = document := beq_iff_eq.1 hc
    refine View.ext rfl rfl ?_ ?_ rfl
    · exact List.map_eq_nil_iff.2 Scheduler.pendingOf_cancel_self
    · exact List.map_eq_nil_iff.2 Scheduler.latestOf_cancel_self
  | publish pass diagnostics =>
    obtain rfl : pass.document = document := beq_iff_eq.1 hc
    exact hkept.view_publish pass diagnostics
  | set d diagnostics =>
    obtain rfl : d = document := beq_iff_eq.1 hc
    exact View.ext rfl rfl rfl rfl Registry.get?_set_self
  | erase d =>
    obtain rfl : d = document := beq_iff_eq.1 hc
    exact View.ext rfl rfl rfl rfl Registry.get?_erase_self
  | get d => rfl
  | isCurrent pass => rfl

/-- The passes of a document that a call takes are those of its pending passes that are due. -/
theorem map_name_takeDue (h : Host) (document : String) (now : Nat) :
    (((h.state.scheduler.takeDue now).1.filter fun t => t.document == document).map h.name) =
      ((h.view document).pending.filter fun p => p.2 ≤ now).map fun p =>
        (⟨document, p.1⟩ : PassName) := by
  have hpending : (h.view document).pending.filter (fun p => decide (p.2 ≤ now)) =
      ((h.state.scheduler.pendingOf document).filter fun p => p.due ≤ now).map fun p =>
        ((h.tokensOf document).idxOf p.token, p.due) :=
    List.filter_map
  rw [hpending, Scheduler.takeDue_fst, List.filter_map, List.map_map, List.map_map,
    Scheduler.pendingOf, List.filter_comm]
  apply List.map_congr_left
  intro p hp
  have hdocument := (List.mem_filter.1 (List.mem_filter.1 hp).1).2
  obtain rfl : p.token.document = document := beq_iff_eq.1 hdocument
  rfl

/-- What a call that concerns a document answers is told by what the document sees. -/
theorem IsKept.answer_eq (hkept : h.IsKept) (hc : c.concerns document = true) :
    h.answer document c = (h.view document).answer document c := by
  cases c with
  | schedule d now =>
    obtain rfl : d = document := beq_iff_eq.1 hc
    have hnumber := hkept.idxOf_next d now []
    rw [← tokensOf_schedule_self] at hnumber
    exact congrArg (fun n => Answer.passes [⟨d, n⟩]) hnumber
  | takeDue now => exact congrArg Answer.passes (map_name_takeDue h document now)
  | cancel d => rfl
  | publish pass diagnostics =>
    obtain rfl : pass.document = document := beq_iff_eq.1 hc
    refine congrArg Answer.holds (Eq.trans ?_ (hkept.any_isCurrent pass))
    simp only [Registry.publish_fst]
  | set d diagnostics => rfl
  | erase d =>
    obtain rfl : d = document := beq_iff_eq.1 hc
    rfl
  | get d =>
    obtain rfl : d = document := beq_iff_eq.1 hc
    rfl
  | isCurrent pass =>
    obtain rfl : pass.document = document := beq_iff_eq.1 hc
    exact congrArg Answer.holds (hkept.any_isCurrent pass)

/-! ## Runs -/

/-- What the calls of a run answer about a document is told by what it sees, and by the calls that
concern it. -/
theorem IsKept.transcript_eq (hkept : h.IsKept) (calls : List Call) :
    h.transcript document calls =
      (h.view document).transcript document (calls.filter (Call.concerns document)) := by
  -- a call that concerns the document is a step of the view, and any other one leaves it alone
  induction calls generalizing h with
  | nil => rfl
  | cons c calls ih =>
    rw [transcript]
    split
    · rename_i hc
      rw [List.filter_cons_of_pos hc, View.transcript, ih (hkept.step c), hkept.answer_eq hc,
        hkept.view_step hc]
    · rename_i hc
      rw [List.filter_cons_of_neg hc, ih (hkept.step c),
        view_step_of_not_concerns (Bool.not_eq_true _ ▸ hc)]

/-- A call hands out a token of a document exactly if it schedules the document. -/
theorem exists_tokensOf_step (h : Host) (document : String) (c : Call) :
    ∃ new, (h.step c).tokensOf document = h.tokensOf document ++ new ∧
      new.length = [c].countP (Call.schedules document) := by
  have hkeep : (h.step c).tokensOf document = h.tokensOf document →
      c.schedules document = false →
      ∃ new, (h.step c).tokensOf document = h.tokensOf document ++ new ∧
        new.length = [c].countP (Call.schedules document) := by
    intro hsame hc
    exact ⟨[], by rw [hsame, List.append_nil], by simp [hc]⟩
  cases c with
  | schedule d now =>
    by_cases hd : d = document
    · subst hd
      exact ⟨_, tokensOf_schedule_self h d now, by simp [Call.schedules]⟩
    · exact hkeep (tokensOf_schedule_other hd now) (beq_eq_false_iff_ne.2 hd)
  | takeDue now => exact hkeep rfl rfl
  | cancel d => exact hkeep rfl rfl
  | publish pass diagnostics =>
    refine hkeep ?_ rfl
    rw [step]
    split
    · rfl
    · rfl
  | set d diagnostics => exact hkeep rfl rfl
  | erase d => exact hkeep rfl rfl
  | get d => exact hkeep rfl rfl
  | isCurrent pass => exact hkeep rfl rfl

theorem exists_tokensOf_foldl (h : Host) (document : String) (calls : List Call) :
    ∃ more, (calls.foldl step h).tokensOf document = h.tokensOf document ++ more ∧
      more.length = calls.countP (Call.schedules document) := by
  induction calls generalizing h with
  | nil => exact ⟨[], (List.append_nil _).symm, rfl⟩
  | cons c calls ih =>
    obtain ⟨new, hnew, hlength⟩ := exists_tokensOf_step h document c
    obtain ⟨more, hmore, hcount⟩ := ih (h.step c)
    refine ⟨new ++ more, ?_, ?_⟩
    · rw [List.foldl_cons, hmore, hnew, List.append_assoc]
    · rw [List.length_append, hlength, hcount, ← List.countP_append, List.singleton_append]

/-- A document has handed out one token for each call that scheduled it. -/
theorem length_tokensOf_run (delay : Nat) (document : String) (calls : List Call) :
    ((run delay calls).tokensOf document).length = calls.countP (Call.schedules document) := by
  obtain ⟨tokens, htokens, hlength⟩ := exists_tokensOf_foldl (start delay) document calls
  rw [← hlength]
  exact congrArg List.length htokens

/-- **Documents do not interfere.** A run without the calls that concern other documents alone has
the same transcript of a document: the same of its passes are taken by each call, the same ones are
current whenever that is asked, the same results are stored, and the same diagnostics are found and
removed. In every run the name of a pass stands for the token that its schedule call handed out. -/
theorem transcript_alone (delay : Nat) (document : String) (calls : List Call) :
    (start delay).transcript document (calls.filter (Call.concerns document)) =
        (start delay).transcript document calls ∧
      ∀ before now after,
        (run delay (before ++ .schedule document now :: after)).token?
            ⟨document, before.countP (Call.schedules document)⟩ =
          some ((run delay before).next document now) ∧
        (run delay (before ++ .schedule document now :: after)).name
            ((run delay before).next document now) =
          ⟨document, before.countP (Call.schedules document)⟩ := by
  constructor
  · -- the view before any call is the same, and so are the calls that concern the document
    rw [(isKept_start delay).transcript_eq, (isKept_start delay).transcript_eq, List.filter_filter]
    simp only [Bool.and_self]
  · intro before now after
    have hkept := isKept_run delay before
    obtain ⟨more, hmore, -⟩ :=
      exists_tokensOf_foldl ((run delay before).step (.schedule document now)) document after
    have htokens : (run delay (before ++ .schedule document now :: after)).tokensOf document =
        (run delay before).tokensOf document ++ (run delay before).next document now :: more := by
      rw [run, List.foldl_append, List.foldl_cons]
      rw [tokensOf_schedule_self, List.append_assoc, List.singleton_append] at hmore
      exact hmore
    rw [← length_tokensOf_run delay]
    constructor
    · rw [token?, htokens, List.getElem?_append_right (Nat.le_refl _), Nat.sub_self]
      rfl
    · have hnumber := hkept.idxOf_next document now more
      rw [← htokens] at hnumber
      exact congrArg (PassName.mk document) hnumber

end Host

end ResourceGraph.Session
