import ResourceGraph.Settings.Basic

/-!
# Scheduling passes

An editor checks a document some time after its last change. Scheduling a pass replaces the one that
is pending for the same document, and makes every earlier token of the document stale. Times are
natural numbers, in milliseconds from any start.
-/

set_option autoImplicit false

namespace ResourceGraph.Session

/-- Names a scheduled pass: its document, and how many passes were scheduled up to it. -/
structure PassToken where
  document : String
  sequence : Nat
  deriving DecidableEq, Repr

/-- A pass that waits until it is due. -/
structure PendingPass where
  token : PassToken
  due : Nat
  deriving DecidableEq, Repr

/-- The passes that wait, in the order in which they were scheduled, and the latest token of each
document that is open. -/
structure Scheduler where
  delay : Nat
  scheduled : Nat
  pending : List PendingPass
  latest : List PassToken
  deriving Repr

namespace Scheduler

/-- A scheduler without passes. -/
def start (delay : Nat) : Scheduler := ⟨delay, 0, [], []⟩

/-- A scheduler with the delay of some settings. -/
def ofSettings (s : Settings) : Scheduler := start s.debounceMs

/-- Schedules a pass of a document at a time. -/
def schedule (s : Scheduler) (document : String) (now : Nat) : PassToken × Scheduler :=
  let token : PassToken := ⟨document, s.scheduled + 1⟩
  (token, { s with
    scheduled := s.scheduled + 1
    pending := s.pending.filter (fun p => p.token.document != document) ++ [⟨token, now + s.delay⟩]
    latest := token :: s.latest.filter fun t => t.document != document })

/-- Takes the passes that are due at a time, those scheduled first in front. -/
def takeDue (s : Scheduler) (now : Nat) : List PassToken × Scheduler :=
  let (due, waiting) := s.pending.partition fun p => p.due ≤ now
  (due.map PendingPass.token, { s with pending := waiting })

/-- The earliest time at which a pass is due. -/
def nextDue? (s : Scheduler) : Option Nat := (s.pending.map PendingPass.due).min?

/-- Whether a token is the latest one of its document. -/
def isCurrent (s : Scheduler) (token : PassToken) : Bool := s.latest.contains token

/-- Forgets a document: its pending pass is dropped and all its tokens are stale. -/
def cancel (s : Scheduler) (document : String) : Scheduler :=
  { s with
    pending := s.pending.filter fun p => p.token.document != document
    latest := s.latest.filter fun t => t.document != document }

end Scheduler

end ResourceGraph.Session
