import Taskmesh.Engine.Governor

/-!
# Observation

What an observer reads under the lock without changing anything: the per-class part of
`Governor::snapshot`, and the view of a queued ticket.
-/

namespace Taskmesh

open Std

/-- The gauges and totals of one class. -/
structure ClassSnapshot where
  inflight : Nat := 0
  queued : Nat := 0
  cpuUnitsHeld : Nat := 0
  memoryUnitsHeld : Nat := 0
  dispatchReserved : Nat := 0
  accepted : Nat := 0
  running : Nat := 0
  cleanupPending : Nat := 0
  admittedTotal : Nat := 0
  startedTotal : Nat := 0
  terminatedTotal : Nat := 0
  deriving DecidableEq

def ClassState.snapshot (c : ClassState) : ClassSnapshot where
  inflight := c.inflight
  queued := c.queued
  cpuUnitsHeld := c.cpuUnitsHeld
  memoryUnitsHeld := c.memoryUnitsHeld
  dispatchReserved := c.dispatchReserved
  accepted := c.accepted
  running := c.running
  cleanupPending := c.cleanupPending
  admittedTotal := c.admittedTotal
  startedTotal := c.startedTotal
  terminatedTotal := c.terminatedTotal

/-- What an observer sees of the governed state. -/
structure Snapshot where
  classes : BTreeMap TaskClass ClassSnapshot

/-- Every class the policy or the state knows. -/
def Governor.snapshot (g : Governor) (s : GovernedState) : Snapshot where
  classes := (g.policy.classes.keys ++ s.classes.keys).foldl
    (fun classes c => classes.insertIfNew c ((s.classes[c]?.map ClassState.snapshot).getD {})) ∅

/-! ## Queued tickets -/

/-- Diagnostic projection of one queued request. -/
structure PendingView where
  taskClass : TaskClass
  requestKey : String
  blockedOn : CapacityBlock
  assessment : CapacityAssessment
  enqueuedAtMs : Nat
  queueWaitMs : Nat
  capabilities : CapabilityRequirementSet

/-- The block a view reports: a request that waits for its own ancestors keeps the one it was queued for. -/
def CapacityAssessment.blockedOn (assessment : CapacityAssessment) (r : PendingRequest) : CapacityBlock :=
  match assessment with
  | .runnable => .ok
  | .reversiblyBlocked blockers => blockers.primary
  | .irreversibleWaitCycle _ => r.blockedOn

/-- A queued ticket, assessed as admission and promotion assess it. -/
def Governor.pendingView (g : Governor) (s : GovernedState) (ticket : Ticket) : Option PendingView :=
  match s.tickets[ticket]? with
  | some (.queued c) => do
    let cs ← s.classes[c]?
    let r ← cs.queue.find? fun r => r.ticket = ticket
    let policy ← g.policy.classPolicy c
    let assessment := assessPending s g.policy r policy.maxInflight.toNat
      (s.promotionPending || cs.hasQueuedPredecessor r)
    some
      { taskClass := r.taskClass
        requestKey := r.requestKey
        blockedOn := assessment.blockedOn r
        assessment := assessment
        enqueuedAtMs := r.enqueuedAtMs
        queueWaitMs := s.commitWatermarkMs - r.enqueuedAtMs
        capabilities := r.capabilities }
  | _ => none

/-- The primary current blocker of a queued ticket. -/
def Governor.pendingBlockReason (g : Governor) (s : GovernedState) (ticket : Ticket) : Option CapacityBlock :=
  (g.pendingView s ticket).map PendingView.blockedOn

end Taskmesh
