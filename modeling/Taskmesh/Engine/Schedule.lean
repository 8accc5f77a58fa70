import Taskmesh.Engine.Proofs.TransitionProofs
import Taskmesh.Systems.Traces

/-!
# The life of the schedule

The calls the governor makes into its scheduler, as labelled moves of the governed state: a request
is queued and tagged, one is selected and served, one leaves unserved, a queue is emptied after a
fault. Every other change leaves the schedule alone. Stamps are taken from the committed time, which
moves only when a section commits its clock sample.
-/

namespace Taskmesh

open Std MachineInt

/-- What the scheduler keeps for a class. -/
structure ClassSchedule where
  queue : List PendingRequest
  lastFinishTag : Nat
  lastServedFinishTag : Nat
  deficit : Nat

def ClassState.schedule (c : ClassState) : ClassSchedule :=
  ⟨c.queue, c.lastFinishTag, c.lastServedFinishTag, c.deficit⟩

/-- The queues with their tags, the credits, the virtual time and the ring cursor are the same. -/
structure SameSchedule (s s' : GovernedState) : Prop where
  classes : ∀ c, (s'.cls c).schedule = (s.cls c).schedule
  time : s'.virtualTime = s.virtualTime
  cursor : s'.drrCursor = s.drrCursor

/-- No permit is new; those that stay keep the time of their lease, and are touched at most now. -/
structure Ages (s s' : GovernedState) : Prop where
  watermark : s'.commitWatermarkMs = s.commitWatermarkMs
  permits : ∀ (p : PermitId) record', s'.permits[p]? = some record' →
    ∃ record, s.permits[p]? = some record ∧
      record'.ledger.leasedAtMs = record.ledger.leasedAtMs ∧
      record.ledger.lastTouchedMs ≤ record'.ledger.lastTouchedMs ∧
      record'.ledger.lastTouchedMs ≤ max record.ledger.lastTouchedMs s.commitWatermarkMs

/-- A call into the scheduler, or a change it does not see. -/
inductive ScheduleEvent where
  | ticked
  | other
  | granted (taskClass : TaskClass)
  | enqueued (taskClass : TaskClass)
  | dispatched (selection : Selection)
  | dropped (taskClass : TaskClass) (index : Nat)
  | emptied (taskClass : TaskClass)
  deriving DecidableEq

/-- The state after a request was tagged and queued at the committed time. -/
def enqueuedAt (s : GovernedState) (policy : ClassPolicy) (c : TaskClass) (request : AdmissionRequest)
    (waker : Option Waker) (ids : Ids) (blockedOn : CapacityBlock) : GovernedState :=
  let (tagged, tags) := enqueueTags s c policy (resolveCost policy).cpuUnits s.commitWatermarkMs
  tagged.commitPending (pendingRequest s policy c request waker ids s.commitWatermarkMs blockedOn tags)

/-- An emptied queue ends the busy period of its class. -/
def emptiedClass (s : GovernedState) (c : TaskClass) : GovernedState :=
  s.modifyClass c fun cs => resetClass s.virtualTime { cs with queue := [] }

/-- One move of the schedule. -/
inductive ScheduleMove (g : Governor) : GovernedState → ScheduleEvent → GovernedState → Prop
  | ticked (s : GovernedState) (sampledMs : Nat) : ScheduleMove g s .ticked (s.commitTime sampledMs)
  | other {s s' : GovernedState} (same : SameSchedule s s') (ages : Ages s s') :
      ScheduleMove g s .other s'
  | granted {s : GovernedState} {policy : ClassPolicy} {c : TaskClass} {request : AdmissionRequest}
      {ids : Ids} (known : g.policy.classPolicy c = some policy) :
      ScheduleMove g s (.granted c)
        (s.grant (directGrant s policy c request ids s.commitWatermarkMs))
  | enqueued {s : GovernedState} {policy : ClassPolicy} {c : TaskClass} {request : AdmissionRequest}
      {waker : Option Waker} {ids : Ids} {blockedOn : CapacityBlock}
      (known : g.policy.classPolicy c = some policy) (enabled : policy.isDisabled = false) :
      ScheduleMove g s (.enqueued c) (enqueuedAt s policy c request waker ids blockedOn)
  | dispatched {s s' : GovernedState} {selection : Selection} {grant : GrantRequest}
      (chosen : (select s g.policy).2 = some selection)
      (promoted : g.promoteStep s.commitWatermarkMs s = (s', some grant)) :
      ScheduleMove g s (.dispatched selection) s'
  | dropped {s s' : GovernedState} {policy : ClassPolicy} {c : TaskClass} {index : Nat}
      {r : PendingRequest} (known : g.policy.classPolicy c = some policy)
      (found : (s.cls c).queue[index]? = some r)
      (same : SameSchedule (onUnservedRemoved (s.removedPending c index r) c policy) s')
      (ages : Ages s s') : ScheduleMove g s (.dropped c index) s'
  | emptied {s s' : GovernedState} {c : TaskClass} (same : SameSchedule (emptiedClass s c) s')
      (ages : Ages s s') : ScheduleMove g s (.emptied c) s'

/-- A trace of the schedule. -/
abbrev ScheduleTrace (g : Governor) :
    GovernedState → List (GovernedState × ScheduleEvent) → GovernedState → Prop :=
  Traces.Trace (ScheduleMove g)

end Taskmesh
