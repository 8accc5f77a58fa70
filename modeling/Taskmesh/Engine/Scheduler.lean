import Taskmesh.Engine.Pending

/-!
# Cross-class dispatch

Which class dispatches next when several are runnable (`features/fairness/scheduler.rs`), and the
retry hint of a refusal (`retry_after.rs`). Within a class the order is first-in first-out per
capability domain; across classes it is the discipline of the contended tier.
-/

namespace Taskmesh

open Std MachineInt

/-! ## Weighted-fair tags -/

/-- Fixed-point scale for weighted-fair virtual finish tags. -/
def wfqScale : Nat := 2 ^ 64

/-- The virtual-time increment one request of this cost adds to a class of this weight. -/
def wfqIncrement (costCpuUnits weight : Nat) : Nat := max costCpuUnits 1 * wfqScale / max weight 1

/-- Shift every virtual-time quantity of a class down by `origin`. -/
def rebaseClass (origin : Nat) (c : ClassState) : ClassState :=
  { c with
    lastFinishTag := c.lastFinishTag - origin
    lastServedFinishTag := c.lastServedFinishTag - origin
    queue := c.queue.map fun r =>
      { r with finishTag := r.finishTag - origin, wfqArrivalTag := r.wfqArrivalTag - origin } }

def rebaseVirtualTime (s : GovernedState) : GovernedState :=
  { s with virtualTime := 0, classes := s.classes.map fun _ c => rebaseClass s.virtualTime c }

/-- Record the finish tag of the request queued last in a class. -/
def recordFinishTag (s : GovernedState) (c : TaskClass) (tag : Nat) : GovernedState :=
  s.modifyClass c fun cs => { cs with lastFinishTag := tag }

/-- The finish tag of a request that adds `increment` to its class, rebasing virtual time when the
sum does not fit. Rebasing keeps the differences between the tags at or above virtual time; the
tags below it all become zero. -/
def nextFinishTag (s : GovernedState) (c : TaskClass) (increment : Nat) : GovernedState × Nat :=
  match checkedAdd u128Max (max (s.cls c).lastFinishTag s.virtualTime) increment with
  | some tag => (s, tag)
  | none =>
    let s := rebaseVirtualTime s
    (s, saturatingAdd u128Max (max (s.cls c).lastFinishTag s.virtualTime) increment)

/-- The tags of a request under a discipline: finish tag, arrival tag, deadline. -/
def tagsFor (s : GovernedState) (c : TaskClass) (costCpuUnits enqueuedAtMs : Nat) :
    FairnessPolicy → GovernedState × Nat × Nat × Nat
  | .weightedFairQueue weight _ =>
    let next := nextFinishTag s c (wfqIncrement costCpuUnits weight.toNat)
    (recordFinishTag next.1 c next.2, next.2, next.1.virtualTime, u64Max)
  | .deadlineAware slackMs => (s, 0, 0, saturatingAdd u64Max enqueuedAtMs slackMs.toNat)
  | _ => (s, 0, 0, u64Max)

/-- Assign the scheduling tags a request carries while queued. -/
def enqueueTags (s : GovernedState) (c : TaskClass) (policy : ClassPolicy) (costCpuUnits : Nat)
    (enqueuedAtMs : Nat) : GovernedState × Nat × Nat × Nat :=
  tagsFor s c costCpuUnits enqueuedAtMs policy.fairness

/-- The finish tags of a queue rebuilt from a cursor, with the final cursor. -/
def repriceQueue (weight : Nat) : Nat → List PendingRequest → List PendingRequest × Nat
  | cursor, [] => ([], cursor)
  | cursor, r :: rest =>
    let tag := saturatingAdd u128Max (max cursor r.wfqArrivalTag) (wfqIncrement r.cost.cpuUnits weight)
    let (queue, last) := repriceQueue weight tag rest
    ({ r with finishTag := tag } :: queue, last)

def rebuildWfqQueue (weight virtualTime : Nat) (c : ClassState) : ClassState :=
  let (queue, cursor) := repriceQueue weight c.lastServedFinishTag c.queue
  { c with queue := queue, lastFinishTag := max cursor virtualTime }

/-- A drained queue ends its busy period: no debt, no credit. -/
def resetClass (virtualTime : Nat) (c : ClassState) : ClassState :=
  { c with lastFinishTag := virtualTime, lastServedFinishTag := virtualTime, deficit := 0 }

/-- Re-derive the tags of a class after a queued request left without service. -/
def onUnservedRemoved (s : GovernedState) (c : TaskClass) (policy : ClassPolicy) : GovernedState :=
  s.modifyClass c fun cs =>
    if cs.queue.isEmpty then resetClass s.virtualTime cs
    else
      match policy.fairness with
      | .weightedFairQueue weight _ => rebuildWfqQueue weight.toNat s.virtualTime cs
      | _ =>
        { cs with
          lastFinishTag := max (cs.queue.foldl (fun tag r => max tag r.finishTag) 0) s.virtualTime }

/-- Record a request that left the queue because it received service. -/
def onRequestServed (s : GovernedState) (c : TaskClass) (policy : ClassPolicy) (queueIndex : Nat)
    (serviceFinishTag : Nat) : GovernedState :=
  s.modifyClass c fun cs =>
    if cs.queue.isEmpty then resetClass s.virtualTime cs
    else
      let cs := { cs with lastServedFinishTag := max cs.lastServedFinishTag serviceFinishTag }
      if queueIndex > 0 then
        match policy.fairness with
        | .weightedFairQueue weight _ => rebuildWfqQueue weight.toNat s.virtualTime cs
        | _ => cs
      else cs

/-! ## Candidates -/

/-- A runnable class and the request driving its dispatch key. -/
structure Candidate where
  taskClass : TaskClass
  queueIndex : Nat
  fairness : FairnessPolicy
  bestEffort : Bool
  headQueueOrder : Nat
  headFinishTag : Nat
  headDeadlineMs : Nat
  headCostCpu : Nat

structure Selection where
  taskClass : TaskClass
  queueIndex : Nat
  serviceFinishTag : Nat
  deriving DecidableEq

/-- The request has no queued same-domain predecessor and every dimension has room for it. -/
def isRunnableCandidate (s : GovernedState) (policies : PolicySet) (maxInflight : Nat)
    (cs : ClassState) (r : PendingRequest) : Bool :=
  !cs.hasQueuedPredecessor r && decide (assessPending s policies r maxInflight false = .runnable)

/-- The first runnable request of a class. -/
def classCandidate (s : GovernedState) (policies : PolicySet) (c : TaskClass) (cs : ClassState) :
    Option Candidate :=
  match policies.classPolicy c with
  | none => none
  | some policy =>
    match cs.queue.findIdx? (isRunnableCandidate s policies policy.maxInflight.toNat cs) with
    | none => none
    | some index =>
      match cs.queue[index]? with
      | none => none
      | some head =>
        let tag :=
          match policy.fairness with
          | .weightedFairQueue weight _ =>
            if index = 0 then head.finishTag
            else
              saturatingAdd u128Max (max cs.lastServedFinishTag head.wfqArrivalTag)
                (wfqIncrement head.cost.cpuUnits weight.toNat)
          | _ => head.finishTag
        some
          { taskClass := c
            queueIndex := index
            fairness := policy.fairness
            bestEffort := policy.bestEffort
            headQueueOrder := head.queueOrder
            headFinishTag := tag
            headDeadlineMs := head.deadlineMs
            headCostCpu := head.cost.cpuUnits }

/-- One candidate per runnable class, in ascending class order. -/
def runnableCandidates (s : GovernedState) (policies : PolicySet) : List Candidate :=
  s.classes.toList.filterMap fun entry => classCandidate s policies entry.1 entry.2

/-- Whether any class could be promoted right now. Pure. -/
def hasRunnable (s : GovernedState) (policies : PolicySet) : Bool :=
  !(runnableCandidates s policies).isEmpty

/-! ## Selection -/

/-- The first candidate with the least key, lexicographically over two components. -/
def pickMin (key : Candidate → Nat × Nat) : Candidate → List Candidate → Candidate
  | best, [] => best
  | best, c :: rest =>
    if (key c).1 < (key best).1 ∨ (key c).1 = (key best).1 ∧ (key c).2 < (key best).2 then
      pickMin key c rest
    else pickMin key best rest

def drrQuantum : FairnessPolicy → Nat
  | .deficitRoundRobin quantum => quantum.toNat
  | _ => 1

/-- The visit on which a ring slot first affords its head. -/
structure PlannedVisit where
  taskClass : TaskClass
  quantum : Nat
  cost : Nat
  offset : Nat
  visitPos : Nat

/-- Plan the earliest affordable visit of every slot, for a ring walked from `start`. -/
def planVisits (s : GovernedState) (pool : List Candidate) (start : Nat) : List PlannedVisit :=
  pool.zipIdx.map fun (candidate, index) =>
    let offset := (index + pool.length - start) % pool.length
    let quantum := drrQuantum candidate.fairness
    let cost := max candidate.headCostCpu 1
    let deficit := (s.cls candidate.taskClass).deficit
    let visitsNeeded := if deficit ≥ cost then 1 else (cost - deficit + quantum - 1) / quantum
    { taskClass := candidate.taskClass
      quantum := quantum
      cost := cost
      offset := offset
      visitPos := offset + (visitsNeeded - 1) * pool.length }

/-- Credit one slot for the visits made up to the winning position. -/
def creditVisit (ringSize winningPos : Nat) (s : GovernedState) (visit : PlannedVisit) :
    GovernedState :=
  if visit.offset > winningPos then s
  else
    let visits := (winningPos - visit.offset) / ringSize + 1
    s.modifyClass visit.taskClass fun cs =>
      { cs with
        deficit := saturatingAdd u128Max cs.deficit (min (visits * visit.quantum) u128Max) }

/-- The earliest planned visit. -/
def earliestVisit : PlannedVisit → List PlannedVisit → PlannedVisit
  | best, [] => best
  | best, v :: rest => if v.visitPos < best.visitPos then earliestVisit v rest else earliestVisit best rest

/-- The cursor class keeps being served while its deficit covers its head cost. -/
def drrCursorServes (s : GovernedState) (pool : List Candidate) : Option Candidate :=
  match s.drrCursor with
  | none => none
  | some cur =>
    match pool.find? (fun c => c.taskClass = cur) with
    | none => none
    | some c => if (s.cls cur).deficit ≥ max c.headCostCpu 1 then some c else none

/-- Where the walk of the ring starts: at the first class after the cursor. -/
def drrStart (s : GovernedState) (pool : List Candidate) : Nat :=
  match s.drrCursor with
  | some cur => (pool.findIdx? fun c => compare c.taskClass cur == .gt).getD 0
  | none => 0

/-- Pay for a dispatch out of a class's deficit. -/
def spendDeficit (s : GovernedState) (c : TaskClass) (cost : Nat) : GovernedState :=
  s.modifyClass c fun cs => { cs with deficit := cs.deficit - cost }

/-- Deficit round robin over the runnable classes of a tier, walked arithmetically. -/
def drrSelect (s : GovernedState) (pool : List Candidate) : GovernedState × Option TaskClass :=
  match drrCursorServes s pool with
  | some c => (spendDeficit s c.taskClass (max c.headCostCpu 1), some c.taskClass)
  | none =>
    match planVisits s pool (drrStart s pool) with
    | [] => (s, none)
    | first :: rest =>
      let s := { s with drrRingVisits := saturatingAdd u64Max s.drrRingVisits pool.length }
      let winner := earliestVisit first rest
      let s := (first :: rest).foldl (creditVisit pool.length winner.visitPos) s
      let s := spendDeficit s winner.taskClass winner.cost
      ({ s with drrCursor := some winner.taskClass }, some winner.taskClass)

/-- The candidates of the contended tier: best effort only when nothing else is runnable. -/
def contendedTier (candidates : List Candidate) : List Candidate :=
  let hasPrimary := candidates.any fun c => !c.bestEffort
  candidates.filter fun c => c.bestEffort != hasPrimary

/-- Pick the next class to promote. Moves deficits or virtual time as part of the decision, so it is
only called for a dispatch that will happen. -/
def select (s : GovernedState) (policies : PolicySet) : GovernedState × Option Selection :=
  let candidates := runnableCandidates s policies
  match contendedTier candidates with
  | [] => (s, none)
  | first :: rest =>
    let (s, chosen) : GovernedState × Option TaskClass :=
      match first.fairness with
      | .fifo | .bestEffortScavenger =>
        (s, some (pickMin (fun c => (c.headQueueOrder, 0)) first rest).taskClass)
      | .weightedFairQueue _ _ =>
        let c := pickMin (fun c => (c.headFinishTag, c.headQueueOrder)) first rest
        -- Advance global virtual time past the dispatched request's tag.
        ({ s with virtualTime := max s.virtualTime c.headFinishTag }, some c.taskClass)
      | .deadlineAware _ =>
        (s, some (pickMin (fun c => (c.headDeadlineMs, c.headQueueOrder)) first rest).taskClass)
      | .deficitRoundRobin _ => drrSelect s (first :: rest)
    match chosen with
    | none => (s, none)
    | some c =>
      match candidates.find? fun candidate => candidate.taskClass = c with
      | none => (s, none)
      | some candidate =>
        (s, some ⟨candidate.taskClass, candidate.queueIndex, candidate.headFinishTag⟩)

/-! ## Retry hints -/

/-- Adjust a contention estimate by the class's own discipline. -/
def applyFairness (base : Nat) : FairnessPolicy → Nat
  | .fifo => base
  | .weightedFairQueue weight _ => base - min (weight.toNat * 2) u64Max
  | .deficitRoundRobin quantum => wrappingAdd u64Max base quantum.toNat
  | .deadlineAware slackMs => wrappingAdd u64Max base (slackMs.toNat / 10)
  | .bestEffortScavenger => wrappingAdd u64Max base 200

/-- The retry-after hint of a rejection. -/
def retryAfter (retry : RetryAfterPolicy) (fairness : FairnessPolicy) (queueDepth inflight : Nat) :
    Option Nat :=
  match retry with
  | .none => none
  | .fixedMs value => some value.toNat
  | .adaptive => some (applyFairness (50 + queueDepth * 10 + inflight * 5) fairness)

end Taskmesh
