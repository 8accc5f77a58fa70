import Taskmesh.Engine.Proofs.SelectionProofs

/-!
# The history of weighted-fair tags

What the scheduler does to the tags of one weighted-fair class, as a list of operations that can be
replayed: requests arrive, are served from any place in the queue, or leave unserved, and the virtual
time moves with the services of every class. A request that left unserved can be struck out of such a
history. The additions a move makes on tags are listed too: `u128` holds them as long as each one fits.
-/

namespace Taskmesh

open Std MachineInt

/-! ## Operations on one class -/

namespace ClassSchedule

/-- The tag a queued request is served at. -/
def serviceTag (weight index : Nat) (r : PendingRequest) (c : ClassSchedule) : Nat :=
  if index = 0 then r.finishTag
  else
    saturatingAdd u128Max (max c.lastServedFinishTag r.wfqArrivalTag)
      (wfqIncrement r.cost.cpuUnits weight)

/-- A request is tagged and queued. -/
def joined (weight virtualTime : Nat) (r : PendingRequest) (c : ClassSchedule) : ClassSchedule :=
  let tag := saturatingAdd u128Max (max c.lastFinishTag virtualTime) (wfqIncrement r.cost.cpuUnits weight)
  { c with
    queue := c.queue ++ [{ r with finishTag := tag, wfqArrivalTag := virtualTime }]
    lastFinishTag := tag }

/-- The schedule without its credit, which no weighted-fair class has. -/
def creditless (c : ClassSchedule) : ClassSchedule := { c with deficit := 0 }

end ClassSchedule

/-- The virtual time and the schedule of one class. -/
structure TagState where
  virtualTime : Nat
  schedule : ClassSchedule

/-- One operation on the tags of a class. -/
inductive TagOp where
  /-- Another class is served, up to this virtual time. -/
  | elsewhere (virtualTime : Nat)
  | arrive (r : PendingRequest)
  | serve (index : Nat)
  | cancel (index : Nat)
  /-- The queue is emptied after a fault. -/
  | clear

section Replay

variable (weight burst : UInt32)

def TagState.apply (x : TagState) : TagOp → TagState
  | .elsewhere virtualTime => { x with virtualTime := max x.virtualTime virtualTime }
  | .arrive r => { x with schedule := x.schedule.joined weight.toNat x.virtualTime r }
  | .serve index =>
    match x.schedule.queue[index]? with
    | none => x
    | some r =>
      let tag := x.schedule.serviceTag weight.toNat index r
      let virtualTime := max x.virtualTime tag
      ⟨virtualTime, (x.schedule.dequeued index).credited (.weightedFairQueue weight burst) virtualTime
        index tag⟩
  | .cancel index =>
    match x.schedule.queue[index]? with
    | none => x
    | some _ =>
      { x with
        schedule := (x.schedule.dequeued index).rederived (.weightedFairQueue weight burst) x.virtualTime }
  | .clear => { x with schedule := ClassSchedule.idle x.virtualTime }

def TagState.replay (x : TagState) (ops : List TagOp) : TagState := ops.foldl (TagState.apply weight burst) x

end Replay

/-- The class before anything happened. -/
def TagState.start : TagState := ⟨0, ClassSchedule.idle 0⟩

/-- Strike the request that is queued at `position` out of the operations to come, if it leaves unserved:
every other request is served and cancelled as before. -/
def skip : Nat → List TagOp → Option (List TagOp)
  | _, [] => none
  | position, .elsewhere virtualTime :: rest => (skip position rest).map (.elsewhere virtualTime :: ·)
  | position, .arrive r :: rest => (skip position rest).map (.arrive r :: ·)
  | position, .serve index :: rest =>
    if index = position then none
    else if index < position then (skip (position - 1) rest).map (.serve index :: ·)
    else (skip position rest).map (.serve (index - 1) :: ·)
  | position, .cancel index :: rest =>
    if index = position then some rest
    else if index < position then (skip (position - 1) rest).map (.cancel index :: ·)
    else (skip position rest).map (.cancel (index - 1) :: ·)
  | _, .clear :: rest => some (.clear :: rest)

/-! ## The history of a class along a trace -/

/-- What a move to `s'` is for the class `c`. -/
def opsOf (c : TaskClass) (s' : GovernedState) : ScheduleEvent → List TagOp
  | .enqueued k => if k = c then ((s'.cls c).queue.getLast?.map fun r => TagOp.arrive r.untagged).toList else []
  | .dispatched selection =>
    if selection.taskClass = c then [.serve selection.queueIndex] else [.elsewhere s'.virtualTime]
  | .dropped k index => if k = c then [.cancel index] else []
  | .emptied k => if k = c then [.clear] else []
  | _ => []

/-- What a trace that ends in `t` was for the class `c`. -/
def historyOf (c : TaskClass) : List (GovernedState × ScheduleEvent) → GovernedState → List TagOp
  | [], _ => []
  | [(_, event)], t => opsOf c t event
  | (_, event) :: (s', event') :: rest, t => opsOf c s' event ++ historyOf c ((s', event') :: rest) t

/-! ## Additions on tags -/

/-- The weight a class shares by, if it is weighted-fair. -/
def PolicySet.weightOf (policies : PolicySet) (c : TaskClass) : Option Nat :=
  match policies.classPolicy c with
  | none => none
  | some policy =>
    match policy.fairness with
    | .weightedFairQueue weight _ => some weight.toNat
    | _ => none

/-- The sums a rebuild of a queue makes. -/
def repriceSums (weight : Nat) : Nat → List PendingRequest → List Nat
  | _, [] => []
  | cursor, r :: rest =>
    let sum := max cursor r.wfqArrivalTag + wfqIncrement r.cost.cpuUnits weight
    sum :: repriceSums weight (min sum u128Max) rest

/-- The sum that prices a candidate behind the head of its queue. -/
def candidateSum (s : GovernedState) (policies : PolicySet) (candidate : Candidate) : Option Nat :=
  match policies.weightOf candidate.taskClass, (s.cls candidate.taskClass).queue[candidate.queueIndex]? with
  | some weight, some r =>
    if candidate.queueIndex = 0 then none
    else
      some (max (s.cls candidate.taskClass).lastServedFinishTag r.wfqArrivalTag +
        wfqIncrement r.cost.cpuUnits weight)
  | _, _ => none

/-- Every addition on tags that a move makes, before it is held in a `u128`. -/
def tagSums (policies : PolicySet) : GovernedState × ScheduleEvent → List Nat
  | (s, .enqueued c) =>
    match policies.classPolicy c, policies.weightOf c with
    | some policy, some weight =>
      [max (s.cls c).lastFinishTag s.virtualTime + wfqIncrement (resolveCost policy).cpuUnits weight]
    | _, _ => []
  | (s, .dispatched selection) =>
    let c := selection.taskClass
    (runnableCandidates s policies).filterMap (candidateSum s policies) ++
      match policies.weightOf c with
      | none => []
      | some weight =>
        if selection.queueIndex = 0 then []
        else
          repriceSums weight (max (s.cls c).lastServedFinishTag selection.serviceFinishTag)
            ((s.cls c).queue.eraseIdx selection.queueIndex)
  | (s, .dropped c index) =>
    match policies.weightOf c with
    | none => []
    | some weight => repriceSums weight (s.cls c).lastServedFinishTag ((s.cls c).queue.eraseIdx index)
  | _ => []

/-- No addition on tags overflows. -/
def TagsFit (policies : PolicySet) (x : GovernedState × ScheduleEvent) : Prop :=
  ∀ sum ∈ tagSums policies x, sum ≤ u128Max

end Taskmesh
