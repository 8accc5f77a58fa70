import Taskmesh.Engine.TagHistory

/-!
# The scheduler over unbounded tags

The weighted-fair scheduler with natural numbers for tags: no addition overflows, so that nothing is rebased
and nothing is clipped. It is run beside the governor, one call for each call the governor makes: the requests
and everything that blocks them are the governor's, the tags are its own.
-/

namespace Taskmesh

open Std MachineInt

/-! ## Tags apart from the state -/

/-- The tags of a class, and the finish and arrival tags of its queue. -/
structure ClassTags where
  lastFinishTag : Nat
  lastServedFinishTag : Nat
  queue : List (Nat × Nat)

/-- Everything a weighted-fair scheduler counts. -/
structure Tags where
  virtualTime : Nat
  classes : TaskClass → ClassTags

def ClassSchedule.tags (c : ClassSchedule) : ClassTags :=
  ⟨c.lastFinishTag, c.lastServedFinishTag, c.queue.map fun r => (r.finishTag, r.wfqArrivalTag)⟩

def GovernedState.tags (s : GovernedState) : Tags := ⟨s.virtualTime, fun c => (s.cls c).schedule.tags⟩

/-- A request with other tags, if there are any for it. -/
def PendingRequest.retagged (r : PendingRequest) : Option (Nat × Nat) → PendingRequest
  | some (finishTag, arrivalTag) => { r with finishTag := finishTag, wfqArrivalTag := arrivalTag }
  | none => r

def ClassState.retagged (c : ClassState) (tags : ClassTags) : ClassState :=
  { c with
    lastFinishTag := tags.lastFinishTag
    lastServedFinishTag := tags.lastServedFinishTag
    queue := c.queue.mapIdx fun i r => r.retagged tags.queue[i]? }

/-- The same state with other tags. -/
def GovernedState.retagged (s : GovernedState) (tags : Tags) : GovernedState :=
  { s with
    virtualTime := tags.virtualTime
    classes := s.classes.map fun c cs => cs.retagged (tags.classes c) }

/-- A request joins the queue of a class with its tags. -/
def Tags.queued (tags : Tags) (c : TaskClass) (finishTag arrivalTag : Nat) : Tags :=
  { tags with
    classes := Function.update tags.classes c
      { tags.classes c with queue := (tags.classes c).queue ++ [(finishTag, arrivalTag)] } }

namespace Unbounded

/-! ## The scheduler -/

/-- The finish tag of an arrival: there is nothing to overflow, and no rebase. -/
def nextFinishTag (s : GovernedState) (c : TaskClass) (increment : Nat) : Nat :=
  max (s.cls c).lastFinishTag s.virtualTime + increment

def tagsFor (s : GovernedState) (c : TaskClass) (costCpuUnits enqueuedAtMs : Nat) :
    FairnessPolicy → GovernedState × Nat × Nat × Nat
  | .weightedFairQueue weight _ =>
    let next := nextFinishTag s c (wfqIncrement costCpuUnits weight.toNat)
    (recordFinishTag s c next, next, s.virtualTime, u64Max)
  | .deadlineAware slackMs => (s, 0, 0, saturatingAdd u64Max enqueuedAtMs slackMs.toNat)
  | _ => (s, 0, 0, u64Max)

def enqueueTags (s : GovernedState) (c : TaskClass) (policy : ClassPolicy) (costCpuUnits : Nat)
    (enqueuedAtMs : Nat) : GovernedState × Nat × Nat × Nat :=
  tagsFor s c costCpuUnits enqueuedAtMs policy.fairness

/-- The finish tags of a queue rebuilt from a cursor, with the final cursor. -/
def repriceQueue (weight : Nat) : Nat → List PendingRequest → List PendingRequest × Nat
  | cursor, [] => ([], cursor)
  | cursor, r :: rest =>
    let tag := max cursor r.wfqArrivalTag + wfqIncrement r.cost.cpuUnits weight
    let (queue, last) := repriceQueue weight tag rest
    ({ r with finishTag := tag } :: queue, last)

def rebuildWfqQueue (weight virtualTime : Nat) (c : ClassState) : ClassState :=
  let (queue, cursor) := repriceQueue weight c.lastServedFinishTag c.queue
  { c with queue := queue, lastFinishTag := max cursor virtualTime }

def onUnservedRemoved (s : GovernedState) (c : TaskClass) (policy : ClassPolicy) : GovernedState :=
  s.modifyClass c fun cs =>
    if cs.queue.isEmpty then resetClass s.virtualTime cs
    else
      match policy.fairness with
      | .weightedFairQueue weight _ => rebuildWfqQueue weight.toNat s.virtualTime cs
      | _ =>
        { cs with
          lastFinishTag := max (cs.queue.foldl (fun tag r => max tag r.finishTag) 0) s.virtualTime }

def onRequestServed (s : GovernedState) (c : TaskClass) (policy : ClassPolicy) (queueIndex : Nat)
    (serviceFinishTag : Nat) : GovernedState :=
  s.modifyClass c fun cs =>
    if cs.queue.isEmpty then resetClass s.virtualTime cs
    else
      let cs := { cs with lastServedFinishTag := max cs.lastServedFinishTag serviceFinishTag }
      if queueIndex > 0 then
        match policy.fairness with
        | .weightedFairQueue weight _ => rebuildWfqQueue weight.toNat s.virtualTime cs
        | _ => cs
      else cs

/-- The first runnable request of a class. -/
def classCandidate (s : GovernedState) (policies : PolicySet) (c : TaskClass) (cs : ClassState) :
    Option Candidate :=
  match policies.classPolicy c with
  | none => none
  | some policy =>
    match cs.queue.findIdx? (isRunnableCandidate s policies policy.maxInflight.toNat cs) with
    | none => none
    | some index =>
      match cs.queue[index]? with
      | none => none
      | some head =>
        let tag :=
          match policy.fairness with
          | .weightedFairQueue weight _ =>
            if index = 0 then head.finishTag
            else
              max cs.lastServedFinishTag head.wfqArrivalTag +
                wfqIncrement head.cost.cpuUnits weight.toNat
          | _ => head.finishTag
        some
          { taskClass := c
            queueIndex := index
            fairness := policy.fairness
            bestEffort := policy.bestEffort
            headQueueOrder := head.queueOrder
            headFinishTag := tag
            headDeadlineMs := head.deadlineMs
            headCostCpu := head.cost.cpuUnits }

def runnableCandidates (s : GovernedState) (policies : PolicySet) : List Candidate :=
  s.classes.toList.filterMap fun entry => classCandidate s policies entry.1 entry.2

/-- The choice among the candidates of a tier is the governor's, by the tags they come with. -/
def select (s : GovernedState) (policies : PolicySet) : GovernedState × Option Selection :=
  let candidates := runnableCandidates s policies
  match contendedTier candidates with
  | [] => (s, none)
  | first :: rest =>
    match dispatchChoice s first rest with
    | (s, none) => (s, none)
    | (s, some c) =>
      match candidates.find? fun candidate => candidate.taskClass = c with
      | none => (s, none)
      | some candidate =>
        (s, some ⟨candidate.taskClass, candidate.queueIndex, candidate.headFinishTag⟩)

def unserved (policies : PolicySet) (s : GovernedState) (c : TaskClass) : GovernedState :=
  match policies.classPolicy c with
  | some policy => onUnservedRemoved s c policy
  | none => s

def served (policies : PolicySet) (s : GovernedState) (selection : Selection) : GovernedState :=
  match policies.classPolicy selection.taskClass with
  | some policy =>
    onRequestServed s selection.taskClass policy selection.queueIndex selection.serviceFinishTag
  | none => s

/-- Select a request, take it out of its queue and record its service. -/
def serve (s : GovernedState) (policies : PolicySet) : GovernedState :=
  match select s policies with
  | (s, none) => s
  | (s, some selection) =>
    match s.removePending selection.taskClass selection.queueIndex with
    | none => s
    | some (s, _) => served policies s selection

/-! ## Beside the governor -/

/-- What one call does to the tags. The state is the governor's, with the unbounded tags in place of its own. -/
def step (policies : PolicySet) (tags : Tags) : GovernedState × ScheduleEvent → Tags
  | (s, .enqueued c) =>
    match policies.classPolicy c with
    | none => tags
    | some policy =>
      let (tagged, finishTag, arrivalTag, _) :=
        enqueueTags (s.retagged tags) c policy (resolveCost policy).cpuUnits s.commitWatermarkMs
      tagged.tags.queued c finishTag arrivalTag
  | (s, .dispatched _) => (serve (s.retagged tags) policies).tags
  | (s, .dropped c index) =>
    match (s.retagged tags).removePending c index with
    | none => tags
    | some (removed, _) => (unserved policies removed c).tags
  | (s, .emptied c) => (emptiedClass (s.retagged tags) c).tags
  | _ => tags

/-- The tags after a run of the governor from its fresh state. -/
def tagsAfter (policies : PolicySet) (tr : List (GovernedState × ScheduleEvent)) : Tags :=
  tr.foldl (step policies) ({} : GovernedState).tags

/-- The class and the place in its queue that are selected. -/
def selects (s : GovernedState) (policies : PolicySet) : Option (TaskClass × Nat) :=
  (select s policies).2.map fun selection => (selection.taskClass, selection.queueIndex)

end Unbounded

/-- At every selection of the run the scheduler over unbounded tags selects the same request. Up to their first
difference both have queued, served and dropped the same requests, so that their states differ in the tags alone. -/
def SameSelections (g : Governor) (tr : List (GovernedState × ScheduleEvent)) : Prop :=
  ∀ before s selection after, tr = before ++ (s, .dispatched selection) :: after →
    Unbounded.selects (s.retagged (Unbounded.tagsAfter g.policy before)) g.policy =
      some (selection.taskClass, selection.queueIndex)

end Taskmesh
