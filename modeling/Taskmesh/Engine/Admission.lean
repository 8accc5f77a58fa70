import Taskmesh.Engine.Scheduler

/-!
# Admission

The bounded, fail-closed decision that turns a task into an admitted, queued or rejected outcome
(`features/admission/mod.rs`, `features/composite/mod.rs`). It orchestrates capacity, overflow, the
memory overcommit policy, the recursion guard and the tags of a queued request.
-/

namespace Taskmesh

open Std MachineInt

/-! ## Composite rules -/

/-- The stage a task occupies for recursion accounting and root attribution: a child's declared
parent stage, a root's first stage. -/
def targetStage (spec : TaskSpec) : TaskStage :=
  match spec.scope with
  | .child _ parentStage _ => parentStage
  | .root => (spec.stages.head?.map fun d => d.stage).getD ⟨spec.taskClass.name⟩

/-- A child re-entering an active `(root, stage)`. Root tasks never trip this guard. -/
def isRecursive (s : GovernedState) (spec : TaskSpec) : Bool :=
  match spec.scope with
  | .root => false
  | .child _ parentStage _ =>
    s.activeRecursion[spec.rootOperationId]?.any fun stages => stages.contains parentStage

/-! ## Decisions -/

/-- The resource a permit reserves at admit time. -/
def resolveCost (policy : ClassPolicy) : ResolvedCost :=
  ⟨policy.permitCost.cpuUnits.toNat, policy.permitCost.memoryUnits.toNat⟩

/-- The verdict a non-queueing class sheds with. -/
def verdictForBlock (block : CapacityBlock) (retryAfterMs : Option Nat) : AdmissionVerdict :=
  match block with
  | .memory => .memorySaturated retryAfterMs
  | .capability => .substrateSaturated retryAfterMs
  | .accountingFault => .runtimeUnavailable
  | .inflight | .cpu | .queuedBehind | .ok => .cpuSaturated retryAfterMs

/-- The verdict of a class whose queue is full. -/
def verdictForFullQueue (blockedOn : CapacityBlock) (retryAfterMs : Option Nat) : AdmissionVerdict :=
  match blockedOn with
  | .memory => .memorySaturated retryAfterMs
  | .capability => .substrateSaturated retryAfterMs
  | _ => .queueFull retryAfterMs

/-- Pre-allocated identities for one admission attempt. -/
structure Ids where
  permitId : PermitId
  ticket : Ticket
  seqNo : Nat
  deriving DecidableEq

/-- One intake request: the task and the capabilities the host resolved for it. -/
structure AdmissionRequest where
  spec : TaskSpec
  capabilities : CapabilityRequirementSet

/-- The class has a path into a queue. -/
def classCanQueue (policy : ClassPolicy) : Bool :=
  policy.overflowPolicy.isQueueable || decide (policy.memoryOvercommitPolicy = .queue)

def retry (policy : ClassPolicy) (s : GovernedState) (c : TaskClass) : Option Nat :=
  retryAfter policy.retryAfterPolicy policy.fairness (s.queued c) (s.inflight c)

/-- The grant of a request admitted directly: nobody waits for a claim. -/
def directGrant (s : GovernedState) (policy : ClassPolicy) (c : TaskClass)
    (request : AdmissionRequest) (ids : Ids) (nowMs : Nat) : GrantRequest where
  permitId := ids.permitId
  taskClass := c
  operation := request.spec.operation
  rootOperationId := request.spec.rootOperationId
  scope := request.spec.scope
  parentPermitId := s.parentPermitForScope request.spec.rootOperationId request.spec.scope
  targetStage := targetStage request.spec
  provenance := Provenance.ofSpec request.spec
  capabilities := request.capabilities
  cost := resolveCost policy
  reservedUnits := (resolveCost policy).memoryUnits
  nowMs := nowMs
  pendingTicket := none
  claimWaker := none

/-- The queue entry of a request that has to wait; its arrival is assigned by `enqueue`. -/
def pendingRequest (s : GovernedState) (policy : ClassPolicy) (c : TaskClass)
    (request : AdmissionRequest) (waker : Option Waker) (ids : Ids) (nowMs : Nat)
    (blockedOn : CapacityBlock) (tags : Nat × Nat × Nat) : PendingRequest where
  permitId := ids.permitId
  ticket := ids.ticket
  seqNo := ids.seqNo
  queueOrder := 0
  taskClass := c
  requestKey := request.spec.rootOperationId
  operation := request.spec.operation
  rootOperationId := request.spec.rootOperationId
  scope := request.spec.scope
  parentPermitId := s.parentPermitForScope request.spec.rootOperationId request.spec.scope
  targetStage := targetStage request.spec
  provenance := Provenance.ofSpec request.spec
  cost := resolveCost policy
  capabilities := request.capabilities
  enqueuedAtMs := nowMs
  deadlineMs := tags.2.2
  finishTag := tags.1
  wfqArrivalTag := tags.2.1
  blockedOn := blockedOn
  waker := waker

/-- Commit a request to its queue: the entry, its ticket, and the recursion guard of a child. -/
def GovernedState.commitPending (s : GovernedState) (r : PendingRequest) : GovernedState :=
  let s := (s.enqueue r).setTicket r.ticket (.queued r.taskClass)
  -- A queued child occupies the guard too, or a recursive child could bypass it by queueing.
  if r.scope.isChild then s.occupyRecursionGuard r.rootOperationId r.targetStage else s

/-- What one admission decision leaves behind. -/
structure Admission where
  state : GovernedState
  effects : TransitionEffects
  decision : AdmissionDecision

/-- A refusal hands the waker to the effects, so that its destructor runs outside the lock. -/
def refuse (s : GovernedState) (effects : TransitionEffects) (waker : Option Waker)
    (verdict : AdmissionVerdict) : Admission :=
  ⟨s, effects.pushRetire waker, .rejected verdict⟩

/-- Enqueue within `max_queue_depth`, else shed with the blocking cause. -/
def enqueueOrFull (s : GovernedState) (policy : ClassPolicy) (c : TaskClass)
    (request : AdmissionRequest) (waker : Option Waker) (ids : Ids) (nowMs : Nat)
    (blockedOn : CapacityBlock) (effects : TransitionEffects) : Admission :=
  if s.queued c ≥ policy.maxQueueDepth.toNat then
    refuse s effects waker (verdictForFullQueue blockedOn (retry policy s c))
  else
    let (tagged, tags) := enqueueTags s c policy (resolveCost policy).cpuUnits nowMs
    ⟨tagged.commitPending (pendingRequest s policy c request waker ids nowMs blockedOn tags), effects,
      .queued ids.ticket⟩

/-- Whether a newcomer has to wait although it might fit: its class already queues a request of its
domain, or a promotion continuation is owed to a class with an empty queue of its own. -/
def queuedBehind (s : GovernedState) (policy : ClassPolicy) (c : TaskClass)
    (capabilities : CapabilityRequirementSet) : Bool :=
  s.classes[c]?.any (fun cs => cs.hasQueuedDomain capabilities) ||
    (s.promotionPending && classCanQueue policy && decide (s.queued c = 0))

/-- The intake assessment of a request under an effective class. -/
def assessIntake (s : GovernedState) (policies : PolicySet) (policy : ClassPolicy) (c : TaskClass)
    (request : AdmissionRequest) : CapacityAssessment :=
  assess s policies request.spec c policy.maxInflight.toNat (resolveCost policy) request.capabilities
    (queuedBehind s policy c request.capabilities)

/-- What the blocking limit makes of a request: a grant, a place in the queue its policy opens, an
admission under a fallback class, or a refusal. `degrade` is the admission under a fallback class,
while a degrade is still allowed. -/
def admitBlock (s : GovernedState) (policy : ClassPolicy) (c : TaskClass)
    (request : AdmissionRequest) (waker : Option Waker) (ids : Ids) (nowMs : Nat)
    (degrade : Option (TaskClass → Admission)) (effects : TransitionEffects)
    (block : CapacityBlock) : Admission :=
  match block with
  | .ok =>
    ⟨s.grant (directGrant s policy c request ids nowMs), effects.pushRetire waker,
      .admitted ids.permitId⟩
  | .accountingFault =>
    refuse (s.recordAccountingFault "capacity aggregate is not representable") effects waker
      .runtimeUnavailable
  | .queuedBehind => enqueueOrFull s policy c request waker ids nowMs block effects
  | .inflight | .cpu | .capability =>
    if policy.overflowPolicy.isQueueable then
      enqueueOrFull s policy c request waker ids nowMs block effects
    else refuse s effects waker (verdictForBlock block (retry policy s c))
  | .memory =>
    match policy.memoryOvercommitPolicy with
    | .degradeToLight fallback =>
      match degrade with
      | some admitFallback => admitFallback fallback
      | none => refuse s effects waker (.memorySaturated (retry policy s c))
    | .queue => enqueueOrFull s policy c request waker ids nowMs block effects
    | .reject => refuse s effects waker (.memorySaturated (retry policy s c))

/-- The fallback admission a memory wait cycle is given before it is declared irreversible. -/
def cycleFallback (policy : ClassPolicy) (witness : CycleWitness)
    (degrade : Option (TaskClass → Admission)) : Option Admission :=
  if HeldCapacity.memoryBudget ∈ witness.held then
    match policy.memoryOvercommitPolicy with
    | .degradeToLight fallback => degrade.map fun admitFallback => admitFallback fallback
    | _ => none
  else none

/-- The body of `admit_class`, with the fallback admission as a parameter. -/
def admitClassWith (degrade : Option (TaskClass → Admission)) (s : GovernedState)
    (policies : PolicySet) (nowMs : Nat) (request : AdmissionRequest) (c : TaskClass)
    (waker : Option Waker) (ids : Ids) (effects : TransitionEffects) : Admission :=
  match policies.classPolicy c with
  | none => refuse s effects waker (.unknownClass c)
  | some policy =>
    if policy.isDisabled then refuse s effects waker .classDisabled
    else if s.hasOperationIdentity request.spec.rootOperationId request.spec.operation then
      refuse s effects waker .recursiveAdmission
    else if isRecursive s request.spec then refuse s effects waker .recursiveAdmission
    else
      match assessIntake s policies policy c request with
      | .runnable => admitBlock s policy c request waker ids nowMs degrade effects .ok
      | .reversiblyBlocked blockers =>
        admitBlock s policy c request waker ids nowMs degrade effects blockers.primary
      | .irreversibleWaitCycle witness =>
        match cycleFallback policy witness degrade with
        | some fallback => fallback
        | none =>
          match witness.held with
          | held :: _ => refuse s effects waker (.nestedWaitCycle held)
          -- A cycle witness always names held capacity; the source panics here.
          | [] => refuse s effects waker .runtimeUnavailable

/-- Admit under an effective class; a degrade is one hop. -/
def admitClass (s : GovernedState) (policies : PolicySet) (nowMs : Nat) (request : AdmissionRequest)
    (c : TaskClass) (waker : Option Waker) (ids : Ids) (degradeAllowed : Bool)
    (effects : TransitionEffects) : Admission :=
  let degrade : Option (TaskClass → Admission) :=
    if degradeAllowed then
      some fun fallback => admitClassWith none s policies nowMs request fallback waker ids effects
    else none
  admitClassWith degrade s policies nowMs request c waker ids effects

/-- Admit a request. A closed runtime is the outermost fact about a submission. -/
def admitRequest (s : GovernedState) (policies : PolicySet) (nowMs : Nat) (request : AdmissionRequest)
    (waker : Option Waker) (ids : Ids) (effects : TransitionEffects) : Admission :=
  if s.admissionClosed then refuse s effects waker .runtimeUnavailable
  else admitClass s policies nowMs request request.spec.taskClass waker ids true effects

end Taskmesh
