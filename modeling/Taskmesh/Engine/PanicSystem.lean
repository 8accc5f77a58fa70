import Taskmesh.Engine.Panic
import Taskmesh.Engine.System

/-!
# The panicking semantics of the sections

Every locked section and every step of the system over the transitions that can panic. The checks an
admission makes before it takes the lock are here too: they expect every substrate hint to resolve.
-/

namespace Taskmesh

open Std MachineInt Faults

namespace Panicky

/-! ## Preflight -/

/-- The requirements a task declares by its substrate hints. -/
def declaredRequirements (policies : PolicySet) (spec : TaskSpec) :
    Panicky CapabilityRequirementSet := do
  let resolved ←
    mapEach (fun d => expect .unresolvedHint (declaredCapability policies d).toOption) spec.stages
  expect .tooManyHints (CapabilityRequirementSet.fromResolved resolved).toOption

/-- A raw plan declares requirements only once it is valid. -/
def validatedRequirements (policies : PolicySet) (spec : TaskSpec) : Panicky Unit := do
  if validateTaskSpec spec = .ok () then
    let _ ← declaredRequirements policies spec

/-- The entry points that read the hints of a task. -/
def preflight (policies : PolicySet) : AdmitCall → Panicky Unit
  | .admitSpec spec => validatedRequirements policies spec
  | .admitValidated plan => validatedRequirements policies plan.spec
  | .admitWaitable spec _ => validatedRequirements policies spec
  | .admitResolved _ _ _ => .ok ()
  | .admitValidatedRequirements _ _ _ => .ok ()

/-! ## Admission -/

def retry (policy : ClassPolicy) (s : GovernedState) (c : TaskClass) : Panicky (Option Nat) :=
  retryAfter policy.retryAfterPolicy policy.fairness (s.queued c) (s.inflight c)

def enqueueOrFull (s : GovernedState) (policy : ClassPolicy) (c : TaskClass)
    (request : AdmissionRequest) (waker : Option Waker) (ids : Ids) (nowMs : Nat)
    (blockedOn : CapacityBlock) (effects : TransitionEffects) : Panicky Admission := do
  if s.queued c ≥ policy.maxQueueDepth.toNat then
    let hint ← retry policy s c
    return refuse s effects waker (verdictForFullQueue blockedOn hint)
  else
    let (tagged, tags) ← enqueueTags s c policy (resolveCost policy).cpuUnits nowMs
    let r := pendingRequest s policy c request waker ids nowMs blockedOn tags
    let _ ← enqueue tagged r
    return ⟨tagged.commitPending r, effects, .queued ids.ticket⟩

def assessIntake (s : GovernedState) (policies : PolicySet) (policy : ClassPolicy) (c : TaskClass)
    (request : AdmissionRequest) : Panicky CapacityAssessment :=
  assessScope s policies
    { rootOperationId := request.spec.rootOperationId
      scope := request.spec.scope
      parentPermitId := none
      taskClass := c
      maxInflight := policy.maxInflight.toNat
      cost := resolveCost policy
      capabilities := request.capabilities
      queuedBehind := queuedBehind s policy c request.capabilities }

def admitBlock (s : GovernedState) (policy : ClassPolicy) (c : TaskClass)
    (request : AdmissionRequest) (waker : Option Waker) (ids : Ids) (nowMs : Nat)
    (degrade : Option (TaskClass → Panicky Admission)) (effects : TransitionEffects)
    (block : CapacityBlock) : Panicky Admission :=
  match block with
  | .ok => do
    let granted ← grant s (directGrant s policy c request ids nowMs)
    return ⟨granted, effects.pushRetire waker, .admitted ids.permitId⟩
  | .accountingFault =>
    .ok (refuse (s.recordAccountingFault "capacity aggregate is not representable") effects waker
      .runtimeUnavailable)
  | .queuedBehind => enqueueOrFull s policy c request waker ids nowMs block effects
  | .inflight | .cpu | .capability => do
    if policy.overflowPolicy.isQueueable then
      enqueueOrFull s policy c request waker ids nowMs block effects
    else
      let hint ← retry policy s c
      return refuse s effects waker (verdictForBlock block hint)
  | .memory =>
    match policy.memoryOvercommitPolicy with
    | .degradeToLight fallback =>
      match degrade with
      | some admitFallback => admitFallback fallback
      | none => do
        let hint ← retry policy s c
        return refuse s effects waker (.memorySaturated hint)
    | .queue => enqueueOrFull s policy c request waker ids nowMs block effects
    | .reject => do
      let hint ← retry policy s c
      return refuse s effects waker (.memorySaturated hint)

def cycleFallback (policy : ClassPolicy) (witness : CycleWitness)
    (degrade : Option (TaskClass → Panicky Admission)) : Option (Panicky Admission) :=
  if HeldCapacity.memoryBudget ∈ witness.held then
    match policy.memoryOvercommitPolicy with
    | .degradeToLight fallback => degrade.map fun admitFallback => admitFallback fallback
    | _ => none
  else none

def admitClassWith (degrade : Option (TaskClass → Panicky Admission)) (s : GovernedState)
    (policies : PolicySet) (nowMs : Nat) (request : AdmissionRequest) (c : TaskClass)
    (waker : Option Waker) (ids : Ids) (effects : TransitionEffects) : Panicky Admission :=
  match policies.classPolicy c with
  | none => .ok (refuse s effects waker (.unknownClass c))
  | some policy =>
    if policy.isDisabled then .ok (refuse s effects waker .classDisabled)
    else if s.hasOperationIdentity request.spec.rootOperationId request.spec.operation then
      .ok (refuse s effects waker .recursiveAdmission)
    else if isRecursive s request.spec then .ok (refuse s effects waker .recursiveAdmission)
    else do
      match ← assessIntake s policies policy c request with
      | .runnable => admitBlock s policy c request waker ids nowMs degrade effects .ok
      | .reversiblyBlocked blockers =>
        admitBlock s policy c request waker ids nowMs degrade effects blockers.primary
      | .irreversibleWaitCycle witness =>
        match cycleFallback policy witness degrade with
        | some fallback => fallback
        | none => do
          let held ← expect .emptyWitness witness.held.head?
          return refuse s effects waker (.nestedWaitCycle held)

def admitClass (s : GovernedState) (policies : PolicySet) (nowMs : Nat) (request : AdmissionRequest)
    (c : TaskClass) (waker : Option Waker) (ids : Ids) (degradeAllowed : Bool)
    (effects : TransitionEffects) : Panicky Admission :=
  let degrade : Option (TaskClass → Panicky Admission) :=
    if degradeAllowed then
      some fun fallback => admitClassWith none s policies nowMs request fallback waker ids effects
    else none
  admitClassWith degrade s policies nowMs request c waker ids effects

def admitRequest (s : GovernedState) (policies : PolicySet) (nowMs : Nat) (request : AdmissionRequest)
    (waker : Option Waker) (ids : Ids) (effects : TransitionEffects) : Panicky Admission :=
  if s.admissionClosed then .ok (refuse s effects waker .runtimeUnavailable)
  else admitClass s policies nowMs request request.spec.taskClass waker ids true effects

/-! ## Memory -/

/-- The delta fits `i64`, and an increase fits every total it is added to. -/
def applyMemoryDelta (s : GovernedState) (c : TaskClass) (root : Option String) (delta : Int) :
    Panicky GovernedState := do
  ensure .arithmetic (-2 ^ 63 ≤ delta ∧ delta < 2 ^ 63)
  if delta ≥ 0 then
    let _ ← add128 s.memoryUnitsHeld delta.natAbs
    let _ ← add128 (s.cls c).memoryUnitsHeld delta.natAbs
    checkEach (fun root => do let _ ← add128 (s.roots[root]?.getD {}).memoryUnits delta.natAbs) root.toList
  return s.applyMemoryDelta c root delta

def rechargePermit (s : GovernedState) (permitId : PermitId) (record : PermitRecord)
    (ledger : PermitLedger) : Panicky GovernedState := do
  let root := if record.scope.isChild then some record.rootOperationId else none
  let s := { s with permits := s.permits.insert permitId { record with ledger := ledger } }
  let recharged ← applyMemoryDelta s record.taskClass root
    (ledger.effectiveUnits - record.ledger.effectiveUnits : Int)
  assertConsistent recharged
  return recharged

def reconcile (s : GovernedState) (permitId : PermitId) (measuredBytes sequence : Nat)
    (mode : MemoryPermitMode) (scale : MemoryUnitScale) (nowMs : Nat) :
    Panicky (GovernedState × ReconcileOutcome) :=
  match s.permits[permitId]? with
  | none => .ok (s, .unknownPermit)
  | some record =>
    if record.ledger.measurementSequence = u64Max then .ok (s, .epochExhausted u64Max)
    else if sequence ≤ record.ledger.measurementSequence then
      .ok (s, .staleEpoch record.ledger.measurementSequence)
    else
      match effectiveUnits mode record.ledger.remainingReservationUnits measuredBytes scale with
      | .error error =>
        .ok (s.recordAccountingFault "measured memory exceeds the unit domain", .conversionFailed error)
      | .ok units => do
        let record ← expect .permitLost s.permits[permitId]?
        let recharged ←
          rechargePermit s permitId record (record.ledger.measured measuredBytes sequence units nowMs)
        return (recharged, .applied units)

def releaseStageMemory (s : GovernedState) (permitId : PermitId) (freedUnits : Nat)
    (policy : MemoryReleasePolicy) (sequence : Option Nat) (nowMs : Nat) :
    Panicky (GovernedState × StageReleaseOutcome) :=
  if !stageReleaseAllowed policy then .ok (s, .policyForbids policy)
  else
    match s.permits[permitId]? with
    | none => .ok (s, .unknownPermit)
    | some record =>
      if sequence.any fun sequence => decide (sequence ≤ record.ledger.stageSequence) then
        .ok (s, .staleSequence record.ledger.stageSequence)
      else do
        let freed := min freedUnits record.ledger.effectiveUnits
        let _ ← subOf .arithmetic record.ledger.effectiveUnits freed
        let recharged ← rechargePermit s permitId record (record.ledger.staged freed sequence nowMs)
        return (recharged, .released freed)

def reclaimAll : List PermitId → GovernedState → TransitionEffects → Nat →
    Panicky (GovernedState × TransitionEffects × Nat)
  | [], s, effects, count => .ok (s, effects, count)
  | permitId :: rest, s, effects, count => do
    match ← unwind s permitId .reclaimed effects with
    | some (s, effects) =>
      let count ← add32 count 1
      reclaimAll rest s effects count
    | none => reclaimAll rest s effects count

def reapLeaks (s : GovernedState) (policies : PolicySet) (nowMs staleAfterMs : Nat)
    (effects : TransitionEffects) : Panicky (GovernedState × TransitionEffects × LeakSweepReport) := do
  let suspected := s.permits.toList.countP fun entry => isSuspected policies nowMs staleAfterMs entry.2
  let retained := s.permits.toList.countP fun entry =>
    isSuspected policies nowMs staleAfterMs entry.2 && decide (entry.2.phase ≠ .dispatchReserved)
  let (s, effects, reclaimed) ← reclaimAll (reclaimable s policies nowMs staleAfterMs) s effects 0
  return (s, effects,
    { reclaimedPermits := reclaimed
      suspectedLeaks := min suspected u32Max
      retainedActive := min retained u32Max })

/-! ## Promotion -/

variable (g : Governor)

/-- The policy of a class that has, or had, a queue. -/
def policyOf (c : TaskClass) : Panicky ClassPolicy := expect .foreignClass (g.policy.classPolicy c)

def unserved (s : GovernedState) (c : TaskClass) : Panicky GovernedState := do
  let policy ← policyOf g c
  onUnservedRemoved s c policy

def served (s : GovernedState) (selection : Selection) : Panicky GovernedState := do
  let policy ← policyOf g selection.taskClass
  onRequestServed s selection.taskClass policy selection.queueIndex selection.serviceFinishTag

/-- The cycle of one entry of a queue, if it is an awaited child. -/
def cycleOf (s : GovernedState) (cs : ClassState) (policy : ClassPolicy) (entry : PendingRequest × Nat) :
    Panicky (Option (Nat × CycleWitness)) := do
  if entry.1.seqNo ∈ cs.queuedAwaitedChildren then
    match ← assessPending s g.policy entry.1 policy.maxInflight.toNat false with
    | .irreversibleWaitCycle witness => return some (entry.2, witness)
    | _ => return none
  else return none

def cycleIn (s : GovernedState) (c : TaskClass) (cs : ClassState) :
    Panicky (Option (Nat × CycleWitness)) :=
  if cs.queuedAwaitedChildren.isEmpty then .ok none
  else
    match g.policy.classPolicy c with
    | none => .ok none
    | some policy => findFirst (cycleOf g s cs policy) cs.queue.zipIdx

/-- The cycle of one class. -/
def cycleOfClass (s : GovernedState) (entry : TaskClass × ClassState) :
    Panicky (Option (TaskClass × Nat × CycleWitness)) := do
  let found ← cycleIn g s entry.1 entry.2
  return found.map fun found => (entry.1, found.1, found.2)

def findCycle (s : GovernedState) : Panicky (Option (TaskClass × Nat × CycleWitness)) :=
  findFirst (cycleOfClass g s) s.classes.toList

def terminalizeWaitCycle (s : GovernedState) (effects : TransitionEffects) :
    Panicky Governor.CycleScan := do
  match ← findCycle g s with
  | none => return ⟨s, effects, false⟩
  | some (c, index, witness) =>
    match ← removePending s c index with
    | none => return ⟨s, effects, false⟩
    | some (removed, r) =>
      let unserved ← unserved g removed c
      let vacated := unserved.vacateRecursionGuard r.rootOperationId r.targetStage
      let held ← expect .emptyWitness witness.held.head?
      return ⟨vacated.recordTerminalTicket r.ticket (.irreversibleWaitCycle held),
        effects.pushWake r.waker, true⟩

def promoteStep (nowMs : Nat) (s : GovernedState) : Panicky (GovernedState × Option GrantRequest) := do
  match ← select s g.policy with
  | (s, none) => return (s, none)
  | (s, some selection) =>
    match ← removePending s selection.taskClass selection.queueIndex with
    | none => return (s, none)
    | some (s, head) =>
      let s ← served g s selection
      let s := s.removeTicket head.ticket
      let request := Governor.promotedGrant s selection.taskClass head nowMs
      let granted ← grant s request
      return (granted, some request)

def promoteLoop (nowMs : Nat) : Nat → GovernedState → TransitionEffects → Bool →
    Panicky Governor.GrantPass
  | 0, s, effects, changed => .ok ⟨s, effects, changed, true⟩
  | slots + 1, s, effects, changed => do
    match ← promoteStep g nowMs s with
    | (s, none) => return ⟨s, effects, changed, false⟩
    | (s, some request) => promoteLoop nowMs slots s (effects.pushWake request.claimWaker) true

def lastScan (pass : Governor.GrantPass) : Panicky Governor.CycleScan :=
  if pass.changed then terminalizeWaitCycle g pass.state pass.effects
  else .ok ⟨pass.state, pass.effects, false⟩

/-- More work is only probed for when the pass ran out of slots. -/
def probeMore (pass : Governor.GrantPass) (last : Governor.CycleScan) : Panicky Bool :=
  if last.removed then .ok true
  else if pass.exhausted then hasRunnable last.state g.policy
  else .ok false

def promote (s : GovernedState) (nowMs : Nat) : Panicky (GovernedState × TransitionEffects) := do
  let first ← terminalizeWaitCycle g s {}
  let pass ← promoteLoop g nowMs promotionBudget first.state first.effects first.removed
  let last ← lastScan g pass
  let more ← probeMore g pass last
  return ({ last.state with promotionPending := more }, { last.effects with moreRunnable := more })

def commit {α : Type} (sec : Governor.Section α) (nowMs : Nat) :
    Panicky (GovernedState × TransitionEffects) := do
  if sec.promotes then
    let (s, pass) ← promote g sec.state nowMs
    return (s, sec.effects.absorb pass)
  else return (sec.state, sec.effects)

/-! ## Sections -/

def compensateClaim (s : GovernedState) (ticket : Ticket) (permitId : PermitId) :
    Panicky (Governor.Section Unit) :=
  match s.tickets[ticket]? with
  | some (.claiming _) => do
    match ← releaseWithProofReason s permitId none .claimDeliveryFailed {} with
    | (s, effects, .released) => return ⟨s, effects, (), true⟩
    | (s, effects, .heldByLease _) => return ⟨Governor.detachTicket s permitId ticket, effects, (), false⟩
    | (s, effects, .unknownPermit) => return ⟨s.recordTerminalTicket ticket .released, effects, (), false⟩
  | _ => .ok ⟨s, {}, (), false⟩

def cancelQueued (s : GovernedState) (c : TaskClass) (ticket : Ticket) :
    Panicky (GovernedState × TransitionEffects) :=
  match (s.cls c).queue.findIdx? fun r => r.ticket = ticket with
  | none => .ok (s.removeTicket ticket, {})
  | some index => do
    let removed ← removePending s c index
    let (s, r) ← expect .positionLost removed
    let s := s.removeTicket ticket
    let s := if r.scope.isChild then s.vacateRecursionGuard r.rootOperationId r.targetStage else s
    return (s, ({} : TransitionEffects).pushRetire r.waker)

def abandonGranted (s : GovernedState) (ticket : Ticket) (permitId : PermitId) :
    Panicky (Governor.Section AbandonOutcome) := do
  match ← releaseWithProofReason s permitId none .abandoned {} with
  | (s, effects, .released) => return ⟨s.forgetTerminalTicket ticket, effects, .abandoned, true⟩
  | (s, effects, .heldByLease phase) => return ⟨s, effects, .heldByLease phase, false⟩
  | (s, effects, .unknownPermit) => return ⟨s.removeTicket ticket, effects, .invalid, false⟩

def abandon (s : GovernedState) (ticket : Ticket) : Panicky (Governor.Section AbandonOutcome) :=
  match s.tickets[ticket]? with
  | some (.granted permitId) => abandonGranted s ticket permitId
  | some (.claiming permitId) => abandonGranted s ticket permitId
  | some (.queued c) => do
    let (s, effects) ← cancelQueued s c ticket
    let s ← unserved g s c
    return ⟨s, effects, .abandoned, true⟩
  | some (.terminal _) => .ok ⟨s.forgetTerminalTicket ticket, {}, .terminalDiscarded, false⟩
  | some .faulted => .ok ⟨s.forgetTerminalTicket ticket, {}, .terminalDiscarded, false⟩
  | none => .ok ⟨s, {}, .invalid, false⟩

def releaseWithProof (s : GovernedState) (permitId : PermitId) (proof : Option Nat) :
    Panicky (Governor.Section ReleaseOutcome) := do
  let (s, effects, outcome) ← releaseWithProofReason s permitId proof .released {}
  return ⟨s, effects, outcome, decide (outcome = .released)⟩

def faultQueue (c : TaskClass) : Nat → GovernedState → TransitionEffects →
    Panicky (GovernedState × TransitionEffects)
  | 0, s, effects => .ok (s, effects)
  | rounds + 1, s, effects => do
    match ← removePending s c 0 with
    | none => return (s, effects)
    | some (s, r) =>
      let s := if r.scope.isChild then s.vacateRecursionGuard r.rootOperationId r.targetStage else s
      faultQueue c rounds (s.setTicket r.ticket .faulted) (effects.pushWake r.waker)

def faultClass (acc : GovernedState × TransitionEffects) (c : TaskClass) :
    Panicky (GovernedState × TransitionEffects) := do
  let length := (acc.1.cls c).queue.length
  let (s, effects) ← faultQueue c length acc.1 acc.2
  if length = 0 then return (s, effects)
  else
    let s ← unserved g s c
    return (s, effects)

def terminalizeQueuedForAccountingFault (s : GovernedState) (effects : TransitionEffects) :
    Panicky (GovernedState × TransitionEffects) := do
  let (s, effects) ← foldEach (faultClass g) (s, effects) s.classes.keys
  return ({ s with promotionPending := false }, effects)

def reconcileMemory (s : GovernedState) (permitId : PermitId) (measuredBytes : Nat)
    (epoch : Option Nat) (nowMs : Nat) : Panicky (Governor.Section ReconcileOutcome) :=
  match s.permits[permitId]? with
  | none => .ok ⟨s, {}, .unknownPermit, false⟩
  | some record =>
    match g.policy.classPolicy record.taskClass with
    | none => .ok ⟨s, {}, .unknownPermit, false⟩
    | some policy =>
      match Governor.measurementSequence epoch record with
      | .error outcome => .ok ⟨s, {}, outcome, false⟩
      | .ok sequence => do
        match ← reconcile s permitId measuredBytes sequence policy.memoryPermitMode
            g.policy.resources.memoryUnitScale nowMs with
        | (s, .conversionFailed error) =>
          let (s, effects) ← terminalizeQueuedForAccountingFault g s {}
          return ⟨s, effects, .conversionFailed error, false⟩
        | (s, .applied units) => return ⟨s, {}, .applied units, true⟩
        | (s, outcome) => return ⟨s, {}, outcome, false⟩

def releaseStage (s : GovernedState) (permitId : PermitId) (freedUnits : Nat)
    (sequence : Option Nat) (nowMs : Nat) : Panicky (Governor.Section StageReleaseOutcome) :=
  match s.permits[permitId]? with
  | none => .ok ⟨s, {}, .unknownPermit, false⟩
  | some record =>
    match g.policy.classPolicy record.taskClass with
    | none => .ok ⟨s, {}, .unknownPermit, false⟩
    | some policy => do
      let (s, outcome) ←
        releaseStageMemory s permitId freedUnits policy.memoryReleasePolicy sequence nowMs
      return ⟨s, {}, outcome, true⟩

def reapLeaksWith (s : GovernedState) (staleAfterMs nowMs : Nat) :
    Panicky (Governor.Section LeakSweepReport) := do
  let (s, effects, report) ← reapLeaks s g.policy nowMs staleAfterMs {}
  return ⟨s, effects, report, true⟩

/-! ## Steps -/

variable {g}

/-- A step that runs a section under the lock. -/
def locked (σ : g.System) (sampledMs : Nat)
    (section_ : GovernedState → Nat → Panicky (Governor.Section Event))
    (resume : TransitionEffects → List (Thread g.policy)) : Panicky g.Prepared := do
  let s := σ.state.commitTime sampledMs
  let sec ← section_ s s.commitWatermarkMs
  return { sys := σ, sec := sec, nowMs := s.commitWatermarkMs, resume := resume }

/-- The event of a section's outcome. -/
def report {α : Type} (event : α → Event) (run : Panicky (Governor.Section α)) :
    Panicky (Governor.Section Event) := do
  let sec ← run
  return ⟨sec.state, sec.effects, event sec.outcome, sec.promotes⟩

def operation {α : Type} (σ : g.System) (sampledMs : Nat)
    (section_ : GovernedState → Nat → Panicky (Governor.Section α)) (event : α → Event) :
    Panicky g.Prepared :=
  locked σ sampledMs (fun s now => report event (section_ s now))
    (fun effects => σ.threads ++ [.draining effects sampledMs])

def operationUnless {α : Type} (σ : g.System) (sampledMs : Nat)
    (section_ : GovernedState → Nat → Panicky (Governor.Section α)) (event : α → Event)
    (early : α → Bool) : Panicky g.Prepared := do
  let s := σ.state.commitTime sampledMs
  let sec ← section_ s s.commitWatermarkMs
  let prepared ← operation σ sampledMs section_ event
  return { prepared with
    resume := fun effects =>
      if early sec.outcome then σ.threads else σ.threads ++ [.draining effects sampledMs] }

def call (σ : g.System) (entry : AdmitCall) (sampledMs : Nat) : Panicky g.Prepared := do
  preflight g.policy entry
  return Governor.call σ entry sampledMs

def enter (σ : g.System) (i : Nat) (intake : Intake g.policy) (sampledMs : Nat) (ids : Ids) :
    Panicky g.Prepared := do
  let s := σ.state.commitTime sampledMs
  let admission ← admitRequest s g.policy s.commitWatermarkMs intake.request intake.waker ids {}
  return {
    sys := σ
    sec := ⟨admission.state, admission.effects, .decided ids admission.decision, false⟩
    nowMs := s.commitWatermarkMs
    resume := fun effects => σ.threads.set i (.settling admission.decision effects sampledMs) }

def settle (σ : g.System) (i : Nat) (decision : AdmissionDecision) (sampledMs : Nat)
    (panicked : Bool) : Panicky g.Prepared :=
  match panicked, decision with
  | true, .admitted permitId =>
    locked σ sampledMs (fun s _ => report (fun _ => .panicked) (releaseWithProof s permitId none))
      (fun effects => σ.threads.set i (.draining effects sampledMs))
  | _, _ => .ok (Governor.settle σ i decision sampledMs panicked)

def endClaim (σ : g.System) (i : Nat) (ticket : Ticket) (permitId : PermitId) (sampledMs : Nat)
    (panicked : Bool) : Panicky g.Prepared :=
  if panicked then
    locked σ sampledMs (fun s _ => report (fun _ => .panicked) (compensateClaim s ticket permitId))
      (fun effects => σ.threads.set i (.draining effects sampledMs))
  else .ok (Governor.endClaim σ i ticket permitId sampledMs false)

def advance (σ : g.System) (permitId : PermitId) (phase : ExecutionPhase) : Panicky g.Prepared := do
  let (s, outcome, nonces) ← advancePhase σ.state permitId phase σ.leaseNonces
  return {
    sys := { σ with leaseNonces := nonces }
    sec := ⟨s, {}, .advanced permitId outcome, false⟩
    resume := fun _ => σ.threads }

/-- A step up to its promotion pass, if the action is enabled. The actions without a place to panic
are as they were. -/
def prepare (σ : g.System) (a : Action) : Option (Panicky g.Prepared) :=
  (Governor.prepare σ a).map fun prepared =>
    match a with
    | .call entry sampledMs => call σ entry sampledMs.toNat
    | .enter i =>
      match σ.threads[i]? with
      | some (.admitting intake sampledMs ids) => enter σ i intake sampledMs ids
      | _ => .ok prepared
    | .settle i panicked =>
      match σ.threads[i]? with
      | some (.settling decision _ sampledMs) => settle σ i decision sampledMs panicked
      | _ => .ok prepared
    | .finishClaim i panicked =>
      match σ.threads[i]? with
      | some (.claiming ticket permitId _ sampledMs) => endClaim σ i ticket permitId sampledMs panicked
      | _ => .ok prepared
    | .abandon ticket sampledMs =>
      operation σ sampledMs.toNat (fun s _ => abandon g s ticket) (.abandoned ticket)
    | .release permitId sampledMs =>
      operation σ sampledMs.toNat (fun s _ => releaseWithProof s permitId none) (.released permitId)
    | .releaseLeased token sampledMs =>
      operation σ sampledMs.toNat (fun s _ => releaseWithProof s token.permitId (some token.nonce))
        (.released token.permitId)
    | .advancePhase permitId phase => advance σ permitId phase
    | .reconcileMemory permitId measuredBytes epoch sampledMs =>
      operationUnless σ sampledMs.toNat
        (fun s now => reconcileMemory g s permitId measuredBytes.toNat (epoch.map UInt64.toNat) now)
        (.reconciled permitId) (Governor.reconcileEarly (epoch.map UInt64.toNat))
    | .releaseStageMemory permitId freedUnits sequence sampledMs =>
      operationUnless σ sampledMs.toNat
        (fun s now => releaseStage g s permitId freedUnits.toNat (sequence.map UInt64.toNat) now)
        (.stageReleased permitId) Governor.stageReleaseEarly
    | .reapLeaks staleAfterMs sampledMs =>
      operation σ sampledMs.toNat (fun s now => reapLeaksWith g s staleAfterMs.toNat now) .swept
    | .allocate _ | .claim _ _ | .closeAdmission | .drain _ | .mintElsewhere => .ok prepared

variable (g)

/-- One step of the system, ended by the first panic. -/
def step (σ : g.System) (a : Action) : Option (Panicky (g.System × Event)) :=
  (prepare σ a).map fun run => do
    let p ← run
    let committed ← commit g p.sec p.nowMs
    return ({ p.sys with state := committed.1, threads := p.resume committed.2 }, p.sec.outcome)

end Panicky

end Taskmesh
