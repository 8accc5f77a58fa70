import Taskmesh.Systems.Faults
import Taskmesh.Engine.Governor

/-!
# The panicking semantics of the transitions

The transitions and the scheduler once more, with every place where the source can panic: `expect`,
debug assertions, and unchecked arithmetic, which a debug build panics on. An error is the panic that
ends the section. A function here computes what its namesake computes when it does not panic.
-/

namespace Taskmesh

open Std MachineInt SetIndex Faults

/-- The places where a locked section can panic. -/
inductive Panic where
  | arithmetic
  | queueOrderExhausted
  | duplicateQueuedIdentity
  | unindexedRequest
  | duplicateLiveIdentity
  | unindexedPermit
  | classSums
  | permitSums
  | leaseOfPhase
  | classCounts
  | poolCounts
  | grantedTicket
  | foreignClass
  | positionLost
  | emptyWitness
  | permitLost
  | emptyPool
  | unaffordableWinner
  | unresolvedHint
  | tooManyHints
  deriving DecidableEq

/-- What a section computes, unless it panics. -/
abbrev Panicky := Except Panic

namespace Panicky

/-- An unchecked `u32` sum. -/
def add32 (a b : Nat) : Panicky Nat := addIn .arithmetic u32Max a b

/-- An unchecked `u64` sum; `usize` is one. -/
def add64 (a b : Nat) : Panicky Nat := addIn .arithmetic u64Max a b

/-- An unchecked `u128` sum. -/
def add128 (a b : Nat) : Panicky Nat := addIn .arithmetic u128Max a b

/-- The unchecked `u128` sum of a list. -/
def sum128 (l : List Nat) : Panicky Nat := sumIn .arithmetic u128Max 0 l

/-! ## `assert_consistent` -/

/-- The recomputed class totals are the global ones. -/
def assertClassSums (s : GovernedState) : Panicky Unit := do
  let cpu ← sum128 (s.classes.toList.map fun entry => entry.2.cpuUnitsHeld)
  let memory ← sum128 (s.classes.toList.map fun entry => entry.2.memoryUnitsHeld)
  ensure .classSums (cpu = s.cpuUnitsHeld)
  ensure .classSums (memory = s.memoryUnitsHeld)

/-- The live permits of a class, counted in `u32`. -/
def countInClass (s : GovernedState) (c : TaskClass) : Panicky Nat :=
  sumIn .arithmetic u32Max 0 (s.permits.toList.map fun entry => if entry.2.taskClass = c then 1 else 0)

/-- The live permits that occupy a pool, counted in `u32`. -/
def countInPool (s : GovernedState) (id : CapabilityId) : Panicky Nat :=
  sumIn .arithmetic u32Max 0
    (s.permits.toList.map fun entry => if id ∈ entry.2.capabilities.ids then 1 else 0)

/-- One permit: it counts towards its class and its pools, and it is leased exactly when it has left
`dispatchReserved`. -/
def assertPermit (s : GovernedState) (record : PermitRecord) : Panicky Unit := do
  let _ ← countInClass s record.taskClass
  checkEach (fun id => do let _ ← countInPool s id) record.capabilities.ids
  ensure .leaseOfPhase (record.leaseNonce.isSome = decide (record.phase ≠ .dispatchReserved))

/-- The sums over the live permits are the global totals. -/
def assertPermitSums (s : GovernedState) : Panicky Unit := do
  let cpu ← sum128 (s.permits.toList.map fun entry => entry.2.ledger.cpuUnits)
  let memory ← sum128 (s.permits.toList.map fun entry => entry.2.ledger.effectiveUnits)
  ensure .permitSums (cpu = s.cpuUnitsHeld)
  ensure .permitSums (memory = s.memoryUnitsHeld)

/-- One class: its gauges count its permits, phase by phase, and its counters add up. -/
def assertClass (s : GovernedState) (c : TaskClass) (cs : ClassState) : Panicky Unit := do
  let live ← countInClass s c
  ensure .classCounts (cs.inflight = live)
  let phases ← sumIn .arithmetic u32Max 0 [cs.dispatchReserved, cs.accepted, cs.running, cs.cleanupPending]
  ensure .classCounts (cs.inflight = phases)
  let admitted ← add128 cs.inflight cs.terminatedTotal
  ensure .classCounts (cs.admittedTotal = admitted)

/-- One pool: its gauge counts its occupants. -/
def assertPool (s : GovernedState) (id : CapabilityId) (inUse : Nat) : Panicky Unit := do
  let live ← countInPool s id
  ensure .poolCounts (inUse = live)

/-- The permit a ticket was granted is live. -/
def ticketIsLive (s : GovernedState) : TicketState → Bool
  | .granted p => s.permits.contains p
  | .claiming p => s.permits.contains p
  | _ => true

/-- The independent recomputation of every total that a debug build makes after a transition. -/
def assertConsistent (s : GovernedState) : Panicky Unit := do
  assertClassSums s
  checkEach (fun entry => assertPermit s entry.2) s.permits.toList
  assertPermitSums s
  checkEach (fun entry => assertClass s entry.1 entry.2) s.classes.toList
  checkEach (fun entry => assertPool s entry.1 entry.2) s.capabilityInUse.toList
  checkEach (fun entry => ensure .grantedTicket (ticketIsLive s entry.2)) s.tickets.toList

/-! ## Transitions -/

/-- The operation is not indexed as queued, if its root has an entry at all. -/
def isUnqueued (s : GovernedState) (root operation : String) : Bool :=
  s.queuedOperationIdentities[root]?.all fun operations => !operations.contains operation

/-- The operation is indexed as queued, if its root has an entry at all. -/
def isIndexed (s : GovernedState) (root operation : String) : Bool :=
  s.queuedOperationIdentities[root]?.all fun operations => operations.contains operation

def enqueue (s : GovernedState) (r : PendingRequest) : Panicky GovernedState := do
  let _ ← expect .queueOrderExhausted (checkedAdd u128Max s.nextQueueOrder 1)
  ensure .duplicateQueuedIdentity (isUnqueued s r.rootOperationId r.operation)
  return s.enqueue r

def removePending (s : GovernedState) (c : TaskClass) (index : Nat) :
    Panicky (Option (GovernedState × PendingRequest)) :=
  match s.removePending c index with
  | none => .ok none
  | some (removed, r) => do
    ensure .unindexedRequest (isIndexed s r.rootOperationId r.operation)
    return some (removed, r)

def chargeClass (cost : ResolvedCost) (c : ClassState) : Panicky ClassState := do
  let inflight ← add32 c.inflight 1
  let cpu ← add128 c.cpuUnitsHeld cost.cpuUnits
  let memory ← add128 c.memoryUnitsHeld cost.memoryUnits
  let admitted ← add128 c.admittedTotal 1
  return { c with
    inflight := inflight
    cpuUnitsHeld := cpu
    memoryUnitsHeld := memory
    admittedTotal := admitted }.enterPhase .dispatchReserved

def attributeRoot (cost : ResolvedCost) (stage : TaskStage) (root : RootExecutionState) :
    Panicky RootExecutionState := do
  let childInflight ← add32 root.childInflight 1
  let cpu ← add128 root.cpuUnits cost.cpuUnits
  let memory ← add128 root.memoryUnits cost.memoryUnits
  return ⟨childInflight, cpu, memory, root.activeStages.insert stage⟩

/-- The roots after a grant: only a child is attributed to one. -/
def attributeRoots (s : GovernedState) (r : GrantRequest) :
    Panicky (BTreeMap String RootExecutionState) := do
  if r.scope.isChild then
    let root ← attributeRoot r.cost r.targetStage (s.roots[r.rootOperationId]?.getD {})
    return s.roots.insert r.rootOperationId root
  else return s.roots

def grant (s : GovernedState) (r : GrantRequest) : Panicky GovernedState := do
  let charged ← chargeClass r.cost (s.cls r.taskClass)
  let cpu ← add128 s.cpuUnitsHeld r.cost.cpuUnits
  let memory ← add128 s.memoryUnitsHeld r.cost.memoryUnits
  ensure .duplicateLiveIdentity (s.permitsForOperation r.rootOperationId r.operation).isNone
  let roots ← attributeRoots s r
  let granted : GovernedState :=
    { s.grant r with
      classes := s.classes.insert r.taskClass charged
      cpuUnitsHeld := cpu
      memoryUnitsHeld := memory
      roots := roots }
  assertConsistent granted
  return granted

/-- The count of a permit that starts its work. -/
def countStart (previous phase : ExecutionPhase) (c : ClassState) : Panicky Unit := do
  if !previous.hasStarted && phase.hasStarted then
    let _ ← add128 c.startedTotal 1

def advancePhase (s : GovernedState) (permitId : PermitId) (phase : ExecutionPhase) (nonces : Nat) :
    Panicky (GovernedState × AdvanceOutcome × Nat) :=
  match s.permits[permitId]? with
  | none => .ok (s.advancePhase permitId phase nonces)
  | some record => do
    if phase.rank ≤ record.phase.rank then return s.advancePhase permitId phase nonces
    countStart record.phase phase (s.cls record.taskClass)
    assertConsistent (s.advancePhase permitId phase nonces).1
    return s.advancePhase permitId phase nonces

/-- The permit is the one its operation is indexed under, if its root has an entry at all. -/
def isLiveOperation (s : GovernedState) (permitId : PermitId) (record : PermitRecord) : Bool :=
  s.operationPermits[record.rootOperationId]?.all fun operations =>
    operations.get record.rootOperationId record.operation = some permitId

def unwind (s : GovernedState) (permitId : PermitId) (reason : TerminalReason)
    (effects : TransitionEffects) : Panicky (Option (GovernedState × TransitionEffects)) :=
  match s.permits[permitId]?, s.unwind permitId reason effects with
  | some record, some (unwound, effects) => do
    let _ ← add128 (s.cls record.taskClass).terminatedTotal 1
    ensure .unindexedPermit (isLiveOperation s permitId record)
    assertConsistent unwound
    return some (unwound, effects)
  | _, _ => .ok none

def releaseWithProofReason (s : GovernedState) (permitId : PermitId) (proof : Option Nat)
    (reason : TerminalReason) (effects : TransitionEffects) :
    Panicky (GovernedState × TransitionEffects × ReleaseOutcome) :=
  match s.permits[permitId]? with
  | none => .ok (s, effects, .unknownPermit)
  | some record => do
    if record.leaseNonce ≠ proof then return (s, effects, .heldByLease record.phase)
    match ← unwind s permitId reason effects with
    | some (s, effects) => return (s, effects, .released)
    | none => return (s, effects, .unknownPermit)

/-! ## Assessment -/

/-- The running totals of a walk up the awaited ancestors. -/
def walkChain (chain : List PermitRecord) (c : TaskClass) (pools : List CapabilityId) :
    Panicky Unit := do
  let _ ← sum128 (chain.map fun record => if record.taskClass = c then 1 else 0)
  let _ ← sum128 (chain.map fun record => record.ledger.cpuUnits)
  let _ ← sum128 (chain.map fun record => record.ledger.effectiveUnits)
  checkEach (fun id => do
    let _ ← sum128 (chain.map fun record => if id ∈ record.capabilities.ids then 1 else 0)) pools

/-- The walk an assessment makes, if the request is blocked and its awaited parent is known. -/
def walkParents (s : GovernedState) (policies : PolicySet) (q : ScopeAssessment) : Panicky Unit := do
  let blockers :=
    { blockersFor s policies q.taskClass q.maxInflight q.cost q.capabilities with
      queuedBehind := q.queuedBehind }
  if !blockers.isEmpty && q.scope.isAwaitedChild then
    match q.parentPermitId <|> s.parentPermitForScope q.rootOperationId q.scope with
    | some parent =>
      let chain := waitChain s parent
      walkChain chain q.taskClass (chain.flatMap fun record => record.capabilities.ids)
    | none => return ()

def assessScope (s : GovernedState) (policies : PolicySet) (q : ScopeAssessment) :
    Panicky CapacityAssessment := do
  walkParents s policies q
  return Taskmesh.assessScope s policies q

def assessPending (s : GovernedState) (policies : PolicySet) (r : PendingRequest) (maxInflight : Nat)
    (queuedBehind : Bool) : Panicky CapacityAssessment :=
  assessScope s policies
    { rootOperationId := r.rootOperationId
      scope := r.scope
      parentPermitId := r.parentPermitId
      taskClass := r.taskClass
      maxInflight := maxInflight
      cost := r.cost
      capabilities := r.capabilities
      queuedBehind := queuedBehind }

/-! ## Scheduling -/

def wfqIncrement (costCpuUnits weight : Nat) : Panicky Nat := do
  let scaled ← mulIn .arithmetic u128Max (max costCpuUnits 1) wfqScale
  divBy .arithmetic scaled (max weight 1)

/-- The increment of one more request of a class, if its discipline prices by weight. -/
def priceCost (fairness : FairnessPolicy) (costCpuUnits : Nat) : Panicky Unit :=
  match fairness with
  | .weightedFairQueue weight _ => do let _ ← wfqIncrement costCpuUnits weight.toNat
  | _ => .ok ()

def enqueueTags (s : GovernedState) (c : TaskClass) (policy : ClassPolicy) (costCpuUnits : Nat)
    (enqueuedAtMs : Nat) : Panicky (GovernedState × Nat × Nat × Nat) := do
  priceCost policy.fairness costCpuUnits
  return Taskmesh.enqueueTags s c policy costCpuUnits enqueuedAtMs

/-- The increments of a rebuilt queue, one for each request. -/
def priceQueue (fairness : FairnessPolicy) (queue : List PendingRequest) : Panicky Unit :=
  checkEach (fun r => priceCost fairness r.cost.cpuUnits) queue

def onUnservedRemoved (s : GovernedState) (c : TaskClass) (policy : ClassPolicy) :
    Panicky GovernedState := do
  priceQueue policy.fairness (s.cls c).queue
  return Taskmesh.onUnservedRemoved s c policy

def onRequestServed (s : GovernedState) (c : TaskClass) (policy : ClassPolicy) (queueIndex : Nat)
    (serviceFinishTag : Nat) : Panicky GovernedState := do
  if queueIndex > 0 then priceQueue policy.fairness (s.cls c).queue
  return Taskmesh.onRequestServed s c policy queueIndex serviceFinishTag

def isRunnableCandidate (s : GovernedState) (policies : PolicySet) (maxInflight : Nat)
    (cs : ClassState) (r : PendingRequest) : Panicky Bool := do
  if cs.hasQueuedPredecessor r then return false
  let assessment ← assessPending s policies r maxInflight false
  return decide (assessment = .runnable)

/-- The service tag of a candidate is only computed when it overtakes its class's head. -/
def priceCandidate (fairness : FairnessPolicy) (index : Nat) (head : PendingRequest) : Panicky Unit :=
  if index = 0 then .ok () else priceCost fairness head.cost.cpuUnits

def classCandidate (s : GovernedState) (policies : PolicySet) (c : TaskClass) (cs : ClassState) :
    Panicky (Option Candidate) :=
  match policies.classPolicy c with
  | none => .ok none
  | some policy => do
    match ← findIndex (isRunnableCandidate s policies policy.maxInflight.toNat cs) cs.queue with
    | none => return none
    | some index =>
      match cs.queue[index]? with
      | none => return none
      | some head =>
        priceCandidate policy.fairness index head
        return Taskmesh.classCandidate s policies c cs

def runnableCandidates (s : GovernedState) (policies : PolicySet) : Panicky (List Candidate) :=
  collect (fun entry => classCandidate s policies entry.1 entry.2) s.classes.toList

def hasRunnable (s : GovernedState) (policies : PolicySet) : Panicky Bool := do
  let candidates ← runnableCandidates s policies
  return !candidates.isEmpty

def pickMin (key : Candidate → Nat × Nat) : List Candidate → Panicky Candidate
  | [] => .error .emptyPool
  | first :: rest => .ok (Taskmesh.pickMin key first rest)

/-- One slot of the plan, for a ring of `ringSize` slots walked from `start`. -/
def planVisit (s : GovernedState) (ringSize start : Nat) (entry : Candidate × Nat) :
    Panicky PlannedVisit := do
  let ahead ← add64 entry.2 ringSize
  let walked ← subOf .arithmetic ahead start
  let offset ← remBy .arithmetic walked ringSize
  let quantum := drrQuantum entry.1.fairness
  let cost := max entry.1.headCostCpu 1
  let deficit := (s.cls entry.1.taskClass).deficit
  let visitsNeeded ←
    if deficit ≥ cost then .ok 1
    else do
      let missing ← subOf .arithmetic cost deficit
      divCeilBy .arithmetic missing quantum
  let skipped ← subOf .arithmetic visitsNeeded 1
  let laps ← mulIn .arithmetic u128Max skipped ringSize
  let visitPos ← add128 offset laps
  return ⟨entry.1.taskClass, quantum, cost, offset, visitPos⟩

def planVisits (s : GovernedState) (pool : List Candidate) (start : Nat) :
    Panicky (List PlannedVisit) :=
  mapEach (planVisit s pool.length start) pool.zipIdx

def creditVisit (ringSize winningPos : Nat) (s : GovernedState) (visit : PlannedVisit) :
    Panicky GovernedState := do
  if visit.offset > winningPos then return s
  let walked ← subOf .arithmetic winningPos visit.offset
  let laps ← divBy .arithmetic walked ringSize
  let _ ← add128 laps 1
  return Taskmesh.creditVisit ringSize winningPos s visit

def spendDeficit (s : GovernedState) (c : TaskClass) (cost : Nat) : Panicky GovernedState := do
  let _ ← subOf .arithmetic (s.cls c).deficit cost
  return Taskmesh.spendDeficit s c cost

def drrSelect (s : GovernedState) (pool : List Candidate) : Panicky (GovernedState × Option TaskClass) :=
  match drrCursorServes s pool with
  | some c => do
    let s ← spendDeficit s c.taskClass (max c.headCostCpu 1)
    return (s, some c.taskClass)
  | none => do
    match ← planVisits s pool (drrStart s pool) with
    | [] => return (s, none)
    | first :: rest =>
      let s := { s with drrRingVisits := saturatingAdd u64Max s.drrRingVisits pool.length }
      let winner := earliestVisit first rest
      let s ← foldEach (creditVisit pool.length winner.visitPos) s (first :: rest)
      ensure .unaffordableWinner ((s.cls winner.taskClass).deficit ≥ winner.cost)
      let s := Taskmesh.spendDeficit s winner.taskClass winner.cost
      return ({ s with drrCursor := some winner.taskClass }, some winner.taskClass)

/-- The class the discipline of the contended tier chooses. -/
def chooseClass (s : GovernedState) (first : Candidate) (pool : List Candidate) :
    Panicky (GovernedState × Option TaskClass) :=
  match first.fairness with
  | .fifo | .bestEffortScavenger => do
    let c ← pickMin (fun c => (c.headQueueOrder, 0)) pool
    return (s, some c.taskClass)
  | .weightedFairQueue _ _ => do
    let c ← pickMin (fun c => (c.headFinishTag, c.headQueueOrder)) pool
    return ({ s with virtualTime := max s.virtualTime c.headFinishTag }, some c.taskClass)
  | .deadlineAware _ => do
    let c ← pickMin (fun c => (c.headDeadlineMs, c.headQueueOrder)) pool
    return (s, some c.taskClass)
  | .deficitRoundRobin _ => drrSelect s pool

/-- The candidate of the chosen class. -/
def selectionOf (candidates : List Candidate) (c : TaskClass) : Option Selection :=
  (candidates.find? fun candidate => candidate.taskClass = c).map fun candidate =>
    ⟨candidate.taskClass, candidate.queueIndex, candidate.headFinishTag⟩

def select (s : GovernedState) (policies : PolicySet) : Panicky (GovernedState × Option Selection) := do
  let candidates ← runnableCandidates s policies
  match contendedTier candidates with
  | [] => return (s, none)
  | first :: rest =>
    let (s, chosen) ← chooseClass s first (first :: rest)
    return (s, chosen.bind (selectionOf candidates))

/-! ## Retry hints -/

def applyFairness (base : Nat) : FairnessPolicy → Panicky Nat
  | .fifo => .ok base
  | .weightedFairQueue weight _ => .ok (base - min (weight.toNat * 2) u64Max)
  | .deficitRoundRobin quantum => add64 base quantum.toNat
  | .deadlineAware slackMs => add64 base (slackMs.toNat / 10)
  | .bestEffortScavenger => add64 base 200

def retryAfter (retry : RetryAfterPolicy) (fairness : FairnessPolicy) (queueDepth inflight : Nat) :
    Panicky (Option Nat) :=
  match retry with
  | .none => .ok none
  | .fixedMs value => .ok (some value.toNat)
  | .adaptive => do
    let queueStep ← mulIn .arithmetic u64Max queueDepth 10
    let inflightStep ← mulIn .arithmetic u64Max inflight 5
    let queued ← add64 50 queueStep
    let contention ← add64 queued inflightStep
    let hint ← applyFairness contention fairness
    return some hint

end Panicky

end Taskmesh
