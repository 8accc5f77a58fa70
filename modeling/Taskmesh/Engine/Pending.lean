import Taskmesh.Engine.Transition

/-!
# The capacity resolver

One answer to "can this request run now" (`features/admission/pending.rs`), used by intake, by
promotion and by diagnostics: every blocking dimension at the same state revision, and the test for
a wait that only the request's own awaited ancestors could end.
-/

namespace Taskmesh

open Std MachineInt

/-- Every capacity dimension blocking a request at the same state revision. -/
structure BlockerSet where
  classInflight : Bool
  capabilities : List CapabilityId
  cpu : Bool
  memory : Bool
  queuedBehind : Bool
  accountingFault : Bool
  deriving DecidableEq

namespace BlockerSet

def isEmpty (b : BlockerSet) : Bool :=
  !b.classInflight && b.capabilities.isEmpty && !b.cpu && !b.memory && !b.queuedBehind &&
    !b.accountingFault

def primary (b : BlockerSet) : CapacityBlock :=
  if b.accountingFault then .accountingFault
  else if b.classInflight then .inflight
  else if !b.capabilities.isEmpty then .capability
  else if b.cpu then .cpu
  else if b.memory then .memory
  else if b.queuedBehind then .queuedBehind
  else .ok

end BlockerSet

/-- Parent identity and declared wait-chain evidence for an irreversible wait. -/
structure CycleWitness where
  parentOperationId : String
  held : List HeldCapacity
  deriving DecidableEq

/-- One capacity answer used by intake, promotion and diagnostics. -/
inductive CapacityAssessment where
  | runnable
  | reversiblyBlocked (blockers : BlockerSet)
  | irreversibleWaitCycle (witness : CycleWitness)
  deriving DecidableEq

/-- The pool is registered with a limit and every slot is occupied. -/
def poolBlocked (s : GovernedState) (policies : PolicySet) (id : CapabilityId) : Bool :=
  match policies.capabilityRecord id with
  | none => false
  | some record =>
    let limit := record.capacity.limit.toNat
    limit ≠ 0 && s.inUse id ≥ limit

/-- `held + cost` exceeds a budget; a sum that `u128` cannot hold exceeds every budget. -/
def overBudget (budget held cost : Nat) : Bool :=
  budget ≠ 0 && (checkedAdd u128Max held cost).all fun next => next > budget

/-- All current capacity blockers, with no priority short-circuiting. -/
def blockersFor (s : GovernedState) (policies : PolicySet) (c : TaskClass) (maxInflight : Nat)
    (cost : ResolvedCost) (capabilities : CapabilityRequirementSet) : BlockerSet where
  accountingFault :=
    s.accountingFault.isSome ||
      capabilities.ids.any fun id => (policies.capabilityRecord id).isNone
  classInflight := s.inflight c ≥ maxInflight
  capabilities := capabilities.ids.filter (poolBlocked s policies)
  cpu := overBudget policies.resources.maxCpuUnits.toNat s.cpuUnitsHeld cost.cpuUnits
  memory := overBudget policies.resources.maxMemoryUnits.toNat s.memoryUnitsHeld cost.memoryUnits
  queuedBehind := false

/-- The live records of a consecutive awaited-ancestor chain, from `id` upwards. The walk stops at a
permit already visited, at one that is no longer live, and above a scope that is not awaited. -/
def awaitedChain (s : GovernedState) : Nat → List PermitId → PermitId → List PermitRecord
  | 0, _, _ => []
  | fuel + 1, visited, id =>
    if id ∈ visited then []
    else
      match s.permits[id]? with
      | none => []
      | some record =>
        record ::
          (if record.scope.isAwaitedChild then
            match record.parentPermitId with
            | some next => awaitedChain s fuel (id :: visited) next
            | none => []
          else [])

/-- The walk from a child's parent. Every round visits a live permit not visited before, so one more
round than there are live permits is never needed. -/
def waitChain (s : GovernedState) (parent : PermitId) : List PermitRecord :=
  awaitedChain s (s.permits.size + 1) [] parent

/-- The chain owns a positive amount, and all, of what occupies the blocked capacity. -/
def waitChainExclusivelyHolds (totalHeld heldByChain : Nat) : Bool :=
  heldByChain > 0 && totalHeld = heldByChain

/-- How much of each dimension a chain of records holds. -/
def chainInClass (chain : List PermitRecord) (c : TaskClass) : Nat :=
  chain.countP fun record => record.taskClass = c

def chainInPool (chain : List PermitRecord) (id : CapabilityId) : Nat :=
  chain.countP fun record => id ∈ record.capabilities.ids

def chainCpu (chain : List PermitRecord) : Nat := (chain.map fun record => record.ledger.cpuUnits).sum

def chainMemory (chain : List PermitRecord) : Nat :=
  (chain.map fun record => record.ledger.effectiveUnits).sum

/-- The blocked dimensions that `chain` holds exclusively, in reporting order. -/
def heldByChain (s : GovernedState) (policies : PolicySet) (c : TaskClass) (blockers : BlockerSet)
    (chain : List PermitRecord) : Option (List HeldCapacity) := do
  let inClass :=
    if blockers.classInflight && waitChainExclusivelyHolds (s.inflight c) (chainInClass chain c) then
      [HeldCapacity.classInflight c]
    else []
  let pools ← (blockers.capabilities.filter fun id =>
      waitChainExclusivelyHolds (s.inUse id) (chainInPool chain id)).mapM fun id =>
    (policies.capabilityRecord id).map fun record => HeldCapacity.capabilityPool record.id.name
  let cpu :=
    if blockers.cpu && waitChainExclusivelyHolds s.cpuUnitsHeld (chainCpu chain) then
      [HeldCapacity.cpuBudget]
    else []
  let memory :=
    if blockers.memory && waitChainExclusivelyHolds s.memoryUnitsHeld (chainMemory chain) then
      [HeldCapacity.memoryBudget]
    else []
  some (inClass ++ pools ++ cpu ++ memory)

/-- Evidence that only the request's own awaited ancestors could end the wait. -/
def cycleWitness (s : GovernedState) (policies : PolicySet) (rootOperationId : String)
    (scope : TaskScope) (parentPermitId : Option PermitId) (c : TaskClass) (blockers : BlockerSet) :
    Option CycleWitness :=
  match scope with
  | .child parentOperationId _ true => do
    let parent ← parentPermitId <|> s.parentPermitForScope rootOperationId scope
    let chain := waitChain s parent
    -- The immediate parent must still be live to witness a cycle.
    if chain.isEmpty then none
    else
      let held ← heldByChain s policies c blockers chain
      if held.isEmpty then none else some ⟨parentOperationId, held⟩
  | _ => none

/-- What an assessment reads of a request, at intake or in a queue. -/
structure ScopeAssessment where
  rootOperationId : String
  scope : TaskScope
  parentPermitId : Option PermitId
  taskClass : TaskClass
  maxInflight : Nat
  cost : ResolvedCost
  capabilities : CapabilityRequirementSet
  queuedBehind : Bool

def assessScope (s : GovernedState) (policies : PolicySet) (q : ScopeAssessment) :
    CapacityAssessment :=
  let blockers :=
    { blockersFor s policies q.taskClass q.maxInflight q.cost q.capabilities with
      queuedBehind := q.queuedBehind }
  if blockers.isEmpty then .runnable
  else
    match cycleWitness s policies q.rootOperationId q.scope q.parentPermitId q.taskClass blockers with
    | some witness => .irreversibleWaitCycle witness
    | none => .reversiblyBlocked blockers

/-- Assess a request at intake: its parent is resolved by operation name. -/
def assess (s : GovernedState) (policies : PolicySet) (spec : TaskSpec) (c : TaskClass)
    (maxInflight : Nat) (cost : ResolvedCost) (capabilities : CapabilityRequirementSet)
    (queuedBehind : Bool) : CapacityAssessment :=
  assessScope s policies
    { rootOperationId := spec.rootOperationId
      scope := spec.scope
      parentPermitId := none
      taskClass := c
      maxInflight := maxInflight
      cost := cost
      capabilities := capabilities
      queuedBehind := queuedBehind }

/-- Assess a queued request: its parent is the generation frozen at enqueue, if any. -/
def assessPending (s : GovernedState) (policies : PolicySet) (r : PendingRequest)
    (maxInflight : Nat) (queuedBehind : Bool) : CapacityAssessment :=
  assessScope s policies
    { rootOperationId := r.rootOperationId
      scope := r.scope
      parentPermitId := r.parentPermitId
      taskClass := r.taskClass
      maxInflight := maxInflight
      cost := r.cost
      capabilities := r.capabilities
      queuedBehind := queuedBehind }

end Taskmesh
