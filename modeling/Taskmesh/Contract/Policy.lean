import Taskmesh.Contract.Task

/-!
# Class policy, resource budgets and verdicts

The policy vocabulary of the contract crate (`policy.rs`, `resource.rs`, `verdict.rs`,
`snapshot.rs`). Configuration values keep the width of their source type; running totals live in
the engine state.
-/

namespace Taskmesh

/-! ## Resources -/

/-- Why a measured byte reading cannot be expressed in memory units. -/
inductive ResourceConversionError where
  | unscaledMemoryUnits
  | memoryUnitsOverflow (bytes bytesPerUnit : Nat)
  deriving DecidableEq

/-- The resource a single permit holds while inflight. -/
structure PermitCost where
  cpuUnits : UInt32
  memoryUnits : UInt32
  deriving DecidableEq

/-- Conversion between measured bytes and abstract memory units. -/
structure MemoryUnitScale where
  bytesPerUnit : UInt64
  deriving DecidableEq

/-- Convert measured bytes to units, rounding up; checked on both edges. -/
def MemoryUnitScale.unitsFor (scale : MemoryUnitScale) (bytes : Nat) :
    Except ResourceConversionError Nat :=
  let perUnit := scale.bytesPerUnit.toNat
  if perUnit = 0 then .error .unscaledMemoryUnits
  else
    let units := (bytes + perUnit - 1) / perUnit
    if units < 2 ^ 32 then .ok units else .error (.memoryUnitsOverflow bytes perUnit)

/-- Global resource ceilings. A ceiling of `0` means "no limit". -/
structure ResourceBudget where
  maxCpuUnits : UInt32
  maxMemoryUnits : UInt32
  perRequestMaxCpuUnits : UInt32
  perRequestMaxMemoryUnits : UInt32
  memoryUnitScale : MemoryUnitScale
  deriving DecidableEq

/-! ## Class policy -/

/-- Cross-class scheduling discipline. -/
inductive FairnessPolicy where
  | fifo
  | weightedFairQueue (weight burst : UInt32)
  | deficitRoundRobin (quantum : UInt32)
  | deadlineAware (slackMs : UInt64)
  | bestEffortScavenger
  deriving DecidableEq

/-- The discriminant of a discipline, compared within a scheduling tier. -/
inductive FairnessKind where
  | fifo | weightedFairQueue | deficitRoundRobin | deadlineAware | bestEffortScavenger
  deriving DecidableEq

def FairnessPolicy.kind : FairnessPolicy → FairnessKind
  | fifo => .fifo
  | weightedFairQueue .. => .weightedFairQueue
  | deficitRoundRobin _ => .deficitRoundRobin
  | deadlineAware _ => .deadlineAware
  | bestEffortScavenger => .bestEffortScavenger

/-- How memory permits are sized. -/
inductive MemoryPermitMode where
  | estimated | measured | hybrid
  deriving DecidableEq

/-- When held memory units are returned. -/
inductive MemoryReleasePolicy where
  | onTaskCompletion | onStageBoundary | leakDetecting
  deriving DecidableEq

/-- What to do when a memory reservation would overcommit the budget. -/
inductive MemoryOvercommitPolicy where
  | reject
  | queue
  | degradeToLight (fallbackClass : TaskClass)
  deriving DecidableEq

/-- Checkpoint preferences; metadata the engine preserves and never interprets. -/
structure CheckpointPolicy where
  everyNWorkItems : Option UInt32
  beforeFanOut : Bool
  beforeLargeAllocation : Bool
  beforeStageBoundary : Bool
  beforeReduce : Bool
  deriving DecidableEq

/-- What to do when admission cannot be granted immediately. -/
inductive OverflowPolicy where
  | reject | queueWithinDepth | dropBestEffort
  deriving DecidableEq

def OverflowPolicy.isQueueable : OverflowPolicy → Bool
  | queueWithinDepth => true
  | _ => false

/-- Backpressure hint policy. -/
inductive RetryAfterPolicy where
  | none
  | fixedMs (value : UInt64)
  | adaptive
  deriving DecidableEq

inductive CancellationPolicy where
  | preSubmitOnly | cooperative | cooperativeWithDeadline
  deriving DecidableEq

/-- The governance policy of one task class. -/
structure ClassPolicy where
  maxInflight : UInt32
  maxQueueDepth : UInt32
  permitCost : PermitCost
  fairness : FairnessPolicy
  memoryPermitMode : MemoryPermitMode
  memoryReleasePolicy : MemoryReleasePolicy
  memoryOvercommitPolicy : MemoryOvercommitPolicy
  overflowPolicy : OverflowPolicy
  retryAfterPolicy : RetryAfterPolicy
  cancellationPolicy : CancellationPolicy
  checkpointPolicy : CheckpointPolicy
  bestEffort : Bool
  deriving DecidableEq

/-- `ClassPolicy::default`. -/
def ClassPolicy.new : ClassPolicy where
  maxInflight := 4294967295
  maxQueueDepth := 0
  permitCost := ⟨0, 0⟩
  fairness := .fifo
  memoryPermitMode := .estimated
  memoryReleasePolicy := .onTaskCompletion
  memoryOvercommitPolicy := .reject
  overflowPolicy := .reject
  retryAfterPolicy := .none
  cancellationPolicy := .preSubmitOnly
  checkpointPolicy := ⟨none, true, true, true, true⟩
  bestEffort := false

/-- Whether a class is administratively disabled (admits nothing). -/
def ClassPolicy.isDisabled (policy : ClassPolicy) : Bool := policy.maxInflight = 0

/-! ## Verdicts -/

/-- The capacity a nested wait was waiting for. -/
inductive HeldCapacity where
  | classInflight (taskClass : TaskClass)
  | capabilityPool (pool : String)
  | cpuBudget
  | memoryBudget
  deriving DecidableEq

/-- The admission verdicts the engine itself can return. -/
inductive AdmissionVerdict where
  | queueFull (retryAfterMs : Option Nat)
  | cpuSaturated (retryAfterMs : Option Nat)
  | memorySaturated (retryAfterMs : Option Nat)
  | substrateSaturated (retryAfterMs : Option Nat)
  | classDisabled
  | unknownClass (taskClass : TaskClass)
  | runtimeUnavailable
  | recursiveAdmission
  | malformedTask
  | nestedWaitCycle (heldByRoot : HeldCapacity)
  | identityExhausted
  deriving DecidableEq

/-- The ownership phase of one live request. Phases are monotonic. -/
inductive ExecutionPhase where
  | dispatchReserved | accepted | running | cleanupPending
  deriving DecidableEq

/-- Phase order used to enforce monotonic advancement. -/
def ExecutionPhase.rank : ExecutionPhase → Nat
  | dispatchReserved => 0
  | accepted => 1
  | running => 2
  | cleanupPending => 3

/-- Whether reaching this phase means the work actually started executing. -/
def ExecutionPhase.hasStarted : ExecutionPhase → Bool
  | running => true
  | cleanupPending => true
  | _ => false

end Taskmesh
