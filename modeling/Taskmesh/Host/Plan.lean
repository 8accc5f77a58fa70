import Taskmesh.Engine.Intake
import Taskmesh.Host.Cancel

/-!
# Resolved execution plans

The answer every run path resolves once and freezes (`execution_plan.rs`): which pools the work will
occupy, how it is dispatched, with which stack, and how it may be cancelled.
-/

namespace Taskmesh

def physicalSharedBlocking : String := "physical.shared_blocking"
def physicalCpu : String := "physical.cpu"
def physicalDedicated : String := "physical.dedicated"

/-- The substrate hint of the first stage. -/
def TaskSpec.primarySubstrateHint (spec : TaskSpec) : SubstrateHint :=
  (spec.stages.head?.map fun d => d.substrateHint).getD .asyncIo

namespace Host

/-- The largest explicitly requested worker stack: 16 GiB. -/
def maxRequestedStackBytes : Nat := 2 ^ 34

/-- A nonzero, bounded stack size that fits a `usize` of the target. -/
structure ValidatedStackSize (usizeMax : Nat) where
  bytes : Nat
  nonzero : 0 < bytes
  bounded : bytes ≤ maxRequestedStackBytes
  representable : bytes ≤ usizeMax

/-- The checks of a requested stack size; the last conversion cannot fail after them. -/
def validateStackSizeForUsize (requested usizeMax : Nat) : Except GovernorError (ValidatedStackSize usizeMax) :=
  if hzero : requested = 0 then .error (.policyViolation "requested stack size must be nonzero")
  else if hbound : requested > maxRequestedStackBytes then
    .error (.policyViolation ("requested stack size " ++ toString requested ++
      " bytes exceeds the supported maximum " ++ toString maxRequestedStackBytes))
  else if hwidth : requested > usizeMax then
    .error (.policyViolation "requested stack size does not fit usize")
  else .ok ⟨requested, Nat.pos_of_ne_zero hzero, Nat.le_of_not_gt hbound, Nat.le_of_not_gt hwidth⟩

/-- How the host will physically run the work. -/
inductive DispatchKind where
  | callerFuture
  | blockingPool
  | cpuExecutor
  | dedicatedStackThread
  | dedicatedStackRuntime
  deriving DecidableEq

/-- The answer of a preflight; a stack size is that of a target with the given `usize`. -/
structure ValidatedDispatchPlan (usizeMax : Nat) where
  task : ValidatedTaskPlan
  requirements : CapabilityRequirementSet
  dispatch : DispatchKind
  stackSize : Option (ValidatedStackSize usizeMax)
  cancel : Option CancellationToken
  deadline : Option SubmissionDeadline

variable {usizeMax : Nat}

/-- The absolute instant the plan must respect, if any. -/
def ValidatedDispatchPlan.absoluteDeadline (plan : ValidatedDispatchPlan usizeMax) : Option Nat :=
  match plan.deadline with
  | some (.completeBy instant) => some instant
  | _ => none

/-- The relative run budget, if any. -/
def ValidatedDispatchPlan.runBudget (plan : ValidatedDispatchPlan usizeMax) : Option Nat :=
  match plan.deadline with
  | some (.runFor budget) => some budget
  | _ => none

/-- A blocking-family hint that carries a stack request leaves the pool for a dedicated thread. -/
def wantsDedicatedThread (spec : TaskSpec) : Bool :=
  spec.stackSizeBytes.isSome &&
    match spec.primarySubstrateHint with
    | .blockingPool | .largeStackCapability | .backgroundOnly => true
    | .asyncIo | .sharedCpuExecutor | .localRuntime => false

/-- Where the work will run: a stack request moves a synchronous job onto a dedicated thread. -/
def resolveDispatch (spec : TaskSpec) (dispatch : DispatchKind) : DispatchKind :=
  if wantsDedicatedThread spec && dispatch = .blockingPool then .dedicatedStackThread else dispatch

/-- The stack the worker gets; a dispatch that cannot honor a request refuses it. -/
def resolveStackSize (usizeMax : Nat) (dispatch : DispatchKind) (requested : Option UInt64) :
    Except GovernorError (Option (ValidatedStackSize usizeMax)) :=
  match dispatch, requested with
  | .dedicatedStackThread, some bytes | .dedicatedStackRuntime, some bytes =>
    (validateStackSizeForUsize bytes.toNat usizeMax).map some
  | .dedicatedStackRuntime, none =>
    .error (.policyViolation "requested stack size missing on async large-stack path")
  | .callerFuture, some _ | .cpuExecutor, some _ =>
    .error (.policyViolation "requested stack size is not supported by this dispatch path")
  | .blockingPool, some _ =>
    .error (.policyViolation "requested stack size cannot use pooled blocking dispatch")
  | _, none => .ok none

/-- The role pool the work is charged to: a stack request is charged as one, whichever hint carried it. -/
def rolePool (spec : TaskSpec) : Option String :=
  if wantsDedicatedThread spec then SubstrateHint.largeStackCapability.capabilityPool
  else spec.primarySubstrateHint.capabilityPool

/-- The physical domain the work occupies. -/
def physicalDomain (dispatch : DispatchKind) (cpuPhysicalDomain : String) : Option String :=
  match dispatch with
  | .blockingPool => some physicalSharedBlocking
  | .cpuExecutor => some cpuPhysicalDomain
  | .dedicatedStackThread | .dedicatedStackRuntime => some physicalDedicated
  | .callerFuture => none

/-- The pools a dispatch charges, by name: its role and its physical domain. -/
def chargedPools (spec : TaskSpec) (dispatch : DispatchKind) (cpuPhysicalDomain : String) : List String :=
  [rolePool spec, physicalDomain dispatch cpuPhysicalDomain].filterMap id

/-- The same, resolved by the policy that will charge them. -/
def resolveRequirements (authority : PolicySet) (pools : List String) :
    Except GovernorError CapabilityRequirementSet :=
  match pools.mapM authority.resolveCapability with
  | .error error => .error (.policyViolation ("dispatch capability resolution failed: " ++ error.display))
  | .ok resolved =>
    match CapabilityRequirementSet.fromResolved resolved with
    | .error error => .error (.policyViolation ("dispatch capability requirement failed: " ++ error.display))
    | .ok requirements => .ok requirements

/-- A class that can be cancelled in mid-run. -/
def CancellationPolicy.midRun : CancellationPolicy → Bool
  | .cooperative | .cooperativeWithDeadline => true
  | .preSubmitOnly => false

/-- A deadline its class cannot enforce is refused, not dropped; an unknown class is left to admission. -/
def checkDeadline (spec : TaskSpec) (opts : SubmitOptions) (policy : Option ClassPolicy) :
    Except GovernorError Unit :=
  match policy, opts.deadline with
  | some policy, some _ =>
    if policy.cancellationPolicy = .cooperativeWithDeadline then .ok ()
    else .error (.deadlineUnsupported spec.taskClass policy.cancellationPolicy)
  | _, _ => .ok ()

/-- Resolve a submission for one run path: `allowed` are the hints the path accepts, `dispatch` is what it
will do once admitted. -/
def ValidatedDispatchPlan.preflight (usizeMax : Nat) (spec : TaskSpec) (opts : SubmitOptions)
    (policy : Option ClassPolicy) (allowed : List SubstrateHint) (dispatch : DispatchKind)
    (authority : PolicySet) (cpuPhysicalDomain : String) :
    Except GovernorError (ValidatedDispatchPlan usizeMax) :=
  if valid : validateTaskSpec spec = .ok () then
    if spec.primarySubstrateHint ∉ allowed then .error (.rejected .substrateMismatch)
    else do
      let resolved := resolveDispatch spec dispatch
      let stackSize ← resolveStackSize usizeMax resolved spec.stackSizeBytes
      checkDeadline spec opts policy
      let requirements ← resolveRequirements authority (chargedPools spec resolved cpuPhysicalDomain)
      return {
        task := ⟨spec, valid⟩
        requirements := requirements
        dispatch := resolved
        stackSize := stackSize
        cancel := if policy.any fun p => CancellationPolicy.midRun p.cancellationPolicy then opts.cancel else none
        deadline := if policy.any fun p => p.cancellationPolicy = .cooperativeWithDeadline then opts.deadline
          else none }
  else .error (.rejected (.engine .malformedTask))

end Host

end Taskmesh
