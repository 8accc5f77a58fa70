import Mathlib.Tactic

/-!
# Task identity and specification

The request vocabulary of the contract crate (`task.rs`, `topology.rs`, `validation.rs`): classes,
stages, scopes, the declared plan of a task, and the validator that every plan passes before it can
be admitted.
-/

namespace Taskmesh

/-- Stable semantic class of a unit of work. -/
structure TaskClass where
  name : String
  deriving DecidableEq, Inhabited

/-- A named stage within a task. -/
structure TaskStage where
  name : String
  deriving DecidableEq, Inhabited

instance : Ord TaskClass := ⟨compareOn TaskClass.name⟩

instance : Std.TransOrd TaskClass := inferInstanceAs (Std.TransCmp (compareOn TaskClass.name))

instance : Std.LawfulEqOrd TaskClass where
  eq_of_compare {a b} h := by
    cases a; cases b
    exact congrArg TaskClass.mk (Std.LawfulEqOrd.eq_of_compare (show compare _ _ = .eq from h))

instance : Ord TaskStage := ⟨compareOn TaskStage.name⟩

instance : Std.TransOrd TaskStage := inferInstanceAs (Std.TransCmp (compareOn TaskStage.name))

instance : Std.LawfulEqOrd TaskStage where
  eq_of_compare {a b} h := by
    cases a; cases b
    exact congrArg TaskStage.mk (Std.LawfulEqOrd.eq_of_compare (show compare _ _ = .eq from h))

/-! ## Substrates and the reduce contract -/

/-- Governance disposition of a substrate. -/
inductive SubstrateKind where
  | authorityOnly | competingExecution | maintenanceOnly | retireOrMigrate
  deriving DecidableEq, Inhabited

/-- Where a stage wants to run. -/
inductive SubstrateHint where
  | asyncIo | blockingPool | sharedCpuExecutor | largeStackCapability | localRuntime | backgroundOnly
  deriving DecidableEq, Inhabited

/-- The built-in capability pool a hint dispatches to; `none` is an ungated substrate. -/
def SubstrateHint.capabilityPool : SubstrateHint → Option String
  | asyncIo => none
  | blockingPool => some "blocking"
  | sharedCpuExecutor => some "cpu"
  | largeStackCapability => some "large_stack"
  | localRuntime => some "local_runtime"
  | backgroundOnly => some "maintenance"

/-- A registered substrate. -/
structure SubstrateRecord where
  name : String
  kind : SubstrateKind
  capabilityPool : Option String
  deriving DecidableEq

inductive DuplicateMergePolicy where
  | keepFirstStable | keepLastStable | stableFold
  deriving DecidableEq

inductive TieBreakPolicy where
  | stableInputOrder | lexicographic | deterministicHash
  deriving DecidableEq

inductive ErrorAggregationPolicy where
  | firstStable | allStable
  deriving DecidableEq

inductive PartialResultOrdering where
  | stableSortKey | stableStageOrder
  deriving DecidableEq

/-- Reduce contract for fan-out stages. -/
structure DeterministicReducePolicy where
  stableSortKey : String
  duplicateMerge : DuplicateMergePolicy
  tieBreak : TieBreakPolicy
  errorAggregation : ErrorAggregationPolicy
  partialResultOrdering : PartialResultOrdering
  deriving DecidableEq

/-! ## Task plans -/

/-- Opaque provenance key. -/
structure PlanSource where
  key : String
  deriving DecidableEq

/-- Why a task carries the class it does. -/
inductive ClassificationRationale where
  | explicitMapping | derivedFromRequestKind | derivedFromStageMap
  deriving DecidableEq

/-- Scope of a task in a composite execution tree. A child names the exact operation of its
immediate parent; `parentAwaits` declares that the parent blocks on it. -/
inductive TaskScope where
  | root
  | child (parentOperationId : String) (parentStage : TaskStage) (parentAwaits : Bool)
  deriving DecidableEq

/-- The scope is a child scope, awaited or not. -/
def TaskScope.isChild : TaskScope → Bool
  | root => false
  | child .. => true

/-- The scope is a child scope whose parent declared that it awaits it. -/
def TaskScope.isAwaitedChild : TaskScope → Bool
  | child _ _ awaits => awaits
  | root => false

/-- One stage in a declared governance plan. -/
structure StageDescriptor where
  taskClass : TaskClass
  stage : TaskStage
  substrateHint : SubstrateHint
  fanOut : Bool
  reducePolicy : Option DeterministicReducePolicy
  deriving DecidableEq

/-- A fully described request. -/
structure TaskSpec where
  taskClass : TaskClass
  operation : String
  rootOperationId : String
  source : PlanSource
  reason : ClassificationRationale
  scope : TaskScope
  stackSizeBytes : Option UInt64
  stages : List StageDescriptor
  deriving DecidableEq

/-! ## Plan validation -/

/-- Maximum UTF-8 byte length of any task-plan identifier. -/
def maxTaskIdentifierLen : Nat := 128

/-- The field an identifier was rejected in. -/
inductive TaskIdentifierField where
  | planSource | taskClass | operation | rootOperationId | parentOperationId | parentStage
  | stage (index : Nat)
  | reduceKey (index : Nat)
  deriving DecidableEq

/-- Why an identifier is not canonical. -/
inductive IdentifierViolation where
  | empty
  | surroundingWhitespace
  | tooLong (actual max : Nat)
  | invalidCharacter (byteOffset : Nat) (character : Char)
  deriving DecidableEq

/-- Rejection of a raw plan. -/
inductive TaskPlanError where
  | invalidIdentifier (field : TaskIdentifierField) (violation : IdentifierViolation)
  | noStages
  | rootIdentityMismatch
  | childOperationMatchesRoot
  | parentOperationMatchesChild
  | duplicateStage (stage : TaskStage)
  | conflictingStage (stage : TaskStage)
  | stageClassMismatch (stage : TaskStage)
  | missingReducePolicy (stage : TaskStage)
  | unexpectedReducePolicy (stage : TaskStage)
  deriving DecidableEq

/-- Unicode `White_Space`, the set `str::trim` strips. -/
def isUnicodeWhitespace (c : Char) : Bool :=
  let n := c.toNat
  (0x09 ≤ n && n ≤ 0x0D) || n = 0x20 || n = 0x85 || n = 0xA0 || n = 0x1680 ||
    (0x2000 ≤ n && n ≤ 0x200A) || n = 0x2028 || n = 0x2029 || n = 0x202F || n = 0x205F || n = 0x3000

/-- `str::trim` changes the (non-empty) text: it starts or ends with white space. -/
def hasSurroundingWhitespace (cs : List Char) : Bool :=
  cs.head?.any isUnicodeWhitespace || cs.getLast?.any isUnicodeWhitespace

/-- `str::trim` leaves nothing. -/
def isBlank (s : String) : Bool := s.toList.all isUnicodeWhitespace

def isIdentifierCharacter (c : Char) : Bool :=
  c.isAlphanum || c = '-' || c = '_' || c = '.' || c = ':' || c = '/'

/-- The first character outside the identifier alphabet, with its byte offset. -/
def firstInvalidCharacter : List Char → Nat → Option IdentifierViolation
  | [], _ => none
  | c :: cs, offset =>
    if isIdentifierCharacter c then firstInvalidCharacter cs (offset + c.utf8Size)
    else some (.invalidCharacter offset c)

def identifierViolation (value : String) : Option IdentifierViolation :=
  let cs := value.toList
  if cs.isEmpty then some .empty
  else if hasSurroundingWhitespace cs then some .surroundingWhitespace
  else if value.utf8ByteSize > maxTaskIdentifierLen then
    some (.tooLong value.utf8ByteSize maxTaskIdentifierLen)
  else firstInvalidCharacter cs 0

def validateIdentifier (field : TaskIdentifierField) (value : String) : Except TaskPlanError Unit :=
  match identifierViolation value with
  | some violation => .error (.invalidIdentifier field violation)
  | none => .ok ()

/-- The scope half of `validate_task_spec`. -/
def validateScope (spec : TaskSpec) : Except TaskPlanError Unit :=
  match spec.scope with
  | .root => if spec.operation ≠ spec.rootOperationId then .error .rootIdentityMismatch else .ok ()
  | .child parentOperationId parentStage _ => do
    validateIdentifier .parentOperationId parentOperationId
    validateIdentifier .parentStage parentStage.name
    if spec.operation = spec.rootOperationId then .error .childOperationMatchesRoot
    else if spec.operation = parentOperationId then .error .parentOperationMatchesChild
    else .ok ()

/-- The stage loop of `validate_task_spec`; `seen` holds the descriptors already inserted. -/
def validateStages (spec : TaskSpec) (seen : List StageDescriptor) (index : Nat) :
    List StageDescriptor → Except TaskPlanError Unit
  | [] => .ok ()
  | d :: rest => do
    validateIdentifier (.stage index) d.stage.name
    match seen.find? (fun previous => previous.stage = d.stage) with
    | some previous =>
      if previous = d then .error (.duplicateStage d.stage) else .error (.conflictingStage d.stage)
    | none =>
      if d.taskClass ≠ spec.taskClass then .error (.stageClassMismatch d.stage)
      else
        match d.fanOut, d.reducePolicy with
        | true, none => .error (.missingReducePolicy d.stage)
        | false, some _ => .error (.unexpectedReducePolicy d.stage)
        | true, some policy => validateIdentifier (.reduceKey index) policy.stableSortKey
        | false, none => .ok ()
        validateStages spec (d :: seen) (index + 1) rest

def validateTaskSpec (spec : TaskSpec) : Except TaskPlanError Unit := do
  validateIdentifier .taskClass spec.taskClass.name
  validateIdentifier .operation spec.operation
  validateIdentifier .rootOperationId spec.rootOperationId
  validateScope spec
  if spec.stages.isEmpty then .error .noStages
  else validateStages spec [] 0 spec.stages

/-- Admission-ready plan: construction always runs the validator. -/
structure ValidatedTaskPlan where
  spec : TaskSpec
  valid : validateTaskSpec spec = .ok ()

end Taskmesh
