import Taskmesh.Contract.Policy
import Taskmesh.Contract.Topology
import Taskmesh.Engine.Shared
import Taskmesh.Ingress.Scan

/-!
# The bytes entry points

`parse_task_spec` and `parse_runtime_config` (`ingress.rs`). The JSON reader and the derived decoders
come from other crates: they are the parameter `SerdeJson`.
-/

namespace Taskmesh

open Serde

/-! ## The decoded declarations -/

structure StrictRequestedStack where
  stackSizeBytes : UInt64
  deriving DecidableEq

inductive StrictBlockingDispatch where
  | sharedBlocking
  | requestedStack (request : StrictRequestedStack)
  deriving DecidableEq

structure StrictChild where
  parentOperationId : String
  parentStage : TaskStage
  parentAwaits : Bool
  deriving DecidableEq

inductive StrictScope where
  | root
  | child (child : StrictChild)
  deriving DecidableEq

structure StrictTaskInput where
  taskClass : TaskClass
  operation : String
  rootOperationId : String
  source : PlanSource
  reason : ClassificationRationale
  scope : StrictScope
  blockingDispatch : Option StrictBlockingDispatch
  stages : List StageDescriptor
  deriving DecidableEq

structure StrictRuntimeInput where
  topology : TopologyConfig
  resources : ResourceBudget
  classes : BTreeMap TaskClass ClassPolicy
  extraSubstrates : List SubstrateRecord
  capabilityLimits : BTreeMap String UInt32

/-- A parsed declaration, built by `parseRuntimeConfig` alone. -/
structure StrictRuntimeConfig where
  input : StrictRuntimeInput

/-- What `serde_json` makes of bytes: the document it reads, and what the two derived decoders answer. -/
structure SerdeJson where
  read : List UInt8 → Document
  taskInput : List UInt8 → Except String StrictTaskInput
  runtimeInput : List UInt8 → Except String StrictRuntimeInput

/-! ## Entry points -/

/-- A rejection in the failure cell overrides what the parser answers. -/
def verdict : Except String Unit × Option StrictIngressError → Except StrictIngressError Unit
  | (_, some error) => .error error
  | (result, none) => result.mapError .decode

/-- Limits first, then the length, then one visit of the text up to its end. -/
def scan (serde : SerdeJson) (bytes : List UInt8) (limits : StrictIngressLimits) (shape : Shape) :
    Except StrictIngressError Unit :=
  match [("max_bytes", limits.maxBytes), ("max_depth", limits.maxDepth),
    ("max_stages", limits.maxStages)].find? (fun limit => limit.2 = 0) with
  | some (name, _) => .error (.invalidLimit name)
  | none =>
    if bytes.length > limits.maxBytes then .error (.byteLimit bytes.length limits.maxBytes)
    else
      let document := serde.read bytes
      verdict ((visit limits shape 1 document.value).andThen (.ends document.trailing) none)

/-- 16 GiB. -/
def maxRequestedStackBytes : UInt64 := 17179869184

/-- `usize::MAX` of a 64-bit host. -/
def usizeMax : UInt64 := 18446744073709551615

def validateRequestedStackSize (size usizeMax : UInt64) : Except StrictIngressError UInt64 :=
  if size = 0 ∨ size > maxRequestedStackBytes ∨ size > usizeMax then
    .error (.blockingDispatch
      "requested stack size is not representable and within the supported bound")
  else .ok size

def SubstrateHint.isBlockingFamily : SubstrateHint → Bool
  | blockingPool | largeStackCapability | backgroundOnly => true
  | _ => false

def StrictScope.toTaskScope : StrictScope → TaskScope
  | root => .root
  | child c => .child c.parentOperationId c.parentStage c.parentAwaits

/-- `ValidatedTaskPlan::try_from`. -/
def ValidatedTaskPlan.tryFrom (spec : TaskSpec) : Except TaskPlanError ValidatedTaskPlan :=
  match valid : validateTaskSpec spec with
  | .ok () => .ok ⟨spec, valid⟩
  | .error error => .error error

/-- The stack size a task asks for: only a blocking-family task declares a dispatch, and it has to. -/
def dispatchStackSize (blockingFamily : Bool) (dispatch : Option StrictBlockingDispatch) :
    Except StrictIngressError (Option UInt64) :=
  match blockingFamily, dispatch with
  | true, some .sharedBlocking | false, none => .ok none
  | true, some (.requestedStack request) =>
    (validateRequestedStackSize request.stackSizeBytes usizeMax).map some
  | true, none => .error (.blockingDispatch "blocking-family task requires an explicit dispatch tag")
  | false, some _ => .error (.blockingDispatch "non-blocking task must not declare blocking dispatch")

/-- Decode bounded, strict task bytes and validate the resulting plan. -/
def parseTaskSpec (serde : SerdeJson) (bytes : List UInt8) (limits : StrictIngressLimits) :
    Except StrictIngressError ValidatedTaskPlan := do
  scan serde bytes limits .task
  let input ← (serde.taskInput bytes).mapError .decode
  let first := input.stages.head?.map StageDescriptor.substrateHint
  let stackSizeBytes ← dispatchStackSize (first.any SubstrateHint.isBlockingFamily) input.blockingDispatch
  (ValidatedTaskPlan.tryFrom
    { taskClass := input.taskClass
      operation := input.operation
      rootOperationId := input.rootOperationId
      source := input.source
      reason := input.reason
      scope := input.scope.toTaskScope
      stackSizeBytes := stackSizeBytes
      stages := input.stages }).mapError .taskPlan

/-- Decode bounded, strict deployment configuration bytes. -/
def parseRuntimeConfig (serde : SerdeJson) (bytes : List UInt8) (limits : StrictIngressLimits) :
    Except StrictIngressError StrictRuntimeConfig := do
  scan serde bytes limits .config
  (serde.runtimeInput bytes).map StrictRuntimeConfig.mk |>.mapError .decode

end Taskmesh
