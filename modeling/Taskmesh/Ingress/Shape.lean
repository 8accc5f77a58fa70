import Taskmesh.Contract.Task

/-!
# The shapes of a declaration

The limits, the rejections and the shape table of the strict ingress (`ingress.rs`). A shape names what
a JSON value stands for; `Shape.field` says which keys an object of a shape may have and what their
values stand for.
-/

namespace Taskmesh

/-- Bounds on a governance declaration. -/
structure StrictIngressLimits where
  maxBytes : Nat
  maxDepth : Nat
  maxStages : Nat
  deriving DecidableEq

/-- `StrictIngressLimits::default`. -/
def StrictIngressLimits.new : StrictIngressLimits where
  maxBytes := 1048576
  maxDepth := 32
  maxStages := 64

/-- A rejection before any builder, governor, worker, permit or ticket exists. -/
inductive StrictIngressError where
  | invalidLimit (name : String)
  | byteLimit (actual max : Nat)
  | depthLimit (max : Nat)
  | stageLimit (max : Nat)
  | duplicateKey (key : String)
  | unknownKey (object key : String)
  | invalidShape (shape : String)
  | decode (error : String)
  | taskPlan (error : TaskPlanError)
  | blockingDispatch (error : String)
  deriving DecidableEq

inductive Shape where
  | task
  | scope
  | child
  | stages
  | stage
  | reduce
  | blockingDispatch
  | requestedStack
  | config
  | topology
  | cpu
  | cpuMode
  | physicalDomains
  | physicalMode
  | resources
  | memoryScale
  | classes
  | classPolicy
  | retryAfter
  | permitCost
  | fairness
  | wfq
  | drr
  | deadlineAware
  | overcommit
  | degrade
  | checkpoint
  | substrates
  | substrate
  | capabilityLimits
  | scalar
  deriving DecidableEq

namespace Shape

def name : Shape → String
  | task => "task"
  | scope => "scope"
  | child => "child"
  | stages => "stages"
  | stage => "stage"
  | reduce => "reduce_policy"
  | blockingDispatch => "blocking_dispatch"
  | requestedStack => "requested_stack"
  | config => "runtime config"
  | topology => "topology"
  | cpu => "cpu topology"
  | cpuMode => "cpu mode"
  | physicalDomains => "physical_domains"
  | physicalMode => "physical domain mode"
  | resources => "resources"
  | memoryScale => "memory_unit_scale"
  | classes => "classes"
  | classPolicy => "class policy"
  | retryAfter => "retry_after_policy"
  | permitCost => "permit_cost"
  | fairness => "fairness"
  | wfq => "WeightedFairQueue"
  | drr => "DeficitRoundRobin"
  | deadlineAware => "DeadlineAware"
  | overcommit => "memory_overcommit_policy"
  | degrade => "DegradeToLight"
  | checkpoint => "checkpoint_policy"
  | substrates => "extra_substrates"
  | substrate => "substrate"
  | capabilityLimits => "capability_limits"
  | scalar => "scalar"

/-- The shape of the value under a key, if an object of this shape may have the key. -/
def field (shape : Shape) (key : String) : Option Shape :=
  match shape with
  | task =>
    if key ∈ ["class", "operation", "root_operation_id", "source", "reason"] then some scalar
    else if key = "scope" then some scope
    else if key = "blocking_dispatch" then some blockingDispatch
    else if key = "stages" then some stages
    else none
  | scope => if key = "Child" then some child else none
  | child => if key ∈ ["parent_operation_id", "parent_stage", "parent_awaits"] then some scalar else none
  | stage =>
    if key ∈ ["class", "stage", "substrate_hint", "fan_out"] then some scalar
    else if key = "reduce_policy" then some reduce
    else none
  | reduce =>
    if key ∈ ["stable_sort_key", "duplicate_merge", "tie_break", "error_aggregation",
      "partial_result_ordering"] then some scalar
    else none
  | blockingDispatch => if key = "requested_stack" then some requestedStack else none
  | requestedStack => if key = "stack_size_bytes" then some scalar else none
  | config =>
    if key = "topology" then some topology
    else if key = "resources" then some resources
    else if key = "classes" then some classes
    else if key = "extra_substrates" then some substrates
    else if key = "capability_limits" then some capabilityLimits
    else none
  | topology =>
    if key = "cpu" then some cpu
    else if key = "physical_domains" then some physicalDomains
    else if key ∈ ["blocking_threads", "large_stack_slots", "maintenance_workers",
      "local_runtime_slots"] then some scalar
    else none
  | cpu =>
    if key = "mode" then some cpuMode
    else if key ∈ ["reserve_cores", "min_workers", "max_workers"] then some scalar
    else none
  | physicalDomains => if key ∈ ["shared_blocking", "dedicated"] then some physicalMode else none
  | cpuMode | physicalMode => if key = "Fixed" then some scalar else none
  | resources =>
    if key ∈ ["max_cpu_units", "max_memory_units", "per_request_max_cpu_units",
      "per_request_max_memory_units"] then some scalar
    else if key = "memory_unit_scale" then some memoryScale
    else none
  | memoryScale => if key = "bytes_per_unit" then some scalar else none
  | classes => some classPolicy
  | classPolicy =>
    if key ∈ ["max_inflight", "max_queue_depth", "memory_permit_mode", "memory_release_policy",
      "overflow_policy", "cancellation_policy", "best_effort"] then some scalar
    else if key = "permit_cost" then some permitCost
    else if key = "fairness" then some fairness
    else if key = "memory_overcommit_policy" then some overcommit
    else if key = "retry_after_policy" then some retryAfter
    else if key = "checkpoint_policy" then some checkpoint
    else none
  | retryAfter => if key = "FixedMs" then some scalar else none
  | permitCost => if key ∈ ["cpu_units", "memory_units"] then some scalar else none
  | fairness =>
    if key = "WeightedFairQueue" then some wfq
    else if key = "DeficitRoundRobin" then some drr
    else if key = "DeadlineAware" then some deadlineAware
    else none
  | wfq => if key ∈ ["weight", "burst"] then some scalar else none
  | drr => if key = "quantum" then some scalar else none
  | deadlineAware => if key = "slack_ms" then some scalar else none
  | overcommit => if key = "DegradeToLight" then some degrade else none
  | degrade => if key = "fallback_class" then some scalar else none
  | checkpoint =>
    if key ∈ ["every_n_work_items", "before_fan_out", "before_large_allocation",
      "before_stage_boundary", "before_reduce"] then some scalar
    else none
  | substrate => if key ∈ ["name", "kind", "capability_pool"] then some scalar else none
  | capabilityLimits => some scalar
  | stages | substrates | scalar => none

end Shape

end Taskmesh
