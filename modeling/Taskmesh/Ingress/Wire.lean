import Taskmesh.Ingress.Parse
import Taskmesh.Serde.Derive

/-!
# The wire form of a runtime configuration

The derived `Serialize` and `Deserialize` of the configuration types (`policy.rs`, `resource.rs`,
`topology.rs`, `task.rs`) and the derived decoder of `StrictRuntimeInput` (`ingress.rs`).
-/

namespace Taskmesh

open Serde

/-! ## Resources -/

def PermitCost.serialize (cost : PermitCost) : Json :=
  .object [("cpu_units", ofUInt32 cost.cpuUnits), ("memory_units", ofUInt32 cost.memoryUnits)]

def PermitCost.deserialize : Decoder PermitCost :=
  record (((Fields.build PermitCost.mk).and (field "cpu_units" unsigned32)).and
    (field "memory_units" unsigned32))

def MemoryUnitScale.serialize (scale : MemoryUnitScale) : Json :=
  .object [("bytes_per_unit", ofUInt64 scale.bytesPerUnit)]

def MemoryUnitScale.deserialize : Decoder MemoryUnitScale :=
  record ((Fields.build MemoryUnitScale.mk).and (field "bytes_per_unit" unsigned64))

def ResourceBudget.serialize (budget : ResourceBudget) : Json :=
  .object
    [("max_cpu_units", ofUInt32 budget.maxCpuUnits),
     ("max_memory_units", ofUInt32 budget.maxMemoryUnits),
     ("per_request_max_cpu_units", ofUInt32 budget.perRequestMaxCpuUnits),
     ("per_request_max_memory_units", ofUInt32 budget.perRequestMaxMemoryUnits),
     ("memory_unit_scale", budget.memoryUnitScale.serialize)]

def ResourceBudget.deserialize : Decoder ResourceBudget :=
  record (Fields.build ResourceBudget.mk
    |>.and (field "max_cpu_units" unsigned32)
    |>.and (field "max_memory_units" unsigned32)
    |>.and (field "per_request_max_cpu_units" unsigned32)
    |>.and (field "per_request_max_memory_units" unsigned32)
    |>.and (field "memory_unit_scale" MemoryUnitScale.deserialize))

/-! ## Class policies -/

def FairnessPolicy.serialize : FairnessPolicy → Json
  | fifo => .string "Fifo"
  | weightedFairQueue weight burst =>
    .object [("WeightedFairQueue", .object [("weight", ofUInt32 weight), ("burst", ofUInt32 burst)])]
  | deficitRoundRobin quantum => .object [("DeficitRoundRobin", .object [("quantum", ofUInt32 quantum)])]
  | deadlineAware slackMs => .object [("DeadlineAware", .object [("slack_ms", ofUInt64 slackMs)])]
  | bestEffortScavenger => .string "BestEffortScavenger"

def FairnessPolicy.deserialize : Decoder FairnessPolicy :=
  variants [("Fifo", fifo), ("BestEffortScavenger", bestEffortScavenger)]
    [("WeightedFairQueue", record (Fields.build weightedFairQueue
        |>.and (field "weight" unsigned32)
        |>.and (field "burst" unsigned32))),
     ("DeficitRoundRobin", record (Fields.build deficitRoundRobin |>.and (field "quantum" unsigned32))),
     ("DeadlineAware", record (Fields.build deadlineAware |>.and (field "slack_ms" unsigned64)))]

def MemoryPermitMode.serialize : MemoryPermitMode → Json
  | estimated => .string "Estimated"
  | measured => .string "Measured"
  | hybrid => .string "Hybrid"

def MemoryPermitMode.deserialize : Decoder MemoryPermitMode :=
  variants [("Estimated", estimated), ("Measured", measured), ("Hybrid", hybrid)] []

def MemoryReleasePolicy.serialize : MemoryReleasePolicy → Json
  | onTaskCompletion => .string "OnTaskCompletion"
  | onStageBoundary => .string "OnStageBoundary"
  | leakDetecting => .string "LeakDetecting"

def MemoryReleasePolicy.deserialize : Decoder MemoryReleasePolicy :=
  variants [("OnTaskCompletion", onTaskCompletion), ("OnStageBoundary", onStageBoundary),
    ("LeakDetecting", leakDetecting)] []

def TaskClass.serialize (taskClass : TaskClass) : Json := .string taskClass.name

def TaskClass.deserialize : Decoder TaskClass := fun v => (text v).map TaskClass.mk

def MemoryOvercommitPolicy.serialize : MemoryOvercommitPolicy → Json
  | reject => .string "Reject"
  | queue => .string "Queue"
  | degradeToLight fallbackClass =>
    .object [("DegradeToLight", .object [("fallback_class", fallbackClass.serialize)])]

def MemoryOvercommitPolicy.deserialize : Decoder MemoryOvercommitPolicy :=
  variants [("Reject", reject), ("Queue", queue)]
    [("DegradeToLight", record (Fields.build degradeToLight
        |>.and (field "fallback_class" TaskClass.deserialize)))]

def OverflowPolicy.serialize : OverflowPolicy → Json
  | reject => .string "Reject"
  | queueWithinDepth => .string "QueueWithinDepth"
  | dropBestEffort => .string "DropBestEffort"

def OverflowPolicy.deserialize : Decoder OverflowPolicy :=
  variants [("Reject", reject), ("QueueWithinDepth", queueWithinDepth), ("DropBestEffort", dropBestEffort)] []

def RetryAfterPolicy.serialize : RetryAfterPolicy → Json
  | none => .string "None"
  | fixedMs value => .object [("FixedMs", ofUInt64 value)]
  | adaptive => .string "Adaptive"

def RetryAfterPolicy.deserialize : Decoder RetryAfterPolicy :=
  variants [("None", none), ("Adaptive", adaptive)] [("FixedMs", fun v => (unsigned64 v).map fixedMs)]

def CancellationPolicy.serialize : CancellationPolicy → Json
  | preSubmitOnly => .string "PreSubmitOnly"
  | cooperative => .string "Cooperative"
  | cooperativeWithDeadline => .string "CooperativeWithDeadline"

def CancellationPolicy.deserialize : Decoder CancellationPolicy :=
  variants [("PreSubmitOnly", preSubmitOnly), ("Cooperative", cooperative),
    ("CooperativeWithDeadline", cooperativeWithDeadline)] []

def CheckpointPolicy.serialize (policy : CheckpointPolicy) : Json :=
  .object
    [("every_n_work_items", ofOption ofUInt32 policy.everyNWorkItems),
     ("before_fan_out", .bool policy.beforeFanOut),
     ("before_large_allocation", .bool policy.beforeLargeAllocation),
     ("before_stage_boundary", .bool policy.beforeStageBoundary),
     ("before_reduce", .bool policy.beforeReduce)]

def CheckpointPolicy.deserialize : Decoder CheckpointPolicy :=
  record (Fields.build CheckpointPolicy.mk
    |>.and (optional "every_n_work_items" unsigned32)
    |>.and (field "before_fan_out" boolean)
    |>.and (field "before_large_allocation" boolean)
    |>.and (field "before_stage_boundary" boolean)
    |>.and (field "before_reduce" boolean))

def ClassPolicy.serialize (policy : ClassPolicy) : Json :=
  .object
    [("max_inflight", ofUInt32 policy.maxInflight),
     ("max_queue_depth", ofUInt32 policy.maxQueueDepth),
     ("permit_cost", policy.permitCost.serialize),
     ("fairness", policy.fairness.serialize),
     ("memory_permit_mode", policy.memoryPermitMode.serialize),
     ("memory_release_policy", policy.memoryReleasePolicy.serialize),
     ("memory_overcommit_policy", policy.memoryOvercommitPolicy.serialize),
     ("overflow_policy", policy.overflowPolicy.serialize),
     ("retry_after_policy", policy.retryAfterPolicy.serialize),
     ("cancellation_policy", policy.cancellationPolicy.serialize),
     ("checkpoint_policy", policy.checkpointPolicy.serialize),
     ("best_effort", .bool policy.bestEffort)]

def ClassPolicy.deserialize : Decoder ClassPolicy :=
  record (Fields.build ClassPolicy.mk
    |>.and (field "max_inflight" unsigned32)
    |>.and (field "max_queue_depth" unsigned32)
    |>.and (field "permit_cost" PermitCost.deserialize)
    |>.and (field "fairness" FairnessPolicy.deserialize)
    |>.and (field "memory_permit_mode" MemoryPermitMode.deserialize)
    |>.and (field "memory_release_policy" MemoryReleasePolicy.deserialize)
    |>.and (field "memory_overcommit_policy" MemoryOvercommitPolicy.deserialize)
    |>.and (field "overflow_policy" OverflowPolicy.deserialize)
    |>.and (field "retry_after_policy" RetryAfterPolicy.deserialize)
    |>.and (field "cancellation_policy" CancellationPolicy.deserialize)
    |>.and (field "checkpoint_policy" CheckpointPolicy.deserialize)
    |>.and (field "best_effort" boolean))

/-! ## Topology and substrates -/

def SubstrateKind.serialize : SubstrateKind → Json
  | authorityOnly => .string "AuthorityOnly"
  | competingExecution => .string "CompetingExecution"
  | maintenanceOnly => .string "MaintenanceOnly"
  | retireOrMigrate => .string "RetireOrMigrate"

def SubstrateKind.deserialize : Decoder SubstrateKind :=
  variants [("AuthorityOnly", authorityOnly), ("CompetingExecution", competingExecution),
    ("MaintenanceOnly", maintenanceOnly), ("RetireOrMigrate", retireOrMigrate)] []

def SubstrateRecord.serialize (record : SubstrateRecord) : Json :=
  .object
    [("name", .string record.name),
     ("kind", record.kind.serialize),
     ("capability_pool", ofOption Json.string record.capabilityPool)]

def SubstrateRecord.deserialize : Decoder SubstrateRecord :=
  record (Fields.build SubstrateRecord.mk
    |>.and (field "name" text)
    |>.and (field "kind" SubstrateKind.deserialize)
    |>.and (optional "capability_pool" text))

def CpuMode.serialize : CpuMode → Json
  | auto => .string "Auto"
  | fixed workers => .object [("Fixed", ofUInt64 workers)]

def CpuMode.deserialize : Decoder CpuMode :=
  variants [("Auto", auto)] [("Fixed", fun v => (unsigned64 v).map fixed)]

def PhysicalDomainMode.serialize : PhysicalDomainMode → Json
  | auto => .string "Auto"
  | fixed workers => .object [("Fixed", ofUInt64 workers)]

def PhysicalDomainMode.deserialize : Decoder PhysicalDomainMode :=
  variants [("Auto", auto)] [("Fixed", fun v => (unsigned64 v).map fixed)]

def PhysicalDomainTopology.serialize (topology : PhysicalDomainTopology) : Json :=
  .object [("shared_blocking", topology.sharedBlocking.serialize), ("dedicated", topology.dedicated.serialize)]

def PhysicalDomainTopology.deserialize : Decoder PhysicalDomainTopology :=
  record (Fields.build PhysicalDomainTopology.mk
    |>.and (field "shared_blocking" PhysicalDomainMode.deserialize)
    |>.and (field "dedicated" PhysicalDomainMode.deserialize))

def CpuPoolConfig.serialize (cpu : CpuPoolConfig) : Json :=
  .object
    [("mode", cpu.mode.serialize),
     ("reserve_cores", ofUInt64 cpu.reserveCores),
     ("min_workers", ofUInt64 cpu.minWorkers),
     ("max_workers", ofUInt64 cpu.maxWorkers)]

def CpuPoolConfig.deserialize : Decoder CpuPoolConfig :=
  record (Fields.build CpuPoolConfig.mk
    |>.and (field "mode" CpuMode.deserialize)
    |>.and (field "reserve_cores" unsigned64)
    |>.and (field "min_workers" unsigned64)
    |>.and (field "max_workers" unsigned64))

def TopologyConfig.serialize (topology : TopologyConfig) : Json :=
  .object
    [("cpu", topology.cpu.serialize),
     ("blocking_threads", ofUInt64 topology.blockingThreads),
     ("large_stack_slots", ofUInt64 topology.largeStackSlots),
     ("maintenance_workers", ofUInt64 topology.maintenanceWorkers),
     ("local_runtime_slots", ofUInt64 topology.localRuntimeSlots),
     ("physical_domains", topology.physicalDomains.serialize)]

def TopologyConfig.deserialize : Decoder TopologyConfig :=
  record (Fields.build TopologyConfig.mk
    |>.and (field "cpu" CpuPoolConfig.deserialize)
    |>.and (field "blocking_threads" unsigned64)
    |>.and (field "large_stack_slots" unsigned64)
    |>.and (field "maintenance_workers" unsigned64)
    |>.and (field "local_runtime_slots" unsigned64)
    |>.and (defaulted "physical_domains" PhysicalDomainTopology.deserialize .new))

/-! ## The declaration -/

/-- `BTreeMap<TaskClass, ClassPolicy>`, in key order. -/
def serializeClasses (classes : BTreeMap TaskClass ClassPolicy) : Json :=
  .object (classes.toList.map fun entry => (entry.1.name, entry.2.serialize))

def deserializeClasses : Decoder (BTreeMap TaskClass ClassPolicy) := fun v =>
  (entries TaskClass.mk ClassPolicy.deserialize v).map fun list => Std.ExtTreeMap.ofList list

/-- `BTreeMap<String, u32>`, in key order. -/
def serializeLimits (limits : BTreeMap String UInt32) : Json :=
  .object (limits.toList.map fun entry => (entry.1, ofUInt32 entry.2))

def deserializeLimits : Decoder (BTreeMap String UInt32) := fun v =>
  (entries id unsigned32 v).map fun list => Std.ExtTreeMap.ofList list

/-- The document of a configuration. -/
def StrictRuntimeInput.serialize (input : StrictRuntimeInput) : Json :=
  .object
    [("topology", input.topology.serialize),
     ("resources", input.resources.serialize),
     ("classes", serializeClasses input.classes),
     ("extra_substrates", .array (input.extraSubstrates.map SubstrateRecord.serialize)),
     ("capability_limits", serializeLimits input.capabilityLimits)]

def StrictRuntimeInput.deserialize : Decoder StrictRuntimeInput :=
  closedRecord ["topology", "resources", "classes", "extra_substrates", "capability_limits"]
    (Fields.build StrictRuntimeInput.mk
      |>.and (field "topology" TopologyConfig.deserialize)
      |>.and (field "resources" ResourceBudget.deserialize)
      |>.and (field "classes" deserializeClasses)
      |>.and (defaulted "extra_substrates" (sequence SubstrateRecord.deserialize) [])
      |>.and (defaulted "capability_limits" deserializeLimits ∅))

/-- Runtime configurations are decoded by the derived decoder, and no bytes are no document. -/
structure SerdeJson.Derives (serde : SerdeJson) : Prop where
  decodes : ∀ bytes (v : Json) input, serde.read bytes = v.document →
    StrictRuntimeInput.deserialize v = some input → serde.runtimeInput bytes = .ok input
  nonempty : ∀ v : Json, serde.read [] ≠ v.document

end Taskmesh
