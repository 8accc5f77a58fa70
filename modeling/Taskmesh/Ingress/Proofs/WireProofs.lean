import Taskmesh.Ingress.Proofs.ScanProofs
import Taskmesh.Ingress.Wire

/-!
# Configurations round trip

What the derived encoders write is accepted where it stands, and the derived decoders read it back. The
deepest value is the class a memory policy degrades to, five levels down.
-/

namespace Taskmesh

open Serde

variable {limits : StrictIngressLimits} {depth : Nat}

/-! ## What is written is read back -/

theorem PermitCost.deserialize_serialize (cost : PermitCost) : deserialize cost.serialize = some cost := by
  unfold deserialize serialize record
  simp [lookup]

theorem MemoryUnitScale.deserialize_serialize (scale : MemoryUnitScale) :
    deserialize scale.serialize = some scale := by
  unfold deserialize serialize record
  simp [lookup]

theorem ResourceBudget.deserialize_serialize (budget : ResourceBudget) :
    deserialize budget.serialize = some budget := by
  unfold deserialize serialize record
  simp [lookup, MemoryUnitScale.deserialize_serialize]

theorem TaskClass.deserialize_serialize (taskClass : TaskClass) : deserialize taskClass.serialize = some taskClass := by
  unfold deserialize serialize
  simp

/-- Every variant comes back, with its fields. -/
theorem FairnessPolicy.deserialize_serialize (policy : FairnessPolicy) :
    deserialize policy.serialize = some policy := by
  unfold deserialize
  cases policy with
  | fifo | bestEffortScavenger => simp [serialize]
  | weightedFairQueue | deficitRoundRobin | deadlineAware => simp [serialize, variants_tagged, record, lookup]

theorem MemoryPermitMode.deserialize_serialize (mode : MemoryPermitMode) :
    deserialize mode.serialize = some mode := by
  unfold deserialize
  cases mode <;> simp [serialize]

theorem MemoryReleasePolicy.deserialize_serialize (policy : MemoryReleasePolicy) :
    deserialize policy.serialize = some policy := by
  unfold deserialize
  cases policy <;> simp [serialize]

theorem MemoryOvercommitPolicy.deserialize_serialize (policy : MemoryOvercommitPolicy) :
    deserialize policy.serialize = some policy := by
  unfold deserialize
  cases policy with
  | reject | queue => simp [serialize]
  | degradeToLight => simp [serialize, variants_tagged, record, lookup, TaskClass.deserialize_serialize]

theorem OverflowPolicy.deserialize_serialize (policy : OverflowPolicy) :
    deserialize policy.serialize = some policy := by
  unfold deserialize
  cases policy <;> simp [serialize]

theorem RetryAfterPolicy.deserialize_serialize (policy : RetryAfterPolicy) :
    deserialize policy.serialize = some policy := by
  unfold deserialize
  cases policy with
  | none | adaptive => simp [serialize]
  | fixedMs => simp [serialize, variants_tagged]

theorem CancellationPolicy.deserialize_serialize (policy : CancellationPolicy) :
    deserialize policy.serialize = some policy := by
  unfold deserialize
  cases policy <;> simp [serialize]

theorem CheckpointPolicy.deserialize_serialize (policy : CheckpointPolicy) :
    deserialize policy.serialize = some policy := by
  have hitems := nullable_ofOption ofUInt32_ne_null unsigned32_ofUInt32 policy.everyNWorkItems
  unfold deserialize serialize record
  simp [lookup, hitems]

/-- A policy comes back field by field. -/
theorem ClassPolicy.deserialize_serialize (policy : ClassPolicy) :
    deserialize policy.serialize = some policy := by
  unfold deserialize serialize record
  simp [lookup, PermitCost.deserialize_serialize, FairnessPolicy.deserialize_serialize,
    MemoryPermitMode.deserialize_serialize, MemoryReleasePolicy.deserialize_serialize,
    MemoryOvercommitPolicy.deserialize_serialize, OverflowPolicy.deserialize_serialize,
    RetryAfterPolicy.deserialize_serialize, CancellationPolicy.deserialize_serialize,
    CheckpointPolicy.deserialize_serialize]

theorem SubstrateKind.deserialize_serialize (kind : SubstrateKind) : deserialize kind.serialize = some kind := by
  unfold deserialize
  cases kind <;> simp [serialize]

theorem SubstrateRecord.deserialize_serialize (substrate : SubstrateRecord) :
    deserialize substrate.serialize = some substrate := by
  have hpool := nullable_ofOption (by simp) text_string substrate.capabilityPool
  unfold deserialize serialize record
  simp [lookup, SubstrateKind.deserialize_serialize, hpool]

theorem CpuMode.deserialize_serialize (mode : CpuMode) : deserialize mode.serialize = some mode := by
  unfold deserialize
  cases mode with
  | auto => simp [serialize]
  | fixed => simp [serialize, variants_tagged]

theorem PhysicalDomainMode.deserialize_serialize (mode : PhysicalDomainMode) :
    deserialize mode.serialize = some mode := by
  unfold deserialize
  cases mode with
  | auto => simp [serialize]
  | fixed => simp [serialize, variants_tagged]

theorem PhysicalDomainTopology.deserialize_serialize (topology : PhysicalDomainTopology) :
    deserialize topology.serialize = some topology := by
  unfold deserialize serialize record
  simp [lookup, PhysicalDomainMode.deserialize_serialize]

theorem CpuPoolConfig.deserialize_serialize (cpu : CpuPoolConfig) : deserialize cpu.serialize = some cpu := by
  unfold deserialize serialize record
  simp [lookup, CpuMode.deserialize_serialize]

/-- The one defaulted field is always written, so its default is not used. -/
theorem TopologyConfig.deserialize_serialize (topology : TopologyConfig) :
    deserialize topology.serialize = some topology := by
  unfold deserialize serialize record
  simp [lookup, CpuPoolConfig.deserialize_serialize, PhysicalDomainTopology.deserialize_serialize]

/-- A map is rebuilt from its entries. -/
theorem ofList_toList {K V : Type} [DecidableEq K] [Ord K] [Std.TransOrd K] [Std.LawfulEqOrd K]
    (map : BTreeMap K V) : Std.ExtTreeMap.ofList map.toList = map := by
  refine Std.ExtTreeMap.ext_getElem? fun key => ?_
  cases hvalue : map[key]? with
  | some value =>
    exact Std.ExtTreeMap.getElem?_ofList_of_mem Std.ReflCmp.compare_self Std.ExtTreeMap.distinct_keys_toList
      (Std.ExtTreeMap.mem_toList_iff_getElem?_eq_some.mpr hvalue)
  | none =>
    have habsent : key ∉ map := by
      rw [Std.ExtTreeMap.mem_iff_isSome_getElem?, hvalue]
      simp
    refine Std.ExtTreeMap.getElem?_ofList_of_contains_eq_false ?_
    rw [Std.ExtTreeMap.map_fst_toList_eq_keys]
    simpa using habsent

/-- The classes come back whatever their names are: each key was written once. -/
theorem deserializeClasses_serializeClasses (classes : BTreeMap TaskClass ClassPolicy) :
    deserializeClasses (serializeClasses classes) = some classes := by
  unfold deserializeClasses serializeClasses
  rw [entries_map TaskClass.name TaskClass.mk (fun _ => rfl) ClassPolicy.deserialize_serialize, Option.map_some,
    ofList_toList]

theorem deserializeLimits_serializeLimits (capabilities : BTreeMap String UInt32) :
    deserializeLimits (serializeLimits capabilities) = some capabilities := by
  have hentries := entries_map id id (fun _ => rfl) unsigned32_ofUInt32 capabilities.toList
  unfold deserializeLimits serializeLimits
  simp only [id_eq] at hentries
  rw [hentries, Option.map_some, ofList_toList]

/-- The derived decoder reads back what the derived encoder wrote. -/
theorem StrictRuntimeInput.deserialize_serialize (input : StrictRuntimeInput) :
    deserialize input.serialize = some input := by
  have hsubstrates := sequence_map SubstrateRecord.deserialize_serialize input.extraSubstrates
  unfold deserialize serialize closedRecord
  simp [lookup, TopologyConfig.deserialize_serialize, ResourceBudget.deserialize_serialize,
    deserializeClasses_serializeClasses, deserializeLimits_serializeLimits, hsubstrates]

/-! ## What is written is accepted -/

/-- An absent value is `null`, and stays a leaf. -/
theorem isLeaf_ofOption {α : Type} {encode : α → Json} (h : ∀ a, (encode a).isLeaf = true) (value : Option α) :
    (ofOption encode value).isLeaf = true := by
  cases value with
  | none => rfl
  | some a => exact h a

theorem PermitCost.conforms (cost : PermitCost) (h : depth ≤ limits.maxDepth) :
    Conforms limits .permitCost depth cost.serialize :=
  Fits.conforms (.leaf (by decide) rfl (.leaf (by decide) rfl .nil)) (by decide) h (by simp)

theorem MemoryUnitScale.conforms (scale : MemoryUnitScale) (h : depth ≤ limits.maxDepth) :
    Conforms limits .memoryScale depth scale.serialize :=
  Fits.conforms (.leaf (by decide) rfl .nil) (by decide) h (by simp)

theorem ResourceBudget.conforms (budget : ResourceBudget) (h : depth + 1 ≤ limits.maxDepth) :
    Conforms limits .resources depth budget.serialize := by
  have hscale := MemoryUnitScale.conforms budget.memoryUnitScale h
  refine Fits.conforms ?_ (by decide) (by omega) (by simp)
  exact .leaf (by decide) rfl (.leaf (by decide) rfl (.leaf (by decide) rfl (.leaf (by decide) rfl
    (.cons rfl hscale .nil))))

theorem FairnessPolicy.conforms (policy : FairnessPolicy) (h : depth + 1 ≤ limits.maxDepth) :
    Conforms limits .fairness depth policy.serialize := by
  have htagged : ∀ {name v} {field : Shape}, Shape.fairness.field name = some field →
      Conforms limits field (depth + 1) v → Conforms limits .fairness depth (.object [(name, v)]) := by
    intro name v field hfield hv
    exact Fits.conforms (.cons hfield hv .nil) (by decide) (by omega) (by simp)
  cases policy with
  | fifo | bestEffortScavenger => exact .leaf rfl
  | weightedFairQueue weight burst =>
    exact htagged rfl (Fits.conforms (.leaf (by decide) rfl (.leaf (by decide) rfl .nil)) (by decide) h (by simp))
  | deficitRoundRobin quantum =>
    exact htagged rfl (Fits.conforms (.leaf (by decide) rfl .nil) (by decide) h (by simp))
  | deadlineAware slackMs =>
    exact htagged rfl (Fits.conforms (.leaf (by decide) rfl .nil) (by decide) h (by simp))

theorem MemoryOvercommitPolicy.conforms (policy : MemoryOvercommitPolicy) (h : depth + 1 ≤ limits.maxDepth) :
    Conforms limits .overcommit depth policy.serialize := by
  cases policy with
  | reject | queue => exact .leaf rfl
  | degradeToLight fallbackClass =>
    have hdegrade : Conforms limits .degrade (depth + 1) (.object [("fallback_class", fallbackClass.serialize)]) :=
      Fits.conforms (.leaf (by decide) rfl .nil) (by decide) h (by simp)
    exact Fits.conforms (.cons rfl hdegrade .nil) (by decide) (by omega) (by simp)

theorem RetryAfterPolicy.conforms (policy : RetryAfterPolicy) (h : depth ≤ limits.maxDepth) :
    Conforms limits .retryAfter depth policy.serialize := by
  cases policy with
  | none | adaptive => exact .leaf rfl
  | fixedMs value => exact Fits.conforms (.leaf (by decide) rfl .nil) (by decide) h (by simp)

theorem CheckpointPolicy.conforms (policy : CheckpointPolicy) (h : depth ≤ limits.maxDepth) :
    Conforms limits .checkpoint depth policy.serialize := by
  have hitems : (ofOption ofUInt32 policy.everyNWorkItems).isLeaf = true := isLeaf_ofOption (fun _ => rfl) _
  refine Fits.conforms ?_ (by decide) h (by simp)
  exact .leaf (by decide) hitems (.leaf (by decide) rfl (.leaf (by decide) rfl (.leaf (by decide) rfl
    (.leaf (by decide) rfl .nil))))

/-- A policy fits its shape two levels deep: its fairness and its fallback are nested. -/
theorem ClassPolicy.conforms (policy : ClassPolicy) (h : depth + 2 ≤ limits.maxDepth) :
    Conforms limits .classPolicy depth policy.serialize := by
  have hcost : Conforms limits .permitCost (depth + 1) policy.permitCost.serialize :=
    policy.permitCost.conforms (by omega)
  have hfairness := FairnessPolicy.conforms policy.fairness h
  have hovercommit := MemoryOvercommitPolicy.conforms policy.memoryOvercommitPolicy h
  have hretry : Conforms limits .retryAfter (depth + 1) policy.retryAfterPolicy.serialize :=
    policy.retryAfterPolicy.conforms (by omega)
  have hcheckpoint : Conforms limits .checkpoint (depth + 1) policy.checkpointPolicy.serialize :=
    policy.checkpointPolicy.conforms (by omega)
  have hmode : policy.memoryPermitMode.serialize.isLeaf = true := by cases policy.memoryPermitMode <;> rfl
  have hrelease : policy.memoryReleasePolicy.serialize.isLeaf = true := by cases policy.memoryReleasePolicy <;> rfl
  have hoverflow : policy.overflowPolicy.serialize.isLeaf = true := by cases policy.overflowPolicy <;> rfl
  have hcancellation : policy.cancellationPolicy.serialize.isLeaf = true := by
    cases policy.cancellationPolicy <;> rfl
  refine Fits.conforms ?_ (by decide) (by omega) (by simp)
  refine .leaf (by decide) rfl (.leaf (by decide) rfl (.cons rfl hcost (.cons rfl hfairness ?_)))
  refine .leaf (by decide) hmode (.leaf (by decide) hrelease (.cons rfl hovercommit ?_))
  refine .leaf (by decide) hoverflow (.cons rfl hretry (.leaf (by decide) hcancellation ?_))
  exact .cons rfl hcheckpoint (.leaf (by decide) rfl .nil)

theorem SubstrateRecord.conforms (substrate : SubstrateRecord) (h : depth ≤ limits.maxDepth) :
    Conforms limits .substrate depth substrate.serialize := by
  have hkind : substrate.kind.serialize.isLeaf = true := by cases substrate.kind <;> rfl
  have hpool : (ofOption Json.string substrate.capabilityPool).isLeaf = true := isLeaf_ofOption (fun _ => rfl) _
  refine Fits.conforms ?_ (by decide) h (by simp)
  exact .leaf (by decide) rfl (.leaf (by decide) hkind (.leaf (by decide) hpool .nil))

theorem CpuMode.conforms (mode : CpuMode) (h : depth ≤ limits.maxDepth) :
    Conforms limits .cpuMode depth mode.serialize := by
  cases mode with
  | auto => exact .leaf rfl
  | fixed workers => exact Fits.conforms (.leaf (by decide) rfl .nil) (by decide) h (by simp)

theorem PhysicalDomainMode.conforms (mode : PhysicalDomainMode) (h : depth ≤ limits.maxDepth) :
    Conforms limits .physicalMode depth mode.serialize := by
  cases mode with
  | auto => exact .leaf rfl
  | fixed workers => exact Fits.conforms (.leaf (by decide) rfl .nil) (by decide) h (by simp)

/-- A topology fits its shape two levels deep. -/
theorem TopologyConfig.conforms (topology : TopologyConfig) (h : depth + 2 ≤ limits.maxDepth) :
    Conforms limits .topology depth topology.serialize := by
  have hcpu : Conforms limits .cpu (depth + 1) topology.cpu.serialize :=
    Fits.conforms (.cons rfl (topology.cpu.mode.conforms h) (.leaf (by decide) rfl (.leaf (by decide) rfl
      (.leaf (by decide) rfl .nil)))) (by decide) (by omega) (by simp)
  have hdomains : Conforms limits .physicalDomains (depth + 1) topology.physicalDomains.serialize :=
    Fits.conforms (.cons rfl (topology.physicalDomains.sharedBlocking.conforms h)
      (.cons rfl (topology.physicalDomains.dedicated.conforms h) .nil)) (by decide) (by omega) (by simp)
  refine Fits.conforms ?_ (by decide) (by omega) (by simp)
  refine .cons rfl hcpu (.leaf (by decide) rfl (.leaf (by decide) rfl ?_))
  exact .leaf (by decide) rfl (.leaf (by decide) rfl (.cons rfl hdomains .nil))

/-- A map writes each key once. -/
theorem nodup_keys {K V : Type} [Ord K] [Std.TransOrd K] (map : BTreeMap K V) :
    (map.toList.map Prod.fst).Nodup := by
  rw [List.Nodup, List.pairwise_map]
  refine Std.ExtTreeMap.distinct_keys_toList.imp ?_
  intro a b hdistinct heq
  exact hdistinct (heq ▸ Std.ReflCmp.compare_self)

/-- Under the shape of the classes every key is known, and each occurs once. -/
theorem conforms_serializeClasses (classes : BTreeMap TaskClass ClassPolicy) (h : depth + 3 ≤ limits.maxDepth) :
    Conforms limits .classes depth (serializeClasses classes) := by
  refine Fits.conforms ?_ (by decide) (by omega) ?_
  · intro m hm
    obtain ⟨entry, _, rfl⟩ := List.mem_map.mp hm
    exact ⟨.classPolicy, rfl, entry.2.conforms h⟩
  · rw [List.map_map]
    have hnames := (nodup_keys classes).map (f := TaskClass.name) (by
      intro a b h
      cases a
      cases b
      exact congrArg TaskClass.mk h)
    rwa [List.map_map] at hnames

theorem conforms_serializeLimits (capabilities : BTreeMap String UInt32) (h : depth ≤ limits.maxDepth) :
    Conforms limits .capabilityLimits depth (serializeLimits capabilities) := by
  refine Fits.conforms ?_ (by decide) h ?_
  · intro m hm
    obtain ⟨entry, _, rfl⟩ := List.mem_map.mp hm
    exact ⟨.scalar, rfl, .leaf rfl⟩
  · rw [List.map_map]
    exact nodup_keys capabilities

/-- Five levels are enough for every configuration. -/
theorem StrictRuntimeInput.conforms (input : StrictRuntimeInput) (h : 5 ≤ limits.maxDepth) :
    Conforms limits .config 1 input.serialize := by
  have htopology : Conforms limits .topology 2 input.topology.serialize := input.topology.conforms (by omega)
  have hresources : Conforms limits .resources 2 input.resources.serialize := input.resources.conforms (by omega)
  have hclasses : Conforms limits .classes 2 (serializeClasses input.classes) :=
    conforms_serializeClasses input.classes (by omega)
  have hlimits : Conforms limits .capabilityLimits 2 (serializeLimits input.capabilityLimits) :=
    conforms_serializeLimits input.capabilityLimits (by omega)
  have hsubstrates : Conforms limits .substrates 2
      (.array (input.extraSubstrates.map SubstrateRecord.serialize)) := by
    refine .substrates (by omega) ?_
    intro v hv
    obtain ⟨substrate, _, rfl⟩ := List.mem_map.mp hv
    exact substrate.conforms (by omega)
  refine Fits.conforms ?_ (by decide) (by omega) (by simp)
  exact .cons rfl htopology (.cons rfl hresources (.cons rfl hclasses (.cons rfl hsubstrates
    (.cons rfl hlimits .nil))))

/-! ## The round trip -/

/-- A configuration that fits is accepted, and decodes to itself. -/
theorem config_round_trip (serde : SerdeJson) (hserde : serde.Derives) (input : StrictRuntimeInput)
    (bytes : List UInt8) (hread : serde.read bytes = input.serialize.document)
    (hfits : bytes.length ≤ limits.maxBytes) (hdepth : 5 ≤ limits.maxDepth) (hstages : limits.maxStages ≠ 0) :
    parseRuntimeConfig serde bytes limits = .ok ⟨input⟩ := by
  have hlength : bytes.length ≠ 0 := by
    intro hzero
    rw [List.length_eq_zero_iff.mp hzero] at hread
    exact hserde.nonempty _ hread
  have hlimits : limits.Nonzero := ⟨by omega, by omega, hstages⟩
  have hscan : scan serde bytes limits .config = .ok () :=
    (scan_ok_iff hlimits).mpr ⟨hfits, _, hread, input.conforms hdepth⟩
  have hdecoded : serde.runtimeInput bytes = .ok input :=
    hserde.decodes bytes _ input hread input.deserialize_serialize
  unfold parseRuntimeConfig
  rw [hscan, hdecoded]
  rfl

namespace Sample

/-- Two units of processor and a fair share for every task, with a lighter class to fall back to. -/
def renderPolicy : ClassPolicy :=
  { ClassPolicy.new with
    permitCost := ⟨2, 16⟩
    fairness := .weightedFairQueue 3 1
    memoryOvercommitPolicy := .degradeToLight ⟨"preview"⟩
    retryAfterPolicy := .fixedMs 250
    checkpointPolicy := ⟨some 64, true, false, true, true⟩ }

/-- One class, one substrate with a pool, and the limit of that pool. -/
def runtimeInput : StrictRuntimeInput where
  topology := ⟨⟨.auto, 0, 1, 8⟩, 0, 0, 0, 0, .new⟩
  resources := ⟨0, 0, 0, 0, ⟨1⟩⟩
  classes := (∅ : BTreeMap TaskClass ClassPolicy).insert ⟨"render"⟩ renderPolicy
  extraSubstrates := [⟨"gpu-queue", .competingExecution, some "gpu"⟩]
  capabilityLimits := (∅ : BTreeMap String UInt32).insert "gpu" 4

/-- The text that `serde_json` writes for the class, after the opening brace. -/
def renderText : String :=
  "\"max_inflight\":4294967295,\"max_queue_depth\":0,\"permit_cost\":\x7b\"cpu_units\":2,\"memory_units\":16\x7d," ++
  "\"fairness\":\x7b\"WeightedFairQueue\":\x7b\"weight\":3,\"burst\":1\x7d\x7d," ++
  "\"memory_permit_mode\":\"Estimated\",\"memory_release_policy\":\"OnTaskCompletion\"," ++
  "\"memory_overcommit_policy\":\x7b\"DegradeToLight\":\x7b\"fallback_class\":\"preview\"\x7d\x7d," ++
  "\"overflow_policy\":\"Reject\",\"retry_after_policy\":\x7b\"FixedMs\":250\x7d," ++
  "\"cancellation_policy\":\"PreSubmitOnly\",\"checkpoint_policy\":\x7b\"every_n_work_items\":64," ++
  "\"before_fan_out\":true,\"before_large_allocation\":false,\"before_stage_boundary\":true," ++
  "\"before_reduce\":true\x7d,\"best_effort\":false\x7d"

/-- The text that `serde_json` writes for the configuration, after the opening brace. -/
def runtimeText : String :=
  "\"topology\":\x7b\"cpu\":\x7b\"mode\":\"Auto\",\"reserve_cores\":0,\"min_workers\":1," ++
  "\"max_workers\":8\x7d,\"blocking_threads\":0,\"large_stack_slots\":0,\"maintenance_workers\":0," ++
  "\"local_runtime_slots\":0,\"physical_domains\":\x7b\"shared_blocking\":\"Auto\"," ++
  "\"dedicated\":\"Auto\"\x7d\x7d,\"resources\":\x7b\"max_cpu_units\":0,\"max_memory_units\":0," ++
  "\"per_request_max_cpu_units\":0,\"per_request_max_memory_units\":0," ++
  "\"memory_unit_scale\":\x7b\"bytes_per_unit\":1\x7d\x7d,\"classes\":\x7b\"render\":\x7b" ++ renderText ++
  "\x7d,\"extra_substrates\":[\x7b\"name\":\"gpu-queue\",\"kind\":\"CompetingExecution\"," ++
  "\"capability_pool\":\"gpu\"\x7d],\"capability_limits\":\x7b\"gpu\":4\x7d\x7d"

def runtimeBytes : List UInt8 := 123 :: runtimeText.toList.map fun c => c.val.toUInt8

/-- The reader and the derived decoder at these bytes; any other bytes are cut short. -/
def derivedJson : SerdeJson where
  read bytes :=
    if bytes = runtimeBytes then runtimeInput.serialize.document
    else ⟨.broken "EOF while parsing a value", none⟩
  taskInput _ := .error "missing field: class"
  runtimeInput bytes := if bytes = runtimeBytes then .ok runtimeInput else .error "EOF while parsing a value"

theorem runtimeBytes_ne_nil : runtimeBytes ≠ [] := List.cons_ne_nil _ _

/-- The reader of the sample decodes the only document it reads. -/
theorem derivedJson_derives : derivedJson.Derives where
  decodes bytes v input hread hdecoded := by
    by_cases hbytes : bytes = runtimeBytes
    · simp only [derivedJson, hbytes, if_true] at hread ⊢
      rw [← Json.document_inj hread, StrictRuntimeInput.deserialize_serialize] at hdecoded
      rw [Option.some.inj hdecoded]
    · simp [derivedJson, hbytes, Json.document] at hread
      have htext : Text.broken "EOF while parsing a value" ≠ v.text := by
        cases v <;> simp [Json.text]
      exact absurd hread htext
  nonempty v := by
    have hbytes : [] ≠ runtimeBytes := runtimeBytes_ne_nil.symm
    have htext : Text.broken "EOF while parsing a value" ≠ v.text := by
      cases v <;> simp [Json.text]
    simp [derivedJson, hbytes, Json.document, htext]

/-- The default limits, with as many bytes as the sample takes. -/
def runtimeLimits : StrictIngressLimits := { StrictIngressLimits.new with maxBytes := runtimeBytes.length }

theorem runtimeBytes_fit : runtimeBytes.length ≤ runtimeLimits.maxBytes := by
  simp [runtimeLimits]

end Sample

/-- The sample declares a class and a substrate, and comes back as it was. -/
theorem sample_round_trip : parseRuntimeConfig Sample.derivedJson Sample.runtimeBytes Sample.runtimeLimits =
    .ok ⟨Sample.runtimeInput⟩ := by
  have hread : Sample.derivedJson.read Sample.runtimeBytes = Sample.runtimeInput.serialize.document := by
    simp [Sample.derivedJson]
  exact config_round_trip Sample.derivedJson Sample.derivedJson_derives Sample.runtimeInput Sample.runtimeBytes hread
    Sample.runtimeBytes_fit (by decide) (by decide)

/-- Without any stages allowed even a configuration, which has none, is refused. -/
theorem parseRuntimeConfig_of_no_stages (serde : SerdeJson) (bytes : List UInt8) (hbytes : limits.maxBytes ≠ 0)
    (hdepth : limits.maxDepth ≠ 0) (hstages : limits.maxStages = 0) :
    parseRuntimeConfig serde bytes limits = .error (.invalidLimit "max_stages") := by
  have hscan : scan serde bytes limits .config = .error (.invalidLimit "max_stages") := by
    unfold scan
    simp [hbytes, hdepth, hstages]
  unfold parseRuntimeConfig
  rw [hscan]
  rfl

/-- With no stages allowed the text of a configuration does not come back. -/
theorem config_without_stages : ¬ ∀ (serde : SerdeJson) (limits : StrictIngressLimits) (input : StrictRuntimeInput)
    (bytes : List UInt8), serde.Derives → serde.read bytes = input.serialize.document →
      bytes.length ≤ limits.maxBytes → 5 ≤ limits.maxDepth →
      parseRuntimeConfig serde bytes limits = .ok ⟨input⟩ := by
  intro hall
  have hread : Sample.derivedJson.read Sample.runtimeBytes = Sample.runtimeInput.serialize.document := by
    simp [Sample.derivedJson]
  have hbytes : Sample.runtimeBytes.length ≠ 0 := mt List.length_eq_zero_iff.mp Sample.runtimeBytes_ne_nil
  have hparsed := hall Sample.derivedJson ⟨Sample.runtimeBytes.length, 32, 0⟩ Sample.runtimeInput
    Sample.runtimeBytes Sample.derivedJson_derives hread (by simp) (by simp)
  rw [parseRuntimeConfig_of_no_stages Sample.derivedJson Sample.runtimeBytes hbytes (by simp) rfl] at hparsed
  simp at hparsed

end Taskmesh
