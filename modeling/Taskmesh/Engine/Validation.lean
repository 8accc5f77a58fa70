import Taskmesh.Engine.Memory

/-!
# Policy and inventory validation

The substrate inventory (`features/inventory/mod.rs`), the constructors of a policy set
(`shared/mod.rs`), and the fail-closed validation every policy passes before a governor runs on it
(`engine/governor/validation.rs`).
-/

namespace Taskmesh

open Std MachineInt

instance exceptDecidableEq {ε α : Type} [DecidableEq ε] [DecidableEq α] : DecidableEq (Except ε α)
  | .ok a, .ok b => decidable_of_iff (a = b) ⟨congrArg Except.ok, Except.ok.inj⟩
  | .error e, .error f => decidable_of_iff (e = f) ⟨congrArg Except.error, Except.error.inj⟩
  | .ok _, .error _ => .isFalse (by simp)
  | .error _, .ok _ => .isFalse (by simp)

/-- Why a policy is refused at construction. -/
inductive PolicyViolation where
  | emptySubstrateName
  | substrateWithoutPool (substrate : String)
  | duplicateSubstrate (substrate : String)
  | emptyCapabilityName
  | limitForUnregisteredPool (pool : String)
  | registryKeyMismatch (key name : String)
  | missingBuiltin (name : String)
  | nonCanonicalBuiltin (name : String)
  | unprovidedCapability (pool : String)
  | substrateWithoutCapability (substrate pool : String)
  | invalidClass (c : TaskClass) (error : TaskPlanError)
  | exceedsPerRequestCpu (c : TaskClass)
  | exceedsPerRequestMemory (c : TaskClass)
  | exceedsGlobalCpu (c : TaskClass)
  | exceedsGlobalMemory (c : TaskClass)
  | unscaledMemory (c : TaskClass)
  | queueableWithoutDepth (c : TaskClass)
  | scavengerNotBestEffort (c : TaskClass)
  | zeroWeight (c : TaskClass)
  | zeroQuantum (c : TaskClass)
  | overcommitQueueWithoutDepth (c : TaskClass)
  | degradesToItself (c : TaskClass)
  | degradesToUnknown (c fallback : TaskClass)
  | degradesToDisabled (c fallback : TaskClass)
  | degradeChain (c fallback : TaskClass)
  | mixedDiscipline (c : TaskClass)
  deriving DecidableEq

/-! ## Inventory -/

def validateRecord (record : SubstrateRecord) : Except PolicyViolation Unit :=
  if isBlank record.name then .error .emptySubstrateName
  else if record.kind ≠ .authorityOnly ∧ ¬ record.capabilityPool.any (fun p => !isBlank p) then
    .error (.substrateWithoutPool record.name)
  else .ok ()

/-- The canonical built-in records, each bound to its own capability pool. -/
def builtinRecords : List SubstrateRecord :=
  [ ⟨"cpu", .competingExecution, some "cpu"⟩,
    ⟨"blocking", .competingExecution, some "blocking"⟩,
    ⟨"large_stack", .competingExecution, some "large_stack"⟩,
    ⟨"maintenance", .maintenanceOnly, some "maintenance"⟩,
    ⟨"local_runtime", .competingExecution, some "local_runtime"⟩ ]

/-- The record executes work against the named pool. -/
def providesCapability (record : SubstrateRecord) (pool : String) : Bool :=
  record.kind ≠ .authorityOnly && record.capabilityPool = some pool

/-- Register a substrate, rejecting duplicates and invalid records. -/
def registerSubstrate (registry : BTreeMap String SubstrateRecord) (record : SubstrateRecord) :
    Except PolicyViolation (BTreeMap String SubstrateRecord) := do
  validateRecord record
  if record.name ∈ registry then .error (.duplicateSubstrate record.name)
  else .ok (registry.insert record.name record)

/-! ## Building a policy set -/

namespace PolicySet

/-- Declare one capability of a policy set under an id its own authority issues. -/
def declareCapability (policies : PolicySet) (pool : String) (capacity : CapabilityCapacity) :
    PolicySet where
  resources := policies.resources
  classes := policies.classes
  substrates := policies.substrates
  capabilities :=
    policies.capabilities.insert ⟨pool, policies.capabilityAuthority⟩
      ⟨⟨pool, policies.capabilityAuthority⟩, capacity⟩
  capabilityAuthority := policies.capabilityAuthority
  issued id record h := by
    rw [ExtTreeMap.getElem?_insert] at h
    by_cases hid : (⟨pool, policies.capabilityAuthority⟩ : CapabilityId) = id
    · subst hid
      simp only [compare_self, if_true, Option.some.injEq] at h
      exact ⟨by rw [← h], rfl⟩
    · rw [if_neg (by simpa using hid)] at h
      exact policies.issued id record h

/-- A policy set with the canonical built-in inventory; every pool starts without a limit. -/
def new (resources : ResourceBudget) (classes : BTreeMap TaskClass ClassPolicy) (authority : Nat) :
    PolicySet :=
  let bare : PolicySet :=
    { resources := resources
      classes := classes
      substrates := builtinRecords.foldl (fun m record => m.insert record.name record) ∅
      capabilities := ∅
      capabilityAuthority := authority
      issued := by intro id record h; simp at h }
  builtinRecords.foldl
    (fun policies record =>
      match record.capabilityPool with
      | some pool => policies.declareCapability pool .explicitUnbounded
      | none => policies)
    bare

/-- Layer additional substrates onto the built-in set. -/
def withSubstrates (policies : PolicySet) (records : List SubstrateRecord) :
    Except PolicyViolation PolicySet := do
  let substrates ← records.foldlM registerSubstrate policies.substrates
  return { policies with substrates := substrates }

/-- Declare the slot limit of a pool; `0` is explicitly unbounded. -/
def withCapabilityLimit (policies : PolicySet) (pool : String) (limit : UInt32) :
    Except PolicyViolation PolicySet :=
  if isBlank pool then .error .emptyCapabilityName
  else if policies.substrates.toList.any fun entry => providesCapability entry.2 pool then
    .ok (policies.declareCapability pool
      (if h : limit = 0 then .explicitUnbounded else .bounded limit h))
  else .error (.limitForUnregisteredPool pool)

/-- Declare slot limits, in ascending order of the pool's name. -/
def withCapabilityLimits (policies : PolicySet) (limits : BTreeMap String UInt32) :
    Except PolicyViolation PolicySet :=
  limits.toList.foldlM (fun policies entry => policies.withCapabilityLimit entry.1 entry.2) policies

end PolicySet

/-! ## Validation -/

/-- Run a check over a list, stopping at the first violation. -/
def checkAll {α : Type} (check : α → Except PolicyViolation Unit) : List α → Except PolicyViolation Unit
  | [] => .ok ()
  | a :: rest => do
    check a
    checkAll check rest

/-- Refuse with `violation` when the condition holds. -/
def failIf (condition : Bool) (violation : PolicyViolation) : Except PolicyViolation Unit :=
  if condition then .error violation else .ok ()

def validateInventory (policies : PolicySet) : Except PolicyViolation Unit := do
  checkAll
    (fun entry => do
      validateRecord entry.2
      failIf (entry.1 ≠ entry.2.name) (.registryKeyMismatch entry.1 entry.2.name))
    policies.substrates.toList
  checkAll
    (fun expected =>
      match policies.substrates[expected.name]? with
      | none => .error (.missingBuiltin expected.name)
      | some found =>
        failIf (found.kind ≠ expected.kind || found.capabilityPool ≠ expected.capabilityPool)
          (.nonCanonicalBuiltin expected.name))
    builtinRecords
  checkAll
    (fun entry =>
      failIf (!policies.substrates.toList.any fun sub => providesCapability sub.2 entry.2.id.name)
        (.unprovidedCapability entry.2.id.name))
    policies.capabilities.toList
  checkAll
    (fun entry =>
      match entry.2.kind, entry.2.capabilityPool with
      | .authorityOnly, _ => .ok ()
      | _, none => .ok ()
      | _, some pool =>
        match policies.resolveCapability pool with
        | .ok _ => .ok ()
        | .error _ => .error (.substrateWithoutCapability entry.2.name pool))
    policies.substrates.toList

/-- The degrade half of a class's validation: one hop, to an enabled class that does not itself
degrade. -/
def validateFallback (policies : PolicySet) (c : TaskClass) (policy : ClassPolicy) :
    Except PolicyViolation Unit :=
  match policy.memoryOvercommitPolicy with
  | .degradeToLight fallback =>
    if fallback = c then .error (.degradesToItself c)
    else
      match policies.classes[fallback]? with
      | none => .error (.degradesToUnknown c fallback)
      | some target =>
        if target.isDisabled then .error (.degradesToDisabled c fallback)
        else
          match target.memoryOvercommitPolicy with
          | .degradeToLight _ => .error (.degradeChain c fallback)
          | _ => .ok ()
  | _ => .ok ()

/-- The checks a single class passes, in source order. -/
def validateClass (policies : PolicySet) (c : TaskClass) (policy : ClassPolicy) :
    Except PolicyViolation Unit := do
  match validateIdentifier .taskClass c.name with
  | .error error => .error (.invalidClass c error)
  | .ok () => .ok ()
  let budget := policies.resources
  let cost := policy.permitCost
  failIf (budget.perRequestMaxCpuUnits ≠ 0 && cost.cpuUnits > budget.perRequestMaxCpuUnits)
    (.exceedsPerRequestCpu c)
  failIf (budget.perRequestMaxMemoryUnits ≠ 0 && cost.memoryUnits > budget.perRequestMaxMemoryUnits)
    (.exceedsPerRequestMemory c)
  failIf (budget.maxCpuUnits ≠ 0 && cost.cpuUnits > budget.maxCpuUnits) (.exceedsGlobalCpu c)
  failIf (budget.maxMemoryUnits ≠ 0 && cost.memoryUnits > budget.maxMemoryUnits) (.exceedsGlobalMemory c)
  failIf (policy.memoryPermitMode ≠ .estimated && budget.memoryUnitScale.bytesPerUnit = 0)
    (.unscaledMemory c)
  failIf (policy.overflowPolicy = .queueWithinDepth && policy.maxQueueDepth = 0)
    (.queueableWithoutDepth c)
  failIf (policy.fairness = .bestEffortScavenger && !policy.bestEffort) (.scavengerNotBestEffort c)
  match policy.fairness with
  | .weightedFairQueue weight _ => failIf (weight = 0) (.zeroWeight c)
  | .deficitRoundRobin quantum => failIf (quantum = 0) (.zeroQuantum c)
  | _ => .ok ()
  failIf (policy.memoryOvercommitPolicy = .queue && policy.maxQueueDepth = 0)
    (.overcommitQueueWithoutDepth c)
  validateFallback policies c policy

/-- The tier scan: every enabled class of a tier shares one discipline. -/
def validateTiers : Option FairnessKind → Option FairnessKind → List (TaskClass × ClassPolicy) →
    Except PolicyViolation Unit
  | _, _, [] => .ok ()
  | primary, best, (c, policy) :: rest =>
    if policy.isDisabled then validateTiers primary best rest
    else if (if policy.bestEffort then best else primary).any fun kind => kind ≠ policy.fairness.kind then
      .error (.mixedDiscipline c)
    else if policy.bestEffort then validateTiers primary (some policy.fairness.kind) rest
    else validateTiers (some policy.fairness.kind) best rest

/-- Fail-closed configuration validation. -/
def validatePolicy (policies : PolicySet) : Except PolicyViolation Unit := do
  validateInventory policies
  checkAll (fun entry => validateClass policies entry.1 entry.2) policies.classes.toList
  validateTiers none none policies.classes.toList

end Taskmesh
