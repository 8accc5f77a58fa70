import Taskmesh.Collections.Traversal
import Taskmesh.Engine.Governor

/-!
# Intake

The checks an admission call makes before it takes the lock (`admit*` of `engine/governor.rs`). What
passes them carries the evidence: a valid plan, and requirements the policy registered.
-/

namespace Taskmesh

open Std MachineInt

/-- A submission that passed every check made before the lock is taken. -/
structure Intake (policies : PolicySet) where
  request : AdmissionRequest
  waker : Option Waker
  valid : validateTaskSpec request.spec = .ok ()
  registered : ∀ id ∈ request.capabilities.ids, id ∈ policies.capabilities

/-- The public entry points of admission. -/
inductive AdmitCall where
  | admitSpec (spec : TaskSpec)
  | admitValidated (plan : ValidatedTaskPlan)
  | admitWaitable (spec : TaskSpec) (waker : Waker)
  | admitResolved (spec : TaskSpec) (capability : ResolvedCapability) (waker : Option Waker)
  | admitValidatedRequirements (plan : ValidatedTaskPlan) (requirements : CapabilityRequirementSet)
      (waker : Option Waker)

/-- What an admission call returns. -/
abbrev AdmitAnswer := Except CapabilityResolutionError AdmissionDecision

/-- The capability a stage declares by its substrate hint. -/
def declaredCapability (policies : PolicySet) (d : StageDescriptor) :
    Except CapabilityResolutionError ResolvedCapability :=
  match d.substrateHint.capabilityPool with
  | none => .ok .ungated
  | some pool => policies.resolveCapability pool

/-- The requirements a task declares by its substrate hints. -/
def declaredRequirements (policies : PolicySet) (spec : TaskSpec) :
    Except CapabilityResolutionError CapabilityRequirementSet := do
  let resolved ← spec.stages.mapM (declaredCapability policies)
  CapabilityRequirementSet.fromResolved resolved

/-- Every id of the set is registered with the policy. -/
def RegisteredWith (policies : PolicySet) (capabilities : CapabilityRequirementSet) : Prop :=
  ∀ id ∈ capabilities.ids, id ∈ policies.capabilities

def ResolvedCapability.IsRegistered (policies : PolicySet) : ResolvedCapability → Prop
  | .ungated => True
  | .registered id => id ∈ policies.capabilities

theorem registeredWith_empty (policies : PolicySet) :
    RegisteredWith policies CapabilityRequirementSet.empty := by
  intro id hid
  simp [CapabilityRequirementSet.empty] at hid

theorem validateRequirements_registered {policies : PolicySet} {set : CapabilityRequirementSet}
    (h : policies.validateRequirements set = .ok ()) : RegisteredWith policies set := by
  unfold PolicySet.validateRequirements at h
  split at h
  · rename_i hall
    intro id hid
    simpa using List.all_eq_true.mp hall id hid
  · simp at h

theorem validateResolvedCapability_registered {policies : PolicySet} {r : ResolvedCapability}
    (h : policies.validateResolvedCapability r = .ok ()) : r.IsRegistered policies := by
  cases r with
  | ungated => exact trivial
  | registered id =>
    simp only [PolicySet.validateResolvedCapability] at h
    split at h
    · assumption
    · simp at h

theorem resolveCapability_registered {policies : PolicySet} {pool : String} {r : ResolvedCapability}
    (h : policies.resolveCapability pool = .ok r) : r.IsRegistered policies := by
  unfold PolicySet.resolveCapability at h
  split at h
  · simp at h
  · split at h
    · rename_i id hid
      obtain rfl : ResolvedCapability.registered id = r := by simpa using h
      exact ExtTreeMap.mem_keys.mp (List.mem_of_find?_eq_some hid)
    · simp at h

theorem fromResolved_registered {policies : PolicySet} {l : List ResolvedCapability}
    {start set : CapabilityRequirementSet} (hl : ∀ r ∈ l, r.IsRegistered policies)
    (hstart : RegisteredWith policies start)
    (h : l.foldlM CapabilityRequirementSet.addResolved start = .ok set) : RegisteredWith policies set := by
  induction l generalizing start with
  | nil =>
    obtain rfl : start = set := by simpa [pure, Except.pure] using h
    exact hstart
  | cons r rest ih =>
    rw [List.foldlM_cons] at h
    cases hr : CapabilityRequirementSet.addResolved start r with
    | error e => rw [hr] at h; simp [bind, Except.bind] at h
    | ok next =>
      rw [hr] at h
      refine ih (fun r' hr' => hl r' (List.mem_cons_of_mem _ hr')) ?_ h
      have hreg := hl r List.mem_cons_self
      cases r with
      | ungated =>
        obtain rfl : start = next := by simpa [CapabilityRequirementSet.addResolved] using hr
        exact hstart
      | registered id =>
        unfold CapabilityRequirementSet.addResolved at hr
        split at hr
        · rename_i heq
          simp at heq
        · rename_i id' heq
          obtain rfl : id = id' := by simpa using heq
          split at hr
          · obtain rfl := Except.ok.inj hr
            intro a ha
            rcases mem_insertId.mp ha with rfl | ha
            · exact hreg
            · exact hstart a ha
          · simp at hr

theorem declaredRequirements_registered {policies : PolicySet} {spec : TaskSpec}
    {set : CapabilityRequirementSet} (h : declaredRequirements policies spec = .ok set) :
    RegisteredWith policies set := by
  unfold declaredRequirements at h
  cases hr : spec.stages.mapM (declaredCapability policies) with
  | error e => rw [hr] at h; simp [bind, Except.bind] at h
  | ok resolved =>
    rw [hr] at h
    refine fromResolved_registered (l := resolved) (fun r hmem => ?_) (registeredWith_empty policies) h
    obtain ⟨d, _, hd⟩ := (Traversal.checked_except _).source hr hmem
    unfold declaredCapability at hd
    split at hd
    · obtain rfl : ResolvedCapability.ungated = r := Except.ok.inj hd
      exact trivial
    · exact resolveCapability_registered hd

/-! ## The checks of each entry point -/

/-- What an admission call hands to the lock, or the answer it gives without taking it. -/
abbrev Preflight (policies : PolicySet) := Except AdmitAnswer (Intake policies)

/-- The intake of a valid plan that occupies the pools its substrate hints name. The hints always
resolve under a validated policy; the source panics otherwise. -/
def declaredIntake (policies : PolicySet) (plan : ValidatedTaskPlan) (waker : Option Waker) :
    Preflight policies :=
  match h : declaredRequirements policies plan.spec with
  | .ok capabilities =>
    .ok ⟨⟨plan.spec, capabilities⟩, waker, plan.valid, declaredRequirements_registered h⟩
  | .error error => .error (.error error)

/-- Validate a raw plan, or answer that it is malformed. -/
def validatePlan (policies : PolicySet) (spec : TaskSpec)
    (next : ValidatedTaskPlan → Preflight policies) : Preflight policies :=
  if valid : validateTaskSpec spec = .ok () then next ⟨spec, valid⟩
  else .error (.ok (.rejected .malformedTask))

/-- The intake of a plan that occupies one resolved capability. -/
def resolvedIntake (policies : PolicySet) (capability : ResolvedCapability)
    (registered : capability.IsRegistered policies) (waker : Option Waker)
    (plan : ValidatedTaskPlan) : Preflight policies :=
  match h : CapabilityRequirementSet.fromResolved [capability] with
  | .ok capabilities =>
    .ok ⟨⟨plan.spec, capabilities⟩, waker, plan.valid,
      fromResolved_registered (by simpa using registered) (registeredWith_empty policies) h⟩
  | .error error => .error (.error error)

/-- The checks of each entry point, in the order the source makes them. -/
def preflight (policies : PolicySet) : AdmitCall → Preflight policies
  | .admitSpec spec => validatePlan policies spec fun plan => declaredIntake policies plan none
  | .admitValidated plan => declaredIntake policies plan none
  | .admitWaitable spec waker =>
    validatePlan policies spec fun plan => declaredIntake policies plan (some waker)
  | .admitResolved spec capability waker =>
    match h : policies.validateResolvedCapability capability with
    | .error error => .error (.error error)
    | .ok () =>
      validatePlan policies spec
        (resolvedIntake policies capability (validateResolvedCapability_registered h) waker)
  | .admitValidatedRequirements plan requirements waker =>
    match h : policies.validateRequirements requirements with
    | .error error => .error (.error error)
    | .ok () =>
      .ok ⟨⟨plan.spec, requirements⟩, waker, plan.valid, validateRequirements_registered h⟩

end Taskmesh
