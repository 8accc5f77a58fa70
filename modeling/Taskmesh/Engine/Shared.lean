import Taskmesh.Collections.KeyedSum
import Taskmesh.Collections.MachineInt
import Taskmesh.Collections.SetIndex
import Taskmesh.Contract.Policy

/-!
# Cross-slice kernel: identifiers, requirement sets and the policy set

The value types every feature of the engine shares (`shared/mod.rs`). A `BTreeMap` is the
extensional ordered map of the standard library: it iterates in ascending key order, and two maps
with the same entries are equal.
-/

namespace Taskmesh

open Std

abbrev BTreeMap (K V : Type) [Ord K] := ExtTreeMap K V
abbrev BTreeSet (K : Type) [Ord K] := ExtTreeSet K

/-! ## Identities -/

/-- Identity of a granted permit, bound to the governor that issued it. -/
structure PermitId where
  authority : Nat
  sequence : Nat
  deriving DecidableEq

/-- Identity of a queued request awaiting promotion. -/
structure Ticket where
  authority : Nat
  sequence : Nat
  deriving DecidableEq

/-- Registry-issued identity of a capability pool: its name and the registry that issued it. -/
structure CapabilityId where
  name : String
  authority : Nat
  deriving DecidableEq

instance : Ord PermitId := ⟨compareLex (compareOn PermitId.authority) (compareOn PermitId.sequence)⟩

instance : TransOrd PermitId :=
  inferInstanceAs (TransCmp (compareLex (compareOn PermitId.authority) (compareOn PermitId.sequence)))

instance : LawfulEqOrd PermitId where
  eq_of_compare {a b} h := by
    have h' : (compare a.authority b.authority).then (compare a.sequence b.sequence) = .eq := h
    rw [Ordering.then_eq_eq, LawfulEqOrd.compare_eq_iff_eq, LawfulEqOrd.compare_eq_iff_eq] at h'
    cases a; cases b
    simpa using h'

instance : Ord Ticket := ⟨compareLex (compareOn Ticket.authority) (compareOn Ticket.sequence)⟩

instance : TransOrd Ticket :=
  inferInstanceAs (TransCmp (compareLex (compareOn Ticket.authority) (compareOn Ticket.sequence)))

instance : LawfulEqOrd Ticket where
  eq_of_compare {a b} h := by
    have h' : (compare a.authority b.authority).then (compare a.sequence b.sequence) = .eq := h
    rw [Ordering.then_eq_eq, LawfulEqOrd.compare_eq_iff_eq, LawfulEqOrd.compare_eq_iff_eq] at h'
    cases a; cases b
    simpa using h'

instance : Ord CapabilityId :=
  ⟨compareLex (compareOn CapabilityId.name) (compareOn CapabilityId.authority)⟩

instance : TransOrd CapabilityId :=
  inferInstanceAs (TransCmp (compareLex (compareOn CapabilityId.name) (compareOn CapabilityId.authority)))

instance : LawfulEqOrd CapabilityId where
  eq_of_compare {a b} h := by
    have h' : (compare a.name b.name).then (compare a.authority b.authority) = .eq := h
    rw [Ordering.then_eq_eq, LawfulEqOrd.compare_eq_iff_eq, LawfulEqOrd.compare_eq_iff_eq] at h'
    cases a; cases b
    simpa using h'

/-- A host notifier reference (`Arc<dyn PermitWaker>`), identified by its allocation. -/
structure Waker where
  id : Nat
  deriving DecidableEq

/-! ## Capability requirement sets -/

/-- Capability selected by a validated execution plan. -/
inductive ResolvedCapability where
  | ungated
  | registered (id : CapabilityId)
  deriving DecidableEq

/-- Pool-name resolution failed before admission state was touched. -/
inductive CapabilityResolutionError where
  | emptyName
  | unknownName (name : String)
  | foreignId
  | tooManyRequirements (max : Nat)
  deriving DecidableEq

def maxCapabilityRequirements : Nat := 32

/-- Insert at the position a binary search finds; an id already present is kept once. -/
def insertId (id : CapabilityId) : List CapabilityId → List CapabilityId
  | [] => [id]
  | x :: xs =>
    match compare id x with
    | .lt => id :: x :: xs
    | .eq => x :: xs
    | .gt => x :: insertId id xs

theorem mem_insertId {id a : CapabilityId} {l : List CapabilityId} :
    a ∈ insertId id l ↔ a = id ∨ a ∈ l := by
  induction l with
  | nil => simp [insertId]
  | cons x xs ih =>
    unfold insertId
    cases h : compare id x with
    | lt => simp
    | eq =>
      have : id = x := LawfulEqOrd.eq_of_compare h
      simp [this]
    | gt => simp [ih]; tauto

theorem insertId_ascending {id : CapabilityId} {l : List CapabilityId}
    (hl : l.Pairwise fun a b => compare a b = .lt) :
    (insertId id l).Pairwise fun a b => compare a b = .lt := by
  induction l with
  | nil => simp [insertId]
  | cons x xs ih =>
    obtain ⟨hx, hxs⟩ := List.pairwise_cons.mp hl
    unfold insertId
    cases h : compare id x with
    | lt =>
      refine List.pairwise_cons.mpr ⟨?_, hl⟩
      intro b hb
      rcases List.mem_cons.mp hb with rfl | hb
      · exact h
      · exact TransCmp.lt_trans h (hx b hb)
    | eq => exact hl
    | gt =>
      refine List.pairwise_cons.mpr ⟨?_, ih hxs⟩
      intro b hb
      rcases mem_insertId.mp hb with rfl | hb
      · exact OrientedCmp.lt_of_gt h
      · exact hx b hb

/-- Bounded, canonical set of capability slots charged atomically by one permit: strictly
ascending, so no pool is named twice. -/
structure CapabilityRequirementSet where
  ids : List CapabilityId
  ascending : ids.Pairwise fun a b => compare a b = .lt
  bounded : ids.length ≤ maxCapabilityRequirements
  deriving DecidableEq

namespace CapabilityRequirementSet

def empty : CapabilityRequirementSet := ⟨[], List.Pairwise.nil, Nat.zero_le _⟩

instance : Inhabited CapabilityRequirementSet := ⟨empty⟩

/-- One step of `from_resolved`. -/
def addResolved (set : CapabilityRequirementSet) :
    ResolvedCapability → Except CapabilityResolutionError CapabilityRequirementSet
  | .ungated => .ok set
  | .registered id =>
    if h : (insertId id set.ids).length ≤ maxCapabilityRequirements then
      .ok ⟨insertId id set.ids, insertId_ascending set.ascending, h⟩
    else .error (.tooManyRequirements maxCapabilityRequirements)

def fromResolved (capabilities : List ResolvedCapability) :
    Except CapabilityResolutionError CapabilityRequirementSet :=
  capabilities.foldlM addResolved empty

def isEmpty (set : CapabilityRequirementSet) : Bool := set.ids.isEmpty

/-- Two sets contend for a slot: they share a pool, or neither names one. -/
def intersects (a b : CapabilityRequirementSet) : Bool :=
  if a.isEmpty && b.isEmpty then true else a.ids.any fun id => decide (id ∈ b.ids)

theorem nodup (set : CapabilityRequirementSet) : set.ids.Nodup := by
  refine set.ascending.imp ?_
  rintro a b hab rfl
  simp at hab

theorem intersects_iff {a b : CapabilityRequirementSet} :
    a.intersects b = true ↔ (a.ids = [] ∧ b.ids = []) ∨ ∃ id ∈ a.ids, id ∈ b.ids := by
  unfold intersects isEmpty
  by_cases h : a.ids.isEmpty && b.ids.isEmpty
  · have h' : a.ids = [] ∧ b.ids = [] := by simpa using h
    simp [h']
  · have h' : ¬ (a.ids = [] ∧ b.ids = []) := by simpa using h
    simp [h, h']

theorem intersects_comm (a b : CapabilityRequirementSet) : a.intersects b = b.intersects a := by
  rw [Bool.eq_iff_iff, intersects_iff, intersects_iff]
  tauto

end CapabilityRequirementSet

/-! ## The policy set -/

/-- The concrete resource a permit reserves, after mode resolution (`u32` units). -/
structure ResolvedCost where
  cpuUnits : Nat
  memoryUnits : Nat
  deriving DecidableEq, Inhabited

/-- Capacity policy attached to every registered capability. -/
inductive CapabilityCapacity where
  | bounded (limit : UInt32) (nonzero : limit ≠ 0)
  | explicitUnbounded
  deriving DecidableEq

def CapabilityCapacity.limit : CapabilityCapacity → UInt32
  | bounded limit _ => limit
  | explicitUnbounded => 0

/-- Single authority record used by name resolution, capacity and snapshots. -/
structure CapabilityRecord where
  id : CapabilityId
  capacity : CapabilityCapacity
  deriving DecidableEq

/-- The policy a governor runs against. The registries are private to the source module: a record
is stored under its own id, and every id was issued by this policy set. -/
structure PolicySet where
  resources : ResourceBudget
  classes : BTreeMap TaskClass ClassPolicy
  substrates : BTreeMap String SubstrateRecord
  capabilities : BTreeMap CapabilityId CapabilityRecord
  capabilityAuthority : Nat
  issued : ∀ (id : CapabilityId) (record : CapabilityRecord), capabilities[id]? = some record →
    record.id = id ∧ id.authority = capabilityAuthority

namespace PolicySet

def classPolicy (policies : PolicySet) (c : TaskClass) : Option ClassPolicy := policies.classes[c]?

def capabilityRecord (policies : PolicySet) (id : CapabilityId) : Option CapabilityRecord :=
  policies.capabilities[id]?

/-- Resolve a raw pool name before admission. -/
def resolveCapability (policies : PolicySet) (pool : String) :
    Except CapabilityResolutionError ResolvedCapability :=
  if isBlank pool then .error .emptyName
  else
    match policies.capabilities.keys.find? (fun id => id.name = pool) with
    | some id => .ok (.registered id)
    | none => .error (.unknownName pool)

def validateResolvedCapability (policies : PolicySet) :
    ResolvedCapability → Except CapabilityResolutionError Unit
  | .ungated => .ok ()
  | .registered id => if id ∈ policies.capabilities then .ok () else .error .foreignId

def validateRequirements (policies : PolicySet) (requirements : CapabilityRequirementSet) :
    Except CapabilityResolutionError Unit :=
  if requirements.ids.all fun id => decide (id ∈ policies.capabilities) then .ok ()
  else .error .foreignId

end PolicySet

/-! ## Provenance and decisions -/

/-- Classification provenance carried through admission. -/
structure Provenance where
  source : PlanSource
  reason : ClassificationRationale
  deriving DecidableEq

def Provenance.ofSpec (spec : TaskSpec) : Provenance := ⟨spec.source, spec.reason⟩

/-- The outcome of an admission decision at the engine boundary. -/
inductive AdmissionDecision where
  | admitted (permitId : PermitId)
  | queued (ticket : Ticket)
  | rejected (verdict : AdmissionVerdict)
  deriving DecidableEq

/-- Result of a leak sweep over outstanding permits. -/
structure LeakSweepReport where
  reclaimedPermits : Nat
  suspectedLeaks : Nat
  retainedActive : Nat
  deriving DecidableEq

/-- What a stage-boundary memory release did. -/
inductive StageReleaseOutcome where
  | released (freedUnits : Nat)
  | policyForbids (policy : MemoryReleasePolicy)
  | unknownPermit
  | staleSequence (currentSequence : Nat)
  deriving DecidableEq

end Taskmesh
