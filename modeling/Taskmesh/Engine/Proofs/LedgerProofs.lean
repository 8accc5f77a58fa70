import Taskmesh.Engine.Proofs.OccupancyProofs

/-!
# The class and global books

The gauges and totals of every class, and the two global totals, are sums over the live permits. A
grant adds one term to each sum, an unwind removes it, a phase advance moves it between two gauges
and a recharge replaces one amount; each total is updated by exactly that difference.
-/

namespace Taskmesh

open Std MachineInt SetIndex ExtTreeMap

/-- The sum of `f` over the live permits of a class. -/
def heldIn (permits : BTreeMap PermitId PermitRecord) (c : TaskClass) (f : PermitRecord → Nat) : Nat :=
  sumBy permits fun _ record => if record.taskClass = c then f record else 0

/-- The sum of `f` over all live permits. -/
def heldBy (permits : BTreeMap PermitId PermitRecord) (f : PermitRecord → Nat) : Nat :=
  sumBy permits fun _ record => f record

def cpuOf (record : PermitRecord) : Nat := record.ledger.cpuUnits
def memoryOf (record : PermitRecord) : Nat := record.ledger.effectiveUnits
def inPhase (phase : ExecutionPhase) (record : PermitRecord) : Nat := if record.phase = phase then 1 else 0

/-- The gauges and counters of a class agree with its live permits. -/
structure ClassBooks (permits : BTreeMap PermitId PermitRecord) (c : TaskClass) (cs : ClassState) :
    Prop where
  cpu : cs.cpuUnitsHeld = heldIn permits c cpuOf
  memory : cs.memoryUnitsHeld = heldIn permits c memoryOf
  inflight : cs.inflight = heldIn permits c fun _ => 1
  phases : ∀ phase, cs.phaseSlot phase = heldIn permits c (inPhase phase)
  bounded : cs.inflight ≤ u32Max
  admitted : cs.admittedTotal = cs.inflight + cs.terminatedTotal
  started_le : cs.startedTotal ≤ cs.terminatedTotal + cs.running + cs.cleanupPending
  le_started : cs.running + cs.cleanupPending ≤ cs.startedTotal

/-- Every class's books and the global totals agree with the live permits. -/
structure Books (s : GovernedState) : Prop where
  classes : ∀ c, ClassBooks s.permits c (s.cls c)
  cpu : s.cpuUnitsHeld = heldBy s.permits cpuOf
  memory : s.memoryUnitsHeld = heldBy s.permits memoryOf

variable {g : Governor} {caller : Caller} {s s' : GovernedState}
  {permits : BTreeMap PermitId PermitRecord} {p : PermitId} {record record' : PermitRecord}
  {c : TaskClass} {cs : ClassState}

/-! ## Sums over permits -/

/-- A new permit adds its charge to its own class. -/
theorem heldIn_insert (h : permits[p]? = none) (record : PermitRecord) (c : TaskClass)
    (f : PermitRecord → Nat) :
    heldIn (permits.insert p record) c f =
      (if record.taskClass = c then f record else 0) + heldIn permits c f := sumBy_insert_new h record _

/-- A permit that goes takes its charge from its own class. -/
theorem heldIn_erase (h : permits[p]? = some record) (c : TaskClass) (f : PermitRecord → Nat) :
    heldIn permits c f =
      (if record.taskClass = c then f record else 0) + heldIn (permits.erase p) c f := sumBy_erase h _

/-- A permit written again changes the total by the difference. -/
theorem heldIn_replace (h : permits[p]? = some record) (record' : PermitRecord) (c : TaskClass)
    (f : PermitRecord → Nat) :
    heldIn (permits.insert p record') c f + (if record.taskClass = c then f record else 0) =
      heldIn permits c f + (if record'.taskClass = c then f record' else 0) :=
  sumBy_replace h record' _

/-- A new permit adds its charge to the total. -/
theorem heldBy_insert (h : permits[p]? = none) (record : PermitRecord) (f : PermitRecord → Nat) :
    heldBy (permits.insert p record) f = f record + heldBy permits f := sumBy_insert_new h record _

/-- A permit that goes takes its charge from the total. -/
theorem heldBy_erase (h : permits[p]? = some record) (f : PermitRecord → Nat) :
    heldBy permits f = f record + heldBy (permits.erase p) f := sumBy_erase h _

/-- A permit written again changes the overall total by the difference. -/
theorem heldBy_replace (h : permits[p]? = some record) (record' : PermitRecord) (f : PermitRecord → Nat) :
    heldBy (permits.insert p record') f + f record = heldBy permits f + f record' :=
  sumBy_replace h record' _

/-- A permit weighs at most its class. -/
theorem le_heldIn (h : permits[p]? = some record) (f : PermitRecord → Nat) :
    f record ≤ heldIn permits record.taskClass f := by
  rw [heldIn_erase h, if_pos rfl]
  exact Nat.le_add_right _ _

/-- No single charge exceeds the total. -/
theorem le_heldBy (h : permits[p]? = some record) (f : PermitRecord → Nat) :
    f record ≤ heldBy permits f := by
  rw [heldBy_erase h]
  exact Nat.le_add_right _ _

/-- Every live permit is in exactly one phase. -/
theorem heldIn_phases (permits : BTreeMap PermitId PermitRecord) (c : TaskClass) :
    (heldIn permits c fun _ => 1) =
      heldIn permits c (inPhase .dispatchReserved) + heldIn permits c (inPhase .accepted) +
        heldIn permits c (inPhase .running) + heldIn permits c (inPhase .cleanupPending) := by
  unfold heldIn
  rw [← sumBy_add, ← sumBy_add, ← sumBy_add]
  refine sumBy_congr fun p record _ => ?_
  by_cases hc : record.taskClass = c
  · simp only [hc, if_true, inPhase]
    cases record.phase <;> simp
  · simp [hc]

/-! ## The class half of each transition -/

namespace ClassState

theorem phaseSlot_ledgerHalf (c : ClassState) (phase : ExecutionPhase) :
    c.ledgerHalf.phaseSlot phase = c.phaseSlot phase := by
  cases phase <;> rfl

end ClassState

/-- The books of a class read its ledger half only. -/
theorem classBooks_ledgerHalf : ClassBooks permits c cs.ledgerHalf ↔ ClassBooks permits c cs := by
  constructor
  · intro h
    exact ⟨h.cpu, h.memory, h.inflight, fun phase => by
      rw [← cs.phaseSlot_ledgerHalf]; exact h.phases phase, h.bounded, h.admitted, h.started_le,
      h.le_started⟩
  · intro h
    exact ⟨h.cpu, h.memory, h.inflight, fun phase => by
      rw [cs.phaseSlot_ledgerHalf]; exact h.phases phase, h.bounded, h.admitted, h.started_le,
      h.le_started⟩

/-- The phase gauges of a class sum up to what is in flight. -/
theorem ClassBooks.phases_sum (h : ClassBooks permits c cs) :
    cs.inflight = cs.dispatchReserved + cs.accepted + cs.running + cs.cleanupPending := by
  rw [h.inflight, heldIn_phases, ← h.phases, ← h.phases, ← h.phases, ← h.phases]
  rfl

/-- The books of a class do not depend on permits of other classes. -/
theorem ClassBooks.congr (h : ClassBooks permits c cs) {permits' : BTreeMap PermitId PermitRecord}
    (hsum : ∀ f, heldIn permits' c f = heldIn permits c f) : ClassBooks permits' c cs :=
  ⟨h.cpu.trans (hsum _).symm, h.memory.trans (hsum _).symm, h.inflight.trans (hsum _).symm,
    fun phase => (h.phases phase).trans (hsum _).symm, h.bounded, h.admitted, h.started_le, h.le_started⟩

/-- Two records that charge the same make the same books. -/
theorem ClassBooks.replaced (h : ClassBooks permits c cs) (found : permits[p]? = some record)
    (hclass : record'.taskClass = record.taskClass) (hcpu : cpuOf record' = cpuOf record)
    (hmemory : memoryOf record' = memoryOf record) (hphase : record'.phase = record.phase) :
    ClassBooks (permits.insert p record') c cs := by
  have hsum : ∀ f : PermitRecord → Nat, f record' = f record →
      heldIn (permits.insert p record') c f = heldIn permits c f := by
    intro f hf
    have := heldIn_replace found record' c f
    rw [hclass, hf] at this
    omega
  refine ⟨?_, ?_, ?_, fun phase => ?_, h.bounded, h.admitted, h.started_le, h.le_started⟩
  · rw [hsum cpuOf hcpu, h.cpu]
  · rw [hsum memoryOf hmemory, h.memory]
  · rw [hsum (fun _ => 1) rfl, h.inflight]
  · rw [hsum (inPhase phase) (by simp [inPhase, hphase]), h.phases phase]

/-- A grant charged to the class. -/
theorem ClassBooks.charged {grant : GrantRequest} (h : ClassBooks permits grant.taskClass cs)
    (hnew : permits[grant.permitId]? = none) (hroom : cs.inflight < u32Max) :
    ClassBooks (permits.insert grant.permitId grant.record) grant.taskClass
      (GovernedState.chargeClass grant.cost cs) := by
  have hsum : ∀ f, heldIn (permits.insert grant.permitId grant.record) grant.taskClass f =
      f grant.record + heldIn permits grant.taskClass f := by
    intro f
    have := heldIn_insert hnew grant.record grant.taskClass f
    rwa [show grant.record.taskClass = grant.taskClass from rfl, if_pos rfl] at this
  have hinflight : (GovernedState.chargeClass grant.cost cs).inflight = cs.inflight + 1 :=
    wrappingAdd_of_le (by omega)
  have hslot : (GovernedState.chargeClass grant.cost cs).dispatchReserved = cs.dispatchReserved + 1 := by
    have hsum := h.phases_sum
    have hle : cs.dispatchReserved + 1 ≤ u32Max := by omega
    exact saturatingAdd_of_lt hle
  refine ⟨?_, ?_, ?_, fun phase => ?_, ?_, ?_, h.started_le, h.le_started⟩
  · rw [hsum, ← h.cpu]
    exact Nat.add_comm _ _
  · rw [hsum, ← h.memory]
    exact Nat.add_comm _ _
  · rw [hinflight, hsum, ← h.inflight]
    exact Nat.add_comm _ _
  · rw [hsum, ← h.phases phase]
    cases phase with
    | dispatchReserved =>
      show (GovernedState.chargeClass grant.cost cs).dispatchReserved = 1 + cs.dispatchReserved
      rw [hslot, Nat.add_comm]
    | accepted => exact (Nat.zero_add _).symm
    | running => exact (Nat.zero_add _).symm
    | cleanupPending => exact (Nat.zero_add _).symm
  · rw [hinflight]
    omega
  · rw [hinflight]
    have := h.admitted
    show cs.admittedTotal + 1 = cs.inflight + 1 + cs.terminatedTotal
    omega

/-! What an unwind writes to its class. -/

theorem phaseSlot_dischargeClass (record : PermitRecord) (cs : ClassState) (phase : ExecutionPhase) :
    (GovernedState.dischargeClass record cs).phaseSlot phase =
      if record.phase = phase then cs.phaseSlot phase - 1 else cs.phaseSlot phase := by
  unfold GovernedState.dischargeClass ClassState.leavePhase
  cases record.phase <;> cases phase <;> rfl

/-- What the end of a permit takes from the gauges of its class. -/
theorem totals_dischargeClass (record : PermitRecord) (cs : ClassState) :
    (GovernedState.dischargeClass record cs).inflight = cs.inflight - 1 ∧
      (GovernedState.dischargeClass record cs).cpuUnitsHeld = cs.cpuUnitsHeld - cpuOf record ∧
      (GovernedState.dischargeClass record cs).memoryUnitsHeld = cs.memoryUnitsHeld - memoryOf record ∧
      (GovernedState.dischargeClass record cs).admittedTotal = cs.admittedTotal ∧
      (GovernedState.dischargeClass record cs).startedTotal = cs.startedTotal ∧
      (GovernedState.dischargeClass record cs).terminatedTotal = cs.terminatedTotal + 1 := by
  unfold GovernedState.dischargeClass ClassState.leavePhase
  cases record.phase <;> exact ⟨rfl, rfl, rfl, rfl, rfl, rfl⟩

/-- A permit's charge returned by the class. -/
theorem ClassBooks.discharged (h : ClassBooks permits record.taskClass cs)
    (found : permits[p]? = some record) :
    ClassBooks (permits.erase p) record.taskClass (GovernedState.dischargeClass record cs) := by
  have hsum : ∀ f, heldIn permits record.taskClass f =
      f record + heldIn (permits.erase p) record.taskClass f := by
    intro f
    rw [heldIn_erase found, if_pos rfl]
  obtain ⟨hinflight, hcpu, hmemory, hadmitted, hstarted, hterminated⟩ := totals_dischargeClass record cs
  have hone := hsum fun _ => 1
  have hlive := h.inflight
  have hbooked := h.admitted
  have hslot : ∀ phase, cs.phaseSlot phase =
      inPhase phase record + heldIn (permits.erase p) record.taskClass (inPhase phase) :=
    fun phase => (h.phases phase).trans (hsum (inPhase phase))
  have hrunning := phaseSlot_dischargeClass record cs .running
  have hcleanup := phaseSlot_dischargeClass record cs .cleanupPending
  have hslot1 := hslot .running
  have hslot2 := hslot .cleanupPending
  have hle1 := h.started_le
  have hle2 := h.le_started
  simp only [ClassState.phaseSlot, inPhase] at hrunning hcleanup hslot1 hslot2
  refine ⟨?_, ?_, ?_, fun phase => ?_, ?_, ?_, ?_, ?_⟩
  · rw [hcpu, h.cpu, hsum]
    omega
  · rw [hmemory, h.memory, hsum]
    omega
  · rw [hinflight]
    omega
  · rw [phaseSlot_dischargeClass, hslot phase]
    by_cases hp : record.phase = phase
    · rw [if_pos hp, inPhase, if_pos hp]
      omega
    · rw [if_neg hp, inPhase, if_neg hp]
      omega
  · have := h.bounded
    omega
  · rw [hadmitted, hinflight, hterminated]
    omega
  · rw [hstarted, hterminated, hrunning, hcleanup]
    cases hp : record.phase <;> simp only [hp, reduceCtorEq, if_true, if_false] at hslot1 hslot2 ⊢ <;> omega
  · rw [hstarted, hrunning, hcleanup]
    cases hp : record.phase <;> simp only [hp, reduceCtorEq, if_true, if_false] at hslot1 hslot2 ⊢ <;> omega

/-! What a phase advance writes to its class. -/

theorem phaseSlot_advanceClass {previous phase : ExecutionPhase} (hne : previous ≠ phase)
    (cs : ClassState) (phase' : ExecutionPhase) :
    (GovernedState.advanceClass previous phase cs).phaseSlot phase' =
      if phase = phase' then saturatingAdd u32Max (cs.phaseSlot phase') 1
      else if previous = phase' then cs.phaseSlot phase' - 1 else cs.phaseSlot phase' := by
  unfold GovernedState.advanceClass ClassState.leavePhase ClassState.enterPhase
  cases previous <;> cases phase <;> cases phase' <;> first | rfl | exact absurd rfl hne

/-- A change of phase moves one permit between two gauges and no unit. -/
theorem totals_advanceClass (previous phase : ExecutionPhase) (cs : ClassState) :
    (GovernedState.advanceClass previous phase cs).inflight = cs.inflight ∧
      (GovernedState.advanceClass previous phase cs).cpuUnitsHeld = cs.cpuUnitsHeld ∧
      (GovernedState.advanceClass previous phase cs).memoryUnitsHeld = cs.memoryUnitsHeld ∧
      (GovernedState.advanceClass previous phase cs).admittedTotal = cs.admittedTotal ∧
      (GovernedState.advanceClass previous phase cs).terminatedTotal = cs.terminatedTotal := by
  unfold GovernedState.advanceClass ClassState.leavePhase ClassState.enterPhase
  cases previous <;> cases phase <;> exact ⟨rfl, rfl, rfl, rfl, rfl⟩

/-- A later phase counts the permit as started, once. -/
theorem started_advanceClass {previous phase : ExecutionPhase} (later : previous.rank < phase.rank)
    {cs : ClassState} (hleaves : 1 ≤ cs.phaseSlot previous) (hroom : cs.phaseSlot phase + 1 ≤ u32Max) :
    (GovernedState.advanceClass previous phase cs).running +
        (GovernedState.advanceClass previous phase cs).cleanupPending + cs.startedTotal =
      cs.running + cs.cleanupPending + (GovernedState.advanceClass previous phase cs).startedTotal := by
  have hentered := saturatingAdd_of_lt hroom
  unfold GovernedState.advanceClass ClassState.leavePhase ClassState.enterPhase
  cases previous <;> cases phase <;>
    simp only [ExecutionPhase.rank, ExecutionPhase.hasStarted, ClassState.phaseSlot,
      ClassState.setPhaseSlot, Bool.not_true, Bool.not_false, Bool.and_true, Bool.and_false,
      Bool.false_eq_true, if_true, if_false] at later hleaves hentered ⊢ <;> omega

/-- A permit that moved to a later phase. -/
theorem ClassBooks.advanced {phase : ExecutionPhase} {nonce : Option Nat}
    (h : ClassBooks permits record.taskClass cs) (found : permits[p]? = some record)
    (later : record.phase.rank < phase.rank) :
    ClassBooks (permits.insert p { record with phase := phase, leaseNonce := nonce }) record.taskClass
      (GovernedState.advanceClass record.phase phase cs) := by
  have hne : record.phase ≠ phase := by
    rintro heq
    rw [heq] at later
    exact Nat.lt_irrefl _ later
  have hsum : ∀ f : PermitRecord → Nat,
      heldIn (permits.insert p { record with phase := phase, leaseNonce := nonce }) record.taskClass f +
        f record = heldIn permits record.taskClass f +
          f { record with phase := phase, leaseNonce := nonce } := by
    intro f
    have := heldIn_replace found { record with phase := phase, leaseNonce := nonce } record.taskClass f
    rwa [if_pos rfl, if_pos rfl] at this
  obtain ⟨hinflight, hcpu, hmemory, hadmitted, hterminated⟩ := totals_advanceClass record.phase phase cs
  -- The permit leaves a gauge it is counted in, so the gauge it enters has room.
  have hleaves : 1 ≤ cs.phaseSlot record.phase := by
    rw [h.phases]
    have := le_heldIn found (inPhase record.phase)
    simpa [inPhase] using this
  have hroom : cs.phaseSlot phase + 1 ≤ u32Max := by
    have hphases := h.phases_sum
    have hbounded := h.bounded
    revert hleaves hne
    cases record.phase <;> cases phase <;> simp only [ClassState.phaseSlot] <;> intro hne hleaves <;>
      first | omega | exact absurd rfl hne
  have hslots := phaseSlot_advanceClass hne cs
  have hstarted := started_advanceClass later hleaves hroom
  have hle1 := h.started_le
  have hle2 := h.le_started
  refine ⟨?_, ?_, ?_, fun phase' => ?_, ?_, ?_, ?_, ?_⟩
  · rw [hcpu, h.cpu]
    exact (Nat.add_right_cancel (hsum cpuOf)).symm
  · rw [hmemory, h.memory]
    exact (Nat.add_right_cancel (hsum memoryOf)).symm
  · rw [hinflight, h.inflight]
    exact (Nat.add_right_cancel (hsum fun _ => 1)).symm
  · have hphase := hsum (inPhase phase')
    have hold := h.phases phase'
    rw [hslots phase']
    simp only [inPhase] at hphase hold ⊢
    by_cases hin : phase = phase'
    · subst hin
      rw [if_pos rfl, saturatingAdd_of_lt hroom]
      simp only [hne, if_true, if_false] at hphase
      omega
    · rw [if_neg hin]
      simp only [hin, if_false] at hphase
      by_cases hout : record.phase = phase'
      · rw [if_pos hout]
        simp only [hout, if_true] at hphase
        omega
      · rw [if_neg hout]
        simp only [hout, if_false] at hphase
        omega
  · rw [hinflight]
    exact h.bounded
  · rw [hadmitted, hinflight, hterminated]
    exact h.admitted
  · rw [hterminated]
    omega
  · omega

/-! ## Memory -/

/-- A total moved by a signed difference. A total that holds less than a drop stays as it is. -/
def shifted (delta : Int) (held : Nat) : Nat :=
  if delta ≥ 0 then held + delta.natAbs else GovernedState.lowered delta.natAbs held

/-- The class half of a memory delta. -/
def shiftClass (delta : Int) (cs : ClassState) : ClassState :=
  { cs with memoryUnitsHeld := shifted delta cs.memoryUnitsHeld }

/-- A total that holds the old charge ends up holding the new one instead. -/
theorem shifted_add {old held : Nat} (h : old ≤ held) (new : Nat) :
    shifted (new - old : Int) held + old = held + new := by
  unfold shifted
  split
  · omega
  · rename_i hneg
    have hle : (new - old : Int).natAbs ≤ held := by omega
    rw [GovernedState.lowered, checkedSub, if_pos hle, Option.getD_some]
    omega

theorem classes_recordAccountingFault (s : GovernedState) (what : String) :
    (s.recordAccountingFault what).classes = s.classes ∧
      (s.recordAccountingFault what).memoryUnitsHeld = s.memoryUnitsHeld ∧
      (s.recordAccountingFault what).roots = s.roots := by
  unfold GovernedState.recordAccountingFault
  split <;> exact ⟨rfl, rfl, rfl⟩

/-- The three totals of a memory delta. -/
theorem totals_applyMemoryDelta (s : GovernedState) (c : TaskClass) (root : Option String) (delta : Int) :
    (s.applyMemoryDelta c root delta).memoryUnitsHeld = shifted delta s.memoryUnitsHeld ∧
      (s.applyMemoryDelta c root delta).classes =
        s.classes.modify c (shiftClass delta) ∧
      (s.applyMemoryDelta c root delta).roots =
        match root with
        | some root => s.roots.modify root fun r => { r with memoryUnits := shifted delta r.memoryUnits }
        | none => s.roots := by
  unfold GovernedState.applyMemoryDelta shiftClass shifted
  by_cases hdelta : delta ≥ 0
  · simp only [hdelta, if_true]
    exact ⟨rfl, rfl, rfl⟩
  · simp only [hdelta, if_false]
    split
    · obtain ⟨hclasses, hmemory, hroots⟩ := classes_recordAccountingFault
        (s.adjustMemory c root (GovernedState.lowered delta.natAbs))
        "memory release exceeds the units a ledger holds"
      rw [hclasses, hmemory, hroots]
      exact ⟨rfl, rfl, rfl⟩
    · exact ⟨rfl, rfl, rfl⟩

/-- A recharge of memory keeps the processor books of its class. -/
theorem ClassBooks.recharged {ledger : PermitLedger} (h : ClassBooks permits record.taskClass cs)
    (found : permits[p]? = some record) (hcpu : ledger.cpuUnits = record.ledger.cpuUnits) :
    ClassBooks (permits.insert p { record with ledger := ledger }) record.taskClass
      (shiftClass (ledger.effectiveUnits - record.ledger.effectiveUnits : Int) cs) := by
  have hsum : ∀ f : PermitRecord → Nat,
      heldIn (permits.insert p { record with ledger := ledger }) record.taskClass f + f record =
        heldIn permits record.taskClass f + f { record with ledger := ledger } := by
    intro f
    have := heldIn_replace found { record with ledger := ledger } record.taskClass f
    rwa [if_pos rfl, if_pos rfl] at this
  refine ⟨?_, ?_, ?_, fun phase => ?_, h.bounded, h.admitted, h.started_le, h.le_started⟩
  · have hc := hsum cpuOf
    have hsame : cpuOf { record with ledger := ledger } = cpuOf record := hcpu
    rw [hsame] at hc
    exact h.cpu.trans (Nat.add_right_cancel hc).symm
  · have hm := hsum memoryOf
    have hle := le_heldIn found memoryOf
    rw [← h.memory] at hle hm
    have hshift := shifted_add hle ledger.effectiveUnits
    exact Nat.add_right_cancel (hshift.trans hm.symm)
  · have hone := hsum fun _ => 1
    exact h.inflight.trans (Nat.add_right_cancel hone).symm
  · have hp := hsum (inPhase phase)
    exact (h.phases phase).trans (Nat.add_right_cancel hp).symm

/-! ## The books under every effect -/

/-- A live permit's class is touched, so an update of the class is not lost. -/
theorem Books.class_present (hb : Books s) (found : s.permits[p]? = some record) :
    s.classes[record.taskClass]? ≠ none := by
  intro hnone
  have hone := le_heldIn found fun _ => 1
  rw [← (hb.classes record.taskClass).inflight] at hone
  simp [GovernedState.cls, hnone, default] at hone

theorem heldIn_insert_other (hnew : permits[p]? = none) (hc : record.taskClass ≠ c)
    (f : PermitRecord → Nat) : heldIn (permits.insert p record) c f = heldIn permits c f := by
  rw [heldIn_insert hnew, if_neg hc, Nat.zero_add]

theorem heldIn_erase_other (found : permits[p]? = some record) (hc : record.taskClass ≠ c)
    (f : PermitRecord → Nat) : heldIn (permits.erase p) c f = heldIn permits c f := by
  rw [heldIn_erase found, if_neg hc, Nat.zero_add]

theorem heldIn_replace_other (found : permits[p]? = some record) (hc : record.taskClass ≠ c)
    (hclass : record'.taskClass = record.taskClass) (f : PermitRecord → Nat) :
    heldIn (permits.insert p record') c f = heldIn permits c f := by
  have := heldIn_replace found record' c f
  rw [hclass, if_neg hc, if_neg hc] at this
  exact this

/-- The books hold in every state with the same ledger. -/
theorem Books.same (hb : Books s) (h : s.SameLedger s') : Books s' := by
  refine ⟨fun c => ?_, ?_, ?_⟩
  · rw [h.permits, ← classBooks_ledgerHalf, h.classes c, classBooks_ledgerHalf]
    exact hb.classes c
  · rw [h.permits, h.cpu, hb.cpu]
  · rw [h.permits, h.memory, hb.memory]

/-- A grant within the range of its counters keeps the books. -/
theorem Books.granted {grant : GrantRequest} (hb : Books s) (hnew : s.permits[grant.permitId]? = none)
    (hroom : s.inflight grant.taskClass < u32Max) : Books (s.grant grant) := by
  have hpermits : (s.grant grant).permits = s.permits.insert grant.permitId grant.record := rfl
  refine ⟨fun c => ?_, ?_, ?_⟩
  · rw [GovernedState.cls_grant, hpermits]
    split
    · rename_i hc
      subst hc
      exact (hb.classes _).charged hnew hroom
    · rename_i hc
      exact (hb.classes c).congr (heldIn_insert_other hnew hc)
  · rw [hpermits, heldBy_insert hnew, ← hb.cpu]
    exact Nat.add_comm _ _
  · rw [hpermits, heldBy_insert hnew, ← hb.memory]
    exact Nat.add_comm _ _

/-- The end of a permit keeps the books. -/
theorem Books.discharged (hb : Books s) (found : s.permits[p]? = some record) :
    Books (s.discharge p record) := by
  have hpermits : (s.discharge p record).permits = s.permits.erase p := rfl
  have hpresent := hb.class_present found
  refine ⟨fun c => ?_, ?_, ?_⟩
  · rw [GovernedState.cls_discharge, hpermits]
    by_cases hc : record.taskClass = c
    · subst hc
      rw [if_pos ⟨rfl, hpresent⟩]
      exact (hb.classes _).discharged found
    · rw [if_neg (fun h => hc h.1)]
      exact (hb.classes c).congr (heldIn_erase_other found hc)
  · have := heldBy_erase found cpuOf
    have hcpu := hb.cpu
    show s.cpuUnitsHeld - cpuOf record = _
    rw [hpermits]
    omega
  · have := heldBy_erase found memoryOf
    have hmemory := hb.memory
    show s.memoryUnitsHeld - memoryOf record = _
    rw [hpermits]
    omega

/-- Touching a permit keeps the books. -/
theorem Books.touched (hb : Books s) (found : s.permits[p]? = some record)
    (similar : Touched record record') : Books { s with permits := s.permits.insert p record' } := by
  obtain ⟨waker, touchedMs, heq⟩ := similar.rest
  have hclass : record'.taskClass = record.taskClass := by rw [heq]
  have hcpu : cpuOf record' = cpuOf record := by rw [heq]; rfl
  have hmemory : memoryOf record' = memoryOf record := by rw [heq]; rfl
  have hphase : record'.phase = record.phase := by rw [heq]
  refine ⟨fun c => (hb.classes c).replaced found hclass hcpu hmemory hphase, ?_, ?_⟩
  · have := heldBy_replace found record' cpuOf
    rw [hcpu] at this
    exact hb.cpu.trans (Nat.add_right_cancel this).symm
  · have := heldBy_replace found record' memoryOf
    rw [hmemory] at this
    exact hb.memory.trans (Nat.add_right_cancel this).symm

/-- A later phase keeps the books. -/
theorem Books.advanced {phase : ExecutionPhase} (hb : Books s) (found : s.permits[p]? = some record)
    (later : record.phase.rank < phase.rank) (nonces : Nat) :
    Books (s.advancedTo p record phase nonces) := by
  refine ⟨fun c => ?_, ?_, ?_⟩
  · rw [GovernedState.cls_advancedTo]
    split
    · rename_i hc
      subst hc
      exact (hb.classes _).advanced found later
    · rename_i hc
      exact (hb.classes c).congr (heldIn_replace_other found hc rfl)
  · exact hb.cpu.trans (Nat.add_right_cancel (heldBy_replace found
      { record with phase := phase, leaseNonce := some (record.leaseNonce.getD nonces) } cpuOf)).symm
  · exact hb.memory.trans (Nat.add_right_cancel (heldBy_replace found
      { record with phase := phase, leaseNonce := some (record.leaseNonce.getD nonces) } memoryOf)).symm

theorem LedgerChange.cpuUnits {ledger ledger' : PermitLedger} (h : LedgerChange ledger ledger') :
    ledger'.cpuUnits = ledger.cpuUnits := by
  cases h <;> rfl

/-- A recharge keeps the books. -/
theorem Books.recharged {ledger : PermitLedger} (hb : Books s) (found : s.permits[p]? = some record)
    (change : LedgerChange record.ledger ledger) : Books (s.rechargePermit p record ledger) := by
  have hpresent := hb.class_present found
  have hpermits := (memoryOnly_rechargePermit s p record ledger).permits
  obtain ⟨hmemory, hclasses, _⟩ := totals_applyMemoryDelta
    { s with permits := s.permits.insert p { record with ledger := ledger } } record.taskClass
    (if record.scope.isChild then some record.rootOperationId else none)
    (ledger.effectiveUnits - record.ledger.effectiveUnits : Int)
  refine ⟨fun c => ?_, ?_, ?_⟩
  · have hcls : (s.rechargePermit p record ledger).cls c =
        if record.taskClass = c ∧ s.classes[c]? ≠ none then
          shiftClass (ledger.effectiveUnits - record.ledger.effectiveUnits : Int) (s.cls c)
        else s.cls c := by
      refine Eq.trans ?_ (GovernedState.cls_modify s record.taskClass c (shiftClass _))
      exact GovernedState.cls_of_classes_eq hclasses c
    rw [hcls, hpermits]
    by_cases hc : record.taskClass = c
    · subst hc
      rw [if_pos ⟨rfl, hpresent⟩]
      exact (hb.classes _).recharged found change.cpuUnits
    · rw [if_neg (fun h => hc h.1)]
      exact (hb.classes c).congr (heldIn_replace_other found hc rfl)
  · rw [(memoryOnly_rechargePermit s p record ledger).cpu, hpermits]
    have := heldBy_replace found { record with ledger := ledger } cpuOf
    have hsame : cpuOf { record with ledger := ledger } = cpuOf record := change.cpuUnits
    rw [hsame] at this
    exact hb.cpu.trans (Nat.add_right_cancel this).symm
  · rw [hpermits]
    refine hmemory.trans ?_
    have hle := le_heldBy found memoryOf
    rw [← hb.memory] at hle
    have hshift := shifted_add hle ledger.effectiveUnits
    have hsum := heldBy_replace found { record with ledger := ledger } memoryOf
    rw [← hb.memory] at hsum
    exact Nat.add_right_cancel (hshift.trans hsum.symm)

/-! ## Room for a grant -/

/-- Nothing blocks exactly where every dimension has room. -/
theorem BlockerSet.isEmpty_iff {b : BlockerSet} :
    b.isEmpty = true ↔ b.classInflight = false ∧ b.capabilities = [] ∧ b.cpu = false ∧
      b.memory = false ∧ b.queuedBehind = false ∧ b.accountingFault = false := by
  simp [BlockerSet.isEmpty, and_assoc]

/-- A cost that is not over a budget fits into it. -/
theorem overBudget_eq_false {budget held cost : Nat} (h : overBudget budget held cost = false)
    (hbudget : budget ≠ 0) : held + cost ≤ budget := by
  unfold overBudget checkedAdd at h
  split at h
  · simp [hbudget] at h
    exact h
  · simp [hbudget] at h

theorem maxInflight_le (policy : ClassPolicy) : policy.maxInflight.toNat ≤ u32Max := by
  have := policy.maxInflight.toNat_lt
  simp only [u32Max]
  omega

/-- What a grant that fits finds free. -/
theorem GrantFits.room {grant : GrantRequest} {policy : ClassPolicy} (h : GrantFits g s grant policy) :
    s.inflight grant.taskClass < policy.maxInflight.toNat ∧
      (g.policy.resources.maxCpuUnits.toNat ≠ 0 →
        s.cpuUnitsHeld + grant.cost.cpuUnits ≤ g.policy.resources.maxCpuUnits.toNat) ∧
      (g.policy.resources.maxMemoryUnits.toNat ≠ 0 →
        s.memoryUnitsHeld + grant.cost.memoryUnits ≤ g.policy.resources.maxMemoryUnits.toNat) ∧
      (∀ id ∈ grant.capabilities.ids, poolBlocked s g.policy id = false) ∧
      s.accountingFault = none := by
  obtain ⟨hinflight, hpools, hcpu, hmemory, _, hfault⟩ := BlockerSet.isEmpty_iff.mp h.free
  simp only [blockersFor] at hinflight hpools hcpu hmemory hfault
  refine ⟨by simpa using hinflight, overBudget_eq_false hcpu, overBudget_eq_false hmemory,
    fun id hid => ?_, ?_⟩
  · have := List.filter_eq_nil_iff.mp hpools id hid
    simpa using this
  · rw [Bool.or_eq_false_iff] at hfault
    simpa using hfault.1

/-- Whether a grant fits can be read off any state with the same ledger. -/
theorem GrantFits.congr {base : GovernedState} {grant : GrantRequest} {policy : ClassPolicy}
    (h : GrantFits g s grant policy) (hledger : s.SameLedger base) :
    base.inflight grant.taskClass < u32Max := by
  rw [hledger.inflight_eq]
  have := h.room.1
  have := maxInflight_le policy
  omega

/-- Whatever a move does to the ledger, it keeps the books. -/
theorem Effect.books (h : Effect g caller s s') (ho : Occupancy s) (hb : Books s) : Books s' := by
  cases h with
  | kept queues ledger guards => exact hb.same ledger
  | queued waker nowMs tags allowed accepted pushed identities ledger guards sound => exact hb.same ledger
  | dropped removed identities ledger guards => exact hb.same ledger
  | admitted nowMs allowed accepted fits result =>
    subst result
    exact hb.granted accepted.fresh.permit (fits.congr (.refl s))
  | @promoted policy c index head base nowMs fits removed identities ledger guards result =>
    subst result
    have hlive := ho.not_live removed.mem
    rw [← ledger.permits] at hlive
    exact (hb.same ledger).granted hlive (fits.congr ledger)
  | ended found ends queues ledger guards => exact (hb.discharged found).same ledger
  | touched found similar queues ledger guards => exact (hb.touched found similar).same ledger
  | advanced nonces found later result => subst result; exact hb.advanced found later nonces
  | recharged allowed found change result => subst result; exact hb.recharged found change

theorem books_init : Books {} := by
  refine ⟨fun c => ?_, ?_, ?_⟩
  · have hcls : GovernedState.cls {} c = {} := by simp [GovernedState.cls, default]
    rw [hcls]
    have hzero : ∀ f, heldIn (∅ : BTreeMap PermitId PermitRecord) c f = 0 := fun f => sumBy_empty _
    refine ⟨(hzero _).symm, (hzero _).symm, (hzero _).symm, fun phase => ?_, Nat.zero_le _, rfl, ?_, ?_⟩
    · refine Eq.trans ?_ (hzero _).symm
      cases phase <;> rfl
    · exact Nat.le_refl 0
    · exact Nat.le_refl 0
  · exact (sumBy_empty _).symm
  · exact (sumBy_empty _).symm

end Taskmesh
