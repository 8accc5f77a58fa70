import Taskmesh.Engine.Panic
import Taskmesh.Engine.Proofs.SoundProofs

/-!
# Transitions do not panic

In a sound state every check of `assert_consistent` holds, every index a transition expects is there,
and every unchecked sum fits its width. So a transition that ends in a sound state does not panic.
-/

namespace Taskmesh

open Std MachineInt SetIndex QueueFamily ExtTreeMap Faults

variable {g : Governor} {s s' s₀ : GovernedState} {p : PermitId} {record : PermitRecord} {n m : Nat}

/-- A caller that may release permits and give up tickets. -/
def Caller.releasing : Caller := ⟨fun _ _ => True, fun _ => False, fun _ => False, fun _ => True⟩

theorem Caller.plain_releasing : Caller.releasing.Plain := ⟨fun _ => id, fun _ => id⟩

/-- Unwinding a permit keeps the state sound. -/
theorem Sound.unwound (hs : Sound g n s) {reason : TerminalReason} {effects effects' : TransitionEffects}
    (h : s.unwind p reason effects = some (s', effects')) : Sound g n s' := by
  cases found : s.permits[p]? with
  | none =>
    unfold GovernedState.unwind at h
    rw [found] at h
    simp at h
  | some record =>
    have hmove : Move g Caller.releasing .shrinking s s' := Move.unwound found (Or.inr trivial) h
    exact hmove.sound_shrinking Caller.plain_releasing hs

namespace Panicky

/-! ## Unchecked sums -/

theorem add32_ok {a b : Nat} (h : a + b ≤ u32Max) : add32 a b = .ok (a + b) := addIn_ok h

theorem add64_ok {a b : Nat} (h : a + b ≤ u64Max) : add64 a b = .ok (a + b) := addIn_ok h

theorem add128_ok {a b : Nat} (h : a + b ≤ u128Max) : add128 a b = .ok (a + b) := addIn_ok h

theorem sumIn_zero_ok {max : Nat} {l : List Nat} (h : l.sum ≤ max) :
    sumIn Panic.arithmetic max 0 l = .ok l.sum := by
  have hsum : sumIn Panic.arithmetic max 0 l = .ok (0 + l.sum) := sumIn_ok (by omega)
  rwa [Nat.zero_add] at hsum

theorem sum128_ok {l : List Nat} (h : l.sum ≤ u128Max) : sum128 l = .ok l.sum := sumIn_zero_ok h

/-- A `u64` amount and a total of charges leave room in a `u128`. -/
theorem add128_charge {held cost : Nat} (hheld : held ≤ chargesMax) (hcost : cost ≤ u32Max) :
    add128 held cost = .ok (held + cost) := by
  refine add128_ok ?_
  simp only [chargesMax, u32Max, u128Max] at *
  omega

theorem add128_count {count : Nat} (h : count ≤ u64Max) : add128 count 1 = .ok (count + 1) := by
  refine add128_ok ?_
  simp only [u64Max, u128Max] at *
  omega

/-! ## `assert_consistent` -/

section AssertConsistent

variable (hs : Sound g n s)

include hs

/-- The class sums of the ledger audit stay within their widths. -/
theorem assertClassSums_ok : assertClassSums s = .ok () := by
  have hcpu : (s.classes.toList.map fun entry => entry.2.cpuUnitsHeld).sum = s.cpuUnitsHeld := by
    rw [hs.inv.books.cpu]
    exact hs.inv.books.sum_classes fun c => (hs.inv.books.classes c).cpu
  have hmemory : (s.classes.toList.map fun entry => entry.2.memoryUnitsHeld).sum = s.memoryUnitsHeld := by
    rw [hs.inv.books.memory]
    exact hs.inv.books.sum_classes fun c => (hs.inv.books.classes c).memory
  have hcpuFits := hs.cpuHeld_le
  have hmemoryFits := hs.memoryHeld_le
  unfold assertClassSums
  rw [sum128_ok, ok_bind, sum128_ok, ok_bind, ensure_ok hcpu, ok_bind]
  · exact ensure_ok hmemory
  · rw [hmemory]
    simp only [chargesMax, u32Max, u128Max] at *
    omega
  · rw [hcpu]
    simp only [chargesMax, u32Max, u128Max] at *
    omega

theorem countInClass_ok (c : TaskClass) : countInClass s c = .ok (heldIn s.permits c fun _ => 1) := by
  have hle := hs.inflight_le c
  have hfew := hs.few
  rw [(hs.inv.books.classes c).inflight] at hle
  refine sumIn_zero_ok ?_
  show (heldIn s.permits c fun _ => 1) ≤ u32Max
  simp only [u32Max]
  omega

theorem countInPool_ok (id : CapabilityId) : countInPool s id = .ok (occupants s.permits id) := by
  have hle := occupants_le_size s.permits id
  have hfew := hs.few
  refine sumIn_zero_ok ?_
  show occupants s.permits id ≤ u32Max
  simp only [u32Max]
  omega

/-- The audit accepts every live record of a sound state. -/
theorem assertPermit_ok (found : s.permits[p]? = some record) : assertPermit s record = .ok () := by
  obtain ⟨policy, hfits⟩ := hs.inv.permits p record found
  have hleased : record.leaseNonce.isSome = decide (record.phase ≠ .dispatchReserved) := by
    rw [Bool.eq_iff_iff, decide_eq_true_iff]
    exact hfits.leased
  have hpools : checkEach (fun id => do let _ ← countInPool s id) record.capabilities.ids = .ok () := by
    refine checkEach_ok fun id _ => ?_
    rw [countInPool_ok hs id]
    rfl
  unfold assertPermit
  rw [countInClass_ok hs, ok_bind, hpools, ok_bind]
  exact ensure_ok hleased

/-- The permit sums of the ledger audit stay within their widths. -/
theorem assertPermitSums_ok : assertPermitSums s = .ok () := by
  have hcpu : (s.permits.toList.map fun entry => entry.2.ledger.cpuUnits).sum = s.cpuUnitsHeld :=
    hs.inv.books.cpu.symm
  have hmemory : (s.permits.toList.map fun entry => entry.2.ledger.effectiveUnits).sum = s.memoryUnitsHeld :=
    hs.inv.books.memory.symm
  have hcpuFits := hs.cpuHeld_le
  have hmemoryFits := hs.memoryHeld_le
  unfold assertPermitSums
  rw [sum128_ok, ok_bind, sum128_ok, ok_bind, ensure_ok hcpu, ok_bind]
  · exact ensure_ok hmemory
  · rw [hmemory]
    simp only [chargesMax, u32Max, u128Max] at *
    omega
  · rw [hcpu]
    simp only [chargesMax, u32Max, u128Max] at *
    omega

/-- The audit finds every class total equal to its recount. -/
theorem assertClass_ok (c : TaskClass) : assertClass s c (s.cls c) = .ok () := by
  have hbooks := hs.inv.books.classes c
  have hphases : (s.cls c).inflight =
      [(s.cls c).dispatchReserved, (s.cls c).accepted, (s.cls c).running, (s.cls c).cleanupPending].sum := by
    rw [hbooks.phases_sum]
    simp only [List.sum_cons, List.sum_nil]
    omega
  have hadmitted := hs.admitted_le c
  rw [hbooks.admitted] at hadmitted
  unfold assertClass
  rw [countInClass_ok hs, ok_bind, ensure_ok hbooks.inflight, ok_bind, sumIn_zero_ok, ok_bind,
    ensure_ok hphases, ok_bind, add128_ok, ok_bind]
  · exact ensure_ok hbooks.admitted
  · simp only [u64Max, u128Max] at *
    omega
  · rw [← hphases]
    exact hbooks.bounded

/-- The audit finds every pool total equal to its recount. -/
theorem assertPool_ok {id : CapabilityId} {inUse : Nat} (found : s.capabilityInUse[id]? = some inUse) :
    assertPool s id inUse = .ok () := by
  have hpool := hs.gauges.pools id
  unfold PoolExact at hpool
  rw [found] at hpool
  have hcount : inUse = occupants s.permits id := by
    split at hpool
    · simp at hpool
    · exact Option.some.inj hpool
  unfold assertPool
  rw [countInPool_ok hs, ok_bind]
  exact ensure_ok hcount

/-- Every ticket of a sound state points at the work it names. -/
theorem ticketIsLive_of_sound {t : Ticket} {state : TicketState} (found : s.tickets[t]? = some state) :
    ticketIsLive s state = true := by
  have hlive : ∀ p, s.tickets[t]? = some (.granted p) ∨ s.tickets[t]? = some (.claiming p) →
      s.permits.contains p = true := by
    intro p h
    obtain ⟨record, hrecord, _⟩ := hs.inv.tickets.permit_live h
    rw [ExtTreeMap.contains_iff_mem, ExtTreeMap.mem_iff_isSome_getElem?, hrecord]
    rfl
  cases state with
  | granted p => exact hlive p (Or.inl found)
  | claiming p => exact hlive p (Or.inr found)
  | queued c => rfl
  | terminal reason => rfl
  | faulted => rfl

/-- In a sound state every recomputed total is right. -/
theorem assertConsistent_ok : assertConsistent s = .ok () := by
  have hpermits : checkEach (fun entry => assertPermit s entry.2) s.permits.toList = .ok () :=
    checkEach_ok fun entry hentry => assertPermit_ok hs (ExtTreeMap.mem_toList.mp hentry)
  have hclasses : checkEach (fun entry => assertClass s entry.1 entry.2) s.classes.toList = .ok () := by
    refine checkEach_ok fun entry hentry => ?_
    have hcs : s.classes[entry.1]? = some entry.2 := ExtTreeMap.mem_toList.mp hentry
    have hcls : s.cls entry.1 = entry.2 := by simp [GovernedState.cls, hcs]
    rw [← hcls]
    exact assertClass_ok hs entry.1
  have hpools : checkEach (fun entry => assertPool s entry.1 entry.2) s.capabilityInUse.toList = .ok () :=
    checkEach_ok fun entry hentry => assertPool_ok hs (ExtTreeMap.mem_toList.mp hentry)
  have htickets : checkEach (fun entry => ensure Panic.grantedTicket (ticketIsLive s entry.2))
      s.tickets.toList = .ok () :=
    checkEach_ok fun entry hentry => ensure_ok (ticketIsLive_of_sound hs (ExtTreeMap.mem_toList.mp hentry))
  unfold assertConsistent
  rw [assertClassSums_ok hs, ok_bind, hpermits, ok_bind, assertPermitSums_ok hs, ok_bind, hclasses, ok_bind,
    hpools, ok_bind]
  exact htickets

end AssertConsistent

/-! ## Queue mutation -/

/-- `enqueue` panics nowhere while the identity is free and the queue order counter has room. -/
theorem enqueue_ok {r : PendingRequest} (horder : s.nextQueueOrder ≤ u64Max)
    (hnew : s.hasOperationIdentity r.rootOperationId r.operation = false) :
    enqueue s r = .ok (s.enqueue r) := by
  have hnext : checkedAdd u128Max s.nextQueueOrder 1 = some (s.nextQueueOrder + 1) := by
    unfold checkedAdd
    rw [if_pos]
    simp only [u64Max, u128Max] at *
    omega
  have hunqueued : isUnqueued s r.rootOperationId r.operation = true := by
    unfold GovernedState.hasOperationIdentity at hnew
    rw [Bool.or_eq_false_iff] at hnew
    have hqueued := hnew.2
    unfold isUnqueued
    cases hset : s.queuedOperationIdentities[r.rootOperationId]? with
    | none => rfl
    | some set =>
      rw [hset, Option.any_some] at hqueued
      simp [hqueued]
  unfold enqueue
  rw [hnext, expect_some, ok_bind, ensure_ok hunqueued]
  rfl

/-- A request in its queue is indexed under its operation. -/
theorem removePending_ok (hs : Sound g n s) (c : TaskClass) (index : Nat) :
    removePending s c index = .ok (s.removePending c index) := by
  unfold removePending
  cases h : s.removePending c index with
  | none => rfl
  | some removed =>
    obtain ⟨s', r⟩ := removed
    obtain ⟨found, _⟩ := GovernedState.removePending_spec h
    have hwaits : identityLabel.Waits s (r.rootOperationId, r.operation) :=
      ⟨c, _, mem_waiting_of_getElem found, rfl⟩
    obtain ⟨set, hset, hmem⟩ := registered_iff.mp
      ((hs.inv.occupancy.queuedOperations r.rootOperationId r.operation).mpr hwaits)
    have hindexed : isIndexed s r.rootOperationId r.operation = true := by
      unfold isIndexed
      rw [hset, Option.all_some]
      exact ExtTreeSet.contains_iff_mem.mpr hmem
    show (do
      ensure Panic.unindexedRequest (isIndexed s r.rootOperationId r.operation)
      return some (s', r)) = _
    rw [ensure_ok hindexed]
    rfl

/-! ## Grant -/

/-- Charging a class overflows no counter while its totals are within the bound on live charges. -/
theorem chargeClass_ok {cost : ResolvedCost} {cs : ClassState} (hinflight : cs.inflight + 1 ≤ u32Max)
    (hcpu : cs.cpuUnitsHeld ≤ chargesMax) (hmemory : cs.memoryUnitsHeld ≤ chargesMax)
    (hadmitted : cs.admittedTotal ≤ u64Max) (hcost : cost.cpuUnits ≤ u32Max ∧ cost.memoryUnits ≤ u32Max) :
    chargeClass cost cs = .ok (GovernedState.chargeClass cost cs) := by
  unfold chargeClass GovernedState.chargeClass
  rw [add32_ok hinflight, ok_bind, add128_charge hcpu hcost.1, ok_bind, add128_charge hmemory hcost.2, ok_bind,
    add128_count hadmitted, ok_bind, wrappingAdd_of_le hinflight]
  rfl

/-- Attributing a child to its root overflows no counter while the root's totals are within the bound. -/
theorem attributeRoot_ok {cost : ResolvedCost} {stage : TaskStage} {root : RootExecutionState}
    (hchildren : root.childInflight + 1 ≤ u32Max) (hcpu : root.cpuUnits ≤ chargesMax)
    (hmemory : root.memoryUnits ≤ chargesMax) (hcost : cost.cpuUnits ≤ u32Max ∧ cost.memoryUnits ≤ u32Max) :
    attributeRoot cost stage root = .ok (GovernedState.attributeRoot cost stage root) := by
  unfold attributeRoot GovernedState.attributeRoot
  rw [add32_ok hchildren, ok_bind, add128_charge hcpu hcost.1, ok_bind, add128_charge hmemory hcost.2, ok_bind,
    wrappingAdd_of_le hchildren]
  rfl

/-- A grant of a new permit over the ledger of a sound state does not panic if it leads to one. -/
theorem grant_ok {r : GrantRequest} (hs : Sound g n s₀) (hsame : s₀.SameLedger s)
    (hcost : r.cost.cpuUnits ≤ u32Max ∧ r.cost.memoryUnits ≤ u32Max)
    (hnew : s₀.permits[r.permitId]? = none)
    (hfree : s₀.permitsForOperation r.rootOperationId r.operation = none) (hs' : Sound g m (s.grant r)) :
    grant s r = .ok (s.grant r) := by
  have hsize : s₀.permits.size + 1 < 2 ^ 32 := by
    have hfew : (s.permits.insert r.permitId r.record).size < 2 ^ 32 := hs'.few
    have hmem : r.permitId ∉ s₀.permits := by
      rw [ExtTreeMap.mem_iff_isSome_getElem?, hnew]
      simp
    rw [hsame.permits, ExtTreeMap.size_insert, if_neg (by simpa [ExtTreeMap.contains_iff_mem] using hmem)] at hfew
    exact hfew
  have hclass : chargeClass r.cost (s.cls r.taskClass) =
      .ok (GovernedState.chargeClass r.cost (s.cls r.taskClass)) := by
    have hledger := hsame.classes r.taskClass
    have hinflight : (s.cls r.taskClass).inflight = (s₀.cls r.taskClass).inflight :=
      (congrArg ClassState.inflight hledger :)
    have hcpu : (s.cls r.taskClass).cpuUnitsHeld = (s₀.cls r.taskClass).cpuUnitsHeld :=
      (congrArg ClassState.cpuUnitsHeld hledger :)
    have hmemory : (s.cls r.taskClass).memoryUnitsHeld = (s₀.cls r.taskClass).memoryUnitsHeld :=
      (congrArg ClassState.memoryUnitsHeld hledger :)
    have hadmitted : (s.cls r.taskClass).admittedTotal = (s₀.cls r.taskClass).admittedTotal :=
      (congrArg ClassState.admittedTotal hledger :)
    refine chargeClass_ok ?_ ?_ ?_ ?_ hcost
    · have hle := hs.inflight_le r.taskClass
      simp only [u32Max]
      omega
    · rw [hcpu]
      exact hs.classCpu_le _
    · rw [hmemory]
      exact hs.classMemory_le _
    · rw [hadmitted]
      exact hs.admitted_le _
  have hcpu : add128 s.cpuUnitsHeld r.cost.cpuUnits = .ok (s.cpuUnitsHeld + r.cost.cpuUnits) := by
    rw [hsame.cpu]
    exact add128_charge hs.cpuHeld_le hcost.1
  have hmemory : add128 s.memoryUnitsHeld r.cost.memoryUnits = .ok (s.memoryUnitsHeld + r.cost.memoryUnits) := by
    rw [hsame.memory]
    exact add128_charge hs.memoryHeld_le hcost.2
  have hoperation : (s.permitsForOperation r.rootOperationId r.operation).isNone = true := by
    have heq : s.permitsForOperation r.rootOperationId r.operation =
        s₀.permitsForOperation r.rootOperationId r.operation := by
      unfold GovernedState.permitsForOperation
      rw [hsame.operations]
    rw [heq, hfree]
    rfl
  have hroots : attributeRoots s r = .ok (s.grant r).roots := by
    unfold attributeRoots
    split
    · rename_i hchild
      have hread : s.roots[r.rootOperationId]?.getD {} = s₀.rootState r.rootOperationId := by
        unfold GovernedState.rootState
        rw [hsame.roots]
      have hchildren := hs.rootChildren_le r.rootOperationId
      rw [hread, attributeRoot_ok (by simp only [u32Max]; omega) (hs.rootCpu_le _) (hs.rootMemory_le _) hcost]
      show Except.ok _ = Except.ok (if r.scope.isChild then _ else s.roots)
      rw [if_pos hchild, hread]
    · rename_i hroot
      show Except.ok s.roots = Except.ok (if r.scope.isChild then _ else s.roots)
      rw [if_neg hroot]
  unfold grant
  rw [hclass, ok_bind, hcpu, ok_bind, hmemory, ok_bind, ensure_ok hoperation, ok_bind, hroots, ok_bind]
  show (do
    assertConsistent (s.grant r)
    return s.grant r) = _
  rw [assertConsistent_ok hs']
  rfl

/-! ## Phase advance and unwinding -/

theorem countStart_ok (hs : Sound g n s) (c : TaskClass) (previous phase : ExecutionPhase) :
    countStart previous phase (s.cls c) = .ok () := by
  have hbooks := hs.inv.books.classes c
  have hstarted := hbooks.started_le
  have hadmitted := hs.admitted_le c
  have hphases := hbooks.phases_sum
  rw [hbooks.admitted] at hadmitted
  unfold countStart
  split
  · rw [add128_count (by omega)]
    rfl
  · rfl

/-- A phase change panics nowhere in a sound state. -/
theorem advancePhase_ok (hs : Sound g n s) (p : PermitId) (phase : ExecutionPhase) (nonces : Nat) :
    advancePhase s p phase nonces = .ok (s.advancePhase p phase nonces) := by
  unfold advancePhase
  cases found : s.permits[p]? with
  | none => rfl
  | some record =>
    by_cases hlater : phase.rank ≤ record.phase.rank
    · simp only [if_pos hlater]
      rfl
    · have hmove : Move g Caller.nobody .shrinking s (s.advancedTo p record phase nonces) :=
        Move.advanced nonces found (by omega)
      have hstate : (s.advancePhase p phase nonces).1 = s.advancedTo p record phase nonces := by
        unfold GovernedState.advancePhase
        rw [found]
        simp only [if_neg hlater]
        split <;> rfl
      have hs' := hmove.sound_shrinking Caller.plain_nobody hs
      rw [← hstate] at hs'
      simp only [if_neg hlater]
      rw [countStart_ok hs, ok_bind, assertConsistent_ok hs']
      rfl

/-- A live permit is the one its operation is indexed under. -/
theorem isLiveOperation_of_sound (hs : Sound g n s) (found : s.permits[p]? = some record) :
    isLiveOperation s p record = true := by
  have hholds : identityLabel.Holds s p (record.rootOperationId, record.operation) := ⟨record, found, rfl⟩
  have hindex := (hs.inv.occupancy.operations _ _ _).mpr hholds
  unfold GovernedState.permitsForOperation at hindex
  unfold isLiveOperation
  cases hoperations : s.operationPermits[record.rootOperationId]? with
  | none => rfl
  | some operations =>
    rw [hoperations, Option.bind_some] at hindex
    simp [hindex]

/-- Unwinding a permit panics nowhere in a sound state. -/
theorem unwind_ok (hs : Sound g n s) (p : PermitId) (reason : TerminalReason) (effects : TransitionEffects) :
    unwind s p reason effects = .ok (s.unwind p reason effects) := by
  cases found : s.permits[p]? with
  | none =>
    have hnone : s.unwind p reason effects = none := by
      unfold GovernedState.unwind
      rw [found]
    unfold unwind
    rw [found, hnone]
  | some record =>
    obtain ⟨s', effects', hunwind⟩ := unwind_isSome found reason effects
    have hs' := hs.unwound hunwind
    have hterminated : add128 (s.cls record.taskClass).terminatedTotal 1 =
        .ok ((s.cls record.taskClass).terminatedTotal + 1) := by
      have hadmitted := hs.admitted_le record.taskClass
      rw [(hs.inv.books.classes record.taskClass).admitted] at hadmitted
      exact add128_count (by omega)
    unfold unwind
    rw [found, hunwind]
    show (do
      let _ ← add128 (s.cls record.taskClass).terminatedTotal 1
      ensure Panic.unindexedPermit (isLiveOperation s p record)
      assertConsistent s'
      return some (s', effects')) = _
    rw [hterminated, ok_bind, ensure_ok (isLiveOperation_of_sound hs found), ok_bind, assertConsistent_ok hs']
    rfl

/-- A release panics nowhere in a sound state, whatever proof it carries. -/
theorem releaseWithProofReason_ok (hs : Sound g n s) (p : PermitId) (proof : Option Nat)
    (reason : TerminalReason) (effects : TransitionEffects) :
    releaseWithProofReason s p proof reason effects = .ok (s.releaseWithProofReason p proof reason effects) := by
  unfold releaseWithProofReason GovernedState.releaseWithProofReason
  cases found : s.permits[p]? with
  | none => rfl
  | some record =>
    by_cases hproof : record.leaseNonce ≠ proof
    · simp only [if_pos hproof]
      rfl
    · simp only [if_neg hproof]
      rw [unwind_ok hs, ok_bind]
      cases s.unwind p reason effects <;> rfl

end Panicky

end Taskmesh
