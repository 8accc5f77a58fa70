import Taskmesh.Engine.Proofs.ConservationProofs

/-!
# Sound states

A state is sound when its invariants hold and no counter of it is near its width: fewer than `2^32`
permits are live, every charge is a `u32`, and no class and no arrival counter has counted past the
admissions made so far. Every move that reports no memory keeps a sound state sound; a report keeps
it sound when the new charge is a `u32` again.
-/

namespace Taskmesh

open Std MachineInt SetIndex QueueFamily ExtTreeMap

variable {g : Governor} {caller : Caller} {s s' : GovernedState} {permits : BTreeMap PermitId PermitRecord}
  {p : PermitId} {record : PermitRecord} {ledger : PermitLedger} {n : Nat}

/-! ## Charges -/

/-- What the ledger charges and what it reserves are `u32` amounts. -/
structure LedgerFits (ledger : PermitLedger) : Prop where
  effective : ledger.effectiveUnits ≤ u32Max
  remaining : ledger.remainingReservationUnits ≤ u32Max

/-- Every charge is a `u32`. -/
def UnitsFit (s : GovernedState) : Prop :=
  ∀ (p : PermitId) record, s.permits[p]? = some record → LedgerFits record.ledger

theorem UnitsFit.congr (h : UnitsFit s) (hpermits : s'.permits = s.permits) : UnitsFit s' := by
  intro p record found
  rw [hpermits] at found
  exact h p record found

/-- A permit whose charges fit may be added or written again. -/
theorem UnitsFit.insert (h : UnitsFit s) (hpermits : s'.permits = s.permits.insert p record)
    (hrecord : LedgerFits record.ledger) : UnitsFit s' := by
  intro q found hq
  rw [hpermits, ExtTreeMap.getElem?_insert] at hq
  split at hq
  · obtain rfl := Option.some.inj hq
    exact hrecord
  · exact h q found hq

/-- A policy's costs are 32-bit numbers. -/
theorem resolveCost_le (policy : ClassPolicy) :
    (resolveCost policy).cpuUnits ≤ u32Max ∧ (resolveCost policy).memoryUnits ≤ u32Max := by
  have hcpu := policy.permitCost.cpuUnits.toNat_lt
  have hmemory := policy.permitCost.memoryUnits.toNat_lt
  simp only [resolveCost, u32Max]
  omega

/-- A grant charges and reserves the cost of its class. -/
theorem GrantFits.ledgerFits {grant : GrantRequest} {policy : ClassPolicy} (h : GrantFits g s grant policy) :
    LedgerFits grant.record.ledger := by
  have hle := (resolveCost_le policy).2
  constructor
  · show grant.cost.memoryUnits ≤ u32Max
    rw [h.cost]
    exact hle
  · show grant.reservedUnits ≤ u32Max
    rw [h.reserved]
    exact hle

/-- A move that reports no memory keeps every charge a `u32`. -/
theorem Effect.unitsFit (h : Effect g caller s s') (hmemory : ∀ p, ¬ caller.memory p) (hu : UnitsFit s) :
    UnitsFit s' := by
  cases h with
  | kept queues ledger guards => exact hu.congr ledger.permits
  | queued waker nowMs tags allowed accepted pushed identities ledger guards sound => exact hu.congr ledger.permits
  | dropped removed identities ledger guards => exact hu.congr ledger.permits
  | admitted nowMs allowed accepted fits result =>
    subst result
    exact hu.insert rfl fits.ledgerFits
  | promoted nowMs fits removed identities ledger guards result =>
    subst result
    exact (hu.congr ledger.permits).insert rfl fits.ledgerFits
  | @ended p record found ends queues ledger guards =>
    intro q found' hq
    have hpermits : s'.permits = s.permits.erase p := ledger.permits
    rw [hpermits, ExtTreeMap.getElem?_erase] at hq
    split at hq
    · simp at hq
    · exact hu q found' hq
  | @touched p record record' found similar queues ledger guards =>
    obtain ⟨waker, touchedMs, heq⟩ := similar.rest
    have hold := hu p record found
    refine hu.insert (s := s) ledger.permits ?_
    rw [heq]
    exact ⟨hold.effective, hold.remaining⟩
  | @advanced p record phase nonces found later result =>
    subst result
    exact hu.insert rfl (hu p record found)
  | recharged allowed found change result => exact absurd allowed (hmemory _)

/-- A recharge within the range of a charge keeps all charges in range. -/
theorem UnitsFit.recharged (h : UnitsFit s) (hledger : LedgerFits ledger) :
    UnitsFit (s.rechargePermit p record ledger) :=
  h.insert (memoryOnly_rechargePermit s p record ledger).permits hledger

/-! ## Counters -/

/-- No class has admitted and queued more than `n` requests, and no more than `n` have arrived. -/
structure CountedWithin (n : Nat) (s : GovernedState) : Prop where
  admitted : ∀ c, (s.cls c).admittedTotal + (s.waiting c).length ≤ n
  arrivals : s.nextQueueOrder ≤ n

theorem CountedWithin.mono {m : Nat} (h : CountedWithin n s) (hle : n ≤ m) : CountedWithin m s :=
  ⟨fun c => Nat.le_trans (h.admitted c) hle, Nat.le_trans h.arrivals hle⟩

theorem GovernedState.SameLedger.admittedTotal_eq (h : s.SameLedger s') (c : TaskClass) :
    (s'.cls c).admittedTotal = (s.cls c).admittedTotal := by
  show (s'.cls c).ledgerHalf.admittedTotal = (s.cls c).ledgerHalf.admittedTotal
  rw [h.classes c]

theorem admittedTotal_chargeClass (cost : ResolvedCost) (cs : ClassState) :
    (GovernedState.chargeClass cost cs).admittedTotal = cs.admittedTotal + 1 := rfl

/-- A grant counts one admission of its class. -/
theorem admittedTotal_grant (s : GovernedState) (grant : GrantRequest) (c : TaskClass) :
    ((s.grant grant).cls c).admittedTotal =
      (s.cls c).admittedTotal + if c = grant.taskClass then 1 else 0 := by
  rw [GovernedState.cls_grant]
  by_cases hc : grant.taskClass = c
  · rw [if_pos hc, if_pos hc.symm, admittedTotal_chargeClass]
  · rw [if_neg hc, if_neg (Ne.symm hc), Nat.add_zero]

/-- The end of a permit does not count back. -/
theorem admittedTotal_discharge (s : GovernedState) (p : PermitId) (record : PermitRecord) (c : TaskClass) :
    ((s.discharge p record).cls c).admittedTotal = (s.cls c).admittedTotal := by
  rw [GovernedState.cls_discharge]
  split
  · exact (totals_dischargeClass record _).2.2.2.1
  · rfl

theorem admittedTotal_advancedTo (s : GovernedState) (p : PermitId) (record : PermitRecord)
    (phase : ExecutionPhase) (nonces : Nat) (c : TaskClass) :
    ((s.advancedTo p record phase nonces).cls c).admittedTotal = (s.cls c).admittedTotal := by
  rw [GovernedState.cls_advancedTo]
  split
  · exact (totals_advanceClass record.phase phase _).2.2.2.1
  · rfl

theorem admittedTotal_rechargePermit (s : GovernedState) (p : PermitId) (record : PermitRecord)
    (ledger : PermitLedger) (c : TaskClass) :
    ((s.rechargePermit p record ledger).cls c).admittedTotal = (s.cls c).admittedTotal := by
  obtain ⟨_, hclasses, _⟩ := totals_applyMemoryDelta
    { s with permits := s.permits.insert p { record with ledger := ledger } } record.taskClass
    (if record.scope.isChild then some record.rootOperationId else none)
    (ledger.effectiveUnits - record.ledger.effectiveUnits : Int)
  have hcls : (s.rechargePermit p record ledger).cls c =
      if record.taskClass = c ∧ s.classes[c]? ≠ none then
        shiftClass (ledger.effectiveUnits - record.ledger.effectiveUnits : Int) (s.cls c)
      else s.cls c := by
    refine Eq.trans ?_ (GovernedState.cls_modify s record.taskClass c (shiftClass _))
    exact GovernedState.cls_of_classes_eq hclasses c
  rw [hcls]
  split <;> rfl

/-- A move counts a request once: when it is queued, or when it is granted without having queued. -/
theorem Effect.admitted_le (h : Effect g caller s s') (hc : ∀ c, (s.cls c).admittedTotal + (s.waiting c).length ≤ n) :
    (∀ c, (s'.cls c).admittedTotal + (s'.waiting c).length ≤ n) ∨
      (∃ ids, caller.ids ids) ∧ ∀ c, (s'.cls c).admittedTotal + (s'.waiting c).length ≤ n + 1 := by
  cases h with
  | kept queues ledger guards =>
    left
    intro c
    rw [ledger.admittedTotal_eq, queues.waiting_eq]
    exact hc c
  | queued waker nowMs tags allowed accepted pushed identities ledger guards sound =>
    right
    refine ⟨⟨_, allowed⟩, fun c => ?_⟩
    have hlength := pushed.length_eq c
    have hle := hc c
    rw [ledger.admittedTotal_eq]
    split at hlength <;> omega
  | dropped removed identities ledger guards =>
    left
    intro c
    have hlength := removed.length_eq c
    have hle := hc c
    rw [ledger.admittedTotal_eq]
    omega
  | admitted nowMs allowed accepted fits result =>
    right
    subst result
    refine ⟨⟨_, allowed⟩, fun c => ?_⟩
    have hle := hc c
    rw [admittedTotal_grant, (GovernedState.sameQueues_grant _ _).waiting_eq]
    split <;> omega
  | @promoted policy c index head base nowMs fits removed identities ledger guards result =>
    left
    subst result
    intro c'
    have hlength := removed.length_eq c'
    have hle := hc c'
    have hclass : (Governor.promotedGrant base c head nowMs).taskClass = c := rfl
    rw [admittedTotal_grant, (GovernedState.sameQueues_grant _ _).waiting_eq, ledger.admittedTotal_eq, hclass]
    omega
  | @ended p record found ends queues ledger guards =>
    left
    intro c
    rw [ledger.admittedTotal_eq, admittedTotal_discharge, queues.waiting_eq]
    exact hc c
  | @touched p record record' found similar queues ledger guards =>
    left
    intro c
    rw [ledger.admittedTotal_eq, queues.waiting_eq]
    exact hc c
  | advanced nonces found later result =>
    left
    subst result
    intro c
    rw [admittedTotal_advancedTo, (GovernedState.sameQueues_advancedTo s _ _ _ _).waiting_eq]
    exact hc c
  | recharged allowed found change result =>
    left
    subst result
    intro c
    rw [admittedTotal_rechargePermit, (sameQueues_rechargePermit s _ _ _).waiting_eq]
    exact hc c

/-- Only a request that queues takes an arrival number. -/
theorem Move.arrivals {trend : Trend} (h : Move g caller trend s s') :
    s'.nextQueueOrder = s.nextQueueOrder ∨
      (∃ ids, caller.ids ids) ∧ s'.nextQueueOrder = s.nextQueueOrder + 1 := by
  by_cases hids : ∃ ids, caller.ids ids
  · cases h.queueEffect with
    | same h => exact Or.inl h.order
    | pushed waker nowMs tags accepted blocked sound room order classes => exact Or.inr ⟨hids, order⟩
    | removed found order classes => exact Or.inl order
  · left
    have hremoved : ∀ {c : TaskClass} {index : Nat} {r : PendingRequest} {t : GovernedState},
        (s.removedPending c index r).SameQueues t → t.nextQueueOrder = s.nextQueueOrder :=
      fun h => h.order
    cases h with
    | rescheduled h => exact h.queues.order
    | flagged _ pending => rfl
    | closed => rfl
    | faulted _ what allowed => exact (sameQueues_recordAccountingFault s what).order
    | admitted nowMs allowed accepted runnable => rfl
    | enqueued waker nowMs tags allowed accepted blocked room hres sound => exact absurd ⟨_, allowed⟩ hids
    | promoted nowMs h =>
      obtain ⟨c, policy, index, r, head, chosen, served, hpromotes⟩ := promoteStep_some h
      rw [hpromotes.result]
      exact hpromotes.serves.queues.order.trans hpromotes.chose.queues.order
    | cycled h found first => exact hremoved (sameQueues_terminalizeCycle g _ _ _ _)
    | @cancelled _ c index r ticket h found same owner =>
      exact (sameQueues_vacateOf ((s.removedPending c index r).removeTicket ticket) r).order
    | lost h missing owner => rfl
    | @faultedHead _ c r found => exact (sameQueues_vacateOf (s.removedPending c 0 r) r).order
    | unwound found ends h => exact (sameQueues_unwind h).order
    | claimBegun nowMs h found owner => rfl
    | transferred nowMs h found owner => rfl
    | detached h found leased => exact (sameQueues_detachTicket s _ _).order
    | expired h gone => rfl
    | orphaned h gone owner => rfl
    | forgot _ ticket owner => rfl
    | advanced nonces found later => rfl
    | recharged allowed found change => exact (sameQueues_rechargePermit s _ _ _).order

/-- A move that brings no identity counts nothing; one that does counts one request. -/
theorem Move.counted {trend : Trend} (h : Move g caller trend s s') (hq : QueueInv g s) (hc : CountedWithin n s) :
    CountedWithin n s' ∨ (∃ ids, caller.ids ids) ∧ CountedWithin (n + 1) s' := by
  have harrived := hc.arrivals
  rcases (h.effect hq).admitted_le hc.admitted with hadmitted | ⟨hids, hadmitted⟩
  · rcases h.arrivals with horder | ⟨hids, horder⟩
    · exact Or.inl ⟨hadmitted, by omega⟩
    · exact Or.inr ⟨hids, fun c => Nat.le_succ_of_le (hadmitted c), by omega⟩
  · refine Or.inr ⟨hids, hadmitted, ?_⟩
    rcases h.arrivals with horder | ⟨_, horder⟩ <;> omega

/-! ## Sound states -/

/-- The invariants hold, the gauges are exact, and no counter is near its width. -/
structure Sound (g : Governor) (n : Nat) (s : GovernedState) : Prop where
  inv : StateInv g s
  gauges : Gauges s
  few : s.permits.size < 2 ^ 32
  units : UnitsFit s
  counted : CountedWithin n s
  bounded : n ≤ u64Max
  load : ticketLoad s < u64Max

theorem Sound.seq (h : Sound g n s) : s.terminalSeq < u64Max :=
  Nat.lt_of_le_of_lt (terminalSeq_le_load s) h.load

theorem Sound.mono {m : Nat} (h : Sound g n s) (hle : n ≤ m) (hm : m ≤ u64Max) : Sound g m s :=
  ⟨h.inv, h.gauges, h.few, h.units, h.counted.mono hle, hm, h.load⟩

/-- A move without new identities leads to a sound state, if its charges are `u32` amounts. -/
theorem Move.sound {trend : Trend} (h : Move g caller trend s s') (hids : ∀ ids, ¬ caller.ids ids)
    (hs : Sound g n s) (hfew : s'.permits.size < 2 ^ 32) (hunits : UnitsFit s') : Sound g n s' where
  inv := h.stateInv hs.inv hs.seq
  gauges := h.gauges hs.inv (FewSharers.of_size hfew) hs.gauges
  few := hfew
  units := hunits
  counted := (h.counted hs.inv.queues hs.counted).resolve_right fun hnew => hnew.1.elim hids
  bounded := hs.bounded
  load := by
    have hload := hs.load
    have hle := h.load_le hids hs.inv hs.seq
    omega

/-- The caller brings no identity and reports no memory. -/
structure Caller.Plain (caller : Caller) : Prop where
  ids : ∀ ids, ¬ caller.ids ids
  memory : ∀ p, ¬ caller.memory p

theorem Caller.plain_nobody : Caller.nobody.Plain := ⟨fun _ => id, fun _ => id⟩

/-- A move of a call without identities of its own keeps the state sound while few permits live. -/
theorem Move.sound_plain {trend : Trend} (h : Move g caller trend s s') (hplain : caller.Plain)
    (hs : Sound g n s) (hfew : s'.permits.size < 2 ^ 32) : Sound g n s' :=
  h.sound hplain.ids hs hfew ((h.effect hs.inv.queues).unitsFit hplain.memory hs.units)

/-- A move that adds no permit needs no bound on them. -/
theorem Move.sound_shrinking (h : Move g caller .shrinking s s') (hplain : caller.Plain) (hs : Sound g n s) :
    Sound g n s' := h.sound_plain hplain hs (Nat.lt_of_le_of_lt h.shrinks hs.few)

theorem Moves.sound_shrinking (h : Moves g caller .shrinking s s') (hplain : caller.Plain) (hs : Sound g n s) :
    Sound g n s' := by
  induction h with
  | refl => exact hs
  | tail _ hm ih => exact hm.sound_shrinking hplain ih

/-- Along growing moves no permit is lost. -/
theorem Moves.grows (h : Moves g caller .growing s s') : s.permits.size ≤ s'.permits.size := by
  induction h with
  | refl => exact Nat.le_refl _
  | tail _ hm ih => exact Nat.le_trans ih hm.grows

/-- The growing part of a step is its promotion pass. -/
theorem commit_grows (g : Governor) {α : Type} (sec : Governor.Section α) (nowMs : Nat) :
    Moves g Caller.nobody .growing sec.state (g.commit sec nowMs).1 := by
  unfold Governor.commit
  split
  · exact promote_moves g sec.state nowMs
  · exact .refl

/-- A growing part leads to a sound state when it ends with few permits. -/
theorem Moves.sound_growing (h : Moves g caller .growing s s') (hplain : caller.Plain) (hs : Sound g n s)
    (hfew : s'.permits.size < 2 ^ 32) : Sound g n s' := by
  induction h with
  | refl => exact hs
  | tail _ hm ih => exact hm.sound_plain hplain (ih (Nat.lt_of_le_of_lt hm.grows hfew)) hfew

/-- A whole section keeps the state sound if few permits live at its end. -/
theorem Path.sound (h : Path g caller s s') (hplain : caller.Plain) (hs : Sound g n s)
    (hfew : s'.permits.size < 2 ^ 32) : Sound g n s' := by
  obtain ⟨middle, hshrink, hgrow⟩ := h
  exact hgrow.sound_growing hplain (hshrink.sound_shrinking hplain hs) hfew

/-- Rescheduling is a move of anybody. -/
theorem Sound.rescheduled (hs : Sound g n s) (h : s.Rescheduled s') : Sound g n s' := by
  have hmove : Move g Caller.nobody .shrinking s s' := Move.rescheduled h
  exact hmove.sound_shrinking Caller.plain_nobody hs

/-- A report on behalf of the owner of a permit. -/
def Caller.reporting (p : PermitId) : Caller :=
  ⟨fun _ _ => False, fun _ => False, fun q => q = p, fun _ => False⟩

/-- A report leads to a sound state when the new charge is a `u32`. -/
theorem Sound.recharged (hs : Sound g n s) (found : s.permits[p]? = some record)
    (change : LedgerChange record.ledger ledger) (hledger : LedgerFits ledger) :
    Sound g n (s.rechargePermit p record ledger) := by
  have hmove : Move g (Caller.reporting p) .shrinking s (s.rechargePermit p record ledger) :=
    Move.recharged rfl found change
  exact hmove.sound (fun _ => id) hs (Nat.lt_of_le_of_lt hmove.shrinks hs.few) (hs.units.recharged hledger)

/-- A recorded fault leaves every sum as it is. -/
theorem Sound.recordAccountingFault (hs : Sound g n s) (p : PermitId) (what : String) :
    Sound g n (s.recordAccountingFault what) := by
  have hmove : Move g (Caller.reporting p) .shrinking s (s.recordAccountingFault what) :=
    Move.faulted s what ⟨p, rfl⟩
  refine hmove.sound (fun _ => id) hs (Nat.lt_of_le_of_lt hmove.shrinks hs.few) ?_
  exact hs.units.congr (memoryOnly_recordAccountingFault s what).permits

/-- An admission with new identities leads to a sound state with one more request counted. -/
theorem Move.sound_entered {trend : Trend} (h : Move g caller trend s s') (hmemory : ∀ p, ¬ caller.memory p)
    (hs : Sound g n s) (hfew : s'.permits.size < 2 ^ 32) (hbounded : n + 1 ≤ u64Max)
    (hload : ticketLoad s + 1 < u64Max) : Sound g (n + 1) s' where
  inv := h.stateInv hs.inv hs.seq
  gauges := h.gauges hs.inv (FewSharers.of_size hfew) hs.gauges
  few := hfew
  units := (h.effect hs.inv.queues).unitsFit hmemory hs.units
  counted := by
    rcases h.counted hs.inv.queues hs.counted with hcounted | ⟨_, hcounted⟩
    · exact hcounted.mono (Nat.le_succ n)
    · exact hcounted
  bounded := hbounded
  load := by
    rcases (h.ticketStep hs.inv.queues hs.inv.occupancy hs.inv.tickets hs.seq).2.load_le with
      hle | ⟨_, hle⟩ <;> omega

theorem sound_init (g : Governor) : Sound g 0 {} where
  inv := stateInv_init g
  gauges := gauges_init
  few := by simp
  units := by
    intro p record h
    simp at h
  counted := by
    refine ⟨fun c => ?_, Nat.le_refl 0⟩
    simp [waiting_init, GovernedState.cls, default]
  bounded := Nat.zero_le _
  load := by simp [ticketLoad, activeTickets, u64Max]

/-! ## Totals of a sound state -/

/-- A total is at most the number of permits times the largest charge. -/
theorem heldBy_le_size {f : PermitRecord → Nat} {bound : Nat}
    (h : ∀ (p : PermitId) record, permits[p]? = some record → f record ≤ bound) :
    heldBy permits f ≤ permits.size * bound := by
  have hle : heldBy permits f ≤ sumBy permits fun _ _ => bound := sumBy_le_sumBy h
  refine Nat.le_trans hle (Nat.le_of_eq ?_)
  simp [sumBy, length_toList]

/-- A class holds no more than all classes. -/
theorem heldIn_le_heldBy (permits : BTreeMap PermitId PermitRecord) (c : TaskClass) (f : PermitRecord → Nat) :
    heldIn permits c f ≤ heldBy permits f := by
  refine sumBy_le_sumBy fun p record _ => ?_
  split <;> omega

/-- A root's children hold no more than everybody. -/
theorem heldByChildren_le_heldBy (permits : BTreeMap PermitId PermitRecord) (root : String)
    (f : PermitRecord → Nat) : heldByChildren permits root f ≤ heldBy permits f := by
  unfold heldByChildren heldBy
  refine sumBy_le_sumBy fun p record _ => ?_
  show (if isChildOf root record = true then f record else 0) ≤ f record
  split <;> omega

/-- The bound on any total of charges: `2^32` permits of `u32` units each. -/
def chargesMax : Nat := 2 ^ 32 * u32Max

section Totals

variable (hs : Sound g n s)

include hs

/-- What all permits charge, in a sound state, fits a product of two 32-bit bounds. -/
theorem Sound.cpu_le : heldBy s.permits cpuOf ≤ chargesMax := by
  have hbound : heldBy s.permits cpuOf ≤ s.permits.size * u32Max := by
    refine heldBy_le_size fun p record found => ?_
    obtain ⟨policy, hfits⟩ := hs.inv.permits p record found
    rw [hfits.cpu]
    exact (resolveCost_le policy).1
  exact Nat.le_trans hbound (Nat.mul_le_mul_right _ (Nat.le_of_lt hs.few))

theorem Sound.memory_le : heldBy s.permits memoryOf ≤ chargesMax := by
  have hbound : heldBy s.permits memoryOf ≤ s.permits.size * u32Max :=
    heldBy_le_size fun p record found => (hs.units p record found).effective
  exact Nat.le_trans hbound (Nat.mul_le_mul_right _ (Nat.le_of_lt hs.few))

theorem Sound.cpuHeld_le : s.cpuUnitsHeld ≤ chargesMax := by
  rw [hs.inv.books.cpu]
  exact hs.cpu_le

theorem Sound.memoryHeld_le : s.memoryUnitsHeld ≤ chargesMax := by
  rw [hs.inv.books.memory]
  exact hs.memory_le

theorem Sound.classCpu_le (c : TaskClass) : (s.cls c).cpuUnitsHeld ≤ chargesMax := by
  rw [(hs.inv.books.classes c).cpu]
  exact Nat.le_trans (heldIn_le_heldBy _ _ _) hs.cpu_le

theorem Sound.classMemory_le (c : TaskClass) : (s.cls c).memoryUnitsHeld ≤ chargesMax := by
  rw [(hs.inv.books.classes c).memory]
  exact Nat.le_trans (heldIn_le_heldBy _ _ _) hs.memory_le

theorem Sound.rootCpu_le (root : String) : (s.rootState root).cpuUnits ≤ chargesMax := by
  rw [(hs.gauges.roots root).cpu]
  exact Nat.le_trans (heldByChildren_le_heldBy _ _ _) hs.cpu_le

theorem Sound.rootMemory_le (root : String) : (s.rootState root).memoryUnits ≤ chargesMax := by
  rw [(hs.gauges.roots root).memory]
  exact Nat.le_trans (heldByChildren_le_heldBy _ _ _) hs.memory_le

theorem Sound.rootChildren_le (root : String) : (s.rootState root).childInflight ≤ s.permits.size := by
  rw [(hs.gauges.roots root).children]
  exact heldByChildren_le_size _ _

/-- A class has no more permits than there are. -/
theorem Sound.inflight_le (c : TaskClass) : (s.cls c).inflight ≤ s.permits.size := by
  have hle : heldIn s.permits c (fun _ => 1) ≤ heldBy s.permits fun _ => 1 := heldIn_le_heldBy _ _ _
  have hsize : s.permits.size = heldBy s.permits fun _ => 1 := size_eq_sumBy s.permits
  rw [(hs.inv.books.classes c).inflight, hsize]
  exact hle

/-- The lifetime count of a class is bounded by the number of sections entered so far. -/
theorem Sound.admitted_le (c : TaskClass) : (s.cls c).admittedTotal ≤ u64Max := by
  have hcounted := hs.counted.admitted c
  have hbounded := hs.bounded
  omega

end Totals

end Taskmesh
