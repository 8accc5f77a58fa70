import Taskmesh.Engine.PanicSystem
import Taskmesh.Engine.Proofs.PanicSchedulerProofs

/-!
# Admission and memory governance do not panic

From a sound state, and to a state with few permits, an admission computes what its namesake
computes; so do a reconcile, a stage release and a leak sweep, which end in a sound state again.
-/

namespace Taskmesh

open Std MachineInt SetIndex QueueFamily ExtTreeMap Faults

variable {g : Governor} {s s' : GovernedState} {n : Nat}

/-- A sound state with room for one more request. -/
structure Roomy (g : Governor) (n : Nat) (s : GovernedState) : Prop where
  sound : Sound g n s
  bounded : n + 1 ≤ u64Max
  load : ticketLoad s + 1 < u64Max

/-- A caller that only brings identities. -/
def Caller.entering : Caller := ⟨fun _ _ => False, fun _ => True, fun _ => False, fun _ => False⟩

theorem Move.sound_roomy {trend : Trend} (h : Move g Caller.entering trend s s') (hs : Roomy g n s)
    (hfew : s'.permits.size < 2 ^ 32) : Sound g (n + 1) s' :=
  h.sound_entered (fun _ => id) hs.sound hfew hs.bounded hs.load

namespace Panicky

/-! ## Admission -/

/-- Neither a queued nor a live request has the operation identity. -/
theorem permitsForOperation_of_new {root operation : String} (h : s.hasOperationIdentity root operation = false) :
    s.permitsForOperation root operation = none := by
  unfold GovernedState.hasOperationIdentity at h
  rw [Bool.or_eq_false_iff] at h
  simpa using h.1

theorem retry_ok (hs : Sound g n s) (policy : ClassPolicy) (c : TaskClass) :
    retry policy s c = .ok (Taskmesh.retry policy s c) := by
  have hdepth : s.queued c ≤ u32Max := Nat.min_le_right _ _
  have hinflight : s.inflight c ≤ u32Max := by
    have hle := hs.inflight_le c
    have hfew := hs.few
    simp only [GovernedState.inflight, u32Max]
    omega
  exact retryAfter_ok _ _ hdepth hinflight

section Entering

variable {policy : ClassPolicy} {c : TaskClass} {request : AdmissionRequest} {waker : Option Waker}
  {ids : Ids} {nowMs : Nat} {effects : TransitionEffects}

theorem enqueueOrFull_ok (hs : Sound g n s)
    (hnew : s.hasOperationIdentity request.spec.rootOperationId request.spec.operation = false)
    (block : CapacityBlock) :
    enqueueOrFull s policy c request waker ids nowMs block effects =
      .ok (Taskmesh.enqueueOrFull s policy c request waker ids nowMs block effects) := by
  unfold enqueueOrFull Taskmesh.enqueueOrFull
  by_cases hfull : s.queued c ≥ policy.maxQueueDepth.toNat
  · simp only [if_pos hfull]
    rw [retry_ok hs]
    rfl
  · have hres := rescheduled_enqueueTags s c policy (resolveCost policy).cpuUnits nowMs
    simp only [if_neg hfull]
    rw [enqueueTags_ok s c policy (resolveCost_le policy).1, ok_bind]
    generalize Taskmesh.enqueueTags s c policy (resolveCost policy).cpuUnits nowMs = tagging at hres
    obtain ⟨tagged, tags⟩ := tagging
    have horder : tagged.nextQueueOrder ≤ u64Max := by
      have harrived := hs.counted.arrivals
      have hbounded := hs.bounded
      rw [hres.queues.order]
      omega
    have hunknown : tagged.hasOperationIdentity request.spec.rootOperationId request.spec.operation = false := by
      unfold GovernedState.hasOperationIdentity GovernedState.permitsForOperation
      rw [hres.queues.identities, hres.ledger.operations]
      exact hnew
    have henqueue : enqueue tagged (pendingRequest s policy c request waker ids nowMs block tags) =
        .ok (tagged.enqueue (pendingRequest s policy c request waker ids nowMs block tags)) :=
      enqueue_ok horder hunknown
    simp only
    rw [henqueue]
    rfl

theorem assessIntake_ok (hs : Sound g n s) (policies : PolicySet) (policy : ClassPolicy) (c : TaskClass)
    (request : AdmissionRequest) :
    assessIntake s policies policy c request = .ok (Taskmesh.assessIntake s policies policy c request) :=
  assessScope_ok hs policies _

/-- A direct grant does not panic if it ends with few permits. -/
theorem directGrant_ok (hs : Roomy g n s) (accepted : Accepted g s policy c request ids)
    (runnable : Taskmesh.assessIntake s g.policy policy c request = .runnable)
    (hfew : (s.grant (directGrant s policy c request ids nowMs)).permits.size < 2 ^ 32) :
    grant s (directGrant s policy c request ids nowMs) =
      .ok (s.grant (directGrant s policy c request ids nowMs)) := by
  have hmove : Move g Caller.entering .growing s (s.grant (directGrant s policy c request ids nowMs)) :=
    Move.admitted nowMs trivial accepted runnable
  exact grant_ok hs.sound (GovernedState.SameLedger.refl s) (resolveCost_le policy) accepted.fresh.permit
    (permitsForOperation_of_new accepted.identity) (hmove.sound_roomy hs hfew)

/-- The fallback admissions agree on the class a policy degrades to, where the plain one ends with
few permits. -/
def FallbackAgrees (policy : ClassPolicy) :
    Option (TaskClass → Panicky Admission) → Option (TaskClass → Admission) → Prop
  | none, none => True
  | some admit₁, some admit₂ => ∀ fallback, policy.memoryOvercommitPolicy = .degradeToLight fallback →
      (admit₂ fallback).state.permits.size < 2 ^ 32 → admit₁ fallback = .ok (admit₂ fallback)
  | _, _ => False

theorem admitBlock_ok {degrade : Option (TaskClass → Panicky Admission)}
    {degrade' : Option (TaskClass → Admission)} {block : CapacityBlock} (hs : Sound g n s)
    (hnew : s.hasOperationIdentity request.spec.rootOperationId request.spec.operation = false)
    (hdegrade : FallbackAgrees policy degrade degrade') (hblock : block ≠ .ok)
    (hfew : (Taskmesh.admitBlock s policy c request waker ids nowMs degrade' effects block).state.permits.size <
      2 ^ 32) :
    admitBlock s policy c request waker ids nowMs degrade effects block =
      .ok (Taskmesh.admitBlock s policy c request waker ids nowMs degrade' effects block) := by
  have hqueued : ∀ block, enqueueOrFull s policy c request waker ids nowMs block effects =
      .ok (Taskmesh.enqueueOrFull s policy c request waker ids nowMs block effects) :=
    fun block => enqueueOrFull_ok hs hnew block
  have hoverflow : ∀ block, (if policy.overflowPolicy.isQueueable then
        enqueueOrFull s policy c request waker ids nowMs block effects
      else do
        let hint ← retry policy s c
        return refuse s effects waker (verdictForBlock block hint) : Panicky Admission) =
      .ok (if policy.overflowPolicy.isQueueable then
        Taskmesh.enqueueOrFull s policy c request waker ids nowMs block effects
      else refuse s effects waker (verdictForBlock block (Taskmesh.retry policy s c))) := by
    intro block
    split
    · exact hqueued block
    · rw [retry_ok hs]
      rfl
  have hrefused : (do
      let hint ← retry policy s c
      return refuse s effects waker (.memorySaturated hint) : Panicky Admission) =
      .ok (refuse s effects waker (.memorySaturated (Taskmesh.retry policy s c))) := by
    rw [retry_ok hs]
    rfl
  cases block with
  | ok => exact absurd rfl hblock
  | accountingFault => rfl
  | queuedBehind => exact hqueued .queuedBehind
  | inflight => exact hoverflow .inflight
  | cpu => exact hoverflow .cpu
  | capability => exact hoverflow .capability
  | memory =>
    unfold admitBlock
    unfold Taskmesh.admitBlock at hfew ⊢
    cases hpolicy : policy.memoryOvercommitPolicy with
    | queue => exact hqueued .memory
    | reject => exact hrefused
    | degradeToLight fallback =>
      rw [hpolicy] at hfew
      cases degrade with
      | none =>
        cases degrade' with
        | none => exact hrefused
        | some admit₂ => exact hdegrade.elim
      | some admit₁ =>
        cases degrade' with
        | none => exact hdegrade.elim
        | some admit₂ => exact hdegrade fallback hpolicy hfew

/-- The fallback admissions a wait cycle is given agree in the same way. -/
theorem cycleFallback_cases {degrade : Option (TaskClass → Panicky Admission)}
    {degrade' : Option (TaskClass → Admission)} (hdegrade : FallbackAgrees policy degrade degrade')
    (witness : CycleWitness) :
    (cycleFallback policy witness degrade = none ∧ Taskmesh.cycleFallback policy witness degrade' = none) ∨
      ∃ run admission, cycleFallback policy witness degrade = some run ∧
        Taskmesh.cycleFallback policy witness degrade' = some admission ∧
        (admission.state.permits.size < 2 ^ 32 → run = .ok admission) := by
  unfold cycleFallback Taskmesh.cycleFallback
  by_cases hmemory : HeldCapacity.memoryBudget ∈ witness.held
  · simp only [if_pos hmemory]
    cases hpolicy : policy.memoryOvercommitPolicy with
    | queue => exact Or.inl ⟨rfl, rfl⟩
    | reject => exact Or.inl ⟨rfl, rfl⟩
    | degradeToLight fallback =>
      cases degrade with
      | none =>
        cases degrade' with
        | none => exact Or.inl ⟨rfl, rfl⟩
        | some admit₂ => exact hdegrade.elim
      | some admit₁ =>
        cases degrade' with
        | none => exact hdegrade.elim
        | some admit₂ => exact Or.inr ⟨_, _, rfl, rfl, hdegrade fallback hpolicy⟩
  · rw [if_neg hmemory, if_neg hmemory]
    exact Or.inl ⟨rfl, rfl⟩

theorem admitClassWith_ok {degrade : Option (TaskClass → Panicky Admission)}
    {degrade' : Option (TaskClass → Admission)} (hs : Roomy g n s)
    (haccepted : ∀ policy, PassedChecks g s request c policy → Accepted g s policy c request ids)
    (heffective : EffectiveClass g request c)
    (hdegrade : ∀ policy, g.policy.classPolicy c = some policy → FallbackAgrees policy degrade degrade')
    (hfew : (Taskmesh.admitClassWith degrade' s g.policy nowMs request c waker ids effects).state.permits.size <
      2 ^ 32) :
    admitClassWith degrade s g.policy nowMs request c waker ids effects =
      .ok (Taskmesh.admitClassWith degrade' s g.policy nowMs request c waker ids effects) := by
  unfold admitClassWith
  unfold Taskmesh.admitClassWith at hfew ⊢
  cases hpolicy : g.policy.classPolicy c with
  | none => rfl
  | some policy =>
    rw [hpolicy] at hfew
    simp only at hfew ⊢
    by_cases hdisabled : policy.isDisabled
    · simp only [if_pos hdisabled]
    by_cases hidentity : s.hasOperationIdentity request.spec.rootOperationId request.spec.operation
    · simp only [if_neg hdisabled, if_pos hidentity]
    by_cases hrecursive : isRecursive s request.spec
    · simp only [if_neg hdisabled, if_neg hidentity, if_pos hrecursive]
    have hnew := Bool.not_eq_true _ ▸ hidentity
    have checks : PassedChecks g s request c policy :=
      ⟨hpolicy, by simpa using hdisabled, hnew, by simpa using hrecursive, heffective⟩
    simp only [if_neg hdisabled, if_neg hidentity, if_neg hrecursive] at hfew ⊢
    rw [assessIntake_ok hs.sound, ok_bind]
    cases hassess : Taskmesh.assessIntake s g.policy policy c request with
    | runnable =>
      rw [hassess] at hfew
      show (do
        let granted ← grant s (directGrant s policy c request ids nowMs)
        return ⟨granted, effects.pushRetire waker, .admitted ids.permitId⟩ : Panicky Admission) = _
      rw [directGrant_ok hs (haccepted policy checks) hassess hfew]
      rfl
    | reversiblyBlocked blockers =>
      rw [hassess] at hfew
      have hne := BlockerSet.primary_ne_ok (assessScope_blockers hassess).2
      exact admitBlock_ok hs.sound hnew (hdegrade policy hpolicy) hne hfew
    | irreversibleWaitCycle witness =>
      rw [hassess] at hfew
      obtain ⟨held, rest, hcons⟩ := List.exists_cons_of_ne_nil (cycleWitness_held (assessScope_cycle hassess))
      simp only at hfew ⊢
      rcases cycleFallback_cases (hdegrade policy hpolicy) witness with ⟨hnone, hnone'⟩ |
        ⟨run, admission, hsome, hsome', hagrees⟩
      · simp only [hnone, hnone', hcons]
        rfl
      · simp only [hsome'] at hfew
        simp only [hsome, hsome']
        exact hagrees hfew

/-- Admission from a state with room for one more request, which ends with few permits. -/
theorem admitRequest_ok (hs : Roomy g n s) (intake : Intake g.policy) (hfresh : Fresh s ids)
    (hfew : (Taskmesh.admitRequest s g.policy nowMs intake.request intake.waker ids effects).state.permits.size <
      2 ^ 32) :
    admitRequest s g.policy nowMs intake.request intake.waker ids effects =
      .ok (Taskmesh.admitRequest s g.policy nowMs intake.request intake.waker ids effects) := by
  unfold admitRequest
  unfold Taskmesh.admitRequest at hfew ⊢
  by_cases hclosed : s.admissionClosed
  · simp only [if_pos hclosed]
  simp only [if_neg hclosed] at hfew ⊢
  have haccepted : ∀ c policy, PassedChecks g s intake.request c policy →
      Accepted g s policy c intake.request ids :=
    fun c policy checks => ⟨checks, intake.registered, intake.valid, by simpa using hclosed, hfresh⟩
  refine admitClassWith_ok hs (haccepted _) (Or.inl rfl) (fun declared hdeclared fallback hfallback hfew' => ?_) hfew
  -- A degrade is one hop: the fallback admission has no fallback of its own.
  exact admitClassWith_ok hs (haccepted _) (Or.inr ⟨declared, hdeclared, hfallback⟩) (fun _ _ => trivial) hfew'

end Entering

/-! ## Memory -/

/-- A delta between `u32` amounts fits `i64`, and it fits every total it is added to. -/
theorem applyMemoryDelta_ok {c : TaskClass} {root : Option String} {delta : Int} (hsmall : delta.natAbs ≤ u32Max)
    (hmemory : s.memoryUnitsHeld ≤ chargesMax) (hclass : (s.cls c).memoryUnitsHeld ≤ chargesMax)
    (hroots : ∀ root, (s.rootState root).memoryUnits ≤ chargesMax) :
    applyMemoryDelta s c root delta = .ok (s.applyMemoryDelta c root delta) := by
  have hfits : -2 ^ 63 ≤ delta ∧ delta < 2 ^ 63 := by
    simp only [u32Max] at hsmall
    omega
  have hvisit : checkEach (fun root => do
      let _ ← add128 (s.roots[root]?.getD {}).memoryUnits delta.natAbs) root.toList = .ok () := by
    refine checkEach_ok fun root _ => ?_
    have hroot : (s.roots[root]?.getD {}).memoryUnits ≤ chargesMax := hroots root
    rw [add128_charge hroot hsmall]
    rfl
  unfold applyMemoryDelta
  rw [ensure_ok hfits, ok_bind]
  split
  · rw [add128_charge hmemory hsmall, ok_bind, add128_charge hclass hsmall, ok_bind, hvisit]
    rfl
  · rfl

theorem rechargePermit_ok {p : PermitId} {record : PermitRecord} {ledger : PermitLedger} (hs : Sound g n s)
    (found : s.permits[p]? = some record) (change : LedgerChange record.ledger ledger)
    (hledger : LedgerFits ledger) :
    rechargePermit s p record ledger = .ok (s.rechargePermit p record ledger) := by
  have hold := (hs.units p record found).effective
  have hnew := hledger.effective
  have hsmall : (ledger.effectiveUnits - record.ledger.effectiveUnits : Int).natAbs ≤ u32Max := by omega
  have hdelta : applyMemoryDelta { s with permits := s.permits.insert p { record with ledger := ledger } }
      record.taskClass (if record.scope.isChild then some record.rootOperationId else none)
      (ledger.effectiveUnits - record.ledger.effectiveUnits : Int) = .ok (s.rechargePermit p record ledger) :=
    applyMemoryDelta_ok hsmall hs.memoryHeld_le (hs.classMemory_le record.taskClass) hs.rootMemory_le
  unfold rechargePermit
  simp only
  rw [hdelta, ok_bind, assertConsistent_ok (hs.recharged found change hledger)]
  rfl

/-- The units a measured reading charges are a `u32` amount. -/
theorem effectiveUnits_le {mode : MemoryPermitMode} {remaining measuredBytes units : Nat}
    {scale : MemoryUnitScale} (h : effectiveUnits mode remaining measuredBytes scale = .ok units)
    (hremaining : remaining ≤ u32Max) : units ≤ u32Max := by
  have hmeasured : ∀ units, scale.unitsFor measuredBytes = .ok units → units ≤ u32Max := by
    intro units hunits
    unfold MemoryUnitScale.unitsFor at hunits
    simp only at hunits
    split at hunits
    · simp at hunits
    · split at hunits
      · obtain rfl := Except.ok.inj hunits
        simp only [u32Max]
        omega
      · simp at hunits
  cases mode with
  | estimated =>
    obtain rfl := Except.ok.inj h
    exact hremaining
  | measured => exact hmeasured units h
  | hybrid =>
    unfold effectiveUnits at h
    cases hunits : scale.unitsFor measuredBytes with
    | error error =>
      rw [hunits] at h
      simp [Except.map] at h
    | ok sized =>
      have hsized := hmeasured sized hunits
      rw [hunits] at h
      obtain rfl : max remaining sized = units := Except.ok.inj h
      omega

/-- A reconcile does not panic, and it ends in a sound state. -/
theorem reconcile_ok (hs : Sound g n s) (p : PermitId) (measuredBytes sequence : Nat) (mode : MemoryPermitMode)
    (scale : MemoryUnitScale) (nowMs : Nat) :
    reconcile s p measuredBytes sequence mode scale nowMs =
        .ok (Taskmesh.reconcile s p measuredBytes sequence mode scale nowMs) ∧
      Sound g n (Taskmesh.reconcile s p measuredBytes sequence mode scale nowMs).1 := by
  unfold reconcile Taskmesh.reconcile
  cases found : s.permits[p]? with
  | none => exact ⟨rfl, hs⟩
  | some record =>
    simp only
    by_cases hexhausted : record.ledger.measurementSequence = u64Max
    · rw [if_pos hexhausted, if_pos hexhausted]
      exact ⟨rfl, hs⟩
    by_cases hstale : sequence ≤ record.ledger.measurementSequence
    · rw [if_neg hexhausted, if_neg hexhausted, if_pos hstale, if_pos hstale]
      exact ⟨rfl, hs⟩
    rw [if_neg hexhausted, if_neg hexhausted, if_neg hstale, if_neg hstale]
    cases hunits : effectiveUnits mode record.ledger.remainingReservationUnits measuredBytes scale with
    | error error => exact ⟨rfl, hs.recordAccountingFault p _⟩
    | ok units =>
      have hremaining := (hs.units p record found).remaining
      have hchange : LedgerChange record.ledger (record.ledger.measured measuredBytes sequence units nowMs) :=
        LedgerChange.measured _ _ _ _ (by omega)
      have hledger : LedgerFits (record.ledger.measured measuredBytes sequence units nowMs) :=
        ⟨effectiveUnits_le hunits hremaining, hremaining⟩
      simp only [expect_some, ok_bind]
      rw [rechargePermit_ok hs found hchange hledger]
      exact ⟨rfl, hs.recharged found hchange hledger⟩

/-- A stage release does not panic, and it ends in a sound state. -/
theorem releaseStageMemory_ok (hs : Sound g n s) (p : PermitId) (freedUnits : Nat) (policy : MemoryReleasePolicy)
    (sequence : Option Nat) (nowMs : Nat) :
    releaseStageMemory s p freedUnits policy sequence nowMs =
        .ok (Taskmesh.releaseStageMemory s p freedUnits policy sequence nowMs) ∧
      Sound g n (Taskmesh.releaseStageMemory s p freedUnits policy sequence nowMs).1 := by
  unfold releaseStageMemory Taskmesh.releaseStageMemory
  by_cases hforbids : !stageReleaseAllowed policy
  · rw [if_pos hforbids, if_pos hforbids]
    exact ⟨rfl, hs⟩
  rw [if_neg hforbids, if_neg hforbids]
  cases found : s.permits[p]? with
  | none => exact ⟨rfl, hs⟩
  | some record =>
    simp only
    by_cases hstale : sequence.any fun sequence => decide (sequence ≤ record.ledger.stageSequence)
    · rw [if_pos hstale, if_pos hstale]
      exact ⟨rfl, hs⟩
    rw [if_neg hstale, if_neg hstale]
    have hwithin : min freedUnits record.ledger.effectiveUnits ≤ record.ledger.effectiveUnits := Nat.min_le_right _ _
    have hold := hs.units p record found
    have hchange : LedgerChange record.ledger
        (record.ledger.staged (min freedUnits record.ledger.effectiveUnits) sequence nowMs) :=
      LedgerChange.staged _ _ _ hwithin
    have hledger : LedgerFits (record.ledger.staged (min freedUnits record.ledger.effectiveUnits) sequence nowMs) :=
      ⟨Nat.le_trans (Nat.sub_le _ _) hold.effective, Nat.le_trans (Nat.sub_le _ _) hold.remaining⟩
    rw [subOf_ok hwithin, ok_bind, rechargePermit_ok hs found hchange hledger]
    exact ⟨rfl, hs.recharged found hchange hledger⟩

/-- The permits of a sweep are unwound one by one, and their count fits `u32`. -/
theorem reclaimAll_ok {permits : List PermitId} {effects : TransitionEffects} {count : Nat} (hs : Sound g n s)
    (hcount : count + permits.length ≤ u32Max) :
    reclaimAll permits s effects count = .ok (Taskmesh.reclaimAll permits s effects count) := by
  induction permits generalizing s effects count with
  | nil => rfl
  | cons p rest ih =>
    rw [List.length_cons] at hcount
    unfold reclaimAll Taskmesh.reclaimAll
    rw [unwind_ok hs, ok_bind]
    cases hunwind : s.unwind p .reclaimed effects with
    | none => exact ih hs (by omega)
    | some unwound =>
      obtain ⟨s', effects'⟩ := unwound
      have hone : count + 1 ≤ u32Max := by omega
      simp only
      rw [add32_ok hone, ok_bind, wrappingAdd_of_le hone]
      exact ih (hs.unwound hunwind) (by omega)

theorem reapLeaks_ok (hs : Sound g n s) (policies : PolicySet) (nowMs staleAfterMs : Nat)
    (effects : TransitionEffects) :
    reapLeaks s policies nowMs staleAfterMs effects =
      .ok (Taskmesh.reapLeaks s policies nowMs staleAfterMs effects) := by
  have hlength : (reclaimable s policies nowMs staleAfterMs).length ≤ s.permits.size := by
    unfold reclaimable
    rw [List.length_map]
    exact Nat.le_trans (List.length_filter_le _ _) (Nat.le_of_eq length_toList)
  have hfew := hs.few
  have hcount : 0 + (reclaimable s policies nowMs staleAfterMs).length ≤ u32Max := by
    simp only [u32Max]
    omega
  unfold reapLeaks Taskmesh.reapLeaks
  simp only
  rw [reclaimAll_ok hs hcount]
  rfl

end Panicky

end Taskmesh
