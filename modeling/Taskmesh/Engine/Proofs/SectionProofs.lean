import Taskmesh.Engine.Proofs.MovesProofs

/-!
# The sections of the public operations

Each public operation runs one or two sections under the lock. A section is a path of moves; a leased
permit is ended only with the proof its owner holds.
-/

namespace Taskmesh

open Std MachineInt SetIndex

variable {g : Governor} {caller : Caller}

/-! ## Admission -/

/-- What an admission with new identities does. Its requirements are registered, so the only fault
it can meet is one that was already recorded. -/
inductive Entered (g : Governor) (s : GovernedState) (request : AdmissionRequest) (ids : Ids)
    (waker : Option Waker) (nowMs : Nat) : GovernedState → AdmissionDecision → Prop
  | refused {verdict : AdmissionVerdict}
      (cycle : ∀ held, verdict = .nestedWaitCycle held → ∃ c policy witness,
        PassedChecks g s request c policy ∧
          assessIntake s g.policy policy c request = .irreversibleWaitCycle witness ∧
          witness.held.head? = some held) :
      Entered g s request ids waker nowMs s (.rejected verdict)
  | granted {policy : ClassPolicy} {c : TaskClass} (accepted : Accepted g s policy c request ids)
      (runnable : assessIntake s g.policy policy c request = .runnable) :
      Entered g s request ids waker nowMs (s.grant (directGrant s policy c request ids nowMs))
        (.admitted ids.permitId)
  | queued {policy : ClassPolicy} {c : TaskClass} {blockers : BlockerSet}
      (accepted : Accepted g s policy c request ids)
      (blocked : assessIntake s g.policy policy c request = .reversiblyBlocked blockers)
      (sound : blockers.accountingFault = false) (room : s.queued c < policy.maxQueueDepth.toNat) :
      Entered g s request ids waker nowMs
        ((enqueueTags s c policy (resolveCost policy).cpuUnits nowMs).1.commitPending
          (pendingRequest s policy c request waker ids nowMs blockers.primary
            (enqueueTags s c policy (resolveCost policy).cpuUnits nowMs).2))
        (.queued ids.ticket)

/-- Registered requirements are blocked by a fault only when one is recorded. -/
theorem recordAccountingFault_of_registered {s : GovernedState} {policy : ClassPolicy} {c : TaskClass}
    {request : AdmissionRequest} {blockers : BlockerSet} (hreg : RegisteredWith g.policy request.capabilities)
    (blocked : assessIntake s g.policy policy c request = .reversiblyBlocked blockers)
    (unsound : blockers.accountingFault = true) (what : String) : s.recordAccountingFault what = s := by
  have hfault : (s.accountingFault.isSome ||
      request.capabilities.ids.any fun id => (g.policy.capabilityRecord id).isNone) = true := by
    rw [(assessScope_blockers blocked).1] at unsound
    exact unsound
  have hsome : s.accountingFault.isSome = true := by
    rw [Bool.or_eq_true] at hfault
    refine hfault.resolve_right ?_
    rw [Bool.not_eq_true, List.any_eq_false]
    intro id hid
    have hmem := hreg id hid
    rw [ExtTreeMap.mem_iff_isSome_getElem?] at hmem
    simp [PolicySet.capabilityRecord, Option.isSome_iff_ne_none.mp hmem]
  unfold GovernedState.recordAccountingFault
  rw [if_neg]
  rw [Option.isNone_iff_eq_none]
  exact Option.isSome_iff_ne_none.mp hsome

/-- What the intake does to a request is one of the ways of entering. -/
theorem admit_entered {s : GovernedState} (intake : Intake g.policy) {ids : Ids} (hfresh : Fresh s ids)
    (nowMs : Nat) (effects : TransitionEffects) :
    Entered g s intake.request ids intake.waker nowMs
      (admitRequest s g.policy nowMs intake.request intake.waker ids effects).state
      (admitRequest s g.policy nowMs intake.request intake.waker ids effects).decision := by
  have hclosed : s.admissionClosed = true → Entered g s intake.request ids intake.waker nowMs
      (admitRequest s g.policy nowMs intake.request intake.waker ids effects).state
      (admitRequest s g.policy nowMs intake.request intake.waker ids effects).decision := by
    intro hclosed
    unfold admitRequest
    rw [if_pos hclosed]
    exact Entered.refused (by simp)
  obtain ⟨hmove, _⟩ := admit_move g s intake.request ids intake.waker nowMs effects
  cases hopen : s.admissionClosed with
  | true => exact hclosed hopen
  | false =>
    have haccepted : ∀ {c policy}, PassedChecks g s intake.request c policy →
        Accepted g s policy c intake.request ids :=
      fun checks => ⟨checks, intake.registered, intake.valid, hopen, hfresh⟩
    clear hclosed
    generalize admitRequest s g.policy nowMs intake.request intake.waker ids effects = admission at hmove
    cases hmove with
    | refused _ cycle => exact Entered.refused cycle
    | faulted _ what checks blocked unsound =>
      rw [recordAccountingFault_of_registered intake.registered blocked unsound what]
      exact Entered.refused (by simp)
    | granted _ checks runnable => exact Entered.granted (haccepted checks) runnable
    | queued _ checks blocked sound room => exact Entered.queued (haccepted checks) blocked sound room

/-- An admission is at most one move. -/
theorem Entered.move {s s' : GovernedState} {request : AdmissionRequest} {ids : Ids} {waker : Option Waker}
    {nowMs : Nat} {decision : AdmissionDecision} (h : Entered g s request ids waker nowMs s' decision)
    (hids : caller.ids ids) : s' = s ∨ ∃ trend, Move g caller trend s s' := by
  cases h with
  | refused cycle => exact Or.inl rfl
  | granted accepted runnable => exact Or.inr ⟨_, Move.admitted nowMs hids accepted runnable⟩
  | queued accepted blocked sound room =>
    exact Or.inr ⟨_, Move.enqueued _ nowMs _ hids accepted blocked room
      (rescheduled_enqueueTags s _ _ _ _) sound⟩

/-- Admission is a path of effects of its own caller. -/
theorem admit_path {s : GovernedState} (intake : Intake g.policy) {ids : Ids} (hids : caller.ids ids)
    (hfresh : Fresh s ids) (nowMs : Nat) :
    Path g caller s (admitRequest s g.policy nowMs intake.request intake.waker ids {}).state := by
  rcases (admit_entered intake hfresh nowMs {}).move hids with hsame | ⟨trend, hmove⟩
  · rw [hsame]
    exact Path.of_shrinking .refl
  · cases trend with
    | shrinking => exact Path.of_shrinking (Moves.single hmove)
    | growing => exact ⟨s, .refl, Moves.single hmove⟩

/-! ## Release -/

/-- A permit that is live can be unwound. -/
theorem unwind_isSome {s : GovernedState} {p : PermitId} {record : PermitRecord}
    (h : s.permits[p]? = some record) (reason : TerminalReason) (effects : TransitionEffects) :
    ∃ s' effects', s.unwind p reason effects = some (s', effects') := by
  unfold GovernedState.unwind
  rw [h]
  simp only
  split <;> exact ⟨_, _, rfl⟩

/-- A release answers by the custody of the permit: it is unknown, held by another proof, or unwound. -/
theorem releaseWithProofReason_cases (s : GovernedState) (p : PermitId) (proof : Option Nat)
    (reason : TerminalReason) (effects : TransitionEffects) :
    (s.permits[p]? = none ∧
        s.releaseWithProofReason p proof reason effects = (s, effects, .unknownPermit)) ∨
      (∃ record, s.permits[p]? = some record ∧ record.leaseNonce ≠ proof ∧
        s.releaseWithProofReason p proof reason effects = (s, effects, .heldByLease record.phase)) ∨
      ∃ record s' effects', s.permits[p]? = some record ∧ record.leaseNonce = proof ∧
        s.unwind p reason effects = some (s', effects') ∧
        s.releaseWithProofReason p proof reason effects = (s', effects', .released) := by
  unfold GovernedState.releaseWithProofReason
  cases hp : s.permits[p]? with
  | none => exact Or.inl ⟨rfl, rfl⟩
  | some record =>
    by_cases hproof : record.leaseNonce = proof
    · obtain ⟨s', effects', hunwind⟩ := unwind_isSome hp reason effects
      refine Or.inr (Or.inr ⟨record, s', effects', rfl, hproof, hunwind, ?_⟩)
      simp [hproof, hunwind]
    · refine Or.inr (Or.inl ⟨record, rfl, hproof, ?_⟩)
      simp [hproof]

/-- A release with custody is a path of effects of its own caller. -/
theorem releaseWithProof_path (s : GovernedState) (p : PermitId) (proof : Option Nat)
    (hcustody : caller.custody p proof) : Path g caller s (Governor.releaseWithProof s p proof).state := by
  unfold Governor.releaseWithProof
  rcases releaseWithProofReason_cases s p proof .released {} with ⟨_, heq⟩ | ⟨record, _, _, heq⟩ |
    ⟨record, s', effects', hp, hproof, hunwind, heq⟩
  · rw [heq]
    exact Path.of_shrinking .refl
  · rw [heq]
    exact Path.of_shrinking .refl
  · rw [heq]
    exact Path.of_shrinking (Moves.single (Move.unwound hp (Or.inr (hproof ▸ hcustody)) hunwind))

/-! ## Claim -/

/-- Beginning a claim is a path of effects of the ticket's caller. -/
theorem beginClaim_path (s : GovernedState) (ticket : Ticket) (nowMs : Nat)
    (howner : caller.tickets ticket) :
    Path g caller s (Governor.beginClaim s ticket nowMs).1 := by
  unfold Governor.beginClaim
  split
  · rename_i p hticket
    split
    · exact Path.of_shrinking .refl
    · rename_i record hrecord
      exact Path.of_shrinking (Moves.single (Move.claimBegun nowMs hticket hrecord howner))
  · exact Path.of_shrinking .refl
  · exact Path.of_shrinking .refl
  · exact Path.of_shrinking (Moves.single (Move.forgot s ticket howner))
  · exact Path.of_shrinking (Moves.single (Move.forgot s ticket howner))
  · exact Path.of_shrinking .refl

/-- Finishing a claim is a path of effects of the ticket's caller. -/
theorem finishClaim_path (s : GovernedState) (ticket : Ticket) (nowMs : Nat)
    (howner : caller.tickets ticket) :
    Path g caller s (Governor.finishClaim s ticket nowMs).1 := by
  unfold Governor.finishClaim
  split
  · rename_i p hticket
    split
    · rename_i hnone
      exact Path.of_shrinking (Moves.single (Move.expired hticket hnone))
    · rename_i record hrecord
      exact Path.of_shrinking (Moves.single (Move.transferred nowMs hticket hrecord howner))
  · exact Path.of_shrinking (Moves.single (Move.forgot s ticket howner))
  · exact Path.of_shrinking (Moves.single (Move.forgot s ticket howner))
  · exact Path.of_shrinking .refl
  · exact Path.of_shrinking .refl
  · exact Path.of_shrinking .refl

/-- The compensation of a claim whose transient ticket, if it is still there, names its permit. -/
theorem compensateClaim_path {s : GovernedState} {ticket : Ticket} {p : PermitId}
    (hclaim : ∀ p', s.tickets[ticket]? = some (.claiming p') → p' = p) (hcustody : caller.custody p none) :
    Path g caller s (Governor.compensateClaim s ticket p).state := by
  unfold Governor.compensateClaim
  split
  · rename_i p' hticket
    obtain rfl := hclaim p' hticket
    rcases releaseWithProofReason_cases s p' none .claimDeliveryFailed {} with ⟨hnone, heq⟩ |
      ⟨record, hp, hproof, heq⟩ | ⟨record, s', effects', hp, hproof, hunwind, heq⟩
    · rw [heq]
      exact Path.of_shrinking (Moves.single (Move.expired hticket hnone))
    · rw [heq]
      exact Path.of_shrinking (Moves.single (Move.detached hticket hp hproof))
    · rw [heq]
      exact Path.of_shrinking (Moves.single (Move.unwound hp (Or.inr (hproof ▸ hcustody)) hunwind))
  · exact Path.of_shrinking .refl

/-! ## Abandon -/

/-- Abandoning a grant is a path of effects of the ticket's caller. -/
theorem abandonGranted_path {s : GovernedState} {ticket : Ticket} {p : PermitId}
    (hticket : s.tickets[ticket]? = some (.granted p) ∨ s.tickets[ticket]? = some (.claiming p))
    (hcustody : caller.custody p none) (howner : caller.tickets ticket) :
    Path g caller s (Governor.abandonGranted s ticket p).state := by
  unfold Governor.abandonGranted
  rcases releaseWithProofReason_cases s p none .abandoned {} with ⟨hnone, heq⟩ |
    ⟨record, hp, hproof, heq⟩ | ⟨record, s', effects', hp, hproof, hunwind, heq⟩
  · rw [heq]
    exact Path.of_shrinking (Moves.single (Move.orphaned hticket hnone howner))
  · rw [heq]
    exact Path.of_shrinking .refl
  · rw [heq]
    exact Path.of_shrinking ((Moves.single (Move.unwound hp (Or.inr (hproof ▸ hcustody)) hunwind)).tail
      (Move.forgot s' ticket howner))

/-- What a cancellation does to the state of a queued ticket. -/
theorem cancelQueued_moves {s : GovernedState} {c : TaskClass} {ticket : Ticket}
    (hticket : s.tickets[ticket]? = some (.queued c)) (howner : caller.tickets ticket) :
    Moves g caller .shrinking s (Governor.cancelQueued s c ticket).1 := by
  unfold Governor.cancelQueued
  split
  · rename_i hnone
    refine Moves.single (Move.lost hticket (fun r hr heq => ?_) howner)
    have := List.findIdx?_eq_none_iff.mp hnone r hr
    simp [heq] at this
  · rename_i index hindex
    obtain ⟨hlt, hsame, _⟩ := List.findIdx?_eq_some_iff_getElem.mp hindex
    have hr : (s.cls c).queue[index]? = some (s.cls c).queue[index] := List.getElem?_eq_getElem hlt
    rw [GovernedState.removePending_of_getElem hr]
    exact Moves.single (Move.cancelled hticket hr (by simpa using hsame) howner)

/-- An abandon is a path of effects of the ticket's caller. -/
theorem abandon_path (s : GovernedState) (ticket : Ticket) (hcustody : ∀ p, caller.custody p none)
    (howner : caller.tickets ticket) :
    Path g caller s (g.abandon s ticket).state := by
  unfold Governor.abandon
  split
  · rename_i p hticket
    exact abandonGranted_path (Or.inl hticket) (hcustody p) howner
  · rename_i p hticket
    exact abandonGranted_path (Or.inr hticket) (hcustody p) howner
  · rename_i c hticket
    exact Path.of_shrinking ((cancelQueued_moves hticket howner).tail
      (Move.rescheduled (rescheduled_unserved g _ c)))
  · exact Path.of_shrinking (Moves.single (Move.forgot s ticket howner))
  · exact Path.of_shrinking (Moves.single (Move.forgot s ticket howner))
  · exact Path.of_shrinking .refl

/-! ## Memory -/

theorem faultQueue_moves (c : TaskClass) (rounds : Nat) (s : GovernedState)
    (effects : TransitionEffects) :
    Moves g caller .shrinking s (Governor.faultQueue c rounds s effects).1 := by
  induction rounds generalizing s effects with
  | zero => exact .refl
  | succ rounds ih =>
    unfold Governor.faultQueue
    cases h : s.removePending c 0 with
    | none => exact .refl
    | some removed =>
      obtain ⟨s', r⟩ := removed
      obtain ⟨hr, rfl⟩ := GovernedState.removePending_spec h
      exact (Moves.single (Move.faultedHead hr)).trans (ih _ _)

theorem faultClass_moves (g : Governor) (acc : GovernedState × TransitionEffects) (c : TaskClass) :
    Moves g caller .shrinking acc.1 (g.faultClass acc c).1 := by
  unfold Governor.faultClass
  have hqueue : Moves g caller .shrinking acc.1
      (Governor.faultQueue c (acc.1.cls c).queue.length acc.1 acc.2).1 := faultQueue_moves c _ acc.1 acc.2
  simp only
  split
  · exact hqueue
  · exact hqueue.tail (Move.rescheduled (rescheduled_unserved g _ c))

/-- Draining the classes after a fault only shrinks. -/
theorem faultClasses_moves (g : Governor) (classes : List TaskClass)
    (acc : GovernedState × TransitionEffects) :
    Moves g caller .shrinking acc.1 (classes.foldl g.faultClass acc).1 := by
  induction classes generalizing acc with
  | nil => exact .refl
  | cons c rest ih => exact (faultClass_moves g acc c).trans (ih _)

/-- The fault drain as a whole only shrinks. -/
theorem terminalizeQueued_moves (g : Governor) (s : GovernedState) (effects : TransitionEffects) :
    Moves g caller .shrinking s (g.terminalizeQueuedForAccountingFault s effects).1 :=
  (faultClasses_moves g s.classes.keys (s, effects)).tail (Move.flagged _ false)

/-- A charge changed at a time: its lease keeps the time it was granted at, and it is touched now. -/
def PermitLedger.TouchedAt (ledger ledger' : PermitLedger) (nowMs : Nat) : Prop :=
  ledger'.leasedAtMs = ledger.leasedAtMs ∧ ledger'.lastTouchedMs = max ledger.lastTouchedMs nowMs

/-- What a reconcile does to a live permit: nothing, a fault, or a new charge for it. -/
theorem reconcile_cases (s : GovernedState) (p : PermitId) (measuredBytes sequence : Nat)
    (mode : MemoryPermitMode) (scale : MemoryUnitScale) (nowMs : Nat) :
    (∃ outcome, reconcile s p measuredBytes sequence mode scale nowMs = (s, outcome) ∧
        (∀ units, outcome ≠ .applied units) ∧ ∀ error, outcome ≠ .conversionFailed error) ∨
      (∃ error, reconcile s p measuredBytes sequence mode scale nowMs =
        (s.recordAccountingFault "measured memory exceeds the unit domain", .conversionFailed error)) ∨
      ∃ record ledger, s.permits[p]? = some record ∧ LedgerChange record.ledger ledger ∧
        reconcile s p measuredBytes sequence mode scale nowMs =
          (s.rechargePermit p record ledger, .applied ledger.effectiveUnits) ∧
        record.ledger.TouchedAt ledger nowMs := by
  unfold reconcile
  cases hp : s.permits[p]? with
  | none => exact Or.inl ⟨_, rfl, by simp, by simp⟩
  | some record =>
    simp only
    split
    · exact Or.inl ⟨_, rfl, by simp, by simp⟩
    · split
      · exact Or.inl ⟨_, rfl, by simp, by simp⟩
      · rename_i hlater
        split
        · exact Or.inr (Or.inl ⟨_, rfl⟩)
        · rename_i units _
          exact Or.inr (Or.inr ⟨record, record.ledger.measured measuredBytes sequence units nowMs, rfl,
            LedgerChange.measured _ _ _ _ (by omega), rfl, rfl, rfl⟩)

/-- What the section of a reconcile does: it is refused, it fails and stops every queue, or it writes a
new charge and ends with a promotion pass. -/
theorem reconcileMemory_cases (g : Governor) (s : GovernedState) (p : PermitId) (measuredBytes : Nat)
    (epoch : Option Nat) (nowMs : Nat) :
    (∃ outcome, g.reconcileMemory s p measuredBytes epoch nowMs = ⟨s, {}, outcome, false⟩ ∧
        (∀ units, outcome ≠ .applied units) ∧ ∀ error, outcome ≠ .conversionFailed error) ∨
      (∃ error, g.reconcileMemory s p measuredBytes epoch nowMs =
        ⟨(g.terminalizeQueuedForAccountingFault
            (s.recordAccountingFault "measured memory exceeds the unit domain") {}).1,
          (g.terminalizeQueuedForAccountingFault
            (s.recordAccountingFault "measured memory exceeds the unit domain") {}).2,
          .conversionFailed error, false⟩) ∨
      ∃ record ledger, s.permits[p]? = some record ∧ LedgerChange record.ledger ledger ∧
        g.reconcileMemory s p measuredBytes epoch nowMs =
          ⟨s.rechargePermit p record ledger, {}, .applied ledger.effectiveUnits, true⟩ ∧
        record.ledger.TouchedAt ledger nowMs := by
  unfold Governor.reconcileMemory
  split
  · exact Or.inl ⟨_, rfl, by simp, by simp⟩
  · rename_i record hp
    split
    · exact Or.inl ⟨_, rfl, by simp, by simp⟩
    · rename_i policy _
      split
      · rename_i outcome houtcome
        unfold Governor.measurementSequence at houtcome
        split at houtcome
        · simp at houtcome
        · split at houtcome
          · simp at houtcome
          · obtain rfl := Except.error.inj houtcome
            exact Or.inl ⟨_, rfl, by simp, by simp⟩
      · rename_i sequence _
        rcases reconcile_cases s p measuredBytes sequence policy.memoryPermitMode
          g.policy.resources.memoryUnitScale nowMs with ⟨outcome, heq, happlied, hfailed⟩ |
          ⟨error, heq⟩ | ⟨record, ledger, hp, hchange, heq, htouched⟩
        · rw [heq]
          refine Or.inl ⟨outcome, ?_, happlied, hfailed⟩
          cases outcome with
          | applied units => exact absurd rfl (happlied units)
          | conversionFailed error => exact absurd rfl (hfailed error)
          | unknownPermit => rfl
          | staleEpoch epoch => rfl
          | epochExhausted epoch => rfl
        · rw [heq]
          exact Or.inr (Or.inl ⟨error, rfl⟩)
        · rw [heq]
          exact Or.inr (Or.inr ⟨record, ledger, hp, hchange, rfl, htouched⟩)

/-- A memory report is a path of effects on its own permit. -/
theorem reconcileMemory_path (s : GovernedState) (p : PermitId) (measuredBytes : Nat)
    (epoch : Option Nat) (nowMs : Nat) (hmemory : caller.memory p) :
    Path g caller s (g.reconcileMemory s p measuredBytes epoch nowMs).state := by
  rcases reconcileMemory_cases g s p measuredBytes epoch nowMs with ⟨outcome, heq, _⟩ | ⟨error, heq⟩ |
    ⟨record, ledger, hp, hchange, heq, _⟩
  · rw [heq]
    exact Path.of_shrinking .refl
  · rw [heq]
    exact Path.of_shrinking ((Moves.single (Move.faulted s _ ⟨p, hmemory⟩)).trans (terminalizeQueued_moves g _ {}))
  · rw [heq]
    exact Path.of_shrinking (Moves.single (Move.recharged hmemory hp hchange))

theorem releaseStageMemory_cases (s : GovernedState) (p : PermitId) (freedUnits : Nat)
    (policy : MemoryReleasePolicy) (sequence : Option Nat) (nowMs : Nat) :
    (releaseStageMemory s p freedUnits policy sequence nowMs).1 = s ∨
      ∃ record ledger, s.permits[p]? = some record ∧ LedgerChange record.ledger ledger ∧
        ledger.effectiveUnits ≤ record.ledger.effectiveUnits ∧
        (releaseStageMemory s p freedUnits policy sequence nowMs).1 = s.rechargePermit p record ledger ∧
        record.ledger.TouchedAt ledger nowMs := by
  unfold releaseStageMemory
  split
  · exact Or.inl rfl
  · cases hp : s.permits[p]? with
    | none => exact Or.inl rfl
    | some record =>
      simp only
      split
      · exact Or.inl rfl
      · exact Or.inr ⟨record,
          record.ledger.staged (min freedUnits record.ledger.effectiveUnits) sequence nowMs,
          rfl, LedgerChange.staged _ _ _ (Nat.min_le_right _ _), Nat.sub_le _ _, rfl, rfl, rfl⟩

/-- A stage release is a path of effects on its own permit. -/
theorem releaseStage_path (s : GovernedState) (p : PermitId) (freedUnits : Nat)
    (sequence : Option Nat) (nowMs : Nat) (hmemory : caller.memory p) :
    Path g caller s (g.releaseStage s p freedUnits sequence nowMs).state := by
  unfold Governor.releaseStage
  split
  · exact Path.of_shrinking .refl
  · split
    · exact Path.of_shrinking .refl
    · rename_i policy _
      rcases releaseStageMemory_cases s p freedUnits policy.memoryReleasePolicy sequence nowMs with
        heq | ⟨record, ledger, hp, hchange, _, heq, _⟩
      · simp only [heq]
        exact Path.of_shrinking .refl
      · simp only [heq]
        exact Path.of_shrinking (Moves.single (Move.recharged hmemory hp hchange))

/-! ## Leak sweep -/

/-- Every permit of a list is gone, or still waits for dispatch. -/
def AllReserved (permits : List PermitId) (s : GovernedState) : Prop :=
  ∀ p ∈ permits, ∀ record, s.permits[p]? = some record → record.phase = .dispatchReserved

theorem permits_unwind {s s' : GovernedState} {p : PermitId} {reason : TerminalReason}
    {effects effects' : TransitionEffects} (h : s.unwind p reason effects = some (s', effects')) :
    s'.permits = s.permits.erase p := by
  unfold GovernedState.unwind at h
  split at h
  · simp at h
  · simp only at h
    split at h
    · simp only [Option.some.injEq, Prod.mk.injEq] at h
      rw [← h.1]
      rfl
    · simp only [Option.some.injEq, Prod.mk.injEq] at h
      rw [← h.1]
      rfl

/-- Reclaiming reserved permits only shrinks. -/
theorem reclaimAll_moves (permits : List PermitId) (s : GovernedState) (effects : TransitionEffects)
    (count : Nat) (hreserved : AllReserved permits s) :
    Moves g caller .shrinking s (reclaimAll permits s effects count).1 := by
  induction permits generalizing s effects count with
  | nil => exact .refl
  | cons p rest ih =>
    unfold reclaimAll
    cases h : s.unwind p .reclaimed effects with
    | none => exact ih s effects count fun p' hp' => hreserved p' (List.mem_cons_of_mem _ hp')
    | some unwound =>
      obtain ⟨s', effects'⟩ := unwound
      cases hp : s.permits[p]? with
      | none =>
        unfold GovernedState.unwind at h
        rw [hp] at h
        simp at h
      | some record =>
        have hphase := hreserved p List.mem_cons_self record hp
        refine (Moves.single (Move.unwound hp (Or.inl hphase) h)).trans (ih s' effects' _ ?_)
        intro p' hp' record' hrecord'
        rw [permits_unwind h, ExtTreeMap.getElem?_erase] at hrecord'
        split at hrecord'
        · simp at hrecord'
        · exact hreserved p' (List.mem_cons_of_mem _ hp') record' hrecord'

/-- Everything the reaper picks is still reserved. -/
theorem reclaimable_reserved {s : GovernedState} {policies : PolicySet} {nowMs staleAfterMs : Nat}
    (hkeys : ∀ (p : PermitId) record, s.permits[p]? = some record → record.permitId = p) :
    AllReserved (reclaimable s policies nowMs staleAfterMs) s := by
  intro p hp record hrecord
  unfold reclaimable at hp
  obtain ⟨⟨key, found⟩, hmem, rfl⟩ := List.mem_map.mp hp
  obtain ⟨hentry, hsat⟩ := List.mem_filter.mp hmem
  have hfound : s.permits[key]? = some found := ExtTreeMap.mem_toList.mp hentry
  have hkey := hkeys key found hfound
  simp only at hrecord
  rw [hkey, hfound] at hrecord
  obtain rfl : found = record := by simpa using hrecord
  simp only [Bool.and_eq_true, decide_eq_true_eq] at hsat
  exact hsat.2

/-- The reaper is a path of effects that only shrink. -/
theorem reapLeaksWith_path (s : GovernedState) (staleAfterMs nowMs : Nat)
    (hkeys : ∀ (p : PermitId) record, s.permits[p]? = some record → record.permitId = p) :
    Path g caller s (g.reapLeaksWith s staleAfterMs nowMs).state :=
  Path.of_shrinking (reclaimAll_moves _ s {} 0 (reclaimable_reserved hkeys))

end Taskmesh
