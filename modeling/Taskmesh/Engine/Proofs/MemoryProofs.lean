import Mathlib.Algebra.Order.Floor.Div
import Taskmesh.Engine.Proofs.FaultProofs
import Taskmesh.Engine.Proofs.SweepProofs

/-!
# The memory ledger of a permit

A reservation and a measurement are different facts. Over the whole life of a permit the estimate it
was granted with stays, the reservation still held is that estimate less every unit returned at a stage
boundary, and the effective charge follows the mode of its class. A reading or a numbered stage event
is applied once, in order.
-/

namespace Taskmesh

open Std MachineInt SetIndex QueueFamily ExtTreeMap Governor Allocation

variable {g : Governor} {caller : Caller} {s s' : GovernedState} {σ σ' : g.System} {a : Action}
  {e : Event} {p : PermitId} {record record' : PermitRecord} {ledger ledger' ledger'' : PermitLedger}

/-! ## One ledger over a move -/

/-- Two ledgers differ in the last activity at most. -/
def SameReservation (ledger ledger' : PermitLedger) : Prop :=
  ∃ touchedMs, ledger' = { ledger with lastTouchedMs := touchedMs }

theorem SameReservation.refl (ledger : PermitLedger) : SameReservation ledger ledger :=
  ⟨ledger.lastTouchedMs, rfl⟩

/-- What two changes in a row leave alone is left alone. -/
theorem SameReservation.trans (h : SameReservation ledger ledger') (h' : SameReservation ledger' ledger'') :
    SameReservation ledger ledger'' := by
  obtain ⟨_, rfl⟩ := h
  obtain ⟨touchedMs, rfl⟩ := h'
  exact ⟨touchedMs, rfl⟩

/-- A ledger nobody has reported to: all of the estimate is held and charged. -/
structure Unreported (ledger : PermitLedger) : Prop where
  remaining : ledger.remainingReservationUnits = ledger.originalEstimateUnits
  effective : ledger.effectiveUnits = ledger.originalEstimateUnits
  measured : ledger.measurementSequence = 0
  staged : ledger.stageSequence = 0

theorem Unreported.congr (h : Unreported ledger) (hsame : SameReservation ledger ledger') : Unreported ledger' := by
  obtain ⟨_, rfl⟩ := hsame
  exact ⟨h.remaining, h.effective, h.measured, h.staged⟩

/-- A granted permit starts with its estimate and nothing reported. -/
theorem unreported_record {grant : GrantRequest} {policy : ClassPolicy} (h : GrantFits g s grant policy) :
    Unreported grant.record.ledger := by
  refine ⟨rfl, ?_, rfl, rfl⟩
  show grant.cost.memoryUnits = grant.reservedUnits
  rw [h.cost, h.reserved]

/-- A permit after a move: it was there with the same reservation, or it was just granted; otherwise
the caller may change its memory. -/
theorem Effect.reservation (h : Effect g caller s s') (ho : Occupancy s) (hnot : ¬ caller.memory p)
    (found' : s'.permits[p]? = some record') :
    (∃ record, s.permits[p]? = some record ∧ SameReservation record.ledger record'.ledger) ∨
      s.permits[p]? = none ∧ Unreported record'.ledger := by
  have hsame : s.permits[p]? = some record' →
      ∃ record, s.permits[p]? = some record ∧ SameReservation record.ledger record'.ledger :=
    fun found => ⟨record', found, SameReservation.refl _⟩
  -- A record was written over `q`: the permit is another one, or this is its record.
  have hwritten : ∀ {q : PermitId} {new : PermitRecord}, s'.permits = s.permits.insert q new →
      s.permits[p]? = some record' ∨ q = p ∧ new = record' := by
    intro q new hpermits
    rw [hpermits, ExtTreeMap.getElem?_insert] at found'
    split at found'
    · rename_i hcmp
      exact Or.inr ⟨LawfulEqOrd.eq_of_compare hcmp, Option.some.inj found'⟩
    · exact Or.inl found'
  cases h with
  | kept queues ledger guards => exact Or.inl (hsame (by rwa [ledger.permits] at found'))
  | queued waker nowMs tags allowed accepted pushed identities ledger guards sound =>
    exact Or.inl (hsame (by rwa [ledger.permits] at found'))
  | dropped removed identities ledger guards => exact Or.inl (hsame (by rwa [ledger.permits] at found'))
  | @admitted policy c request ids nowMs allowed accepted fits result =>
    subst result
    rcases hwritten rfl with found | ⟨hq, hnew⟩
    · exact Or.inl (hsame found)
    · refine Or.inr ⟨?_, hnew ▸ unreported_record fits⟩
      rw [← hq]
      exact accepted.fresh.permit
  | @promoted policy c index head base nowMs fits removed identities ledger guards result =>
    subst result
    have hpermits : (base.grant (promotedGrant base c head nowMs)).permits =
        s.permits.insert head.permitId (promotedGrant base c head nowMs).record := by
      show base.permits.insert _ _ = _
      rw [ledger.permits]
      rfl
    rcases hwritten hpermits with found | ⟨hq, hnew⟩
    · exact Or.inl (hsame found)
    · refine Or.inr ⟨?_, hnew ▸ unreported_record fits⟩
      have hgone := ho.not_live removed.mem
      rwa [PendingRequest.untagged_permitId, hq] at hgone
  | @ended q old foundq ends queues ledger guards =>
    refine Or.inl (hsame ?_)
    have hpermits : s'.permits = s.permits.erase q := ledger.permits
    rw [hpermits, ExtTreeMap.getElem?_erase] at found'
    split at found'
    · simp at found'
    · exact found'
  | @touched q old new foundq similar queues ledger guards =>
    rcases hwritten ledger.permits with found | ⟨rfl, rfl⟩
    · exact Or.inl (hsame found)
    · obtain ⟨waker, touchedMs, heq⟩ := similar.rest
      refine Or.inl ⟨old, foundq, touchedMs, ?_⟩
      rw [heq]
  | @advanced q old phase nonces foundq later result =>
    subst result
    rcases hwritten rfl with found | ⟨rfl, rfl⟩
    · exact Or.inl (hsame found)
    · exact Or.inl ⟨old, foundq, SameReservation.refl _⟩
  | @recharged q old ledger allowed foundq change result =>
    subst result
    rcases hwritten (memoryOnly_rechargePermit s q old ledger).permits with found | ⟨rfl, _⟩
    · exact Or.inl (hsame found)
    · exact absurd allowed hnot

/-- The same over a step of the system that does not report the memory of the permit. -/
theorem SysInv.step_reservation (hinv : SysInv σ) (h : g.step σ a = some (σ', e))
    (hnot : ¬ (callerOf σ a).memory p) (found' : σ'.state.permits[p]? = some record') :
    (∃ record, σ.state.permits[p]? = some record ∧ SameReservation record.ledger record'.ledger) ∨
      σ.state.permits[p]? = none ∧ Unreported record'.ledger := by
  cases found : σ.state.permits[p]? with
  | none =>
    right
    refine ⟨rfl, hinv.step_rule h (P := fun s => ∀ record', s.permits[p]? = some record' →
      Unreported record'.ledger) ?_ (fun _ hold => by simp [found] at hold) record' found'⟩
    intro trend s s' hm hinv₁ _ hs record' hnew
    rcases (hm.effect hinv₁.queues).reservation hinv₁.occupancy hnot hnew with ⟨old, hold, hsame⟩ | ⟨_, hfresh⟩
    · exact (hs old hold).congr hsame
    · exact hfresh
  | some record =>
    left
    have hspent := hinv.spent_live found
    have hrun := hinv.step_rule h (P := fun s => (∃ record', s.permits[p]? = some record' ∧
      SameReservation record.ledger record'.ledger) ∨ Gone s p) ?_
      (Or.inl ⟨record, found, SameReservation.refl _⟩)
    · rcases hrun with ⟨last, hlast, hsame⟩ | hgone
      · obtain rfl := Option.some.inj (hlast.symm.trans found')
        exact ⟨record, rfl, hsame⟩
      · rw [hgone.live] at found'
        simp at found'
    · rintro trend s s' hm hinv₁ hseq (⟨old, hold, hsame⟩ | hgone)
      · rcases (hm.effect hinv₁.queues).permit hinv₁.occupancy hold with ⟨new, hnew, _⟩ | ⟨hgone, _⟩
        · rcases (hm.effect hinv₁.queues).reservation hinv₁.occupancy hnot hnew with
            ⟨old', hold', hsame'⟩ | ⟨hnone, _⟩
          · obtain rfl := Option.some.inj (hold.symm.trans hold')
            exact Or.inl ⟨new, hnew, hsame.trans hsame'⟩
          · simp [hold] at hnone
        · exact Or.inr hgone
      · exact Or.inr ((hm.effect hinv₁.queues).gone hinv₁.occupancy (hm.stateInv hinv₁ hseq).occupancy
          (fun ids hids => hspent.not_brought hids) hgone)

/-! ## The promotion pass -/

/-- A promotion pass grants only new permits: a live record stays as it is. -/
theorem Move.keeps_record (h : Move g caller .growing s s') (hids : ∀ ids, ¬ caller.ids ids) (hinv : StateInv g s)
    (found : s.permits[p]? = some record) : s'.permits[p]? = some record := by
  cases h with
  | rescheduled h => rwa [h.ledger.permits]
  | flagged _ pending => exact found
  | admitted nowMs allowed accepted runnable => exact absurd allowed (hids _)
  | promoted nowMs h =>
    obtain ⟨c, policy, index, r, head, chosen, served, hpromotes⟩ := promoteStep_some h
    have hgone := hinv.occupancy.not_live hpromotes.removed.mem
    rw [hpromotes.permits, ExtTreeMap.getElem?_insert]
    split
    · rename_i hcmp
      obtain rfl := LawfulEqOrd.eq_of_compare hcmp
      rw [PendingRequest.untagged_permitId, found] at hgone
      simp at hgone
    · exact found
  | @cycled _ c index witness r held h first _ =>
    have hpermits := (rescheduled_unserved g (s.removedPending c index r) c).ledger.permits
    exact (congrArg (fun permits : BTreeMap PermitId PermitRecord => permits[p]?) hpermits).trans found

/-- A promotion pass adds permits; it does not touch those that live. -/
theorem promote_keeps_record (hinv : StateInv g s) (hload : ticketLoad s < u64Max) (nowMs : Nat)
    (found : s.permits[p]? = some record) : (g.promote s nowMs).1.permits[p]? = some record := by
  have hids : ∀ ids, ¬ Caller.nobody.ids ids := fun _ => id
  have hpass : Handovers g Caller.nobody False .growing (s, {}) (g.promote s nowMs) := promote_handovers g s nowMs
  refine (hpass.rule hids hinv hload (P := fun x => x.1.permits[p]? = some record) ?_ found).1
  intro x y hstep hinv₁ _ hx
  exact hstep.move.keeps_record hids hinv₁ hx

/-- A step that brings no identity keeps the records its section left. -/
theorem SysInv.finish_keeps_record (hinv : SysInv σ) (record' : PermitRecord) {prepared : g.Prepared}
    (h : Governor.prepare σ a = some prepared) (hother : ∀ i, a ≠ .enter i)
    (found : σ.state.permits[p]? = some record)
    (hsection : prepared.sec.state.permits[p]? = some record') :
    (Governor.finish prepared).state.permits[p]? = some record' := by
  obtain ⟨_, hinvsec, hload⟩ := hinv.section_permit h hother found
  show (g.commit prepared.sec prepared.nowMs).1.permits[p]? = some record'
  unfold Governor.commit
  split
  · exact promote_keeps_record hinvsec hload _ hsection
  · exact hsection

/-! ## The sections that report memory -/

/-- The number a reading is given: its epoch, or the next one. -/
def NumberedBy (epoch : Option Nat) (current sequence : Nat) : Prop :=
  sequence = epoch.getD (current + 1)

/-- An accepted reading has its own epoch, or the number after the last one. -/
theorem measurementSequence_ok {epoch : Option Nat} {sequence : Nat}
    (h : measurementSequence epoch record = .ok sequence) :
    NumberedBy epoch record.ledger.measurementSequence sequence := by
  unfold Governor.measurementSequence checkedAdd at h
  split at h
  · exact (Except.ok.inj h).symm
  · split at h
    · rename_i next hnext
      split at hnext
      · rw [← Except.ok.inj h, ← Option.some.inj hnext]
        rfl
      · simp at hnext
    · simp at h

/-- A reading the ledger accepts is later than the last one, and sized by the mode. -/
theorem reconcile_applied {measuredBytes sequence nowMs units : Nat} {mode : MemoryPermitMode}
    {scale : MemoryUnitScale}
    (h : reconcile s p measuredBytes sequence mode scale nowMs = (s', .applied units)) :
    ∃ record, s.permits[p]? = some record ∧ record.ledger.measurementSequence < sequence ∧
      effectiveUnits mode record.ledger.remainingReservationUnits measuredBytes scale = .ok units ∧
      s' = s.rechargePermit p record (record.ledger.measured measuredBytes sequence units nowMs) := by
  unfold reconcile at h
  split at h
  · simp at h
  · rename_i record found
    split at h
    · simp at h
    · split at h
      · simp at h
      · rename_i hlater
        split at h
        · simp at h
        · rename_i sized hsized
          simp only [Prod.mk.injEq, ReconcileOutcome.applied.injEq] at h
          obtain ⟨rfl, rfl⟩ := h
          exact ⟨record, found, Nat.lt_of_not_le hlater, hsized, rfl⟩

/-- An applied reading is a new charge for a live permit of a known class. -/
theorem reconcileMemory_applied {measuredBytes : Nat} {epoch : Option Nat} {nowMs units : Nat}
    (h : (g.reconcileMemory s p measuredBytes epoch nowMs).outcome = .applied units) :
    ∃ record policy sequence, s.permits[p]? = some record ∧
      g.policy.classPolicy record.taskClass = some policy ∧
      NumberedBy epoch record.ledger.measurementSequence sequence ∧
      record.ledger.measurementSequence < sequence ∧
      effectiveUnits policy.memoryPermitMode record.ledger.remainingReservationUnits measuredBytes
        g.policy.resources.memoryUnitScale = .ok units ∧
      (g.reconcileMemory s p measuredBytes epoch nowMs).state =
        s.rechargePermit p record (record.ledger.measured measuredBytes sequence units nowMs) := by
  unfold Governor.reconcileMemory at h ⊢
  cases found : s.permits[p]? with
  | none => simp [found] at h
  | some record =>
    simp only [found] at h ⊢
    cases known : g.policy.classPolicy record.taskClass with
    | none => simp [known] at h
    | some policy =>
      simp only [known] at h ⊢
      cases hsequence : measurementSequence epoch record with
      | error outcome =>
        simp only [hsequence] at h
        subst h
        unfold Governor.measurementSequence at hsequence
        split at hsequence
        · simp at hsequence
        · split at hsequence <;> simp at hsequence
      | ok sequence =>
        simp only [hsequence] at h ⊢
        cases hreconcile : reconcile s p measuredBytes sequence policy.memoryPermitMode
          g.policy.resources.memoryUnitScale nowMs with
        | mk s' outcome =>
          rw [hreconcile] at h
          cases outcome with
          | applied sized =>
            obtain rfl : sized = units := ReconcileOutcome.applied.inj h
            obtain ⟨old, hold, hlater, hsized, rfl⟩ := reconcile_applied hreconcile
            obtain rfl := Option.some.inj (found.symm.trans hold)
            exact ⟨record, policy, sequence, rfl, known, measurementSequence_ok hsequence, hlater, hsized, rfl⟩
          | _ => simp at h

/-- A reading that was not applied left every permit as it was. -/
theorem reconcileMemory_permits (hinv : StateInv g s) (hseq : s.terminalSeq < u64Max) {measuredBytes : Nat}
    {epoch : Option Nat} {nowMs : Nat}
    (h : ∀ units, (g.reconcileMemory s p measuredBytes epoch nowMs).outcome ≠ .applied units) :
    (g.reconcileMemory s p measuredBytes epoch nowMs).state.permits = s.permits := by
  rcases reconcileMemory_cases g s p measuredBytes epoch nowMs with ⟨outcome, heq, _⟩ | ⟨error, heq⟩ |
    ⟨record, ledger, _, _, heq, _⟩
  · rw [heq]
  · let caller : Caller := ⟨fun _ _ => False, fun _ => False, fun _ => True, fun _ => False⟩
    have hfaulted : Move g caller .shrinking s (s.recordAccountingFault conversionFault) :=
      Move.faulted s conversionFault ⟨p, trivial⟩
    have hrecorded := memoryOnly_recordAccountingFault s conversionFault
    have hsame : (s.recordAccountingFault conversionFault).terminalSeq = s.terminalSeq :=
      congrArg TicketBook.terminalSeq hrecorded.tickets
    have hstop := failedStop_terminalizeQueued (hfaulted.stateInv hinv hseq) (hsame ▸ hseq) {}
    rw [heq]
    exact hstop.ledger.permits.trans hrecorded.permits
  · rw [heq] at h
    exact absurd rfl (h _)

/-- An accepted stage event returns units of a live permit, and is later than the last one if it is
numbered. -/
theorem releaseStage_released {freedUnits freed : Nat} {sequence : Option Nat} {nowMs : Nat}
    (h : (g.releaseStage s p freedUnits sequence nowMs).outcome = .released freed) :
    ∃ record, s.permits[p]? = some record ∧ (∀ n, sequence = some n → record.ledger.stageSequence < n) ∧
      freed = min freedUnits record.ledger.effectiveUnits ∧
      (g.releaseStage s p freedUnits sequence nowMs).state =
        s.rechargePermit p record (record.ledger.staged freed sequence nowMs) := by
  unfold Governor.releaseStage at h ⊢
  cases found : s.permits[p]? with
  | none => simp [found] at h
  | some record =>
    simp only [found] at h ⊢
    cases known : g.policy.classPolicy record.taskClass with
    | none => simp [known] at h
    | some policy =>
      simp only [known] at h ⊢
      unfold releaseStageMemory at h ⊢
      split at h
      · simp at h
      · rename_i hallowed
        simp only [found] at h ⊢
        split at h
        · simp at h
        · rename_i hlater
          obtain rfl := StageReleaseOutcome.released.inj h
          refine ⟨record, rfl, ?_, rfl, ?_⟩
          · rintro n rfl
            simpa using hlater
          · rw [if_neg hallowed, if_neg hlater]

/-! ## One ledger over a step -/

/-- No reading and no stage event of the permit was accepted. -/
structure Unaccepted (p : PermitId) (e : Event) : Prop where
  reading : ∀ units, e ≠ .reconciled p (.applied units)
  stage : ∀ freed, e ≠ .stageReleased p (.released freed)

/-- What a step does to the ledger of a live permit. -/
inductive LedgerStep (g : Governor) (p : PermitId) (policy : ClassPolicy) (ledger : PermitLedger) :
    Action → Event → PermitLedger → Prop
  | kept {a : Action} {e : Event} {ledger' : PermitLedger} (unaccepted : Unaccepted p e)
      (same : SameReservation ledger ledger') : LedgerStep g p policy ledger a e ledger'
  | measured {measuredBytes sampledMs : UInt64} {epoch : Option UInt64} {sequence units : Nat} (nowMs : Nat)
      (numbered : NumberedBy (epoch.map UInt64.toNat) ledger.measurementSequence sequence)
      (later : ledger.measurementSequence < sequence)
      (sized : effectiveUnits policy.memoryPermitMode ledger.remainingReservationUnits measuredBytes.toNat
        g.policy.resources.memoryUnitScale = .ok units) :
      LedgerStep g p policy ledger (.reconcileMemory p measuredBytes epoch sampledMs)
        (.reconciled p (.applied units)) (ledger.measured measuredBytes.toNat sequence units nowMs)
  | staged {freedUnits : UInt32} {sampledMs : UInt64} {sequence : Option UInt64} {freed : Nat} (nowMs : Nat)
      (later : ∀ n, sequence.map UInt64.toNat = some n → ledger.stageSequence < n)
      (within : freed ≤ ledger.effectiveUnits) :
      LedgerStep g p policy ledger (.releaseStageMemory p freedUnits sequence sampledMs)
        (.stageReleased p (.released freed)) (ledger.staged freed (sequence.map UInt64.toNat) nowMs)

/-- A step that may not change the memory of a permit accepts nothing for it. -/
theorem step_unaccepted (h : g.step σ a = some (σ', e)) (hnot : ¬ (callerOf σ a).memory p) : Unaccepted p e := by
  have htells := step_tells h
  constructor
  · rintro units rfl
    cases a with
    | reconcileMemory q measuredBytes epoch sampledMs =>
      obtain rfl : q = p := of_decide_eq_true htells
      exact hnot (Or.inl ⟨_, _, _, rfl⟩)
    | settle i panicked | finishClaim i panicked => cases panicked <;> simp [Action.tells] at htells
    | _ => simp [Action.tells] at htells
  · rintro freed rfl
    cases a with
    | releaseStageMemory q freedUnits sequence sampledMs =>
      obtain rfl : q = p := of_decide_eq_true htells
      exact hnot (Or.inr ⟨_, _, _, rfl⟩)
    | settle i panicked | finishClaim i panicked => cases panicked <;> simp [Action.tells] at htells
    | _ => simp [Action.tells] at htells

/-- A recharged permit lives on with its new ledger. -/
theorem live_rechargePermit (s : GovernedState) (p : PermitId) (record : PermitRecord) (ledger : PermitLedger) :
    (s.rechargePermit p record ledger).permits[p]? = some { record with ledger := ledger } := by
  rw [(memoryOnly_rechargePermit s p record ledger).permits]
  simp

/-- A reading of a live permit: its ledger is measured, or stays as it was. -/
theorem SysInv.step_reconciled (hinv : SysInv σ) {measuredBytes sampledMs : UInt64} {epoch : Option UInt64}
    {policy : ClassPolicy} (h : g.step σ (.reconcileMemory p measuredBytes epoch sampledMs) = some (σ', e))
    (found : σ.state.permits[p]? = some record) (known : g.policy.classPolicy record.taskClass = some policy) :
    ∃ record', σ'.state.permits[p]? = some record' ∧ LedgerStep g p policy record.ledger
      (.reconcileMemory p measuredBytes epoch sampledMs) e record'.ledger := by
  obtain ⟨prepared, hprepared, rfl, rfl⟩ := step_eq_some h
  have hkeeps := fun record' => hinv.finish_keeps_record record' hprepared (by simp) found
  simp only [Governor.prepare, Option.some.injEq] at hprepared
  subst hprepared
  obtain ⟨hstart, hseq⟩ := hinv.committed sampledMs.toNat
  have hlive : (σ.state.commitTime sampledMs.toNat).permits[p]? = some record := found
  simp only [Governor.operationUnless, Governor.operation, Governor.locked] at hkeeps ⊢
  generalize σ.state.commitTime sampledMs.toNat = start at hkeeps hstart hseq hlive ⊢
  by_cases happlied : ∃ units, (g.reconcileMemory start p measuredBytes.toNat (epoch.map UInt64.toNat)
    start.commitWatermarkMs).outcome = .applied units
  · obtain ⟨units, houtcome⟩ := happlied
    obtain ⟨old, policy', sequence, hold, known', hnumbered, hlater, hsized, hstate⟩ :=
      reconcileMemory_applied houtcome
    obtain rfl := Option.some.inj (hlive.symm.trans hold)
    obtain rfl := Option.some.inj (known.symm.trans known')
    refine ⟨_, hkeeps _ (by rw [hstate]; exact live_rechargePermit _ _ _ _), ?_⟩
    rw [houtcome]
    exact LedgerStep.measured start.commitWatermarkMs hnumbered hlater hsized
  · have hnot := not_exists.mp happlied
    refine ⟨record, hkeeps _ (by rwa [reconcileMemory_permits hstart hseq hnot]), ?_⟩
    refine LedgerStep.kept ⟨fun units heq => hnot units ?_, by simp⟩ (SameReservation.refl _)
    exact (Event.reconciled.inj heq).2

/-- A stage event of a live permit: its ledger is staged, or stays as it was. -/
theorem SysInv.step_stageReleased (hinv : SysInv σ) {freedUnits : UInt32} {sampledMs : UInt64}
    {sequence : Option UInt64} (policy : ClassPolicy)
    (h : g.step σ (.releaseStageMemory p freedUnits sequence sampledMs) = some (σ', e))
    (found : σ.state.permits[p]? = some record) :
    ∃ record', σ'.state.permits[p]? = some record' ∧ LedgerStep g p policy record.ledger
      (.releaseStageMemory p freedUnits sequence sampledMs) e record'.ledger := by
  obtain ⟨prepared, hprepared, rfl, rfl⟩ := step_eq_some h
  have hkeeps := fun record' => hinv.finish_keeps_record record' hprepared (by simp) found
  simp only [Governor.prepare, Option.some.injEq] at hprepared
  subst hprepared
  have hlive : (σ.state.commitTime sampledMs.toNat).permits[p]? = some record := found
  simp only [Governor.operationUnless, Governor.operation, Governor.locked] at hkeeps ⊢
  generalize σ.state.commitTime sampledMs.toNat = start at hkeeps hlive ⊢
  by_cases hreleased : ∃ freed, (g.releaseStage start p freedUnits.toNat (sequence.map UInt64.toNat)
    start.commitWatermarkMs).outcome = .released freed
  · obtain ⟨freed, houtcome⟩ := hreleased
    obtain ⟨old, hold, hlater, hfreed, hstate⟩ := releaseStage_released houtcome
    obtain rfl := Option.some.inj (hlive.symm.trans hold)
    refine ⟨_, hkeeps _ (by rw [hstate]; exact live_rechargePermit _ _ _ _), ?_⟩
    rw [houtcome]
    exact LedgerStep.staged start.commitWatermarkMs hlater (hfreed ▸ Nat.min_le_right _ _)
  · have hnot := not_exists.mp hreleased
    refine ⟨record, hkeeps _ (by rwa [releaseStage_refused hnot]), ?_⟩
    refine LedgerStep.kept ⟨by simp, fun freed heq => hnot freed ?_⟩ (SameReservation.refl _)
    exact (Event.stageReleased.inj heq).2

/-- The ledger of a permit that is live before and after a step. -/
theorem SysInv.step_ledger (hinv : SysInv σ) (h : g.step σ a = some (σ', e)) {policy : ClassPolicy}
    (found : σ.state.permits[p]? = some record) (known : g.policy.classPolicy record.taskClass = some policy)
    (found' : σ'.state.permits[p]? = some record') :
    LedgerStep g p policy record.ledger a e record'.ledger := by
  by_cases hmemory : (callerOf σ a).memory p
  · rcases hmemory with ⟨measuredBytes, epoch, sampledMs, rfl⟩ | ⟨freedUnits, sequence, sampledMs, rfl⟩
    · obtain ⟨last, hlast, hstep⟩ := hinv.step_reconciled h found known
      obtain rfl := Option.some.inj (hlast.symm.trans found')
      exact hstep
    · obtain ⟨last, hlast, hstep⟩ := hinv.step_stageReleased policy h found
      obtain rfl := Option.some.inj (hlast.symm.trans found')
      exact hstep
  · rcases hinv.step_reservation h hmemory found' with ⟨old, hold, hsame⟩ | ⟨hnone, _⟩
    · obtain rfl := Option.some.inj (found.symm.trans hold)
      exact LedgerStep.kept (step_unaccepted h hmemory) hsame
    · simp [found] at hnone

/-- Memory reported for an identity that is not live is refused. -/
theorem step_unknown (h : g.step σ a = some (σ', e)) (hmemory : (callerOf σ a).memory p)
    (hnone : σ.state.permits[p]? = none) : σ'.state.permits[p]? = none ∧ Unaccepted p e := by
  rcases hmemory with ⟨measuredBytes, epoch, sampledMs, rfl⟩ | ⟨freedUnits, sequence, sampledMs, rfl⟩
  · obtain ⟨prepared, hprepared, rfl, rfl⟩ := step_eq_some h
    simp only [Governor.prepare, Option.some.injEq] at hprepared
    subst hprepared
    have habsent : (σ.state.commitTime sampledMs.toNat).permits[p]? = none := hnone
    rw [state_operationUnless]
    simp only [Governor.operationUnless, Governor.operation, Governor.locked]
    generalize σ.state.commitTime sampledMs.toNat = start at habsent ⊢
    unfold Governor.reconcileMemory
    rw [habsent]
    exact ⟨habsent, by simp, by simp⟩
  · obtain ⟨prepared, hprepared, rfl, rfl⟩ := step_eq_some h
    simp only [Governor.prepare, Option.some.injEq] at hprepared
    subst hprepared
    have habsent : (σ.state.commitTime sampledMs.toNat).permits[p]? = none := hnone
    rw [state_operationUnless]
    simp only [Governor.operationUnless, Governor.operation, Governor.locked]
    generalize σ.state.commitTime sampledMs.toNat = start at habsent ⊢
    unfold Governor.releaseStage
    rw [habsent]
    exact ⟨habsent, by simp, by simp⟩

/-- Until a permit is live nothing is accepted for it; the step that grants it leaves its ledger
unreported. -/
theorem SysInv.step_born (hinv : SysInv σ) (h : g.step σ a = some (σ', e))
    (hnone : σ.state.permits[p]? = none) :
    Unaccepted p e ∧ ∀ record', σ'.state.permits[p]? = some record' → Unreported record'.ledger := by
  by_cases hmemory : (callerOf σ a).memory p
  · obtain ⟨habsent, hunaccepted⟩ := step_unknown h hmemory hnone
    exact ⟨hunaccepted, fun record' found' => by simp [habsent] at found'⟩
  · refine ⟨step_unaccepted h hmemory, fun record' found' => ?_⟩
    rcases hinv.step_reservation h hmemory found' with ⟨old, hold, _⟩ | ⟨_, hfresh⟩
    · simp [hnone] at hold
    · exact hfresh

/-! ## What a trace says of one permit -/

/-- The units a step returned from a permit at a stage boundary. -/
def freedUnits (p : PermitId) : Action × Event → Nat
  | (_, .stageReleased q (.released freed)) => if q = p then freed else 0
  | _ => 0

/-- The explicit epoch a step applied to a permit. -/
def appliedEpoch (p : PermitId) : Action × Event → Option Nat
  | (.reconcileMemory _ _ (some epoch) _, .reconciled q (.applied _)) => if q = p then some epoch.toNat else none
  | _ => none

/-- The explicit stage sequence a step applied to a permit. -/
def appliedStage (p : PermitId) : Action × Event → Option Nat
  | (.releaseStageMemory _ _ (some sequence) _, .stageReleased q (.released _)) =>
    if q = p then some sequence.toNat else none
  | _ => none

/-- What is not accepted frees nothing. -/
theorem Unaccepted.freed (h : Unaccepted p e) (a : Action) : freedUnits p (a, e) = 0 := by
  unfold freedUnits
  split
  · split
    · rename_i heq hq
      subst hq
      exact absurd (Prod.mk.inj heq).2 (h.stage _)
    · rfl
  · rfl

/-- What is not accepted applies no epoch. -/
theorem Unaccepted.epoch (h : Unaccepted p e) (a : Action) : appliedEpoch p (a, e) = none := by
  unfold appliedEpoch
  split
  · split
    · rename_i heq hq
      subst hq
      exact absurd (Prod.mk.inj heq).2 (h.reading _)
    · rfl
  · rfl

/-- What is not accepted applies no stage. -/
theorem Unaccepted.stage_none (h : Unaccepted p e) (a : Action) : appliedStage p (a, e) = none := by
  unfold appliedStage
  split
  · split
    · rename_i heq hq
      subst hq
      exact absurd (Prod.mk.inj heq).2 (h.stage _)
    · rfl
  · rfl

/-- The ledger of a live permit after a run, against what the run reported for it. -/
structure LedgerLaws (p : PermitId) (policy : ClassPolicy) (trace : List (Action × Event))
    (ledger : PermitLedger) : Prop where
  remaining : ledger.remainingReservationUnits =
    ledger.originalEstimateUnits - min ledger.originalEstimateUnits (trace.map (freedUnits p)).sum
  estimated : policy.memoryPermitMode = .estimated → ledger.effectiveUnits = ledger.remainingReservationUnits
  hybrid : policy.memoryPermitMode = .hybrid → ledger.remainingReservationUnits ≤ ledger.effectiveUnits
  epochs : ∀ n ∈ trace.filterMap (appliedEpoch p), n ≤ ledger.measurementSequence
  stages : ∀ n ∈ trace.filterMap (appliedStage p), n ≤ ledger.stageSequence

variable {policy : ClassPolicy} {trace : List (Action × Event)}

/-- A run that accepted nothing for a permit agrees with an unreported ledger. -/
theorem Unreported.laws (h : Unreported ledger) (hquiet : ∀ l ∈ trace, Unaccepted p l.2) :
    LedgerLaws p policy trace ledger := by
  have hsum : (trace.map (freedUnits p)).sum = 0 := by
    refine List.sum_eq_zero fun n hn => ?_
    obtain ⟨l, hl, rfl⟩ := List.mem_map.mp hn
    exact (hquiet l hl).freed l.1
  have hepochs : trace.filterMap (appliedEpoch p) = [] :=
    List.filterMap_eq_nil_iff.mpr fun l hl => (hquiet l hl).epoch l.1
  have hstages : trace.filterMap (appliedStage p) = [] :=
    List.filterMap_eq_nil_iff.mpr fun l hl => (hquiet l hl).stage_none l.1
  refine ⟨?_, fun _ => ?_, fun _ => ?_, ?_, ?_⟩
  · rw [hsum, h.remaining]
    simp
  · rw [h.effective, h.remaining]
  · rw [h.effective, h.remaining]
  · simp [hepochs]
  · simp [hstages]

/-- By estimate the charge is what remains reserved, whatever was measured. -/
theorem effectiveUnits_estimated {remaining measuredBytes units : Nat} {scale : MemoryUnitScale}
    (h : effectiveUnits .estimated remaining measuredBytes scale = .ok units) : units = remaining :=
  (Except.ok.inj h).symm

/-- The hybrid charge is the larger of the reservation and the measurement. -/
theorem effectiveUnits_hybrid {remaining measuredBytes units : Nat} {scale : MemoryUnitScale}
    (h : effectiveUnits .hybrid remaining measuredBytes scale = .ok units) :
    ∃ measured, scale.unitsFor measuredBytes = .ok measured ∧ units = max remaining measured := by
  unfold effectiveUnits at h
  cases hunits : scale.unitsFor measuredBytes with
  | error error => simp [hunits, Except.map] at h
  | ok measured =>
    simp only [hunits, Except.map, Except.ok.injEq] at h
    exact ⟨measured, rfl, h.symm⟩

theorem filterMap_concat {α β : Type} (f : α → Option β) (l : List α) (x : α) :
    (l ++ [x]).filterMap f = l.filterMap f ++ (f x).toList := by
  cases h : f x <;> simp [List.filterMap_append, h]

/-- One step keeps the laws of a ledger. -/
theorem LedgerLaws.step (h : LedgerLaws p policy trace ledger) (hstep : LedgerStep g p policy ledger a e ledger') :
    LedgerLaws p policy (trace ++ [(a, e)]) ledger' := by
  have hsum : ((trace ++ [(a, e)]).map (freedUnits p)).sum =
      (trace.map (freedUnits p)).sum + freedUnits p (a, e) := by simp
  have hepochs := filterMap_concat (appliedEpoch p) trace (a, e)
  have hstages := filterMap_concat (appliedStage p) trace (a, e)
  cases hstep with
  | kept unaccepted same =>
    obtain ⟨_, rfl⟩ := same
    rw [unaccepted.freed a] at hsum
    rw [unaccepted.epoch a] at hepochs
    rw [unaccepted.stage_none a] at hstages
    refine ⟨by rw [hsum]; exact h.remaining, h.estimated, h.hybrid, ?_, ?_⟩
    · rw [hepochs]
      simpa using h.epochs
    · rw [hstages]
      simpa using h.stages
  | @measured measuredBytes sampledMs epoch sequence units nowMs numbered later sized =>
    refine ⟨by rw [hsum]; exact h.remaining, fun hmode => ?_, fun hmode => ?_, ?_, ?_⟩
    · rw [hmode] at sized
      exact effectiveUnits_estimated sized
    · rw [hmode] at sized
      obtain ⟨measured, _, hunits⟩ := effectiveUnits_hybrid sized
      show ledger.remainingReservationUnits ≤ units
      omega
    · intro n hn
      show n ≤ sequence
      rw [hepochs, List.mem_append] at hn
      rcases hn with hn | hn
      · exact Nat.le_trans (h.epochs n hn) (Nat.le_of_lt later)
      · cases epoch with
        | none => simp [appliedEpoch] at hn
        | some epoch =>
          simp only [appliedEpoch, if_true, Option.toList_some, List.mem_singleton] at hn
          rw [hn, numbered]
          simp
    · rw [hstages, show appliedStage p (_, Event.reconciled p _) = none from rfl, Option.toList_none, List.append_nil]
      exact h.stages
  | @staged freedUnits' sampledMs sequence freed nowMs later within =>
    have hfreed : freedUnits p (.releaseStageMemory p freedUnits' sequence sampledMs,
        .stageReleased p (.released freed)) = freed := by simp [freedUnits]
    have hremaining := h.remaining
    refine ⟨?_, fun hmode => ?_, fun hmode => ?_, ?_, ?_⟩
    · rw [hsum, hfreed]
      simp only [PermitLedger.staged]
      omega
    · have := h.estimated hmode
      simp only [PermitLedger.staged]
      omega
    · have := h.hybrid hmode
      simp only [PermitLedger.staged]
      omega
    · rw [hepochs, show appliedEpoch p (_, Event.stageReleased p _) = none from rfl, Option.toList_none, List.append_nil]
      exact h.epochs
    · intro n hn
      rw [hstages, List.mem_append] at hn
      cases sequence with
      | none =>
        simp only [appliedStage, Option.toList_none, List.not_mem_nil, or_false] at hn
        exact h.stages n hn
      | some sequence =>
        show n ≤ sequence.toNat
        rcases hn with hn | hn
        · exact Nat.le_trans (h.stages n hn) (Nat.le_of_lt (later _ rfl))
        · simp only [appliedStage, if_true, Option.toList_some, List.mem_singleton] at hn
          rw [hn]

/-- A number a step applies is larger than every one applied before it. -/
theorem LedgerLaws.applies (h : LedgerLaws p policy trace ledger)
    (hstep : LedgerStep g p policy ledger a e ledger') :
    (∀ n ∈ trace.filterMap (appliedEpoch p), ∀ m ∈ appliedEpoch p (a, e), n < m) ∧
      ∀ n ∈ trace.filterMap (appliedStage p), ∀ m ∈ appliedStage p (a, e), n < m := by
  cases hstep with
  | kept unaccepted same =>
    rw [unaccepted.epoch a, unaccepted.stage_none a]
    simp
  | @measured measuredBytes sampledMs epoch sequence units nowMs numbered later sized =>
    refine ⟨fun n hn m hm => ?_, fun n hn m hm => by simp [appliedStage] at hm⟩
    cases epoch with
    | none => simp [appliedEpoch] at hm
    | some epoch =>
      obtain rfl : epoch.toNat = m := by simpa [appliedEpoch] using hm
      obtain rfl : sequence = epoch.toNat := numbered
      exact Nat.lt_of_le_of_lt (h.epochs n hn) later
  | @staged freedUnits' sampledMs sequence freed nowMs later within =>
    refine ⟨fun n hn m hm => by simp [appliedEpoch] at hm, fun n hn m hm => ?_⟩
    cases sequence with
    | none => simp [appliedStage] at hm
    | some sequence =>
      obtain rfl : sequence.toNat = m := by simpa [appliedStage] using hm
      exact Nat.lt_of_le_of_lt (h.stages n hn) (later _ rfl)

/-! ## Whole runs -/

/-- A permit over a run: nothing is accepted for it before it is granted, while it lives its ledger obeys
the laws, and once it ended its identity is spent. -/
inductive MemoryLife (σ : g.System) (p : PermitId) (trace : List (Action × Event)) : Prop
  | unborn (unaccepted : ∀ l ∈ trace, Unaccepted p l.2) (absent : σ.state.permits[p]? = none)
  | live {record : PermitRecord} {policy : ClassPolicy} (found : σ.state.permits[p]? = some record)
      (known : g.policy.classPolicy record.taskClass = some policy)
      (laws : LedgerLaws p policy trace record.ledger)
  | ended (spent : SpentPermit σ p) (gone : Gone σ.state p)

/-- The numbers a run applied to a permit, in the order of the run. -/
structure InOrder (p : PermitId) (trace : List (Action × Event)) : Prop where
  epochs : (trace.filterMap (appliedEpoch p)).Pairwise (· < ·)
  stages : (trace.filterMap (appliedStage p)).Pairwise (· < ·)

theorem pairwise_toList {α : Type} (r : α → α → Prop) (o : Option α) : o.toList.Pairwise r := by
  cases o <;> simp

/-- One more step stays in order if its numbers are above those before. -/
theorem InOrder.next (h : InOrder p trace)
    (hepoch : ∀ n ∈ trace.filterMap (appliedEpoch p), ∀ m ∈ appliedEpoch p (a, e), n < m)
    (hstage : ∀ n ∈ trace.filterMap (appliedStage p), ∀ m ∈ appliedStage p (a, e), n < m) :
    InOrder p (trace ++ [(a, e)]) := by
  constructor
  · rw [filterMap_concat, List.pairwise_append]
    exact ⟨h.epochs, pairwise_toList _ _, fun n hn m hm => hepoch n hn m (Option.mem_toList.mp hm)⟩
  · rw [filterMap_concat, List.pairwise_append]
    exact ⟨h.stages, pairwise_toList _ _, fun n hn m hm => hstage n hn m (Option.mem_toList.mp hm)⟩

/-- A step that applies nothing stays in order. -/
theorem InOrder.unaccepted (h : InOrder p trace) (hunaccepted : Unaccepted p e) : InOrder p (trace ++ [(a, e)]) := by
  refine h.next (fun _ _ m hm => ?_) (fun _ _ m hm => ?_)
  · simp [hunaccepted.epoch] at hm
  · simp [hunaccepted.stage_none] at hm

/-- The class of a live permit has a policy. -/
theorem SysInv.known (hinv : SysInv σ) (found : σ.state.permits[p]? = some record) :
    ∃ policy, g.policy.classPolicy record.taskClass = some policy := by
  obtain ⟨policy, hfits⟩ := hinv.state.permits p record found
  exact ⟨policy, hfits.known⟩

/-- One step carries the life of a permit on. -/
theorem MemoryLife.step (hinv : SysInv σ) (h : g.step σ a = some (σ', e)) (hlife : MemoryLife σ p trace)
    (horder : InOrder p trace) : MemoryLife σ' p (trace ++ [(a, e)]) ∧ InOrder p (trace ++ [(a, e)]) := by
  cases hlife with
  | unborn unaccepted absent =>
    obtain ⟨hunaccepted, hborn⟩ := hinv.step_born h absent
    have hquiet : ∀ l ∈ trace ++ [(a, e)], Unaccepted p l.2 := by
      intro l hl
      rcases List.mem_append.mp hl with hl | hl
      · exact unaccepted l hl
      · obtain rfl := List.mem_singleton.mp hl
        exact hunaccepted
    refine ⟨?_, horder.unaccepted hunaccepted⟩
    cases found' : σ'.state.permits[p]? with
    | none => exact .unborn hquiet found'
    | some record =>
      obtain ⟨policy, known⟩ := (hinv.step h).known found'
      exact .live found' known ((hborn record found').laws hquiet)
  | @live record policy found known laws =>
    rcases hinv.step_permit h found with ⟨record', found', hcharge⟩ | ⟨hgone, _⟩
    · have hledger := hinv.step_ledger h found known found'
      obtain ⟨hepoch, hstage⟩ := laws.applies hledger
      exact ⟨.live found' (hcharge.charge.taskClass ▸ known) (laws.step hledger), horder.next hepoch hstage⟩
    · have hnot : ¬ (callerOf σ a).memory p := by
        intro hmemory
        rcases hmemory with ⟨measuredBytes, epoch, sampledMs, rfl⟩ | ⟨freedUnits, sequence, sampledMs, rfl⟩
        · obtain ⟨last, hlast, _⟩ := hinv.step_reconciled h found known
          simp [hgone.live] at hlast
        · obtain ⟨last, hlast, _⟩ := hinv.step_stageReleased policy h found
          simp [hgone.live] at hlast
      exact ⟨.ended ((hinv.spent_live found).step h) hgone, horder.unaccepted (step_unaccepted h hnot)⟩
  | ended spent gone =>
    exact ⟨.ended (spent.step h) (hinv.step_gone h spent gone),
      horder.unaccepted (hinv.step_born h gone.live).1⟩

/-- The life of a permit along a run, from before its grant to after its end. -/
theorem MemoryLife.of_run (h : Runs.Run g.step g.init trace σ) (p : PermitId) :
    MemoryLife σ p trace ∧ InOrder p trace := by
  generalize hinit : g.init = start at h
  induction h with
  | nil =>
    subst hinit
    exact ⟨.unborn (by simp) (by simp [Governor.init]), by simp, by simp⟩
  | snoc hrun hstep ih =>
    subst hinit
    exact ih.1.step (SysInv.of_reachable ⟨_, hrun⟩) hstep ih.2

/-- What only moves one way while a permit lives. -/
structure LaterLedger (ledger ledger' : PermitLedger) : Prop where
  original : ledger'.originalEstimateUnits = ledger.originalEstimateUnits
  remaining : ledger'.remainingReservationUnits ≤ ledger.remainingReservationUnits
  measured : ledger.measurementSequence ≤ ledger'.measurementSequence
  staged : ledger.stageSequence ≤ ledger'.stageSequence

theorem LaterLedger.refl (ledger : PermitLedger) : LaterLedger ledger ledger :=
  ⟨rfl, Nat.le_refl _, Nat.le_refl _, Nat.le_refl _⟩

/-- Later than later is later. -/
theorem LaterLedger.trans (h : LaterLedger ledger ledger') (h' : LaterLedger ledger' ledger'') :
    LaterLedger ledger ledger'' where
  original := h'.original.trans h.original
  remaining := Nat.le_trans h'.remaining h.remaining
  measured := Nat.le_trans h.measured h'.measured
  staged := Nat.le_trans h.staged h'.staged

/-- A step can only move a ledger forward. -/
theorem LedgerStep.later (h : LedgerStep g p policy ledger a e ledger') : LaterLedger ledger ledger' := by
  cases h with
  | kept unaccepted same =>
    obtain ⟨_, rfl⟩ := same
    exact ⟨rfl, Nat.le_refl _, Nat.le_refl _, Nat.le_refl _⟩
  | measured nowMs numbered later sized => exact ⟨rfl, Nat.le_refl _, Nat.le_of_lt later, Nat.le_refl _⟩
  | @staged freedUnits' sampledMs sequence freed nowMs later within =>
    refine ⟨rfl, Nat.sub_le _ _, Nat.le_refl _, ?_⟩
    cases sequence with
    | none => exact Nat.le_refl _
    | some sequence => exact Nat.le_of_lt (later _ rfl)

/-- From a state in which a permit is live, every later record of it continues its ledger. -/
theorem SysInv.run_ledger (hinv : SysInv σ) (found : σ.state.permits[p]? = some record)
    {trace' : List (Action × Event)} (hrun : Runs.Run g.step σ trace' σ')
    (found' : σ'.state.permits[p]? = some record') : LaterLedger record.ledger record'.ledger := by
  have hlast := hrun.invariant (P := fun τ => SysInv τ ∧ SpentPermit τ p ∧
    ((∃ last, τ.state.permits[p]? = some last ∧ LaterLedger record.ledger last.ledger) ∨ Gone τ.state p)) ?_
    ⟨hinv, hinv.spent_live found, Or.inl ⟨record, found, LaterLedger.refl _⟩⟩
  · rcases hlast.2.2 with ⟨last, hlast, hlater⟩ | hgone
    · obtain rfl := Option.some.inj (hlast.symm.trans found')
      exact hlater
    · simp [hgone.live] at found'
  · rintro τ a τ' e ⟨hinvτ, hspent, hlive⟩ hstep
    refine ⟨hinvτ.step hstep, hspent.step hstep, ?_⟩
    rcases hlive with ⟨last, hlast, hlater⟩ | hgone
    · rcases hinvτ.step_permit hstep hlast with ⟨next, hnext, _⟩ | ⟨hgone, _⟩
      · obtain ⟨policy, known⟩ := hinvτ.known hlast
        exact Or.inl ⟨next, hnext, hlater.trans (hinvτ.step_ledger hstep hlast known hnext).later⟩
      · exact Or.inr hgone
    · exact Or.inr (hinvτ.step_gone hstep hspent hgone)

/-- What an accepted reading leaves: a charge sized by the mode of the class, on the reservation as it
was, under a later number. -/
structure ReadingApplied (g : Governor) (policy : ClassPolicy) (ledger ledger' : PermitLedger)
    (measuredBytes : Nat) (epoch : Option Nat) (units : Nat) : Prop where
  charged : ledger'.effectiveUnits = units
  reserved : ledger'.remainingReservationUnits = ledger.remainingReservationUnits
  estimated : policy.memoryPermitMode = .estimated → units = ledger.remainingReservationUnits
  measured : policy.memoryPermitMode = .measured →
    units = measuredBytes ⌈/⌉ g.policy.resources.memoryUnitScale.bytesPerUnit.toNat
  hybrid : policy.memoryPermitMode = .hybrid →
    units = max ledger.remainingReservationUnits
      (measuredBytes ⌈/⌉ g.policy.resources.memoryUnitScale.bytesPerUnit.toNat)
  later : ledger.measurementSequence < ledger'.measurementSequence
  numbered : NumberedBy epoch ledger.measurementSequence ledger'.measurementSequence

/-- A measurement counts started units. -/
theorem unitsFor_eq {scale : MemoryUnitScale} {bytes units : Nat} (h : scale.unitsFor bytes = .ok units) :
    units = bytes ⌈/⌉ scale.bytesPerUnit.toNat := by
  unfold MemoryUnitScale.unitsFor at h
  simp only at h
  split at h
  · simp at h
  · split at h
    · rw [Nat.ceilDiv_eq_add_pred_div]
      exact (Except.ok.inj h).symm
    · simp at h

/-- What an accepted reading charges in each mode. -/
theorem readingApplied {measuredBytes sequence units : Nat} {epoch : Option Nat} (nowMs : Nat)
    (hnumbered : NumberedBy epoch ledger.measurementSequence sequence)
    (hlater : ledger.measurementSequence < sequence)
    (hsized : effectiveUnits policy.memoryPermitMode ledger.remainingReservationUnits measuredBytes
      g.policy.resources.memoryUnitScale = .ok units) :
    ReadingApplied g policy ledger (ledger.measured measuredBytes sequence units nowMs) measuredBytes epoch
      units := by
  refine ⟨rfl, rfl, fun hmode => ?_, fun hmode => ?_, fun hmode => ?_, hlater, hnumbered⟩
  · rw [hmode] at hsized
    exact effectiveUnits_estimated hsized
  · rw [hmode] at hsized
    exact unitsFor_eq hsized
  · rw [hmode] at hsized
    obtain ⟨measured, hmeasured, hunits⟩ := effectiveUnits_hybrid hsized
    rw [hunits, unitsFor_eq hmeasured]

/-- A permit whose last number was used up takes no further reading. -/
theorem reconcileMemory_exhausted {policy : ClassPolicy} (found : s.permits[p]? = some record)
    (known : g.policy.classPolicy record.taskClass = some policy)
    (hlast : record.ledger.measurementSequence = u64Max) (measuredBytes : Nat) (epoch : Option Nat)
    (nowMs : Nat) :
    g.reconcileMemory s p measuredBytes epoch nowMs = ⟨s, {}, .epochExhausted u64Max, false⟩ := by
  unfold Governor.reconcileMemory
  simp only [found, known]
  cases epoch with
  | some epoch =>
    simp only [Governor.measurementSequence]
    unfold reconcile
    simp only [found]
    rw [if_pos hlast]
  | none =>
    have hnext : checkedAdd u64Max u64Max 1 = none := by
      unfold checkedAdd
      exact if_neg (by omega)
    simp only [Governor.measurementSequence, hlast, hnext]

/-- Past the last number every reading of a live permit is refused, and nothing but the clock moves. -/
theorem SysInv.step_exhausted (hinv : SysInv σ) (found : σ.state.permits[p]? = some record)
    (hlast : record.ledger.measurementSequence = u64Max) (measuredBytes : UInt64)
    (epoch : Option UInt64) (sampledMs : UInt64) :
    ∃ σ', g.step σ (.reconcileMemory p measuredBytes epoch sampledMs) =
      some (σ', .reconciled p (.epochExhausted u64Max)) ∧ SameButTime σ.state σ'.state := by
  obtain ⟨policy, known⟩ := hinv.known found
  have hsection := reconcileMemory_exhausted (s := σ.state.commitTime sampledMs.toNat) found known hlast
    measuredBytes.toNat (epoch.map UInt64.toNat) (σ.state.commitTime sampledMs.toNat).commitWatermarkMs
  refine ⟨Governor.finish (operationUnless σ sampledMs.toNat
    (fun s now => g.reconcileMemory s p measuredBytes.toNat (epoch.map UInt64.toNat) now)
    (.reconciled p) (reconcileEarly (epoch.map UInt64.toNat))), ?_, ?_⟩
  · unfold Governor.step
    simp only [Governor.prepare, Option.map_some, Option.some.injEq, Prod.mk.injEq, true_and]
    simp only [Governor.operationUnless, Governor.operation, Governor.locked, hsection]
  · rw [state_operationUnless, hsection, commit_of_not_promotes _ _ rfl]
    exact sameButTime_commitTime _ _

/-- The ledger laws, for every permit in every run. Epochs and stage sequences are applied in strictly
increasing order. While the permit lives its estimate stays, its reservation is the estimate less the
units returned, and its charge follows its mode, exactly so after an accepted reading; every number grows;
and past the last number every reading is refused without change. -/
theorem memory_ledger_laws (g : Governor) (trace : List (Action × Event)) (σ : g.System)
    (h : Runs.Run g.step g.init trace σ) (p : PermitId) :
    InOrder p trace ∧
    ∀ record, σ.state.permits[p]? = some record →
      ∃ policy, g.policy.classPolicy record.taskClass = some policy ∧
        LedgerLaws p policy trace record.ledger ∧
        (∀ trace' σ' record', Runs.Run g.step σ trace' σ' → σ'.state.permits[p]? = some record' →
          LaterLedger record.ledger record'.ledger) ∧
        (∀ a σ' units, g.step σ a = some (σ', .reconciled p (.applied units)) →
          ∃ measuredBytes epoch sampledMs record', a = .reconcileMemory p measuredBytes epoch sampledMs ∧
            σ'.state.permits[p]? = some record' ∧
            ReadingApplied g policy record.ledger record'.ledger measuredBytes.toNat
              (epoch.map UInt64.toNat) units) ∧
        (∀ a σ' freed, g.step σ a = some (σ', .stageReleased p (.released freed)) →
          ∃ freedUnits sequence sampledMs record', a = .releaseStageMemory p freedUnits sequence sampledMs ∧
            σ'.state.permits[p]? = some record' ∧
            record'.ledger.effectiveUnits + freed = record.ledger.effectiveUnits ∧
            ∀ n, sequence = some n → record.ledger.stageSequence < n.toNat ∧
              record'.ledger.stageSequence = n.toNat) ∧
        (record.ledger.measurementSequence = u64Max → ∀ measuredBytes epoch sampledMs,
          ∃ σ', g.step σ (.reconcileMemory p measuredBytes epoch sampledMs) =
            some (σ', .reconciled p (.epochExhausted u64Max)) ∧ SameButTime σ.state σ'.state) := by
  have hinv := SysInv.of_reachable ⟨trace, h⟩
  obtain ⟨hlife, horder⟩ := MemoryLife.of_run h p
  refine ⟨horder, fun record found => ?_⟩
  obtain ⟨policy, known⟩ := hinv.known found
  refine ⟨policy, known, ?_, fun trace' σ' record' hrun found' => hinv.run_ledger found hrun found',
    fun a σ' units hstep => ?_, fun a σ' freed hstep => ?_, fun hlast => hinv.step_exhausted found hlast⟩
  · cases hlife with
    | unborn _ absent => simp [found] at absent
    | @live record' policy' found' known' laws =>
      obtain rfl := Option.some.inj (found.symm.trans found')
      obtain rfl := Option.some.inj (known.symm.trans known')
      exact laws
    | ended spent gone => simp [gone.live] at found
  · by_cases hmemory : (callerOf σ a).memory p
    · rcases hmemory with ⟨measuredBytes, epoch, sampledMs, rfl⟩ | ⟨freedUnits, sequence, sampledMs, rfl⟩
      · obtain ⟨record', found', hledger⟩ := hinv.step_reconciled hstep found known
        refine ⟨measuredBytes, epoch, sampledMs, record', rfl, found', ?_⟩
        generalize record'.ledger = ledger' at hledger
        cases hledger with
        | kept unaccepted same => exact absurd rfl (unaccepted.reading units)
        | measured nowMs numbered later sized => exact readingApplied nowMs numbered later sized
      · exact absurd (step_tells hstep) (by simp [Action.tells])
    · exact absurd rfl ((step_unaccepted hstep hmemory).reading units)
  · by_cases hmemory : (callerOf σ a).memory p
    · rcases hmemory with ⟨measuredBytes, epoch, sampledMs, rfl⟩ | ⟨freedUnits, sequence, sampledMs, rfl⟩
      · exact absurd (step_tells hstep) (by simp [Action.tells])
      · obtain ⟨record', found', hledger⟩ := hinv.step_stageReleased policy hstep found
        refine ⟨freedUnits, sequence, sampledMs, record', rfl, found', ?_⟩
        generalize record'.ledger = ledger' at hledger
        cases hledger with
        | kept unaccepted same => exact absurd rfl (unaccepted.stage freed)
        | staged nowMs later within =>
          refine ⟨Nat.sub_add_cancel within, ?_⟩
          rintro n rfl
          exact ⟨later _ rfl, rfl⟩
    · exact absurd rfl ((step_unaccepted hstep hmemory).stage freed)

namespace Metered

/-- The class charged by the larger of its reservation and its reading, with releases at stage boundaries. -/
def stagedPolicy : ClassPolicy :=
  { Sample.classPolicy with memoryPermitMode := .hybrid, memoryReleasePolicy := .onStageBoundary }

def stagedGovernor : Governor :=
  ⟨7, PolicySet.new ⟨4, 8, 0, 0, ⟨1⟩⟩ ((∅ : BTreeMap TaskClass ClassPolicy).insert ⟨"work"⟩ stagedPolicy) 1,
    by decide +kernel⟩

/-- The running task reports five bytes, gives one unit back, and reports four bytes; the reading and the
release it repeats in between under numbers already used are refused. -/
def reports : List Action :=
  Sample.admission (.admitSpec (Sample.task "a")) ++
    [.advancePhase ⟨7, 1⟩ .running, .reconcileMemory ⟨7, 1⟩ 5 (some 2) 5, .releaseStageMemory ⟨7, 1⟩ 1 (some 3) 6,
      .reconcileMemory ⟨7, 1⟩ 3 (some 2) 7, .releaseStageMemory ⟨7, 1⟩ 1 (some 3) 8,
      .reconcileMemory ⟨7, 1⟩ 4 (some 4) 9]

def staged : stagedGovernor.System :=
  (Runs.replay stagedGovernor.step stagedGovernor.init reports).getD stagedGovernor.init

theorem staged_reachable : stagedGovernor.Reachable staged := Runs.reachable_replay stagedGovernor.init _

end Metered

/-- In the sample two readings and one release are applied, and the charge is the last reading. -/
theorem sample_memory : ∃ trace, Runs.Run Metered.stagedGovernor.step Metered.stagedGovernor.init trace Metered.staged ∧
    InOrder ⟨7, 1⟩ trace ∧ ∃ record, Metered.staged.state.permits[(⟨7, 1⟩ : PermitId)]? = some record ∧
      LedgerLaws ⟨7, 1⟩ Metered.stagedPolicy trace record.ledger ∧
      record.ledger.remainingReservationUnits = 1 ∧ record.ledger.effectiveUnits = 4 ∧
      record.ledger.measurementSequence = 4 ∧ record.ledger.stageSequence = 3 := by
  obtain ⟨trace, hrun⟩ := Metered.staged_reachable
  have hlive : Metered.staged.state.permits[(⟨7, 1⟩ : PermitId)]?.any (fun record =>
      decide (record.taskClass = ⟨"work"⟩ ∧ record.ledger.remainingReservationUnits = 1 ∧
        record.ledger.effectiveUnits = 4 ∧ record.ledger.measurementSequence = 4 ∧
        record.ledger.stageSequence = 3)) = true := by
    decide +kernel
  obtain ⟨record, found, hrecord⟩ := (Option.any_eq_true _ _).mp hlive
  obtain ⟨hclass, hledger⟩ := of_decide_eq_true hrecord
  obtain ⟨horder, hpermit⟩ := memory_ledger_laws Metered.stagedGovernor trace Metered.staged hrun ⟨7, 1⟩
  obtain ⟨policy, hknown, hlaws, _⟩ := hpermit record found
  have hpolicy : Metered.stagedGovernor.policy.classPolicy ⟨"work"⟩ = some Metered.stagedPolicy := by
    decide +kernel
  rw [hclass, hpolicy] at hknown
  obtain rfl := Option.some.inj hknown
  exact ⟨trace, hrun, horder, record, found, hlaws, hledger⟩

end Taskmesh
