import Taskmesh.Engine.Proofs.HandoverProofs

/-!
# Lease custody

A permit is leased exactly once it left `dispatchReserved`. From then on only its own token ends it:
every other step leaves it live, with the class, pools and processor charge it was granted with.
-/

namespace Taskmesh

open Std MachineInt SetIndex QueueFamily ExtTreeMap Governor Allocation

variable {g : Governor} {caller : Caller} {s s' : GovernedState} {σ σ' : g.System} {a : Action}
  {e : Event} {p : PermitId} {record record' record'' : PermitRecord} {memory : Prop}

/-! ## One live permit over a move -/

/-- What a permit keeps as long as it lives. -/
structure SameCharge (record record' : PermitRecord) : Prop where
  permitId : record'.permitId = record.permitId
  taskClass : record'.taskClass = record.taskClass
  operation : record'.operation = record.operation
  rootOperationId : record'.rootOperationId = record.rootOperationId
  scope : record'.scope = record.scope
  parentPermitId : record'.parentPermitId = record.parentPermitId
  targetStage : record'.targetStage = record.targetStage
  provenance : record'.provenance = record.provenance
  capabilities : record'.capabilities = record.capabilities
  cpuUnits : record'.ledger.cpuUnits = record.ledger.cpuUnits
  originalEstimateUnits : record'.ledger.originalEstimateUnits = record.ledger.originalEstimateUnits

theorem SameCharge.refl (record : PermitRecord) : SameCharge record record :=
  ⟨rfl, rfl, rfl, rfl, rfl, rfl, rfl, rfl, rfl, rfl, rfl⟩

theorem SameCharge.trans (h : SameCharge record record') (h' : SameCharge record' record'') :
    SameCharge record record'' where
  permitId := h'.permitId.trans h.permitId
  taskClass := h'.taskClass.trans h.taskClass
  operation := h'.operation.trans h.operation
  rootOperationId := h'.rootOperationId.trans h.rootOperationId
  scope := h'.scope.trans h.scope
  parentPermitId := h'.parentPermitId.trans h.parentPermitId
  targetStage := h'.targetStage.trans h.targetStage
  provenance := h'.provenance.trans h.provenance
  capabilities := h'.capabilities.trans h.capabilities
  cpuUnits := h'.cpuUnits.trans h.cpuUnits
  originalEstimateUnits := h'.originalEstimateUnits.trans h.originalEstimateUnits

/-- The phase stays, or moves to a strictly later one and leaves the permit leased. -/
def LaterCustody (record record' : PermitRecord) : Prop :=
  record'.phase = record.phase ∧ record'.leaseNonce = record.leaseNonce ∨
    record.phase.rank < record'.phase.rank ∧ ∃ nonce, record'.leaseNonce = some (record.leaseNonce.getD nonce)

theorem LaterCustody.trans (h : LaterCustody record record') (h' : LaterCustody record' record'') :
    LaterCustody record record'' := by
  rcases h with ⟨hphase, hnonce⟩ | ⟨hlater, n, hnonce⟩
  · unfold LaterCustody at h' ⊢
    rwa [hphase, hnonce] at h'
  · right
    rcases h' with ⟨hphase', hnonce'⟩ | ⟨hlater', n', hnonce'⟩
    · exact ⟨by rwa [hphase'], n, hnonce'.trans hnonce⟩
    · refine ⟨Nat.lt_trans hlater hlater', n, ?_⟩
      rw [hnonce', hnonce, Option.getD_some]

/-- What a move makes of a live permit; `memory` says that the caller may change its memory. -/
structure PermitStep (memory : Prop) (record record' : PermitRecord) : Prop where
  charge : SameCharge record record'
  custody : LaterCustody record record'
  memory : memory ∨ record'.ledger.effectiveUnits = record.ledger.effectiveUnits

theorem PermitStep.refl (record : PermitRecord) : PermitStep memory record record :=
  ⟨SameCharge.refl record, Or.inl ⟨rfl, rfl⟩, Or.inr rfl⟩

theorem PermitStep.trans (h : PermitStep memory record record') (h' : PermitStep memory record' record'') :
    PermitStep memory record record'' where
  charge := h.charge.trans h'.charge
  custody := h.custody.trans h'.custody
  memory := by
    rcases h.memory with hmemory | heq
    · exact Or.inl hmemory
    · exact h'.memory.imp_right fun heq' => heq'.trans heq

theorem permitStep_touched (h : Touched record record') : PermitStep memory record record' := by
  obtain ⟨waker, touchedMs, heq⟩ := h.rest
  rw [heq]
  exact ⟨⟨rfl, rfl, rfl, rfl, rfl, rfl, rfl, rfl, rfl, rfl, rfl⟩, Or.inl ⟨rfl, rfl⟩, Or.inr rfl⟩

/-- No change of a ledger touches the estimate the permit was granted with. -/
theorem LedgerChange.originalEstimate {ledger ledger' : PermitLedger} (h : LedgerChange ledger ledger') :
    ledger'.originalEstimateUnits = ledger.originalEstimateUnits := by
  cases h <;> rfl

/-- How a permit ended: it was not dispatched, or the caller holds its lease. -/
def MayEnd (caller : Caller) (p : PermitId) (record : PermitRecord) : Prop :=
  record.phase = .dispatchReserved ∨ caller.custody p record.leaseNonce

/-- Neither a permit nor a queued request has the identity. -/
structure Gone (s : GovernedState) (p : PermitId) : Prop where
  live : s.permits[p]? = none
  waiting : ∀ c r, r ∈ s.waiting c → r.permitId ≠ p

/-- A live permit under one move: it goes on, or it ended and its identity is in use no more. -/
theorem Effect.permit (h : Effect g caller s s') (ho : Occupancy s) (found : s.permits[p]? = some record) :
    (∃ record', s'.permits[p]? = some record' ∧ PermitStep (caller.memory p) record record') ∨
      Gone s' p ∧ MayEnd caller p record := by
  have hsame : s'.permits[p]? = some record →
      ∃ record', s'.permits[p]? = some record' ∧ PermitStep (caller.memory p) record record' :=
    fun hfound => ⟨record, hfound, PermitStep.refl record⟩
  -- Another permit is written.
  have hother : ∀ {q : PermitId} {new : PermitRecord}, s'.permits = s.permits.insert q new → q ≠ p →
      ∃ record', s'.permits[p]? = some record' ∧ PermitStep (caller.memory p) record record' := by
    intro q new hpermits hne
    refine hsame ?_
    rw [hpermits, ExtTreeMap.getElem?_insert]
    simpa [hne] using found
  -- The permit itself is written.
  have hself : ∀ {new : PermitRecord}, s'.permits = s.permits.insert p new →
      PermitStep (caller.memory p) record new →
      ∃ record', s'.permits[p]? = some record' ∧ PermitStep (caller.memory p) record record' := by
    intro new hpermits hstep
    refine ⟨new, ?_, hstep⟩
    rw [hpermits]
    simp
  cases h with
  | kept queues ledger guards => exact Or.inl (hsame (by rwa [ledger.permits]))
  | queued waker nowMs tags allowed accepted pushed identities ledger guards sound =>
    exact Or.inl (hsame (by rwa [ledger.permits]))
  | dropped removed identities ledger guards => exact Or.inl (hsame (by rwa [ledger.permits]))
  | @admitted policy c request ids nowMs allowed accepted fits result =>
    subst result
    refine Or.inl (hother rfl ?_)
    intro heq
    have hfresh := accepted.fresh.permit
    have hid : ids.permitId = p := heq
    rw [hid, found] at hfresh
    simp at hfresh
  | @promoted policy c index head base nowMs fits removed identities ledger guards result =>
    subst result
    have hpermits : (base.grant (promotedGrant base c head nowMs)).permits =
        s.permits.insert head.permitId (promotedGrant base c head nowMs).record := by
      show base.permits.insert _ _ = _
      rw [ledger.permits]
      rfl
    refine Or.inl (hother hpermits ?_)
    intro heq
    have hgone := ho.not_live removed.mem
    rw [PendingRequest.untagged_permitId, heq, found] at hgone
    simp at hgone
  | @ended q old foundq ends queues ledger guards =>
    have hpermits : s'.permits = s.permits.erase q := ledger.permits
    by_cases hq : q = p
    · subst hq
      obtain rfl : old = record := Option.some.inj (foundq.symm.trans found)
      refine Or.inr ⟨⟨?_, fun c r hr heq => ?_⟩, ends⟩
      · rw [hpermits]
        simp
      · rw [queues.waiting_eq] at hr
        have hgone := ho.not_live hr
        rw [heq, found] at hgone
        simp at hgone
    · refine Or.inl (hsame ?_)
      rw [hpermits, ExtTreeMap.getElem?_erase]
      simpa [hq] using found
  | @touched q old new foundq similar queues ledger guards =>
    have hpermits : s'.permits = s.permits.insert q new := ledger.permits
    by_cases hq : q = p
    · subst hq
      obtain rfl : old = record := Option.some.inj (foundq.symm.trans found)
      exact Or.inl (hself hpermits (permitStep_touched similar))
    · exact Or.inl (hother hpermits hq)
  | @advanced q old phase nonces foundq later result =>
    subst result
    by_cases hq : q = p
    · subst hq
      obtain rfl : old = record := Option.some.inj (foundq.symm.trans found)
      exact Or.inl (hself rfl ⟨⟨rfl, rfl, rfl, rfl, rfl, rfl, rfl, rfl, rfl, rfl, rfl⟩,
        Or.inr ⟨later, nonces, rfl⟩, Or.inr rfl⟩)
    · exact Or.inl (hother rfl hq)
  | @recharged q old ledger allowed foundq change result =>
    subst result
    have hpermits := (memoryOnly_rechargePermit s q old ledger).permits
    by_cases hq : q = p
    · subst hq
      obtain rfl : old = record := Option.some.inj (foundq.symm.trans found)
      exact Or.inl (hself hpermits ⟨⟨rfl, rfl, rfl, rfl, rfl, rfl, rfl, rfl, rfl, change.cpuUnits,
        change.originalEstimate⟩, Or.inl ⟨rfl, rfl⟩, Or.inl allowed⟩)
    · exact Or.inl (hother hpermits hq)

/-- A permit is gone exactly when no live record carries its identity. -/
theorem gone_iff (ho : Occupancy s) : Gone s p ↔ ¬ permitLabel.InUse s p := by
  constructor
  · rintro ⟨hlive, hwaiting⟩ (⟨c, r, hr, hp⟩ | ⟨q, record, hrecord, hp⟩)
    · exact hwaiting c r hr (Option.some.inj hp)
    · have hkey := ho.keys q record hrecord
      have hid : record.permitId = p := Option.some.inj hp
      rw [hid] at hkey
      rw [hkey, hrecord] at hlive
      simp at hlive
  · intro hnot
    refine ⟨?_, fun c r hr heq => hnot (Or.inl ⟨c, r, hr, congrArg some heq⟩)⟩
    cases hp : s.permits[p]? with
    | none => rfl
    | some record => exact absurd (Or.inr ⟨p, record, hp, congrArg some (ho.keys p record hp)⟩) hnot

/-- An identity that is gone stays gone, unless a call brings it. -/
theorem Effect.gone (h : Effect g caller s s') (ho : Occupancy s) (ho' : Occupancy s')
    (hids : ∀ ids, caller.ids ids → ids.permitId ≠ p) (hgone : Gone s p) : Gone s' p := by
  rw [gone_iff ho] at hgone
  rw [gone_iff ho']
  intro huse
  rcases h.inUse huse with hold | ⟨request, ids, hallowed, hrequested⟩
  · exact hgone hold
  · exact hids ids hallowed (Option.some.inj hrequested)

/-! ## One live permit over a step -/

/-- A call cannot bring an identity that was given up. -/
theorem Governor.SpentPermit.not_brought (hspent : SpentPermit σ p) {ids : Ids} (hids : (callerOf σ a).ids ids) :
    ids.permitId ≠ p := by
  obtain ⟨i, intake, sampledMs, _, hthread⟩ := hids
  rintro rfl
  exact hspent.2 (mem_heldPermits (List.mem_of_getElem? hthread) rfl)

/-- An identity once spent stays spent. -/
theorem Governor.SpentPermit.step (hspent : SpentPermit σ p) (h : g.step σ a = some (σ', e)) : SpentPermit σ' p := by
  obtain ⟨prepared, old, new, rest, hp, rfl, hthreads⟩ := step_threads h
  rcases hthreads.heldSteps with hheld | ⟨hheld, _⟩
  · exact Spent.step hspent hheld.permits
  · exact Spent.step hspent hheld.permits

/-- Every live permit has a spent identity, so it is never issued again. -/
theorem SysInv.spent_live (hinv : SysInv σ) (found : σ.state.permits[p]? = some record) : SpentPermit σ p :=
  hinv.permits.spent_of_used ⟨p, Or.inr ⟨p, record, found,
    congrArg some (hinv.state.occupancy.keys p record found)⟩, rfl⟩

/-- What may end a permit later may end it now. -/
theorem MayEnd.before (h : MayEnd caller p record') (hcustody : LaterCustody record record')
    (hleased : record.leaseNonce.isSome = true ↔ record.phase ≠ .dispatchReserved) :
    MayEnd caller p record := by
  by_cases hphase : record.phase = .dispatchReserved
  · exact Or.inl hphase
  · obtain ⟨nonce, hnonce⟩ := Option.isSome_iff_exists.mp (hleased.mpr hphase)
    rcases hcustody with ⟨hsame, heq⟩ | ⟨hlater, n, heq⟩
    · unfold MayEnd at h ⊢
      rwa [hsame, heq] at h
    · right
      rw [hnonce, Option.getD_some] at heq
      rcases h with hreserved | hproof
      · rw [hreserved] at hlater
        exact absurd hlater (Nat.not_lt_zero _)
      · rwa [heq, ← hnonce] at hproof

/-- A permit carries a lease nonce exactly when it has left the reserved phase. -/
theorem SysInv.leased_iff (hinv : SysInv σ) (found : σ.state.permits[p]? = some record) :
    record.leaseNonce.isSome = true ↔ record.phase ≠ .dispatchReserved := by
  obtain ⟨policy, hfits⟩ := hinv.state.permits p record found
  exact hfits.leased

/-- A live permit under one step: it goes on, or its identity is gone. -/
theorem SysInv.step_permit (hinv : SysInv σ) (h : g.step σ a = some (σ', e))
    (found : σ.state.permits[p]? = some record) :
    (∃ record', σ'.state.permits[p]? = some record' ∧
        PermitStep ((callerOf σ a).memory p) record record') ∨
      Gone σ'.state p ∧ MayEnd (callerOf σ a) p record := by
  have hspent := hinv.spent_live found
  refine hinv.step_rule h (P := fun s => (∃ record', s.permits[p]? = some record' ∧
        PermitStep ((callerOf σ a).memory p) record record') ∨
      Gone s p ∧ MayEnd (callerOf σ a) p record) ?_ (Or.inl ⟨record, found, PermitStep.refl record⟩)
  rintro trend s s' hm hinv₁ hseq (⟨record', found', hstep⟩ | ⟨hgone, hends⟩)
  · rcases (hm.effect hinv₁.queues).permit hinv₁.occupancy found' with
      ⟨record'', found'', hstep'⟩ | ⟨hgone, hends⟩
    · exact Or.inl ⟨record'', found'', hstep.trans hstep'⟩
    · exact Or.inr ⟨hgone, hends.before hstep.custody (hinv.leased_iff found)⟩
  · refine Or.inr ⟨?_, hends⟩
    exact (hm.effect hinv₁.queues).gone hinv₁.occupancy (hm.stateInv hinv₁ hseq).occupancy
      (fun ids hids => hspent.not_brought hids) hgone

/-- A permit whose identity is gone and spent never comes back. -/
theorem SysInv.step_gone (hinv : SysInv σ) (h : g.step σ a = some (σ', e)) (hspent : SpentPermit σ p)
    (hgone : Gone σ.state p) : Gone σ'.state p :=
  hinv.step_rule h (P := fun s => Gone s p)
    (fun _ _ _ hm hinv₁ hseq hgone₁ => (hm.effect hinv₁.queues).gone hinv₁.occupancy
      (hm.stateInv hinv₁ hseq).occupancy (fun _ hids => hspent.not_brought hids) hgone₁) hgone

/-! ## Dispatch -/

/-- No permit was dispatched: what is leased was leased before, in the same way. -/
def Undispatched (s s' : GovernedState) : Prop :=
  ∀ (p : PermitId) record', s'.permits[p]? = some record' → record'.leaseNonce.isSome = true →
    ∃ record, s.permits[p]? = some record ∧ record.leaseNonce = record'.leaseNonce

theorem Undispatched.refl (s : GovernedState) : Undispatched s s := fun _ record' found _ =>
  ⟨record', found, rfl⟩

theorem Undispatched.trans {s'' : GovernedState} (h : Undispatched s s') (h' : Undispatched s' s'') :
    Undispatched s s'' := by
  intro p record'' found'' hleased
  obtain ⟨record', found', heq'⟩ := h' p record'' found'' hleased
  obtain ⟨record, found, heq⟩ := h p record' found' (by rwa [heq'])
  exact ⟨record, found, heq.trans heq'⟩

theorem undispatched_same (h : s'.permits = s.permits) : Undispatched s s' := by
  intro p record' found _
  exact ⟨record', by rwa [h] at found, rfl⟩

theorem undispatched_erase {q : PermitId} (h : s'.permits = s.permits.erase q) : Undispatched s s' := by
  intro p record' found _
  rw [h, ExtTreeMap.getElem?_erase] at found
  split at found
  · simp at found
  · exact ⟨record', found, rfl⟩

/-- A record was written that holds the lease of the one it replaces, or none. -/
theorem undispatched_insert {q : PermitId} {new : PermitRecord} (h : s'.permits = s.permits.insert q new)
    (hnew : new.leaseNonce = none ∨ ∃ old, s.permits[q]? = some old ∧ new.leaseNonce = old.leaseNonce) :
    Undispatched s s' := by
  intro p record' found hleased
  rw [h, ExtTreeMap.getElem?_insert] at found
  split at found
  · rename_i hcmp
    obtain rfl := LawfulEqOrd.eq_of_compare hcmp
    obtain rfl := Option.some.inj found
    rcases hnew with hnone | ⟨old, hold, heq⟩
    · rw [hnone] at hleased
      simp at hleased
    · exact ⟨old, hold, heq.symm⟩
  · exact ⟨record', found, rfl⟩

/-- A handover that dispatches nothing moves no permit out of the reserved phase. -/
theorem Handover.undispatched {dispatching : Prop} {trend : Trend} {x y : GovernedState × TransitionEffects}
    (h : Handover g caller dispatching trend x y) (hnot : ¬ dispatching) : Undispatched x.1 y.1 := by
  cases h with
  | kept move waiting permits wake retire => exact undispatched_same permits
  | replaced effects move waiting found permits waker ticket custody =>
    rcases custody with ⟨_, hnonce⟩ | hyes
    · exact undispatched_insert permits (Or.inr ⟨_, found, hnonce⟩)
    · exact absurd hyes hnot
  | woken effects move removed permits => exact undispatched_same permits
  | withdrawn effects move removed permits owner => exact undispatched_same permits
  | promoted effects nowMs h =>
    obtain ⟨c, policy, index, r, head, chosen, served, hpromotes⟩ := promoteStep_some h
    exact undispatched_insert hpromotes.permits (Or.inl rfl)
  | unwound move found h => exact undispatched_erase (permits_unwind h)
  | begun effects nowMs h found owner => exact undispatched_insert rfl (Or.inr ⟨_, found, rfl⟩)

theorem Handovers.undispatched {dispatching : Prop} {trend : Trend} {x y : GovernedState × TransitionEffects}
    (h : Handovers g caller dispatching trend x y) (hnot : ¬ dispatching) : Undispatched x.1 y.1 := by
  induction h with
  | refl => exact Undispatched.refl _
  | tail _ hlast ih => exact ih.trans (hlast.undispatched hnot)

/-- Admission dispatches nothing. -/
theorem Entered.undispatched {request : AdmissionRequest} {ids : Ids} {waker : Option Waker} {nowMs : Nat}
    {decision : AdmissionDecision} (h : Entered g s request ids waker nowMs s' decision) :
    Undispatched s s' := by
  cases h with
  | refused cycle => exact undispatched_same rfl
  | granted accepted runnable => exact undispatched_insert rfl (Or.inl rfl)
  | @queued policy c blockers accepted blocked sound room =>
    have hres := rescheduled_enqueueTags s c policy (resolveCost policy).cpuUnits nowMs
    exact undispatched_same (hres.ledger.trans (commitPending_frame _ _).1).permits

/-- Only an advance of its phase dispatches a permit. -/
theorem SysInv.step_undispatched (hinv : SysInv σ) (h : g.step σ a = some (σ', e)) (hnot : ¬ Dispatches a) :
    Undispatched σ.state σ'.state := by
  by_cases henter : ∃ i, a = .enter i
  · obtain ⟨i, rfl⟩ := henter
    obtain ⟨intake, sampledMs, ids, decision, _, _, hentered⟩ := hinv.step_entered h
    exact hentered.undispatched
  · obtain ⟨prepared, hp, rfl, _⟩ := step_eq_some h
    have hsection := (hinv.prepare_handovers hp fun i heq => henter ⟨i, heq⟩).undispatched hnot
    show Undispatched σ.state (g.commit prepared.sec prepared.nowMs).1
    unfold Governor.commit
    split
    · have hpass : Handovers g (callerOf σ a) (Dispatches a) .growing (prepared.sec.state, {})
          (g.promote prepared.sec.state prepared.nowMs) := promote_handovers g _ _
      exact hsection.trans (hpass.undispatched hnot)
    · exact hsection

/-! ## Advances -/

/-- The step answered that the permit is leased now. -/
def leasedTo (p : PermitId) : Action × Event → Bool
  | (_, .advanced q (.leased _)) => q = p
  | _ => false

/-- What an advance does: nothing, or it moves the phase, and the first time it mints the lease. -/
theorem step_advance {phase : ExecutionPhase} (h : g.step σ (.advancePhase p phase) = some (σ', e)) :
    (∃ refusal, e = .advanced p (.refused refusal) ∧ σ'.state = σ.state) ∨
      ∃ record, σ.state.permits[p]? = some record ∧ record.phase.rank < phase.rank ∧
        σ'.state = σ.state.advancedTo p record phase σ.leaseNonces ∧
        e = .advanced p (if record.leaseNonce.isNone then .leased ⟨p, σ.leaseNonces⟩ else .advanced) := by
  obtain ⟨prepared, hp, rfl, rfl⟩ := step_eq_some h
  simp only [Governor.prepare, Option.some.injEq] at hp
  subst hp
  rcases GovernedState.advancePhase_cases σ.state p phase σ.leaseNonces with
    ⟨refusal, heq⟩ | ⟨record, found, hlater, hstate, houtcome⟩
  · refine Or.inl ⟨refusal, ?_, ?_⟩
    · simp only [Governor.advance, heq]
    · show (g.commit (Governor.advance σ p phase).sec (Governor.advance σ p phase).nowMs).1 = σ.state
      rw [commit_of_not_promotes _ _ rfl]
      simp only [Governor.advance, heq]
  · refine Or.inr ⟨record, found, hlater, ?_, ?_⟩
    · show (g.commit (Governor.advance σ p phase).sec (Governor.advance σ p phase).nowMs).1 = _
      rw [commit_of_not_promotes _ _ rfl]
      exact hstate
    · show Event.advanced p (σ.state.advancePhase p phase σ.leaseNonces).2.1 = _
      rw [houtcome]
      split <;> rfl

/-- What an action can tell its caller. -/
def Action.tells : Action → Event → Bool
  | .call _ _, .progressed | .call _ _, .answered _ => true
  | .allocate _, .progressed | .allocate _, .answered _ => true
  | .enter _, .decided _ _ => true
  | .settle _ _, .answered _ | .settle _ true, .panicked => true
  | .claim ticket _, .claimed ticket' _ => decide (ticket = ticket')
  | .claim _ _, .progressed => true
  | .finishClaim _ false, .claimed _ _ | .finishClaim _ true, .panicked => true
  | .abandon ticket _, .abandoned ticket' _ => decide (ticket = ticket')
  | .release p _, .released p' _ => decide (p = p')
  | .releaseLeased token _, .released p _ => decide (token.permitId = p)
  | .advancePhase p _, .advanced p' _ => decide (p = p')
  | .reconcileMemory p _ _ _, .reconciled p' _ => decide (p = p')
  | .releaseStageMemory p _ _ _, .stageReleased p' _ => decide (p = p')
  | .reapLeaks _ _, .swept _ => true
  | .closeAdmission, .progressed | .drain _, .progressed | .mintElsewhere, .progressed => true
  | _, _ => false

/-- Every action is answered by an event of its own kind. -/
theorem step_tells (h : g.step σ a = some (σ', e)) : a.tells e = true := by
  obtain ⟨prepared, hp, _, rfl⟩ := step_eq_some h
  cases a with
  | call entry sampledMs =>
    simp only [Governor.prepare, Option.some.injEq] at hp
    subst hp
    unfold Governor.call
    split <;> rfl
  | allocate i =>
    simp only [Governor.prepare] at hp
    split at hp
    · obtain rfl := Option.some.inj hp
      unfold Governor.allocate
      split <;> simp only <;> split <;> rfl
    · simp at hp
  | enter i =>
    simp only [Governor.prepare] at hp
    split at hp
    · obtain rfl := Option.some.inj hp
      rfl
    · simp at hp
  | settle i panicked =>
    simp only [Governor.prepare] at hp
    split at hp
    · split at hp
      · simp at hp
      · obtain rfl := Option.some.inj hp
        unfold Governor.settle
        split <;> rfl
    · simp at hp
  | claim ticket sampledMs =>
    simp only [Governor.prepare, Option.some.injEq] at hp
    subst hp
    simp only [startClaim]
    split
    · exact decide_eq_true rfl
    · rfl
  | finishClaim i panicked =>
    simp only [Governor.prepare] at hp
    split at hp
    · split at hp
      · simp at hp
      · obtain rfl := Option.some.inj hp
        unfold Governor.endClaim
        cases panicked <;> rfl
    · simp at hp
  | drain i =>
    simp only [Governor.prepare] at hp
    split at hp
    · obtain rfl := Option.some.inj hp
      unfold Governor.drain
      split <;> rfl
    · simp at hp
  | reapLeaks | closeAdmission | mintElsewhere =>
    simp only [Governor.prepare, Option.some.injEq] at hp
    subst hp
    rfl
  | abandon | release | releaseLeased | advancePhase | reconcileMemory | releaseStageMemory =>
    simp only [Governor.prepare, Option.some.injEq] at hp
    subst hp
    exact decide_eq_true rfl

/-- Only an advance tells of an advance. -/
theorem step_advanced {outcome : AdvanceOutcome} (h : g.step σ a = some (σ', .advanced p outcome)) :
    ∃ phase, a = .advancePhase p phase := by
  have htells := step_tells h
  cases a with
  | advancePhase q phase =>
    obtain rfl : q = p := of_decide_eq_true htells
    exact ⟨phase, rfl⟩
  | settle i panicked | finishClaim i panicked => cases panicked <;> simp [Action.tells] at htells
  | _ => simp [Action.tells] at htells

/-- Only an advance answers that a permit is leased. -/
theorem step_leasedTo (h : g.step σ a = some (σ', e)) (hleased : leasedTo p (a, e) = true) :
    ∃ phase record, a = .advancePhase p phase ∧ σ.state.permits[p]? = some record ∧
      record.leaseNonce = none ∧ record.phase.rank < phase.rank ∧
      σ'.state = σ.state.advancedTo p record phase σ.leaseNonces ∧
      e = .advanced p (.leased ⟨p, σ.leaseNonces⟩) := by
  obtain ⟨q, token, rfl⟩ : ∃ q token, e = .advanced q (.leased token) := by
    unfold leasedTo at hleased
    split at hleased
    · rename_i heq
      exact ⟨_, _, (Prod.mk.inj heq).2⟩
    · simp at hleased
  have hqp : q = p := by simpa [leasedTo] using hleased
  subst hqp
  obtain ⟨phase, rfl⟩ := step_advanced h
  rcases step_advance h with ⟨refusal, heq, _⟩ | ⟨record, found, hlater, hstate, heq⟩
  · simp at heq
  · have hnone : record.leaseNonce.isNone = true := by
      by_contra hsome
      simp [hsome] at heq
    rw [if_pos hnone] at heq
    exact ⟨phase, record, rfl, found, Option.isNone_iff_eq_none.mp hnone, hlater, hstate, heq⟩

/-! ## Leases over a run -/

/-- The life of a lease: not leased and never answered, or answered once and leased, or over for good. -/
inductive LeaseLife (σ : g.System) (p : PermitId) : Nat → Prop
  | notYet (reserved : ∀ record, σ.state.permits[p]? = some record → record.leaseNonce = none) :
      LeaseLife σ p 0
  | leased {record : PermitRecord} (found : σ.state.permits[p]? = some record)
      (leased : record.leaseNonce.isSome = true) : LeaseLife σ p 1
  | ended (gone : Gone σ.state p) (spent : SpentPermit σ p) : LeaseLife σ p 1

/-- Looking a permit up after a phase change finds the new phase at that permit only. -/
theorem getElem?_advancedTo (s : GovernedState) (q : PermitId) (old : PermitRecord) (phase : ExecutionPhase)
    (nonces : Nat) (p : PermitId) :
    (s.advancedTo q old phase nonces).permits[p]? =
      if q = p then some { old with phase := phase, leaseNonce := some (old.leaseNonce.getD nonces) }
      else s.permits[p]? := by
  show (s.permits.insert q _)[p]? = _
  rw [ExtTreeMap.getElem?_insert]
  simp

/-- A permit that is not leased stays so, unless the step answers that it is leased now. -/
theorem SysInv.step_reserved (hinv : SysInv σ) (h : g.step σ a = some (σ', e))
    (hreserved : ∀ record, σ.state.permits[p]? = some record → record.leaseNonce = none)
    (hnot : leasedTo p (a, e) = false) :
    ∀ record, σ'.state.permits[p]? = some record → record.leaseNonce = none := by
  intro record' found'
  by_contra hsome
  have hleased : record'.leaseNonce.isSome = true := Option.isSome_iff_ne_none.mpr hsome
  by_cases hdispatches : Dispatches a
  · obtain ⟨q, phase, rfl⟩ := hdispatches
    rcases step_advance h with ⟨refusal, _, hstate⟩ | ⟨old, found, _, hstate, heq⟩
    · rw [hstate] at found'
      exact hsome (hreserved record' found')
    · rw [hstate, getElem?_advancedTo] at found'
      by_cases hq : q = p
      · subst hq
        rw [hreserved old found] at heq
        rw [heq] at hnot
        simp [leasedTo] at hnot
      · rw [if_neg hq] at found'
        exact hsome (hreserved record' found')
  · obtain ⟨record, found, heq⟩ := hinv.step_undispatched h hdispatches p record' found' hleased
    rw [hreserved record found] at heq
    exact hsome heq.symm

/-- One step leases a permit at most once, and only from the reserved phase. -/
theorem LeaseLife.step (hinv : SysInv σ) (h : g.step σ a = some (σ', e)) {n : Nat} (hlife : LeaseLife σ p n) :
    LeaseLife σ' p (n + if leasedTo p (a, e) then 1 else 0) := by
  cases hevent : leasedTo p (a, e) with
  | true =>
    obtain ⟨phase, old, rfl, found, hnone, hlater, hstate, rfl⟩ := step_leasedTo h hevent
    cases hlife with
    | notYet reserved =>
      have found' := getElem?_advancedTo σ.state p old phase σ.leaseNonces p
      rw [if_pos rfl, ← hstate] at found'
      exact .leased found' rfl
    | leased found' leased =>
      rw [found] at found'
      obtain rfl := Option.some.inj found'
      rw [hnone] at leased
      simp at leased
    | ended gone spent =>
      rw [gone.live] at found
      simp at found
  | false =>
    simp only [Bool.false_eq_true, if_false, Nat.add_zero]
    cases hlife with
    | notYet reserved => exact .notYet (hinv.step_reserved h reserved hevent)
    | @leased record found leased =>
      rcases hinv.step_permit h found with ⟨record', found', hstep⟩ | ⟨hgone, _⟩
      · refine .leased found' ?_
        rcases hstep.custody with ⟨_, heq⟩ | ⟨_, n, heq⟩
        · rwa [heq]
        · rw [heq]
          rfl
      · exact .ended hgone ((hinv.spent_live found).step h)
    | ended gone spent => exact .ended (hinv.step_gone h spent gone) (spent.step h)

/-- Over a run the lease answers of a permit are counted by its life, so there is at most one. -/
theorem LeaseLife.of_run {trace : List (Action × Event)} (h : Runs.Run g.step g.init trace σ) (p : PermitId) :
    LeaseLife σ p (trace.countP (leasedTo p)) := by
  generalize hinit : g.init = start at h
  induction h with
  | nil =>
    subst hinit
    refine .notYet fun record found => ?_
    simp [Governor.init] at found
  | snoc hrun hstep ih =>
    subst hinit
    have hinv := SysInv.of_reachable ⟨_, hrun⟩
    rw [List.countP_append, List.countP_singleton]
    exact ih.step hinv hstep

/-- The permit is live, charged as `record` was, under the lease of the token. -/
def HeldUnder (σ : g.System) (record : PermitRecord) (token : LeaseToken) : Prop :=
  ∃ record', σ.state.permits[token.permitId]? = some record' ∧ SameCharge record record' ∧
    record'.leaseNonce = some token.nonce

/-- Every step keeps the custody of a lease, unless it spends the token. -/
theorem HeldUnder.step {token : LeaseToken} (hinv : SysInv σ) (hheld : HeldUnder σ record token)
    (h : g.step σ a = some (σ', e)) (hother : ∀ sampledMs, a ≠ .releaseLeased token sampledMs) :
    HeldUnder σ' record token := by
  obtain ⟨record₁, found, hcharge, hnonce⟩ := hheld
  rcases hinv.step_permit h found with ⟨record', found', hstep⟩ | ⟨_, hends⟩
  · refine ⟨record', found', hcharge.trans hstep.charge, ?_⟩
    rcases hstep.custody with ⟨_, heq⟩ | ⟨_, n, heq⟩
    · rw [heq, hnonce]
    · rw [heq, hnonce, Option.getD_some]
  · exfalso
    rcases hends with hreserved | hproof
    · have hleased := (hinv.leased_iff found).mp (by simp [hnonce])
      exact hleased hreserved
    · rw [hnonce] at hproof
      rcases hproof with hnone | ⟨token', sampledMs, rfl, hpermit, hsame⟩
      · simp at hnone
      · have htoken : token' = token := by
          cases token'
          cases token
          simp only [Option.some.injEq] at hpermit hsame
          simp [hpermit, hsame]
        exact hother sampledMs (by rw [htoken])

/-- The token ends the permit it leases. -/
theorem HeldUnder.release {token : LeaseToken} (hheld : HeldUnder σ record token) (sampledMs : UInt64) :
    ∃ σ', g.step σ (.releaseLeased token sampledMs) = some (σ', .released token.permitId .released) := by
  obtain ⟨record', found, _, hnonce⟩ := hheld
  have hprepared : Governor.prepare σ (.releaseLeased token sampledMs) =
      some (operation σ sampledMs.toNat
        (fun s _ => releaseWithProof s token.permitId (some token.nonce)) (.released token.permitId)) := rfl
  have houtcome : (releaseWithProof (σ.state.commitTime sampledMs.toNat) token.permitId
      (some token.nonce)).outcome = .released := by
    unfold Governor.releaseWithProof
    rcases releaseWithProofReason_cases (σ.state.commitTime sampledMs.toNat) token.permitId
      (some token.nonce) .released {} with ⟨hnone, _⟩ | ⟨old, hold, hne, _⟩ | ⟨_, _, _, _, _, _, heq⟩
    · have hfound : (σ.state.commitTime sampledMs.toNat).permits[token.permitId]? = some record' := found
      rw [hfound] at hnone
      simp at hnone
    · have hfound : (σ.state.commitTime sampledMs.toNat).permits[token.permitId]? = some record' := found
      obtain rfl : old = record' := Option.some.inj (hold.symm.trans hfound)
      exact absurd hnonce hne
    · rw [heq]
  refine ⟨finish (operation σ sampledMs.toNat
    (fun s _ => releaseWithProof s token.permitId (some token.nonce)) (.released token.permitId)), ?_⟩
  unfold Governor.step
  rw [hprepared, Option.map_some]
  have hevent : (operation σ sampledMs.toNat
      (fun s _ => releaseWithProof s token.permitId (some token.nonce))
      (.released token.permitId)).sec.outcome = .released token.permitId .released :=
    congrArg (Event.released token.permitId) houtcome
  rw [hevent]

/-- Every bounded pool of a live permit is occupied. -/
theorem SysInv.pool_occupied (hinv : SysInv σ) (found : σ.state.permits[p]? = some record)
    {id : CapabilityId} (hid : id ∈ record.capabilities.ids) {limit : Nat} (hlimit : PoolLimit g id limit) :
    0 < σ.state.inUse id := by
  rw [(hinv.state.capacity.pools id limit hlimit).1.inUse]
  have hle := le_sumBy (f := fun _ (record : PermitRecord) => if id ∈ record.capabilities.ids then 1 else 0)
    found
  simp only [hid, if_true] at hle
  exact hle

/-- In every run: a permit is leased exactly when it was dispatched, and then it was answered `Leased`
exactly once; phases only move on and memory charges change only by a reading or a stage release of the
permit; and from the answer on the permit stays live with its class, pools and processor charge, whatever
else happens, until its own token releases it. -/
theorem lease_custody (g : Governor) (trace : List (Action × Event)) (σ : g.System)
    (h : Runs.Run g.step g.init trace σ) :
    (∀ p, trace.countP (leasedTo p) ≤ 1) ∧
    (∀ p record, σ.state.permits[p]? = some record →
      (record.leaseNonce.isSome = true ↔ record.phase ≠ .dispatchReserved) ∧
      trace.countP (leasedTo p) = if record.phase = .dispatchReserved then 0 else 1) ∧
    (∀ a σ' e p record record', g.step σ a = some (σ', e) → σ.state.permits[p]? = some record →
      σ'.state.permits[p]? = some record' →
      (record'.phase = record.phase ∨ record.phase.rank < record'.phase.rank) ∧
      (record'.ledger.effectiveUnits = record.ledger.effectiveUnits ∨
        (∃ measuredBytes epoch sampledMs, a = .reconcileMemory p measuredBytes epoch sampledMs) ∨
        ∃ freedUnits sequence sampledMs, a = .releaseStageMemory p freedUnits sequence sampledMs)) ∧
    ∀ p phase σ₁ token, g.step σ (.advancePhase p phase) = some (σ₁, .advanced p (.leased token)) →
      token.permitId = p ∧ ∃ record, σ₁.state.permits[p]? = some record ∧
        ∀ trace' σ', Runs.Run g.step σ₁ trace' σ' →
          (∀ l ∈ trace', ∀ sampledMs, l.1 ≠ .releaseLeased token sampledMs) →
          HeldUnder σ' record token ∧
          (∀ id ∈ record.capabilities.ids, ∀ limit, PoolLimit g id limit → 0 < σ'.state.inUse id) ∧
          ∀ sampledMs, ∃ σ'', g.step σ' (.releaseLeased token sampledMs) =
            some (σ'', .released p .released) := by
  have hinv := SysInv.of_reachable ⟨trace, h⟩
  refine ⟨fun p => ?_, fun p record found => ⟨hinv.leased_iff found, ?_⟩, ?_, ?_⟩
  · generalize hn : trace.countP (leasedTo p) = n
    have hlife := LeaseLife.of_run h p
    rw [hn] at hlife
    cases hlife <;> omega
  · have hlife := LeaseLife.of_run h p
    generalize trace.countP (leasedTo p) = n at hlife
    cases hlife with
    | notYet reserved =>
      have hphase : record.phase = .dispatchReserved := by
        by_contra hne
        have hsome := (hinv.leased_iff found).mpr hne
        rw [reserved record found] at hsome
        simp at hsome
      rw [if_pos hphase]
    | leased found' leased =>
      rw [found] at found'
      obtain rfl := Option.some.inj found'
      rw [if_neg ((hinv.leased_iff found).mp leased)]
    | ended gone spent =>
      rw [gone.live] at found
      simp at found
  · intro a σ' e p record record' hstep found found'
    rcases hinv.step_permit hstep found with ⟨record₁, found₁, hmoved⟩ | ⟨hgone, _⟩
    · obtain rfl : record₁ = record' := Option.some.inj (found₁.symm.trans found')
      refine ⟨?_, hmoved.memory.symm⟩
      rcases hmoved.custody with ⟨hsame, _⟩ | ⟨hlater, _⟩
      · exact Or.inl hsame
      · exact Or.inr hlater
    · rw [hgone.live] at found'
      simp at found'
  · intro p phase σ₁ token hstep
    obtain ⟨phase', old, hphase, found, hnone, hlater, hstate, hevent⟩ :=
      step_leasedTo hstep (by simp [leasedTo] : leasedTo p (.advancePhase p phase, .advanced p (.leased token)) = true)
    obtain rfl : token = ⟨p, σ.leaseNonces⟩ := by simpa using hevent
    have found₁ := getElem?_advancedTo σ.state p old phase' σ.leaseNonces p
    rw [if_pos rfl, ← hstate, hnone] at found₁
    refine ⟨rfl, _, found₁, fun trace' σ' hrun hothers => ?_⟩
    have hheld := hrun.invariant_of (I := SysInv) (P := fun τ => HeldUnder τ _ ⟨p, σ.leaseNonces⟩)
      (Q := fun l => ∀ sampledMs, l.1 ≠ .releaseLeased ⟨p, σ.leaseNonces⟩ sampledMs)
      (fun _ _ _ _ hinv hstep => hinv.step hstep)
      (fun _ _ _ _ hinv hheld hother hstep => hheld.step hinv hstep hother) hothers (hinv.step hstep)
      ⟨_, found₁, SameCharge.refl _, rfl⟩
    have hinv' := hrun.invariant (P := SysInv) (fun _ _ _ _ hinv hstep => hinv.step hstep) (hinv.step hstep)
    refine ⟨hheld, fun id hid limit hlimit => ?_, fun sampledMs => hheld.release sampledMs⟩
    obtain ⟨record', found', hcharge, _⟩ := hheld
    rw [← hcharge.capabilities] at hid
    exact hinv'.pool_occupied found' hid hlimit

/-- In the sample the running task was leased once. -/
theorem sample_custody : ∃ trace, Runs.Run Sample.governor.step Sample.governor.init trace Sample.busy ∧
    trace.countP (leasedTo ⟨7, 1⟩) = 1 := by
  obtain ⟨trace, hrun⟩ := Runs.Reachable.of_restrict Sample.busy_reachable
  have hlive : Sample.busy.state.permits[(⟨7, 1⟩ : PermitId)]?.any
      (fun record => decide (record.phase = .running)) = true := by decide +kernel
  obtain ⟨record, found, hphase⟩ := (Option.any_eq_true _ _).mp hlive
  refine ⟨trace, hrun, ?_⟩
  rw [((lease_custody Sample.governor trace Sample.busy hrun).2.1 ⟨7, 1⟩ record found).2,
    of_decide_eq_true hphase]
  rfl

end Taskmesh
