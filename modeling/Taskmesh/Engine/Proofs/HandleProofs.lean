import Taskmesh.Engine.Proofs.AnswerProofs
import Taskmesh.Engine.Proofs.IntakeProofs
import Taskmesh.Engine.Proofs.SweepProofs

/-!
# What a handle stands for

A lease token, a permit that was given out and a ticket, each as its holder sees it: what it stands for is
kept by every step of anybody else.
-/

namespace Taskmesh

open Std MachineInt SetIndex QueueFamily ExtTreeMap Governor Allocation

variable {g : Governor} {caller : Caller} {s s' : GovernedState} {σ σ' : g.System} {a : Action}
  {e : Event} {p : PermitId} {t : Ticket} {record record' : PermitRecord} {reqs : CapabilityRequirementSet}

/-! ## Lease tokens -/

/-- The token is the lease of its permit, which is live. -/
def Leases (s : GovernedState) (token : LeaseToken) : Prop :=
  ∃ record, s.permits[token.permitId]? = some record ∧ record.leaseNonce = some token.nonce

/-- A permit has one lease. -/
theorem Leases.unique {token token' : LeaseToken} (h : Leases s token) (h' : Leases s token')
    (hsame : token.permitId = token'.permitId) : token = token' := by
  obtain ⟨record, found, hnonce⟩ := h
  obtain ⟨record', found', hnonce'⟩ := h'
  rw [hsame, found'] at found
  obtain rfl := Option.some.inj found
  rw [hnonce'] at hnonce
  obtain ⟨permitId, nonce⟩ := token
  obtain ⟨permitId', nonce'⟩ := token'
  simp only at hsame hnonce
  rw [hsame, Option.some.inj hnonce]

/-- Every step keeps a lease, unless it spends the token. -/
theorem SysInv.step_leases (hinv : SysInv σ) (h : g.step σ a = some (σ', e)) {token : LeaseToken}
    (hleases : Leases σ.state token) (hother : ∀ sampledMs, a ≠ .releaseLeased token sampledMs) :
    Leases σ'.state token := by
  obtain ⟨record, found, hnonce⟩ := hleases
  obtain ⟨record', found', _, hnonce'⟩ :=
    HeldUnder.step hinv ⟨record, found, SameCharge.refl record, hnonce⟩ h hother
  exact ⟨record', found', hnonce'⟩

/-- A lease that a step leaves was there before, or the step answered with its token. -/
theorem SysInv.leases_before (hinv : SysInv σ) (h : g.step σ a = some (σ', e)) {token : LeaseToken}
    (hleases : Leases σ'.state token) :
    Leases σ.state token ∨ e = .advanced token.permitId (.leased token) := by
  obtain ⟨record', found', hnonce⟩ := hleases
  by_cases hdispatches : Dispatches a
  · obtain ⟨q, phase, rfl⟩ := hdispatches
    rcases step_advance h with ⟨refusal, _, hstate⟩ | ⟨old, found, _, hstate, heq⟩
    · rw [hstate] at found'
      exact Or.inl ⟨record', found', hnonce⟩
    · rw [hstate, getElem?_advancedTo] at found'
      by_cases hq : q = token.permitId
      · subst hq
        rw [if_pos rfl] at found'
        rw [← Option.some.inj found'] at hnonce
        simp only [Option.some.injEq] at hnonce
        cases hold : old.leaseNonce with
        | none =>
          rw [hold] at heq hnonce
          right
          simp only [Option.getD_none] at hnonce
          rw [heq, hnonce]
          rfl
        | some nonce =>
          rw [hold] at hnonce
          simp only [Option.getD_some] at hnonce
          exact Or.inl ⟨old, found, by rw [hold, hnonce]⟩
      · rw [if_neg hq] at found'
        exact Or.inl ⟨record', found', hnonce⟩
  · obtain ⟨record, found, heq⟩ := hinv.step_undispatched h hdispatches token.permitId record' found'
      (by rw [hnonce]; rfl)
    exact Or.inl ⟨record, found, heq.trans hnonce⟩

/-- What an advance comes to. -/
inductive Advances (σ σ' : g.System) (p : PermitId) : AdvanceOutcome → Prop
  | unknown (missing : σ.state.permits[p]? = none) (same : σ'.state = σ.state) :
      Advances σ σ' p (.refused .unknownPermit)
  | notLater {record : PermitRecord} (found : σ.state.permits[p]? = some record) (same : σ'.state = σ.state) :
      Advances σ σ' p (.refused (.notLater record.phase))
  | leased {record : PermitRecord} (found : σ.state.permits[p]? = some record) (free : record.leaseNonce = none)
      (leases : Leases σ'.state ⟨p, σ.leaseNonces⟩) : Advances σ σ' p (.leased ⟨p, σ.leaseNonces⟩)
  | advanced {record : PermitRecord} (found : σ.state.permits[p]? = some record) (held : record.leaseNonce ≠ none) :
      Advances σ σ' p .advanced

theorem step_advances {phase : ExecutionPhase} (h : g.step σ (.advancePhase p phase) = some (σ', e)) :
    ∃ outcome, e = .advanced p outcome ∧ Advances σ σ' p outcome := by
  have hadvance := step_advance h
  obtain ⟨prepared, hp, _, he⟩ := step_eq_some h
  simp only [Governor.prepare, Option.some.injEq] at hp
  subst hp
  have hanswer : e = .advanced p (σ.state.advancePhase p phase σ.leaseNonces).2.1 := he
  clear he
  rw [hanswer] at hadvance ⊢
  refine ⟨_, rfl, ?_⟩
  unfold GovernedState.advancePhase at hadvance ⊢
  cases found : σ.state.permits[p]? with
  | none =>
    rw [found] at hadvance
    rcases hadvance with ⟨refusal, _, hsame⟩ | ⟨record, hfound, _⟩
    · exact .unknown found hsame
    · simp at hfound
  | some record =>
    rw [found] at hadvance
    simp only at hadvance ⊢
    by_cases hlater : phase.rank ≤ record.phase.rank
    · rw [if_pos hlater] at hadvance ⊢
      rcases hadvance with ⟨refusal, _, hsame⟩ | ⟨old, hfound, hlater', _⟩
      · exact .notLater found hsame
      · rw [← Option.some.inj hfound] at hlater'
        omega
    · rw [if_neg hlater] at hadvance ⊢
      rcases hadvance with ⟨refusal, heq, _⟩ | ⟨old, hfound, _, hstate, _⟩
      · split at heq <;> simp at heq
      · obtain rfl := Option.some.inj hfound
        cases hnonce : record.leaseNonce with
        | some nonce => exact .advanced found (by simp [hnonce])
        | none =>
          have hleases : Leases σ'.state ⟨p, σ.leaseNonces⟩ := by
            refine ⟨_, by rw [hstate, getElem?_advancedTo, if_pos rfl], ?_⟩
            simp [hnonce]
          exact .leased found hnonce hleases

/-- The holder of a lease may only be told that its phase advanced, or that it is not a later one. -/
theorem Advances.accepts {outcome : AdvanceOutcome} {token : LeaseToken}
    (h : Advances σ σ' token.permitId outcome) (hleases : Leases σ.state token) :
    outcome = .advanced ∨ ∃ current, outcome = .refused (.notLater current) := by
  obtain ⟨record', found', hnonce⟩ := hleases
  cases h with
  | unknown missing same =>
    rw [missing] at found'
    simp at found'
  | notLater found same => exact Or.inr ⟨_, rfl⟩
  | leased found free leases =>
    rw [found] at found'
    rw [Option.some.inj found', hnonce] at free
    simp at free
  | advanced found held => exact Or.inl rfl

/-! ## Ending a permit -/

/-- What a release with a proof comes to. -/
inductive Releases (σ σ' : g.System) (p : PermitId) (proof : Option Nat) : Event → Prop
  | unknown (gone : σ.state.permits[p]? = none) (same : σ'.state.permits = σ.state.permits) :
      Releases σ σ' p proof (.released p .unknownPermit)
  | held {record : PermitRecord} (found : σ.state.permits[p]? = some record) (other : record.leaseNonce ≠ proof)
      (same : σ'.state.permits = σ.state.permits) :
      Releases σ σ' p proof (.released p (.heldByLease record.phase))
  | ended {record : PermitRecord} (found : σ.state.permits[p]? = some record) (custody : record.leaseNonce = proof)
      (gone : Gone σ'.state p) : Releases σ σ' p proof (.released p .released)

theorem SysInv.operation_releases (hinv : SysInv σ) {sampledMs : Nat} {proof : Option Nat}
    (hp : Governor.prepare σ a = some
      (operation σ sampledMs (fun s _ => releaseWithProof s p proof) (Event.released p)))
    (hother : ∀ i, a ≠ .enter i) (h : g.step σ a = some (σ', e)) : Releases σ σ' p proof e := by
  obtain ⟨prepared, hp', rfl, rfl⟩ := step_eq_some h
  obtain rfl := Option.some.inj (hp.symm.trans hp')
  have hsections := fun record (found : σ.state.permits[p]? = some record) =>
    hinv.section_permit hp hother found
  have hlive : (σ.state.commitTime sampledMs).permits = σ.state.permits := rfl
  obtain ⟨hsec, hout⟩ := section_operation (σ := σ) (fun s _ => releaseWithProof s p proof) (Event.released p)
    (σ.state.commitTime sampledMs) rfl
  rw [hsec] at hsections
  rw [hout]
  -- A section that does not end the permit is not followed by a pass.
  have hquiet : (releaseWithProof (σ.state.commitTime sampledMs) p proof).promotes = false →
      (Governor.finish (operation σ sampledMs (fun s _ => releaseWithProof s p proof) (Event.released p))).state =
        (releaseWithProof (σ.state.commitTime sampledMs) p proof).state := by
    intro hpromotes
    unfold Governor.finish
    rw [commit_of_not_promotes _ _ (show (operation σ sampledMs (fun s _ => releaseWithProof s p proof)
      (Event.released p)).sec.promotes = false from hpromotes)]
    rfl
  have hpass : (releaseWithProof (σ.state.commitTime sampledMs) p proof).promotes = true →
      (Governor.finish (operation σ sampledMs (fun s _ => releaseWithProof s p proof) (Event.released p))).state =
        (g.promote (releaseWithProof (σ.state.commitTime sampledMs) p proof).state
          (σ.state.commitTime sampledMs).commitWatermarkMs).1 := by
    intro hpromotes
    unfold Governor.finish Governor.commit
    rw [if_pos (show (operation σ sampledMs (fun s _ => releaseWithProof s p proof)
      (Event.released p)).sec.promotes = true from hpromotes)]
    rfl
  unfold Governor.releaseWithProof at hsections hquiet hpass ⊢
  rcases releaseWithProofReason_cases (σ.state.commitTime sampledMs) p proof .released {} with
    ⟨hnone, heq⟩ | ⟨record, found, hheld, heq⟩ | ⟨record, s', effects', found, hproof, hunwind, heq⟩
  · rw [heq] at hquiet ⊢
    refine .unknown (by rwa [hlive] at hnone) ?_
    rw [hquiet rfl]
    exact hlive
  · rw [heq] at hquiet ⊢
    refine .held (by rwa [hlive] at found) hheld ?_
    rw [hquiet rfl]
    exact hlive
  · rw [heq] at hsections hpass ⊢
    rw [hlive] at found
    obtain ⟨hsection, hmiddle, hload⟩ := hsections record found
    have herased : s'.permits[p]? = none := by
      rw [permits_unwind hunwind]
      simp
    refine .ended found hproof ?_
    rw [hpass rfl]
    exact promote_gone (no_ids (σ := σ) hother) hmiddle hload _ (hsection.resolve_left (not_not_intro herased))

/-- A release by id ends a permit that is not dispatched, and no other. -/
theorem SysInv.step_release (hinv : SysInv σ) {sampledMs : UInt64}
    (h : g.step σ (.release p sampledMs) = some (σ', e)) : Releases σ σ' p none e :=
  hinv.operation_releases rfl (by simp) h

/-- A token ends the permit it leases, and no other. -/
theorem SysInv.step_releaseLeased (hinv : SysInv σ) {token : LeaseToken} {sampledMs : UInt64}
    (h : g.step σ (.releaseLeased token sampledMs) = some (σ', e)) :
    Releases σ σ' token.permitId (some token.nonce) e :=
  hinv.operation_releases rfl (by simp) h

/-- A token that is spent leases nothing any more. -/
theorem SysInv.step_spent (hinv : SysInv σ) {token : LeaseToken} {sampledMs : UInt64}
    (h : g.step σ (.releaseLeased token sampledMs) = some (σ', e)) : ¬ Leases σ'.state token := by
  rintro ⟨record', found', hnonce⟩
  cases hinv.step_releaseLeased h with
  | unknown gone same =>
    rw [same, gone] at found'
    simp at found'
  | held found other same =>
    rw [same, found] at found'
    rw [Option.some.inj found'] at other
    exact other hnonce
  | ended found custody gone =>
    rw [gone.live] at found'
    simp at found'

/-- A token that is minted was nobody's lease before. -/
theorem step_minted {token : LeaseToken} (h : g.step σ a = some (σ', .advanced p (.leased token))) :
    token.permitId = p ∧ Leases σ'.state token ∧ ¬ Leases σ.state token := by
  obtain ⟨phase, rfl⟩ := step_advanced h
  obtain ⟨outcome, heq, hadvances⟩ := step_advances h
  obtain rfl := (Event.advanced.inj heq).2
  cases hadvances with
  | leased found free leases =>
    refine ⟨rfl, leases, ?_⟩
    rintro ⟨record, found', hnonce⟩
    rw [found] at found'
    rw [Option.some.inj found', hnonce] at free
    simp at free

/-- The leases after a step: those that were there, but for a token that was spent, and one that was minted. -/
theorem SysInv.step_leases_iff (hinv : SysInv σ) (h : g.step σ a = some (σ', e)) (token : LeaseToken) :
    Leases σ'.state token ↔
      (Leases σ.state token ∧ ∀ sampledMs, a ≠ .releaseLeased token sampledMs) ∨
        e = .advanced token.permitId (.leased token) := by
  constructor
  · intro hleases
    rcases hinv.leases_before h hleases with hbefore | hminted
    · refine Or.inl ⟨hbefore, ?_⟩
      rintro sampledMs rfl
      exact hinv.step_spent h hleases
    · exact Or.inr hminted
  · rintro (⟨hleases, hother⟩ | rfl)
    · exact hinv.step_leases h hleases hother
    · exact (step_minted h).2.1

/-! ## Permits that were given out -/

/-- The permit was given out, charged for these pools: nobody waits for it, and as long as it lives it is
charged so. -/
structure GivenFor (σ : g.System) (reqs : CapabilityRequirementSet) (p : PermitId) : Prop where
  spent : SpentPermit σ p
  alone : Unawaited σ.state p
  charged : ∀ record, σ.state.permits[p]? = some record → record.capabilities = reqs

theorem GivenFor.gone_of_none (h : GivenFor σ reqs p) (hnone : σ.state.permits[p]? = none) : Gone σ.state p :=
  ⟨hnone, h.alone.queues⟩

theorem GivenFor.step (h : GivenFor σ reqs p) (hinv : SysInv σ) (hstep : g.step σ a = some (σ', e)) :
    GivenFor σ' reqs p where
  spent := h.spent.step hstep
  alone := hinv.step_unawaited hstep h.spent h.alone
  charged record' found' := by
    cases found : σ.state.permits[p]? with
    | some record =>
      rcases hinv.step_permit hstep found with ⟨record'', found'', hmoved⟩ | ⟨hgone, _⟩
      · rw [found'] at found''
        rw [Option.some.inj found'', hmoved.charge.capabilities]
        exact h.charged record found
      · rw [hgone.live] at found'
        simp at found'
    | none =>
      have hgone := hinv.step_gone hstep h.spent (h.gone_of_none found)
      rw [hgone.live] at found'
      simp at found'

/-- The permit cannot be ended by its id: it is gone, or somebody leased it. -/
def Unreserved (s : GovernedState) (p : PermitId) : Prop :=
  ∀ record, s.permits[p]? = some record → record.leaseNonce ≠ none

theorem Gone.unreserved (h : Gone s p) : Unreserved s p := by
  intro record found
  rw [h.live] at found
  simp at found

theorem GivenFor.step_unreserved (h : GivenFor σ reqs p) (hinv : SysInv σ) (hstep : g.step σ a = some (σ', e))
    (hfree : Unreserved σ.state p) : Unreserved σ'.state p := by
  cases found : σ.state.permits[p]? with
  | none => exact (hinv.step_gone hstep h.spent (h.gone_of_none found)).unreserved
  | some record =>
    rcases hinv.step_permit hstep found with ⟨record', found', hmoved⟩ | ⟨hgone, _⟩
    · intro record'' found''
      obtain rfl := Option.some.inj (found'.symm.trans found'')
      rcases hmoved.custody with ⟨_, hsame⟩ | ⟨_, n, hnonce⟩
      · rw [hsame]
        exact hfree record found
      · rw [hnonce]
        simp
    · exact hgone.unreserved

/-- A release by id leaves nothing that could be released by id. -/
theorem Releases.unreserved (h : Releases σ σ' p none e) : Unreserved σ'.state p := by
  cases h with
  | unknown gone same =>
    intro record found
    rw [same, gone] at found
    simp at found
  | held found other same =>
    intro record' found'
    rw [same, found] at found'
    rwa [← Option.some.inj found']
  | ended found custody gone => exact gone.unreserved

/-- A lease ends its permit. -/
theorem Releases.gone {token : LeaseToken} (h : Releases σ σ' token.permitId (some token.nonce) e)
    (hleases : Leases σ.state token) : Gone σ'.state token.permitId ∧ e = .released token.permitId .released := by
  obtain ⟨record', found', hnonce⟩ := hleases
  cases h with
  | unknown gone same =>
    rw [gone] at found'
    simp at found'
  | held found other same =>
    rw [found] at found'
    rw [Option.some.inj found'] at other
    exact absurd hnonce other
  | ended found custody gone => exact ⟨gone, rfl⟩

/-- An advance that did not hand the lease over finds the permit leased, or gone. -/
theorem Advances.unreserved {outcome : AdvanceOutcome} (h : Advances σ σ' p outcome)
    (hnot : outcome = .advanced ∨ outcome = .refused .unknownPermit) : Unreserved σ.state p := by
  cases h with
  | unknown missing same =>
    intro record found
    rw [missing] at found
    simp at found
  | advanced found held =>
    intro record' found'
    rw [found] at found'
    rwa [← Option.some.inj found']
  | notLater found same => simp at hnot
  | leased found free leases => simp at hnot

/-! ## Tickets -/

/-- Every queued request with the ticket is to be charged as `Q` says, and every permit the ticket leads to
is charged and leased as `R` says. -/
structure LeadsTo (Q : CapabilityRequirementSet → Prop) (R : CapabilityRequirementSet → Option Nat → Prop)
    (s : GovernedState) (t : Ticket) : Prop where
  queued : ∀ c r, r ∈ s.waiting c → r.ticket = t → Q r.capabilities
  granted : ∀ (p : PermitId) record, s.permits[p]? = some record → record.pendingTicket = some t →
    R record.capabilities record.leaseNonce

variable {Q : CapabilityRequirementSet → Prop} {R : CapabilityRequirementSet → Option Nat → Prop}

/-- A record is written. -/
theorem LeadsTo.insert (h : LeadsTo Q R s t) {q : PermitId} {new : PermitRecord}
    (hpermits : s'.permits = s.permits.insert q new) (hqueues : ∀ c r, r ∈ s'.waiting c → r ∈ s.waiting c)
    (hnew : new.pendingTicket = some t → R new.capabilities new.leaseNonce) : LeadsTo Q R s' t := by
  refine ⟨fun c r hr => h.queued c r (hqueues c r hr), fun p record' found' hticket => ?_⟩
  rw [hpermits, ExtTreeMap.getElem?_insert] at found'
  split at found'
  · obtain rfl := Option.some.inj found'
    exact hnew hticket
  · exact h.granted p record' found' hticket

/-- No move leads the ticket elsewhere, unless it brings it. -/
theorem Effect.leadsTo (h : Effect g caller s s') (hids : ∀ ids, caller.ids ids → ids.ticket ≠ t)
    (hpromote : ∀ reqs, Q reqs → R reqs none) (hlease : ∀ reqs nonce n, R reqs nonce → R reqs (some n))
    (hleads : LeadsTo Q R s t) : LeadsTo Q R s' t := by
  have hsame : s'.permits = s.permits → (∀ c r, r ∈ s'.waiting c → r ∈ s.waiting c) → LeadsTo Q R s' t := by
    intro hpermits hwaiting
    refine ⟨fun c r hr => hleads.queued c r (hwaiting c r hr), fun p record' found' => ?_⟩
    rw [hpermits] at found'
    exact hleads.granted p record' found'
  have hkept : s.SameQueues s' → ∀ c r, r ∈ s'.waiting c → r ∈ s.waiting c := by
    intro hqueues c r hr
    rwa [hqueues.waiting_eq] at hr
  cases h with
  | kept queues ledger guards => exact hsame ledger.permits (hkept queues)
  | queued waker nowMs tags allowed accepted pushed identities ledger guards sound =>
    refine ⟨fun c r hr hticket => ?_, fun p record' found' => ?_⟩
    · rcases pushed.mem_iff.mp hr with hr | ⟨_, rfl⟩
      · exact hleads.queued c r hr hticket
      · exact absurd hticket (hids _ allowed)
    · rw [ledger.permits] at found'
      exact hleads.granted p record' found'
  | dropped removed identities ledger guards => exact hsame ledger.permits fun c r hr => removed.mem_of_mem hr
  | admitted nowMs allowed accepted fits result =>
    subst result
    refine hleads.insert rfl (hkept (GovernedState.sameQueues_grant s _)) fun hticket => ?_
    simp [directGrant, GrantRequest.record] at hticket
  | @promoted policy c index head base nowMs fits removed identities ledger guards result =>
    subst result
    have hsameQueues := GovernedState.sameQueues_grant base (promotedGrant base c head nowMs)
    have hpermits : (base.grant (promotedGrant base c head nowMs)).permits =
        s.permits.insert head.permitId (promotedGrant base c head nowMs).record := by
      show base.permits.insert _ _ = _
      rw [ledger.permits]
      rfl
    refine hleads.insert hpermits (fun c' r hr => ?_) fun hticket => ?_
    · rw [hsameQueues.waiting_eq] at hr
      exact removed.mem_of_mem hr
    · exact hpromote _ (hleads.queued c head.untagged removed.mem (Option.some.inj hticket))
  | @ended q old foundq ends queues ledger guards =>
    have hpermits : s'.permits = s.permits.erase q := ledger.permits
    refine ⟨fun c r hr => hleads.queued c r (hkept queues c r hr), fun p record' found' => ?_⟩
    rw [hpermits, ExtTreeMap.getElem?_erase] at found'
    split at found'
    · simp at found'
    · exact hleads.granted p record' found'
  | @touched q old new foundq similar queues ledger guards =>
    refine hleads.insert ledger.permits (hkept queues) fun hticket => ?_
    have hold : old.pendingTicket = some t := by
      rcases similar.ticket with heq | hnone
      · rwa [heq] at hticket
      · rw [hnone] at hticket
        simp at hticket
    obtain ⟨waker, touchedMs, heq⟩ := similar.rest
    rw [heq]
    exact hleads.granted q old foundq hold
  | @advanced q old phase nonces foundq later result =>
    subst result
    refine hleads.insert rfl (hkept (GovernedState.sameQueues_advancedTo s _ _ _ _)) fun hticket => ?_
    exact hlease _ _ _ (hleads.granted q old foundq hticket)
  | @recharged q old ledger allowed foundq change result =>
    subst result
    exact hleads.insert (memoryOnly_rechargePermit s q old ledger).permits
      (hkept (sameQueues_rechargePermit s q old ledger)) fun hticket => hleads.granted q old foundq hticket

theorem LeadsTo.step (hleads : LeadsTo Q R σ.state t) (hinv : SysInv σ) (h : g.step σ a = some (σ', e))
    (hspent : SpentTicket σ t) (hpromote : ∀ reqs, Q reqs → R reqs none)
    (hlease : ∀ reqs nonce n, R reqs nonce → R reqs (some n)) : LeadsTo Q R σ'.state t :=
  hinv.step_rule h (P := fun s => LeadsTo Q R s t)
    (fun _ _ _ hm hinv₁ _ hs => (hm.effect hinv₁.queues).leadsTo (fun _ hids => SysInv.not_brought hspent hids)
      hpromote hlease hs) hleads

/-- The ticket was given out for a request that charges these pools. -/
structure WaitsFor (σ : g.System) (reqs : CapabilityRequirementSet) (t : Ticket) : Prop where
  spent : SpentTicket σ t
  leads : LeadsTo (fun charge => charge = reqs) (fun charge _ => charge = reqs) σ.state t

/-- Nothing comes of the ticket any more: it is not queued, and a permit it led to is leased by somebody. -/
structure Retired (σ : g.System) (t : Ticket) : Prop where
  spent : SpentTicket σ t
  leads : LeadsTo (fun _ => False) (fun _ nonce => nonce ≠ none) σ.state t

theorem WaitsFor.step (h : WaitsFor σ reqs t) (hinv : SysInv σ) (hstep : g.step σ a = some (σ', e)) :
    WaitsFor σ' reqs t :=
  ⟨spentTicket_step h.spent hstep, h.leads.step hinv hstep h.spent (fun _ => id) fun _ _ _ => id⟩

theorem Retired.step (h : Retired σ t) (hinv : SysInv σ) (hstep : g.step σ a = some (σ', e)) : Retired σ' t :=
  ⟨spentTicket_step h.spent hstep, h.leads.step hinv hstep h.spent (fun _ => False.elim) fun _ _ _ _ => by simp⟩

/-- A ticket that is not there leads nowhere. -/
theorem SysInv.retired_of (hinv : SysInv σ) (hspent : SpentTicket σ t)
    (hqueued : ∀ c, σ.state.tickets[t]? ≠ some (.queued c))
    (hheld : ∀ (p : PermitId) record, σ.state.permits[p]? = some record →
      (σ.state.tickets[t]? = some (.granted p) ∨ σ.state.tickets[t]? = some (.claiming p)) →
      record.leaseNonce ≠ none) : Retired σ t := by
  have hi := hinv.state.tickets
  refine ⟨hspent, fun c r hr hticket => ?_, fun p record found hpending => ?_⟩
  · have hpresent := hi.ticket_queued hr
    rw [hticket] at hpresent
    exact hqueued c hpresent
  · exact hheld p record found ((hi.held t p).mpr ⟨record, found, hpending⟩)

/-- A ticket whose status is final is retired. -/
theorem SysInv.retired_of_status (hinv : SysInv σ) (hspent : SpentTicket σ t)
    (hstatus : (∃ reason, ticketStatus σ.state t = .terminal reason) ∨ ticketStatus σ.state t = .invalid) :
    Retired σ t := by
  unfold ticketStatus at hstatus
  cases hticket : σ.state.tickets[t]? with
  | none => exact hinv.retired_of hspent (by simp [hticket]) (by simp [hticket])
  | some state =>
    cases state with
    | granted p | claiming p | queued c => simp [hticket] at hstatus
    | terminal reason => exact hinv.retired_of hspent (by simp [hticket]) (by simp [hticket])
    | faulted => exact hinv.retired_of hspent (by simp [hticket]) (by simp [hticket])

theorem abandonGranted_promotes (h : (abandonGranted s t p).promotes = true) :
    (abandonGranted s t p).outcome = .abandoned := by
  unfold Governor.abandonGranted at h ⊢
  split <;> simp_all

/-- A ticket that its holder gave up is retired. -/
theorem SysInv.step_abandon (hinv : SysInv σ) {sampledMs : UInt64}
    (h : g.step σ (.abandon t sampledMs) = some (σ', e)) (hspent : SpentTicket σ t) : Retired σ' t := by
  have hinv' := hinv.step h
  have hspent' := spentTicket_step hspent h
  have hab := hinv.abandons h
  have hgone : σ'.state.tickets[t]? = none → Retired σ' t := fun hnone =>
    hinv'.retired_of hspent' (by simp [hnone]) (by simp [hnone])
  -- A final answer takes the ticket away.
  have hfinal : (g.abandon (σ.state.commitTime sampledMs.toNat) t).outcome.final = true → Retired σ' t := by
    intro hfinal
    obtain ⟨prepared, hp, _, he⟩ := step_eq_some h
    simp only [Governor.prepare, Option.some.injEq] at hp
    subst hp
    refine hgone (hinv.step_final h ?_).2
    rw [he]
    show (decide (t = t) && _) = true
    rw [decide_eq_true rfl, Bool.true_and]
    exact hfinal
  by_cases hpromised : ∃ p, (σ.state.commitTime sampledMs.toNat).tickets[t]? = some (.granted p) ∨
      (σ.state.commitTime sampledMs.toNat).tickets[t]? = some (.claiming p)
  · obtain ⟨p, hticket⟩ := hpromised
    rw [abandon_granted hticket] at hfinal
    obtain ⟨record, found, ⟨hleased, hsame, hquiet⟩ | ⟨_, hpromotes, _⟩⟩ := abandonGranted_cases hab.start.tickets hticket
    · -- A worker leased the permit and keeps it.
      have hstate := hab.quiet (by rw [abandon_granted hticket]; exact hquiet)
      rw [abandon_granted hticket, hsame] at hstate
      refine hinv'.retired_of hspent' (fun c => ?_) fun q record' found' hheld => ?_
      · rw [hstate]
        rcases hticket with hticket | hticket <;> simp [hticket]
      · rw [hstate] at found' hheld
        have hq : q = p := by
          rcases hticket with hticket | hticket <;> rw [hticket] at hheld <;> simpa [eq_comm] using hheld
        subst hq
        rw [found] at found'
        rwa [← Option.some.inj found']
    · exact hfinal (by rw [abandonGranted_promotes hpromotes]; rfl)
  · push Not at hpromised
    cases hticket : (σ.state.commitTime sampledMs.toNat).tickets[t]? with
    | none =>
      refine hgone (hinv.step_ticket h (Q := fun state => state = none) (fun old new hlife hold => ?_)
        (fun _ _ _ => rfl) hticket)
      subst hold
      rcases hlife.of_none with hnew | ⟨ids, hbrought, hsame⟩
      · exact hnew
      · exact absurd hsame (SysInv.not_brought hspent hbrought)
    | some state =>
      cases state with
      | granted p => exact absurd hticket (hpromised p).1
      | claiming p => exact absurd hticket (hpromised p).2
      | queued c | terminal reason | faulted =>
        refine hfinal ?_
        unfold Governor.abandon
        rw [hticket]
        rfl

/-! ## Admissions and claims -/

/-- What an admission decided: a permit it gave out, or a ticket, is charged as requested. -/
theorem SysInv.step_decided (hinv : SysInv σ) {i : Nat} (h : g.step σ (.enter i) = some (σ', e)) :
    ∃ (intake : Intake g.policy) (sampledMs : Nat) (ids : Ids) (decision : AdmissionDecision),
      σ.threads[i]? = some (.admitting intake sampledMs ids) ∧ e = .decided ids decision ∧
      (∀ p, decision = .admitted p → GivenFor σ' intake.request.capabilities p) ∧
      ∀ t, decision = .queued t → WaitsFor σ' intake.request.capabilities t := by
  obtain ⟨intake, sampledMs, ids, decision, hthread, rfl, hentered⟩ := hinv.step_entered h
  have hfresh := (hinv.fresh (List.mem_of_getElem? hthread)).commitTime sampledMs
  have hinv' := hinv.step h
  refine ⟨intake, sampledMs, ids, decision, hthread, rfl, ?_⟩
  generalize hlast : σ'.state = s' at hentered
  cases hentered with
  | refused cycle => exact ⟨by simp, by simp⟩
  | @granted policy c accepted runnable =>
    refine ⟨fun p hp => ?_, by simp⟩
    obtain rfl := AdmissionDecision.admitted.inj hp
    have hgiven := hinv.step_handsOut h (p := ids.permitId) (by simp [handsOut])
    refine ⟨hgiven.spent, hgiven.alone, fun record found => ?_⟩
    have found' : σ'.state.permits[ids.permitId]? = some (directGrant (σ.state.commitTime sampledMs) policy c
        intake.request ids (σ.state.commitTime sampledMs).commitWatermarkMs).record := by
      rw [hlast]
      exact ExtTreeMap.getElem?_insert_self
    rw [found'] at found
    rw [← Option.some.inj found]
    rfl
  | @queued policy c blockers accepted blocked sound room =>
    refine ⟨by simp, fun t ht => ?_⟩
    obtain rfl := AdmissionDecision.queued.inj ht
    have hres := rescheduled_enqueueTags (σ.state.commitTime sampledMs) c policy (resolveCost policy).cpuUnits
      (σ.state.commitTime sampledMs).commitWatermarkMs
    have hpushed : Pushed (σ.state.commitTime sampledMs).waiting _ c (queuedEntry (σ.state.commitTime sampledMs)
        policy c intake.request intake.waker ids (σ.state.commitTime sampledMs).commitWatermarkMs blockers.primary
        (enqueueTags (σ.state.commitTime sampledMs) c policy (resolveCost policy).cpuUnits
          (σ.state.commitTime sampledMs).commitWatermarkMs).2) := pushed_commitPending hres
    obtain ⟨htickets, hpermits⟩ := tickets_commitPending hres (pendingRequest (σ.state.commitTime sampledMs) policy c
      intake.request intake.waker ids (σ.state.commitTime sampledMs).commitWatermarkMs blockers.primary
      (enqueueTags (σ.state.commitTime sampledMs) c policy (resolveCost policy).cpuUnits
        (σ.state.commitTime sampledMs).commitWatermarkMs).2)
    rw [← hlast] at hpushed htickets hpermits
    refine ⟨hinv'.tickets.spent_of_used ⟨ids.ticket, ?_, rfl⟩, fun c' r hr hticket => ?_, fun p record found hheld => ?_⟩
    · rw [htickets]
      simp [pendingRequest]
    · rcases hpushed.mem_iff.mp hr with hr | ⟨_, rfl⟩
      · exact absurd hticket (hfresh.waiting c' r hr).2.1
      · rfl
    · rw [hpermits] at found
      have hold := ((hinv.committed sampledMs).1.tickets.held ids.ticket p).mpr ⟨record, found, hheld⟩
      rw [hfresh.ticket] at hold
      simp at hold

/-- The permit a claim hands over is charged as the ticket was. -/
theorem SysInv.step_claimReady (hinv : SysInv σ) (h : g.step σ a = some (σ', .claimed t (.ready p)))
    (hwaits : WaitsFor σ reqs t) : GivenFor σ' reqs p := by
  have hgiven := hinv.step_handsOut h (p := p) (by simp [handsOut])
  refine ⟨hgiven.spent, hgiven.alone, fun record found => ?_⟩
  rcases step_claimed h with ⟨sampledMs, _, hbegin, _⟩ | ⟨i, sampledMs, _, hfinish, hstate⟩
  · rcases beginClaim_cases (σ.state.commitTime sampledMs.toNat) t
      (σ.state.commitTime sampledMs.toNat).commitWatermarkMs with ⟨outcome, heq, hnot⟩ | ⟨_, _, heq, _⟩
    · rw [heq] at hbegin
      exact absurd (ClaimStart.answered.inj hbegin) (hnot p)
    · rw [heq] at hbegin
      simp at hbegin
  · obtain ⟨hclaiming, old, hold, hnew⟩ := finishClaim_ready hfinish
    rw [hstate, hnew] at found
    rw [← Option.some.inj found]
    obtain ⟨record', found', hpending⟩ := hinv.state.tickets.permit_live (Or.inr hclaiming)
    obtain rfl : old = record' := Option.some.inj ((show σ.state.permits[p]? = some old from hold).symm.trans found')
    exact hwaits.leads.granted p old hold hpending

end Taskmesh
