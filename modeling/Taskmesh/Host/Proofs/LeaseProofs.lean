import Taskmesh.Engine.Proofs.CallProofs
import Taskmesh.Host.Proofs.SubmissionProofs

/-!
# Leases over a governor

What an execution lease says of the permit it stands for, whatever the other callers of the governor do, and
where its token is after every engine call its holder makes.
-/

namespace Taskmesh.Host

open Governor

variable {g : Governor} {σ σ' : g.System} {a : Action} {e : Event} {reqs : CapabilityRequirementSet}
  {lease : ExecutionLease}

/-- The permit was given out for these pools, and the custody the lease names is the custody there is. -/
structure ExecutionLease.Sound (σ : g.System) (reqs : CapabilityRequirementSet) (lease : ExecutionLease) : Prop where
  given : GivenFor σ reqs lease.permitId
  leased : ∀ token, lease.custody = .leased token → token.permitId = lease.permitId ∧ Leases σ.state token
  gone : lease.custody = .gone → Unreserved σ.state lease.permitId

/-- A step of anybody else keeps what a lease says. -/
theorem ExecutionLease.Sound.step (h : lease.Sound σ reqs) (hinv : SysInv σ) (hstep : g.step σ a = some (σ', e))
    (hother : ∀ token, lease.custody = .leased token → ∀ sampledMs, a ≠ .releaseLeased token sampledMs) :
    lease.Sound σ' reqs where
  given := h.given.step hinv hstep
  leased token hcustody := by
    obtain ⟨hid, hleases⟩ := h.leased token hcustody
    exact ⟨hid, hinv.step_leases hstep hleases (hother token hcustody)⟩
  gone hcustody := h.given.step_unreserved hinv hstep (h.gone hcustody)

theorem ExecutionLease.Sound.reserved {p : PermitId} (h : GivenFor σ reqs p) :
    (ExecutionLease.reserved p).Sound σ reqs :=
  ⟨h, fun token hcustody => by simp [ExecutionLease.reserved] at hcustody,
    fun hcustody => by simp [ExecutionLease.reserved] at hcustody⟩

/-! ## Where the tokens go -/

/-- What a step of its caller does to a token somebody may hold. -/
inductive Shifts : Action → Event → Option LeaseToken → Option LeaseToken → Prop
  | kept {a : Action} {e : Event} (held : Option LeaseToken)
      (unspent : ∀ token sampledMs, a ≠ .releaseLeased token sampledMs)
      (unminted : ∀ p token, e ≠ .advanced p (.leased token)) : Shifts a e held held
  | minted {a : Action} (p : PermitId) (token : LeaseToken) : Shifts a (.advanced p (.leased token)) none (some token)
  | spent {e : Event} (token : LeaseToken) (sampledMs : UInt64) :
      Shifts (.releaseLeased token sampledMs) e (some token) none

/-- Tokens that are held are the leases there are, each in one place. -/
structure InCustody (s : GovernedState) (held : List LeaseToken) : Prop where
  nodup : held.Nodup
  exact : ∀ token, token ∈ held ↔ Leases s token

/-- A step of the holder of one slot keeps the tokens in custody. -/
theorem InCustody.step {left right : List LeaseToken} {old new : Option LeaseToken}
    (h : InCustody σ.state (left ++ old.toList ++ right)) (hinv : SysInv σ) (hstep : g.step σ a = some (σ', e))
    (hshifts : Shifts a e old new) : InCustody σ'.state (left ++ new.toList ++ right) := by
  have hleases := hinv.step_leases_iff hstep
  cases hshifts with
  | kept _ unspent unminted =>
    refine ⟨h.nodup, fun token => ?_⟩
    rw [h.exact, hleases]
    constructor
    · intro hbefore
      exact Or.inl ⟨hbefore, unspent token⟩
    · rintro (⟨hbefore, _⟩ | hminted)
      · exact hbefore
      · exact absurd hminted (unminted _ token)
  | minted p token =>
    obtain ⟨hid, _, hnew⟩ := step_minted hstep
    have hfresh : token ∉ left ++ (none : Option LeaseToken).toList ++ right := by
      rw [h.exact]
      exact hnew
    simp only [Option.toList_none, List.append_nil, Option.toList_some] at h hfresh ⊢
    have hperm : (left ++ [token] ++ right).Perm (token :: (left ++ right)) := by
      simp
    refine ⟨hperm.nodup_iff.mpr (List.nodup_cons.mpr ⟨hfresh, h.nodup⟩), fun token' => ?_⟩
    obtain ⟨phase, rfl⟩ := step_advanced hstep
    rw [hperm.mem_iff, List.mem_cons, h.exact, hleases]
    constructor
    · rintro (rfl | hbefore)
      · exact Or.inr (by rw [hid])
      · exact Or.inl ⟨hbefore, by simp⟩
    · rintro (⟨hbefore, _⟩ | hminted)
      · exact Or.inr hbefore
      · exact Or.inl (AdvanceOutcome.leased.inj (Event.advanced.inj hminted).2).symm
  | spent token sampledMs =>
    simp only [Option.toList_none, List.append_nil, Option.toList_some] at h ⊢
    have hperm : (left ++ [token] ++ right).Perm (token :: (left ++ right)) := by
      simp
    have hnodup := List.nodup_cons.mp (hperm.nodup_iff.mp h.nodup)
    refine ⟨hnodup.2, fun token' => ?_⟩
    have hexact := h.exact token'
    rw [hperm.mem_iff, List.mem_cons] at hexact
    rw [hleases]
    constructor
    · intro hmem
      refine Or.inl ⟨hexact.mp (Or.inr hmem), ?_⟩
      rintro ms heq
      obtain rfl := (Action.releaseLeased.inj heq).1
      exact hnodup.1 hmem
    · rintro (⟨hbefore, hother⟩ | rfl)
      · refine (hexact.mpr hbefore).resolve_left ?_
        rintro rfl
        exact hother sampledMs rfl
      · obtain ⟨phase, heq⟩ := step_advanced hstep
        simp at heq

/-! ## The calls of a holder -/

/-- A lease that is dropped leaves nothing behind that its id could end. -/
theorem ExecutionLease.Sound.dropped (h : lease.Sound σ reqs) (hinv : SysInv σ) {sampledMs : UInt64}
    (haction : lease.dropAction sampledMs = some a) (hstep : g.step σ a = some (σ', e)) :
    lease.dropped.Sound σ' reqs ∧ Shifts a e lease.token lease.dropped.token ∧
      (lease.token.isSome = true → Gone σ'.state lease.permitId ∧ e = .released lease.permitId .released) := by
  obtain ⟨p, custody⟩ := lease
  have hgiven : GivenFor σ' reqs p := h.given.step hinv hstep
  have hdropped : Unreserved σ'.state p → (ExecutionLease.dropped ⟨p, custody⟩).Sound σ' reqs := fun hfree =>
    ⟨hgiven, fun token hcustody => by simp [ExecutionLease.dropped] at hcustody, fun _ => hfree⟩
  cases custody with
  | gone => simp [ExecutionLease.dropAction] at haction
  | reserved =>
    obtain rfl := Option.some.inj haction
    refine ⟨hdropped (hinv.step_release hstep).unreserved, .kept none (by simp) ?_, by simp [ExecutionLease.token]⟩
    rintro q token rfl
    obtain ⟨phase, heq⟩ := step_advanced hstep
    simp at heq
  | leased token =>
    obtain rfl := Option.some.inj haction
    obtain ⟨rfl, hleases⟩ := h.leased token rfl
    obtain ⟨hgone, heq⟩ := (hinv.step_releaseLeased hstep).gone hleases
    exact ⟨hdropped hgone.unreserved, .spent token sampledMs, fun _ => ⟨hgone, heq⟩⟩

/-- A lease whose holder declared a phase, whatever it was told. -/
theorem ExecutionLease.Sound.advanced (h : lease.Sound σ reqs) (hinv : SysInv σ) (hkeeps : lease.custody ≠ .gone)
    {phase : ExecutionPhase} (hstep : g.step σ (.advancePhase lease.permitId phase) = some (σ', e)) :
    ∃ outcome, e = .advanced lease.permitId outcome ∧ lease.Accepts outcome ∧
      (lease.advanced phase outcome).1.Sound σ' reqs ∧
      (lease.advanced phase outcome).1.permitId = lease.permitId ∧
      Shifts (.advancePhase lease.permitId phase) e lease.token (lease.advanced phase outcome).1.token := by
  obtain ⟨outcome, rfl, hadvances⟩ := step_advances hstep
  have hsame := h.step hinv hstep (by simp)
  obtain ⟨p, custody⟩ := lease
  cases custody with
  | gone => exact absurd rfl hkeeps
  | leased token =>
    obtain ⟨rfl, hleases⟩ := h.leased token rfl
    have haccepts := hadvances.accepts hleases
    have hadvanced : (ExecutionLease.advanced ⟨token.permitId, .leased token⟩ phase outcome).1 =
        ⟨token.permitId, .leased token⟩ := by
      rcases haccepts with rfl | ⟨current, rfl⟩ <;> rfl
    refine ⟨outcome, rfl, fun _ => haccepts, ?_⟩
    rw [hadvanced]
    refine ⟨hsame, rfl, .kept _ (by simp) ?_⟩
    rcases haccepts with rfl | ⟨current, rfl⟩ <;> simp
  | reserved =>
    refine ⟨outcome, rfl, fun hsome => by simp [ExecutionLease.token] at hsome, ?_⟩
    have hlost : outcome = .advanced ∨ outcome = .refused .unknownPermit →
        (⟨p, .gone⟩ : ExecutionLease).Sound σ' reqs := fun hnot =>
      ⟨hsame.given, fun token hcustody => by simp at hcustody,
        fun _ => h.given.step_unreserved hinv hstep (hadvances.unreserved hnot)⟩
    cases outcome with
    | leased token =>
      obtain ⟨hid, hleases, _⟩ := step_minted hstep
      refine ⟨⟨hsame.given, ?_, fun hcustody => by simp [ExecutionLease.advanced] at hcustody⟩, rfl, .minted p token⟩
      intro token' hcustody
      obtain rfl := Custody.leased.inj hcustody
      exact ⟨hid, hleases⟩
    | advanced => exact ⟨hlost (Or.inl rfl), rfl, .kept none (by simp) (by simp)⟩
    | refused refusal =>
      cases refusal with
      | unknownPermit => exact ⟨hlost (Or.inr rfl), rfl, .kept none (by simp) (by simp)⟩
      | notLater current => exact ⟨hsame, rfl, .kept none (by simp) (by simp)⟩

end Taskmesh.Host
