import Taskmesh.Engine.Proofs.QuietProofs
import Taskmesh.Engine.Proofs.TicketLifeProofs

/-!
# Refusals

A call that is refused leaves the governed state as it was, apart from the clock: the checks of every
operation come before its first write, and what a branch would write for a ticket or a permit that is
not where it should be is never written, because no such ticket or permit exists.
-/

namespace Taskmesh

open Std MachineInt Governor

variable {g : Governor} {s s' : GovernedState} {σ σ' : g.System} {a : Action} {e : Event}

/-- Nothing but the commit watermark moved. -/
def SameButTime (s s' : GovernedState) : Prop :=
  s' = { s with commitWatermarkMs := s'.commitWatermarkMs }

theorem SameButTime.refl (s : GovernedState) : SameButTime s s := rfl

theorem sameButTime_commitTime (s : GovernedState) (sampledMs : Nat) :
    SameButTime s (s.commitTime sampledMs) := rfl

/-! ## The effects of an admission -/

/-- What an admission does with the waker it was given: it goes into the queue, or it is retired. -/
def WakerSettled (waker : Option Waker) (effects : TransitionEffects) (admission : Admission) : Prop :=
  (∃ ticket, admission.decision = .queued ticket) ∧ admission.effects = effects ∨
    (∀ ticket, admission.decision ≠ .queued ticket) ∧ admission.effects = effects.pushRetire waker

section Admission

variable {policies : PolicySet} {policy : ClassPolicy} {c : TaskClass} {request : AdmissionRequest}
  {waker : Option Waker} {ids : Ids} {nowMs : Nat} {effects : TransitionEffects}
  {degrade : Option (TaskClass → Admission)}

theorem refuse_settled (s : GovernedState) (verdict : AdmissionVerdict) :
    WakerSettled waker effects (refuse s effects waker verdict) := Or.inr ⟨by simp [refuse], rfl⟩

theorem enqueueOrFull_settled {block : CapacityBlock} :
    WakerSettled waker effects (enqueueOrFull s policy c request waker ids nowMs block effects) := by
  unfold enqueueOrFull
  split
  · exact refuse_settled s _
  · exact Or.inl ⟨⟨ids.ticket, rfl⟩, rfl⟩

theorem admitBlock_settled {block : CapacityBlock}
    (hdegrade : ∀ admitFallback, degrade = some admitFallback →
      ∀ fallback, WakerSettled waker effects (admitFallback fallback)) :
    WakerSettled waker effects (admitBlock s policy c request waker ids nowMs degrade effects block) := by
  have hoverflow : ∀ block : CapacityBlock, WakerSettled waker effects
      (if policy.overflowPolicy.isQueueable then
        enqueueOrFull s policy c request waker ids nowMs block effects
      else refuse s effects waker (verdictForBlock block (retry policy s c))) := by
    intro block
    split
    · exact enqueueOrFull_settled
    · exact refuse_settled s _
  cases block with
  | ok => exact Or.inr ⟨by simp [admitBlock], rfl⟩
  | accountingFault => exact refuse_settled _ _
  | queuedBehind => exact enqueueOrFull_settled
  | inflight => exact hoverflow .inflight
  | cpu => exact hoverflow .cpu
  | capability => exact hoverflow .capability
  | memory =>
    unfold admitBlock
    simp only
    split
    · split
      · exact hdegrade _ rfl _
      · exact refuse_settled s _
    · exact enqueueOrFull_settled
    · exact refuse_settled s _

theorem admitClassWith_settled
    (hdegrade : ∀ admitFallback, degrade = some admitFallback →
      ∀ fallback, WakerSettled waker effects (admitFallback fallback)) :
    WakerSettled waker effects (admitClassWith degrade s policies nowMs request c waker ids effects) := by
  unfold admitClassWith
  split
  · exact refuse_settled s _
  · split
    · exact refuse_settled s _
    · split
      · exact refuse_settled s _
      · split
        · exact refuse_settled s _
        · split
          · exact admitBlock_settled hdegrade
          · exact admitBlock_settled hdegrade
          · split
            · rename_i fallback hfallback
              unfold cycleFallback at hfallback
              split at hfallback
              · split at hfallback
                · obtain ⟨admitFallback, hsome, rfl⟩ := Option.map_eq_some_iff.mp hfallback
                  exact hdegrade admitFallback hsome _
                · simp at hfallback
              · simp at hfallback
            · split
              · exact refuse_settled s _
              · exact refuse_settled s _

theorem admit_settled :
    WakerSettled waker effects (admitRequest s policies nowMs request waker ids effects) := by
  unfold admitRequest
  split
  · exact refuse_settled s _
  · refine admitClassWith_settled fun admitFallback hsome fallback => ?_
    obtain rfl := Option.some.inj hsome
    exact admitClassWith_settled (by simp)

end Admission

/-! ## Refused steps -/

/-- The step tells its caller that the operation was refused. -/
def Refuses : Action → Event → Bool
  | _, .decided _ (.rejected _) => true
  | _, .answered (.ok (.rejected _)) => true
  | _, .released _ .unknownPermit => true
  | _, .released _ (.heldByLease _) => true
  | _, .advanced _ (.refused _) => true
  | _, .abandoned _ .invalid => true
  | _, .abandoned _ (.heldByLease _) => true
  | .claim _ _, .claimed _ .pending => true
  | _, .claimed _ .invalid => true
  | _, .reconciled _ .unknownPermit => true
  | _, .reconciled _ (.staleEpoch _) => true
  | _, .reconciled _ (.epochExhausted _) => true
  | _, _ => false

theorem releaseWithProof_refused {p : PermitId} (proof : Option Nat)
    (h : (releaseWithProof s p proof).outcome ≠ .released) :
    (releaseWithProof s p proof).promotes = false ∧ (releaseWithProof s p proof).state = s := by
  unfold Governor.releaseWithProof at h ⊢
  cases heq : s.releaseWithProofReason p proof .released {} with
  | mk s' rest =>
    obtain ⟨effects, outcome⟩ := rest
    rw [heq] at h
    exact ⟨by simpa using h, releaseWithProofReason_refused heq h⟩

theorem beginClaim_refused {ticket : Ticket} {nowMs : Nat}
    (h : (beginClaim s ticket nowMs).2.2 = .answered .pending ∨
      (beginClaim s ticket nowMs).2.2 = .answered .invalid) : (beginClaim s ticket nowMs).1 = s := by
  unfold Governor.beginClaim at h ⊢
  split at h
  · split at h <;> simp at h
  · rfl
  · rfl
  · simp at h
  · simp at h
  · rfl

theorem finishClaim_refused {ticket : Ticket} {nowMs : Nat}
    (h : (finishClaim s ticket nowMs).2 = .invalid) : (finishClaim s ticket nowMs).1 = s := by
  unfold Governor.finishClaim at h ⊢
  split at h
  · split at h <;> simp at h
  · simp at h
  · simp at h
  · rfl
  · rfl
  · rfl

/-- A waiter that is refused finds nothing, or a lease. A ticket that names a permit names a live one, so
nothing is tidied up either. -/
theorem abandonGranted_refused {ticket : Ticket} {p : PermitId} (hlive : s.permits[p]? ≠ none)
    (h : (abandonGranted s ticket p).outcome = .invalid ∨
      ∃ phase, (abandonGranted s ticket p).outcome = .heldByLease phase) :
    (abandonGranted s ticket p).promotes = false ∧ (abandonGranted s ticket p).state = s := by
  unfold Governor.abandonGranted at h ⊢
  rcases releaseWithProofReason_cases s p none .abandoned {} with ⟨hnone, _⟩ | ⟨record, _, _, heq⟩ |
    ⟨record, s', effects', _, _, _, heq⟩
  · exact absurd hnone hlive
  · rw [heq]
    exact ⟨rfl, rfl⟩
  · rw [heq] at h
    simp at h

theorem abandon_refused (hinv : TicketInv s) {ticket : Ticket}
    (h : (g.abandon s ticket).outcome = .invalid ∨
      ∃ phase, (g.abandon s ticket).outcome = .heldByLease phase) :
    (g.abandon s ticket).promotes = false ∧ (g.abandon s ticket).state = s := by
  have hlive : ∀ p, (s.tickets[ticket]? = some (.granted p) ∨ s.tickets[ticket]? = some (.claiming p)) →
      s.permits[p]? ≠ none := by
    intro p hp
    obtain ⟨record, hrecord, _⟩ := hinv.permit_live hp
    simp [hrecord]
  unfold Governor.abandon at h ⊢
  split at h
  · rename_i p hticket
    exact abandonGranted_refused (hlive p (Or.inl hticket)) h
  · rename_i p hticket
    exact abandonGranted_refused (hlive p (Or.inr hticket)) h
  · simp at h
  · simp at h
  · simp at h
  · exact ⟨rfl, rfl⟩

/-- A reading that is not applied and did not fail to convert changes nothing. -/
theorem reconcileMemory_refused (p : PermitId) (measuredBytes : Nat) (epoch : Option Nat) (nowMs : Nat)
    (happlied : ∀ units, (g.reconcileMemory s p measuredBytes epoch nowMs).outcome ≠ .applied units)
    (hfailed : ∀ error, (g.reconcileMemory s p measuredBytes epoch nowMs).outcome ≠
      .conversionFailed error) :
    (g.reconcileMemory s p measuredBytes epoch nowMs).promotes = false ∧
      (g.reconcileMemory s p measuredBytes epoch nowMs).state = s := by
  rcases reconcileMemory_cases g s p measuredBytes epoch nowMs with ⟨outcome, heq, _⟩ | ⟨error, heq⟩ |
    ⟨record, ledger, _, _, heq, _⟩
  · rw [heq]
    exact ⟨rfl, rfl⟩
  · rw [heq] at hfailed
    exact absurd rfl (hfailed error)
  · rw [heq] at happlied
    exact absurd rfl (happlied _)

theorem releaseStageMemory_refused {p : PermitId} {freedUnits : Nat} {policy : MemoryReleasePolicy}
    {sequence : Option Nat} {nowMs : Nat} {outcome : StageReleaseOutcome}
    (h : releaseStageMemory s p freedUnits policy sequence nowMs = (s', outcome))
    (hnot : ∀ freed, outcome ≠ .released freed) : s' = s := by
  unfold releaseStageMemory at h
  split at h
  · exact (congrArg Prod.fst h).symm
  · split at h
    · exact (congrArg Prod.fst h).symm
    · split at h
      · exact (congrArg Prod.fst h).symm
      · exact absurd (congrArg Prod.snd h).symm (hnot _)

/-- A stage release that returned no units left every ledger and total alone. -/
theorem releaseStage_refused {p : PermitId} {freedUnits : Nat} {sequence : Option Nat} {nowMs : Nat}
    (h : ∀ freed, (g.releaseStage s p freedUnits sequence nowMs).outcome ≠ .released freed) :
    (g.releaseStage s p freedUnits sequence nowMs).state = s := by
  unfold Governor.releaseStage at h ⊢
  split at h
  · rfl
  · split at h
    · rfl
    · rename_i policy _
      cases heq : releaseStageMemory s p freedUnits policy.memoryReleasePolicy sequence nowMs with
      | mk s' outcome =>
        rw [heq] at h
        exact releaseStageMemory_refused heq h

/-- A refused step changed nothing under the lock but the watermark, and runs no promotion pass. -/
theorem SysInv.prepare_refused (hinv : SysInv σ) {p : g.Prepared} (h : Governor.prepare σ a = some p)
    (hrefuses : Refuses a p.sec.outcome = true) :
    p.sec.promotes = false ∧ SameButTime σ.state p.sec.state := by
  have htime := fun sampledMs => sameButTime_commitTime σ.state sampledMs
  cases a with
  | call entry sampledMs =>
    simp only [Governor.prepare, Option.some.injEq] at h
    subst h
    unfold Governor.call
    split <;> exact ⟨rfl, rfl⟩
  | allocate i =>
    simp only [Governor.prepare] at h
    split at h
    · rename_i intake sampledMs taken _
      obtain rfl := Option.some.inj h
      unfold Governor.allocate
      cases taken <;> simp only <;> split <;> exact ⟨rfl, rfl⟩
    · simp at h
  | enter i =>
    simp only [Governor.prepare] at h
    split at h
    · rename_i intake sampledMs ids hthread
      obtain rfl := Option.some.inj h
      refine ⟨rfl, ?_⟩
      have hfresh := (hinv.fresh (List.mem_of_getElem? hthread)).commitTime sampledMs
      have hentered := admit_entered intake hfresh (σ.state.commitTime sampledMs).commitWatermarkMs {}
      simp only [Governor.enter] at hrefuses ⊢
      generalize admitRequest (σ.state.commitTime sampledMs) g.policy
        (σ.state.commitTime sampledMs).commitWatermarkMs intake.request intake.waker ids {} = admission
        at hrefuses hentered ⊢
      obtain ⟨s', effects, decision⟩ := admission
      cases hentered with
      | refused cycle => exact htime sampledMs
      | granted accepted runnable => simp [Refuses] at hrefuses
      | queued accepted blocked sound room => simp [Refuses] at hrefuses
    · simp at h
  | settle i panicked =>
    simp only [Governor.prepare] at h
    split at h
    · split at h
      · simp at h
      · obtain rfl := Option.some.inj h
        unfold Governor.settle at hrefuses ⊢
        split at hrefuses
        · exact ⟨rfl, rfl⟩
        · simp [Governor.locked, Refuses] at hrefuses
        · exact ⟨rfl, rfl⟩
    · simp at h
  | claim ticket sampledMs =>
    simp only [Governor.prepare, Option.some.injEq] at h
    subst h
    refine ⟨rfl, ?_⟩
    simp only [Governor.startClaim] at hrefuses ⊢
    rw [beginClaim_refused]
    · exact htime _
    · generalize (beginClaim (σ.state.commitTime sampledMs.toNat) ticket
        (σ.state.commitTime sampledMs.toNat).commitWatermarkMs).2.2 = started at hrefuses
      cases started with
      | claiming permitId => simp [Refuses] at hrefuses
      | answered outcome => cases outcome <;> simp [Refuses] at hrefuses ⊢
  | finishClaim i panicked =>
    simp only [Governor.prepare] at h
    split at h
    · rename_i ticket permitId effects sampledMs _
      split at h
      · simp at h
      · obtain rfl := Option.some.inj h
        cases panicked with
        | true => simp [Governor.endClaim, Governor.locked, Refuses] at hrefuses
        | false =>
          refine ⟨rfl, ?_⟩
          simp only [Governor.endClaim, Governor.locked, Bool.false_eq_true, if_false] at hrefuses ⊢
          rw [finishClaim_refused]
          · exact htime _
          · generalize (finishClaim (σ.state.commitTime sampledMs) ticket
              (σ.state.commitTime sampledMs).commitWatermarkMs).2 = outcome at hrefuses
            cases outcome <;> simp [Refuses] at hrefuses ⊢
    · simp at h
  | abandon ticket sampledMs =>
    simp only [Governor.prepare, Option.some.injEq] at h
    subst h
    have hseq : σ.state.terminalSeq < u64Max :=
      Nat.lt_of_le_of_lt (terminalSeq_le_load _) hinv.terminalSeq_lt
    have htickets := (stateInv_commitTime hinv.state sampledMs.toNat hseq).tickets
    simp only [Governor.operation, Governor.locked] at hrefuses ⊢
    have houtcome : (g.abandon (σ.state.commitTime sampledMs.toNat) ticket).outcome = .invalid ∨
        ∃ phase, (g.abandon (σ.state.commitTime sampledMs.toNat) ticket).outcome = .heldByLease phase := by
      generalize (g.abandon (σ.state.commitTime sampledMs.toNat) ticket).outcome = outcome at hrefuses
      cases outcome <;> simp [Refuses] at hrefuses ⊢
    obtain ⟨hpass, hsame⟩ := abandon_refused htickets houtcome
    rw [hsame]
    exact ⟨hpass, htime _⟩
  | release permitId sampledMs =>
    simp only [Governor.prepare, Option.some.injEq] at h
    subst h
    simp only [Governor.operation, Governor.locked] at hrefuses ⊢
    obtain ⟨hpass, hsame⟩ := releaseWithProof_refused (s := σ.state.commitTime sampledMs.toNat)
      (p := permitId) none fun hreleased => by simp [hreleased, Refuses] at hrefuses
    rw [hsame]
    exact ⟨hpass, htime _⟩
  | releaseLeased token sampledMs =>
    simp only [Governor.prepare, Option.some.injEq] at h
    subst h
    simp only [Governor.operation, Governor.locked] at hrefuses ⊢
    obtain ⟨hpass, hsame⟩ := releaseWithProof_refused (s := σ.state.commitTime sampledMs.toNat)
      (p := token.permitId) (some token.nonce) fun hreleased => by
        simp [hreleased, Refuses] at hrefuses
    rw [hsame]
    exact ⟨hpass, htime _⟩
  | advancePhase permitId phase =>
    simp only [Governor.prepare, Option.some.injEq] at h
    subst h
    unfold Governor.advance at hrefuses ⊢
    rcases GovernedState.advancePhase_cases σ.state permitId phase σ.leaseNonces with
      ⟨refusal, heq⟩ | ⟨record, found, _, hstate, houtcome⟩
    · rw [heq]
      exact ⟨rfl, rfl⟩
    · simp only [houtcome] at hrefuses
      split at hrefuses <;> simp [Refuses] at hrefuses
  | reconcileMemory permitId measuredBytes epoch sampledMs =>
    simp only [Governor.prepare, Option.some.injEq] at h
    subst h
    simp only [Governor.operationUnless, Governor.operation, Governor.locked] at hrefuses ⊢
    have hrefused := reconcileMemory_refused (g := g) (s := σ.state.commitTime sampledMs.toNat) permitId
      measuredBytes.toNat (epoch.map UInt64.toNat) (σ.state.commitTime sampledMs.toNat).commitWatermarkMs
    obtain ⟨hpass, hsame⟩ := hrefused (fun units heq => by simp [heq, Refuses] at hrefuses)
      (fun error heq => by simp [heq, Refuses] at hrefuses)
    rw [hsame]
    exact ⟨hpass, htime _⟩
  | releaseStageMemory permitId freedUnits sequence sampledMs =>
    simp only [Governor.prepare, Option.some.injEq] at h
    subst h
    simp [Governor.operationUnless, Governor.operation, Governor.locked, Refuses] at hrefuses
  | reapLeaks staleAfterMs sampledMs =>
    simp only [Governor.prepare, Option.some.injEq] at h
    subst h
    simp [Governor.operation, Governor.locked, Refuses] at hrefuses
  | closeAdmission =>
    simp only [Governor.prepare, Option.some.injEq] at h
    subst h
    simp [Refuses] at hrefuses
  | drain i =>
    simp only [Governor.prepare] at h
    split at h
    · rename_i effects sampledMs _
      obtain rfl := Option.some.inj h
      unfold Governor.drain at hrefuses
      split at hrefuses <;> simp [Governor.locked, Governor.unlocked, Refuses] at hrefuses
    · simp at h
  | mintElsewhere =>
    simp only [Governor.prepare, Option.some.injEq] at h
    subst h
    exact ⟨rfl, rfl⟩

/-! ## Every reachable state -/

/-- In every reachable state a refused step leaves the governed state as it was, apart from the
watermark; a refused admission only retires its waker; and a stage release that returns nothing leaves
the state to its promotion pass as it found it. -/
theorem refusals_change_nothing (g : Governor) (σ : g.System) (h : g.Reachable σ) :
    (∀ a σ' e, g.step σ a = some (σ', e) → Refuses a e = true → SameButTime σ.state σ'.state) ∧
    (∀ i intake sampledMs ids σ' verdict, σ.threads[i]? = some (.admitting intake sampledMs ids) →
      g.step σ (.enter i) = some (σ', .decided ids (.rejected verdict)) →
      σ'.threads = σ.threads.set i
        (.settling (.rejected verdict) { retire := intake.waker.toList } sampledMs)) ∧
    (∀ permitId freedUnits sequence sampledMs p outcome,
      Governor.prepare σ (.releaseStageMemory permitId freedUnits sequence sampledMs) = some p →
      p.sec.outcome = .stageReleased permitId outcome → (∀ freed, outcome ≠ .released freed) →
      SameButTime σ.state p.sec.state) := by
  have hinv := SysInv.of_reachable h
  refine ⟨fun a σ' e hstep hrefuses => ?_, fun i intake sampledMs ids σ' verdict hthread hstep => ?_,
    fun permitId freedUnits sequence sampledMs p outcome hp houtcome hnot => ?_⟩
  · obtain ⟨p, hp, rfl, rfl⟩ := step_eq_some hstep
    obtain ⟨hpass, hsame⟩ := hinv.prepare_refused hp hrefuses
    have hstate : (finish p).state = p.sec.state := by
      unfold Governor.finish
      rw [commit_of_not_promotes _ _ hpass]
    rw [hstate]
    exact hsame
  · obtain ⟨p, hp, rfl, hevent⟩ := step_eq_some hstep
    simp only [Governor.prepare, hthread, Option.some.injEq] at hp
    subst hp
    have hsettled : WakerSettled intake.waker {} (admitRequest (σ.state.commitTime sampledMs) g.policy
        (σ.state.commitTime sampledMs).commitWatermarkMs intake.request intake.waker ids {}) :=
      admit_settled
    simp only [Governor.enter, Event.decided.injEq, true_and] at hevent
    unfold Governor.finish
    rw [commit_of_not_promotes _ _ rfl]
    simp only [Governor.enter]
    rcases hsettled with ⟨⟨ticket, hqueued⟩, _⟩ | ⟨_, heffects⟩
    · rw [hqueued] at hevent
      simp at hevent
    · rw [heffects, ← hevent]
      rfl
  · simp only [Governor.prepare, Option.some.injEq] at hp
    subst hp
    simp only [Governor.operationUnless, Governor.operation, Governor.locked, Event.stageReleased.injEq, true_and] at houtcome ⊢
    rw [releaseStage_refused fun freed => houtcome ▸ hnot freed]
    exact sameButTime_commitTime _ _

/-- In the sample a release of a leased permit without its token is refused. -/
theorem sample_refusal : ∃ σ', Sample.governor.step Sample.busy (.release ⟨7, 1⟩ 5) =
    some (σ', .released ⟨7, 1⟩ (.heldByLease .running)) ∧ SameButTime Sample.busy.state σ'.state := by
  have hstep : (Sample.governor.step Sample.busy (.release ⟨7, 1⟩ 5)).map Prod.snd =
      some (.released ⟨7, 1⟩ (.heldByLease .running)) := by decide +kernel
  obtain ⟨⟨σ', e⟩, hnext, rfl⟩ := Option.map_eq_some_iff.mp hstep
  exact ⟨σ', hnext, (refusals_change_nothing Sample.governor Sample.busy
    (Runs.Reachable.of_restrict Sample.busy_reachable)).1 _ _ _ hnext rfl⟩

end Taskmesh
