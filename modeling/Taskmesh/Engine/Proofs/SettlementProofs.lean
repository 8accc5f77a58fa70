import Taskmesh.Engine.Delivery
import Taskmesh.Engine.Proofs.ContinuationProofs
import Taskmesh.Engine.Proofs.GateProofs

/-!
# Settlement

A step that lowers a gauge of a class leaves its own call draining, and a call stops draining only in
the round that tells the settlement port. So a gauge never falls without a settlement still to come.
-/

namespace Taskmesh

open Std MachineInt QueueFamily Governor

variable {g : Governor} {s s' : GovernedState} {σ σ' : g.System} {a : Action} {e : Event}

/-- No gauge of a class is lower than before. -/
def GaugesKept (s s' : GovernedState) : Prop :=
  ∀ c, s.inflight c ≤ s'.inflight c ∧ s.queued c ≤ s'.queued c

/-- The call of an action: the one it continues, or the one it begins. -/
def callIndex (σ : g.System) (a : Action) : Nat := a.thread.getD σ.threads.length

def Thread.isDraining {policies : PolicySet} : Thread policies → Bool
  | .draining _ _ => true
  | _ => false

/-- The call of the action goes on to drain. -/
def GoesOn (σ σ' : g.System) (a : Action) : Prop :=
  ∃ effects sampledMs, σ'.threads[callIndex σ a]? = some (.draining effects sampledMs)

/-! ## Steps that lower no gauge -/

theorem queued_eq_waiting (s : GovernedState) (c : TaskClass) :
    s.queued c = min (s.waiting c).length u32Max := by
  simp [GovernedState.queued, ClassState.queued, GovernedState.waiting, ClassState.queueHalf]

theorem gaugesKept_quiet (h : Quiet s s') : GaugesKept s s' := by
  intro c
  have hinflight := h.holdings.inflight c
  have hqueued := h.queues.queued_eq c
  omega

/-- An admission charges a class or adds to its queue. -/
theorem Entered.gaugesKept {request : AdmissionRequest} {ids : Ids} {waker : Option Waker} {nowMs : Nat}
    {decision : AdmissionDecision} (h : Entered g s request ids waker nowMs s' decision) :
    GaugesKept s s' := by
  intro c'
  cases h with
  | refused cycle => exact ⟨Nat.le_refl _, Nat.le_refl _⟩
  | @granted policy c accepted runnable =>
    have hroom := (accepted.grantFits runnable nowMs).room.1
    have hqueued := (GovernedState.sameQueues_grant s
      (directGrant s policy c request ids nowMs)).queued_eq c'
    refine ⟨?_, Nat.le_of_eq hqueued.symm⟩
    have hcls := GovernedState.cls_grant s (directGrant s policy c request ids nowMs) c'
    unfold GovernedState.inflight at hroom ⊢
    rw [hcls]
    split
    · rename_i hsame
      subst hsame
      -- The class limit is a `u32`, so the gauge does not wrap.
      have hbound := policy.maxInflight.toNat_lt
      show _ ≤ wrappingAdd u32Max _ 1
      simp only [wrappingAdd, u32Max]
      omega
    · exact Nat.le_refl _
  | @queued policy c blockers accepted blocked sound room =>
    have hres := rescheduled_enqueueTags s c policy (resolveCost policy).cpuUnits nowMs
    have hledger := hres.ledger.trans (commitPending_frame _ (pendingRequest s policy c request waker ids
      nowMs blockers.primary (enqueueTags s c policy (resolveCost policy).cpuUnits nowMs).2)).1
    have hpushed : Pushed s.waiting
        ((enqueueTags s c policy (resolveCost policy).cpuUnits nowMs).1.commitPending
          (pendingRequest s policy c request waker ids nowMs blockers.primary
            (enqueueTags s c policy (resolveCost policy).cpuUnits nowMs).2)).waiting c
        (queuedEntry s policy c request waker ids nowMs blockers.primary
          (enqueueTags s c policy (resolveCost policy).cpuUnits nowMs).2) :=
      pushed_commitPending hres
    refine ⟨Nat.le_of_eq (hledger.inflight_eq c').symm, ?_⟩
    have hlength := hpushed.length_eq c'
    rw [queued_eq_waiting, queued_eq_waiting]
    omega

/-! ## The call of a step that lowers a gauge -/

theorem callIndex_none (h : a.thread = none) : callIndex σ a = σ.threads.length := by
  simp [callIndex, h]

theorem callIndex_some {i : Nat} (h : a.thread = some i) : callIndex σ a = i := by
  simp [callIndex, h]

theorem goesOn_push (h : a.thread = none) {effects : TransitionEffects} {sampledMs : Nat}
    (hthreads : σ'.threads = σ.threads ++ [.draining effects sampledMs]) : GoesOn σ σ' a := by
  refine ⟨effects, sampledMs, ?_⟩
  rw [callIndex_none h, hthreads]
  exact List.getElem?_concat_length

theorem goesOn_set {i : Nat} {th : Thread g.policy} (h : a.thread = some i)
    (hthread : σ.threads[i]? = some th) {effects : TransitionEffects} {sampledMs : Nat}
    (hthreads : σ'.threads = σ.threads.set i (.draining effects sampledMs)) : GoesOn σ σ' a := by
  refine ⟨effects, sampledMs, ?_⟩
  obtain ⟨hlt, _⟩ := List.getElem?_eq_some_iff.mp hthread
  rw [callIndex_some h, hthreads]
  exact List.getElem?_set_self hlt

/-- A step without a promotion pass leaves the state its section leaves. -/
theorem quiet_finish {p : g.Prepared} (hpass : p.sec.promotes = false) (h : Quiet σ.state p.sec.state) :
    Quiet σ.state (Governor.finish p).state := by
  have hstate : (Governor.finish p).state = p.sec.state := by
    show (g.commit p.sec p.nowMs).1 = p.sec.state
    rw [commit_of_not_promotes _ _ hpass]
  rwa [hstate]

/-- A reconcile that returns early changed nothing. -/
theorem reconcileEarly_state {p : PermitId} {measuredBytes : Nat} {epoch : Option Nat} {nowMs : Nat}
    (h : Governor.reconcileEarly epoch (g.reconcileMemory s p measuredBytes epoch nowMs).outcome = true) :
    (g.reconcileMemory s p measuredBytes epoch nowMs).state = s := by
  rcases reconcileMemory_cases g s p measuredBytes epoch nowMs with ⟨outcome, heq, _⟩ | ⟨error, heq⟩ |
    ⟨record, ledger, _, _, heq, _⟩
  · rw [heq]
  · rw [heq] at h
    simp [Governor.reconcileEarly] at h
  · rw [heq] at h
    simp [Governor.reconcileEarly] at h

/-- An operation that may return early goes on to drain, or it returned early and left the queues and
the charges alone. -/
theorem goesOn_operationUnless {α : Type} {sampledMs : Nat}
    {section_ : GovernedState → Nat → Governor.Section α} {event : α → Event} {early : α → Bool}
    (hnone : a.thread = none)
    (hearly : ∀ s now, early (section_ s now).outcome = true →
      (section_ s now).promotes = false ∧ Quiet s (section_ s now).state) :
    GoesOn σ (Governor.finish (Governor.operationUnless σ sampledMs section_ event early)) a ∨
      Quiet σ.state (Governor.finish (Governor.operationUnless σ sampledMs section_ event early)).state := by
  cases hcase : early (section_ (σ.state.commitTime sampledMs)
      (σ.state.commitTime sampledMs).commitWatermarkMs).outcome with
  | true =>
    obtain ⟨hpass, hquiet⟩ := hearly _ _ hcase
    exact Or.inr (quiet_finish hpass ((quiet_commitTime σ.state sampledMs).trans hquiet))
  | false =>
    left
    have hthreads : (Governor.finish (Governor.operationUnless σ sampledMs section_ event early)).threads =
        (Governor.finish (Governor.operation σ sampledMs section_ event)).threads := by
      simp only [Governor.finish, Governor.operationUnless, hcase]
      rfl
    exact goesOn_push hnone hthreads

/-- What an action does other than to enter: its call goes on to drain, or the queues and the charges
are as they were. -/
theorem prepare_goesOn {p : g.Prepared} (h : Governor.prepare σ a = some p) (hother : ∀ i, a ≠ .enter i) :
    GoesOn σ (Governor.finish p) a ∨ Quiet σ.state (Governor.finish p).state := by
  have htime := fun sampledMs => quiet_commitTime σ.state sampledMs
  have hunlocked : ∀ {threads : List (Thread g.policy)} {event : Event},
      Quiet σ.state (Governor.finish (Governor.unlocked σ threads event)).state := fun {_ _} =>
    quiet_finish rfl (Quiet.refl _)
  cases a with
  | call entry sampledMs =>
    simp only [Governor.prepare, Option.some.injEq] at h
    subst h
    unfold Governor.call
    split <;> exact Or.inr hunlocked
  | allocate i =>
    simp only [Governor.prepare] at h
    split at h
    · rename_i intake sampledMs taken _
      obtain rfl := Option.some.inj h
      right
      unfold Governor.allocate
      cases taken <;> simp only <;> split <;> exact quiet_finish rfl (Quiet.refl _)
    · simp at h
  | enter i => exact absurd rfl (hother i)
  | settle i panicked =>
    simp only [Governor.prepare] at h
    split at h
    · rename_i decision effects sampledMs hthread
      split at h
      · simp at h
      · obtain rfl := Option.some.inj h
        unfold Governor.settle
        split
        · exact Or.inr hunlocked
        · exact Or.inl (goesOn_set rfl hthread rfl)
        · exact Or.inr hunlocked
    · simp at h
  | claim ticket sampledMs =>
    simp only [Governor.prepare, Option.some.injEq] at h
    subst h
    exact Or.inr (quiet_finish rfl ((htime _).trans (quiet_beginClaim _ _ _)))
  | finishClaim i panicked =>
    simp only [Governor.prepare] at h
    split at h
    · rename_i ticket permitId effects sampledMs hthread
      split at h
      · simp at h
      · obtain rfl := Option.some.inj h
        cases panicked with
        | true => exact Or.inl (goesOn_set rfl hthread rfl)
        | false => exact Or.inr (quiet_finish rfl ((htime _).trans (quiet_finishClaim _ _ _)))
    · simp at h
  | abandon | release | releaseLeased | reapLeaks =>
    simp only [Governor.prepare, Option.some.injEq] at h
    subst h
    exact Or.inl (goesOn_push rfl rfl)
  | advancePhase permitId phase =>
    simp only [Governor.prepare, Option.some.injEq] at h
    subst h
    right
    refine quiet_finish rfl ?_
    rcases GovernedState.advancePhase_cases σ.state permitId phase σ.leaseNonces with
      ⟨refusal, heq⟩ | ⟨record, found, _, hstate, _⟩
    · simp only [Governor.advance, heq]
      exact Quiet.refl _
    · simp only [Governor.advance, hstate]
      exact quiet_advancedTo found phase _
  | reconcileMemory permitId measuredBytes epoch sampledMs =>
    simp only [Governor.prepare, Option.some.injEq] at h
    subst h
    refine goesOn_operationUnless rfl fun s now hearly => ⟨?_, ?_⟩
    · exact reconcileEarly_promotes s _ _ _ now hearly
    · rw [reconcileEarly_state hearly]
      exact Quiet.refl s
  | releaseStageMemory permitId freedUnits sequence sampledMs =>
    simp only [Governor.prepare, Option.some.injEq] at h
    subst h
    refine goesOn_operationUnless rfl fun s now hearly => ?_
    have hpass := stageReleaseEarly_promotes s _ _ _ now hearly
    exact ⟨hpass, quiet_releaseStage hpass⟩
  | closeAdmission =>
    simp only [Governor.prepare, Option.some.injEq] at h
    subst h
    exact Or.inr (quiet_finish rfl (quiet_closeAdmission _))
  | drain i =>
    simp only [Governor.prepare] at h
    split at h
    · rename_i effects sampledMs hthread
      obtain rfl := Option.some.inj h
      unfold Governor.drain
      split
      · exact Or.inl (goesOn_set rfl hthread rfl)
      · exact Or.inr hunlocked
    · simp at h
  | mintElsewhere =>
    simp only [Governor.prepare, Option.some.injEq] at h
    subst h
    exact Or.inr (quiet_finish rfl (Quiet.refl _))

/-- A step that lowers a gauge leaves its own call draining. -/
theorem SysInv.step_goesOn (hinv : SysInv σ) (h : g.step σ a = some (σ', e)) :
    GoesOn σ σ' a ∨ GaugesKept σ.state σ'.state := by
  by_cases henter : ∃ i, a = .enter i
  · obtain ⟨i, rfl⟩ := henter
    obtain ⟨intake, sampledMs, ids, decision, _, _, hentered⟩ := hinv.step_entered h
    exact Or.inr hentered.gaugesKept
  · obtain ⟨p, hp, rfl, _⟩ := step_eq_some h
    refine (prepare_goesOn hp fun i heq => henter ⟨i, heq⟩).imp_right fun hquiet => ?_
    exact gaugesKept_quiet hquiet

/-! ## The calls that drain -/

/-- How many calls have a settlement still to come. -/
def drainings {policies : PolicySet} (threads : List (Thread policies)) : Nat :=
  threads.countP Thread.isDraining

/-- A call stops draining only in the round that tells the settlement port. -/
theorem step_drainings (h : g.step σ a = some (σ', e)) :
    drainings σ.threads ≤ drainings σ'.threads + if settles σ a then 1 else 0 := by
  obtain ⟨p, old, new, rest, hp, rfl, hthreads⟩ := step_threads h
  have hbefore : drainings σ.threads = old.toList.countP Thread.isDraining + drainings rest := by
    rw [drainings, hthreads.before.countP_eq, List.countP_append, drainings]
  have hafter : drainings (Governor.finish p).threads =
      new.toList.countP Thread.isDraining + drainings rest := by
    rw [drainings, hthreads.after.countP_eq, List.countP_append, drainings]
  cases hthreads.turn with
  | drained i effects sampledMs turn drains =>
    rcases drains with rfl | ⟨effects', rfl⟩
    · have hsettles : settles σ (.drain i) = true := by
        cases hpass : p.sec.promotes with
        | true =>
          obtain ⟨_, _, hnew, _⟩ := hthreads.owes hpass
          simp at hnew
        | false =>
          have hpaid := hthreads.paid hpass effects sampledMs rfl
          simp [settles, owedBy, Action.thread, turn, Thread.owed, hpaid]
      simp only [Option.toList_some, List.countP_singleton, Thread.isDraining, if_true] at hbefore
      rw [hbefore, hafter, hsettles]
      simp
      omega
    · have hdraining : Thread.isDraining (.draining effects' sampledMs : Thread g.policy) = true := rfl
      have hold : Thread.isDraining (.draining effects sampledMs : Thread g.policy) = true := rfl
      simp only [Option.toList_some, List.countP_singleton, hdraining, hold, if_true] at hbefore hafter
      omega
  | quiet | called | took | numbered | exhausted | entered | settled | begun | claimed | operated =>
    simp only [Option.toList_none, Option.toList_some, List.countP_nil, List.countP_singleton,
      Thread.isDraining, Bool.false_eq_true, if_false] at hbefore
    omega

theorem drainings_pos {threads : List (Thread g.policy)} {i : Nat} {effects : TransitionEffects}
    {sampledMs : Nat} (h : threads[i]? = some (.draining effects sampledMs)) : 0 < drainings threads :=
  List.countP_pos_iff.mpr ⟨_, List.mem_of_getElem? h, rfl⟩

/-- Without interference a call that drains comes to its settlement. -/
theorem draining_settles {i : Nat} {effects : TransitionEffects} {sampledMs : Nat}
    (h : σ.threads[i]? = some (.draining effects sampledMs)) :
    ∃ rounds σ', Runs.replay g.step σ (List.replicate rounds (.drain i)) = some σ' ∧
      settles σ' (.drain i) = true ∧ (g.step σ' (.drain i)).isSome = true := by
  have hlast : ∀ {τ : g.System} {effects : TransitionEffects},
      τ.threads[i]? = some (.draining effects sampledMs) → effects.moreRunnable = false →
      settles τ (.drain i) = true ∧ (g.step τ (.drain i)).isSome = true := by
    intro τ effects hthread hmore
    refine ⟨by simp [settles, owedBy, Action.thread, hthread, Thread.owed, hmore], ?_⟩
    rw [step_drain_done hthread hmore]
    rfl
  cases hmore : effects.moreRunnable with
  | false => exact ⟨0, σ, rfl, hlast h hmore⟩
  | true =>
    obtain ⟨passes, σ', effects', _, hreplay, hthreads, hmore', _⟩ := drain_passes h hmore
    obtain ⟨hlt, _⟩ := List.getElem?_eq_some_iff.mp h
    have hthread' : σ'.threads[i]? = some (.draining effects' sampledMs) := by
      rw [hthreads, List.getElem?_set_self hlt]
    exact ⟨passes, σ', hreplay, hlast hthread' hmore'⟩

end Taskmesh
