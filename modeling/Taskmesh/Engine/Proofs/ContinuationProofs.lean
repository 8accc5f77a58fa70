import Taskmesh.Engine.Proofs.ConservationProofs
import Taskmesh.Engine.Proofs.PromotionProofs

/-!
# Continuation passes

A call that owes a continuation runs further passes until nothing is owed. Without interference that
takes at most one pass for each queued request, and ends with nothing runnable and no wait cycle.
-/

namespace Taskmesh

open Std MachineInt Governor

variable {g : Governor} {s : GovernedState} {σ σ' : g.System}

/-- A queued request that could run: nothing of its domain arrived earlier, and every dimension has
room for it. -/
structure RunnableCandidate (g : Governor) (s : GovernedState) (c : TaskClass) (r : PendingRequest) :
    Prop where
  queued : r ∈ (s.cls c).queue
  first : ∀ r' ∈ (s.cls c).queue, r'.capabilities.intersects r.capabilities = true →
    ¬ r'.queueOrder < r.queueOrder
  runnable : ∃ policy, g.policy.classPolicy c = some policy ∧
    assessPending s g.policy r policy.maxInflight.toNat false = .runnable

/-- The arrival index answers for the queue itself. -/
theorem QueueInv.predecessor_iff (hinv : QueueInv g s) (c : TaskClass) (r : PendingRequest) :
    (s.cls c).hasQueuedPredecessor r = false ↔
      ∀ r' ∈ (s.cls c).queue, r'.capabilities.intersects r.capabilities = true →
        ¬ r'.queueOrder < r.queueOrder := by
  constructor
  · intro hnone r' hr' hdomain horder
    have := (hinv.hasQueuedPredecessor_iff c r).mpr ⟨r'.untagged, List.mem_map_of_mem hr', hdomain, horder⟩
    rw [hnone] at this
    simp at this
  · intro hfirst
    by_contra hsome
    obtain ⟨r', hr', hdomain, horder⟩ := (hinv.hasQueuedPredecessor_iff c r).mp (by simpa using hsome)
    obtain ⟨r'', hr'', rfl⟩ := List.mem_map.mp hr'
    exact hfirst r'' hr'' hdomain horder

theorem QueueInv.hasRunnable_iff (hinv : QueueInv g s) :
    hasRunnable s g.policy = true ↔ ∃ c r, RunnableCandidate g s c r := by
  rw [Taskmesh.hasRunnable_iff]
  constructor
  · rintro ⟨c, policy, r, hpolicy, hr, hrun⟩
    simp only [isRunnableCandidate, Bool.and_eq_true, Bool.not_eq_true', decide_eq_true_eq] at hrun
    exact ⟨c, r, hr, (hinv.predecessor_iff c r).mp hrun.1, policy, hpolicy, hrun.2⟩
  · rintro ⟨c, r, hr, hfirst, policy, hpolicy, hrun⟩
    refine ⟨c, policy, r, hpolicy, hr, ?_⟩
    simp only [isRunnableCandidate, Bool.and_eq_true, Bool.not_eq_true', decide_eq_true_eq]
    exact ⟨(hinv.predecessor_iff c r).mpr hfirst, hrun⟩

/-! ## One turn of a draining call -/

theorem step_drain_owed {i : Nat} {effects : TransitionEffects} {sampledMs : Nat}
    (hthread : σ.threads[i]? = some (.draining effects sampledMs)) (hmore : effects.moreRunnable = true) :
    ∃ σ₁ effects₁, g.step σ (.drain i) = some (σ₁, .progressed) ∧
      σ₁.threads = σ.threads.set i (.draining effects₁ sampledMs) ∧
      σ₁.state = (g.promote (σ.state.commitTime sampledMs)
        (σ.state.commitTime sampledMs).commitWatermarkMs).1 ∧
      effects₁.moreRunnable = (g.promote (σ.state.commitTime sampledMs)
        (σ.state.commitTime sampledMs).commitWatermarkMs).2.moreRunnable := by
  have hprepared : Governor.prepare σ (.drain i) = some (Governor.locked σ sampledMs
      (fun s _ => ⟨s, {}, .progressed, true⟩)
      (fun effects => σ.threads.set i (.draining effects sampledMs))) := by
    simp only [Governor.prepare, hthread, Governor.drain, hmore, if_true]
  have hstep := congrArg (Option.map fun p => (finish p, p.sec.outcome)) hprepared
  refine ⟨_, _, hstep, rfl, rfl, ?_⟩
  show (({} : TransitionEffects).absorb (g.promote (σ.state.commitTime sampledMs)
    (σ.state.commitTime sampledMs).commitWatermarkMs).2).moreRunnable = _
  simp [TransitionEffects.absorb]

theorem step_drain_done {i : Nat} {effects : TransitionEffects} {sampledMs : Nat}
    (hthread : σ.threads[i]? = some (.draining effects sampledMs)) (hmore : effects.moreRunnable = false) :
    g.step σ (.drain i) = some ({ σ with threads := σ.threads.eraseIdx i }, .progressed) := by
  have hprepared : Governor.prepare σ (.drain i) =
      some (Governor.unlocked σ (σ.threads.eraseIdx i) .progressed) := by
    simp only [Governor.prepare, hthread, Governor.drain, hmore, Bool.false_eq_true, if_false]
  unfold Governor.step
  rw [hprepared]
  rfl

/-- Without interference a drain comes to its last round, with nothing owed, nothing runnable and no wait
cycle. -/
theorem drain_passes {i : Nat} {effects : TransitionEffects} {sampledMs : Nat}
    (hthread : σ.threads[i]? = some (.draining effects sampledMs)) (hmore : effects.moreRunnable = true) :
    ∃ passes σ' effects', passes ≤ queuedTotal σ.state + 1 ∧
      Runs.replay g.step σ (List.replicate passes (.drain i)) = some σ' ∧
      σ'.threads = σ.threads.set i (.draining effects' sampledMs) ∧ effects'.moreRunnable = false ∧
      σ'.state.promotionPending = false ∧ hasRunnable σ'.state g.policy = false ∧
      g.findCycle σ'.state = none := by
  -- Induction on the queued requests: a pass that owes another one removed one of them.
  induction hn : queuedTotal σ.state using Nat.strong_induction_on generalizing σ effects with
  | _ n ih =>
    obtain ⟨σ₁, effects₁, hstep, hthreads, hstate, hmore₁⟩ := step_drain_owed hthread hmore
    obtain ⟨hlt, _⟩ := List.getElem?_eq_some_iff.mp hthread
    have hthread₁ : σ₁.threads[i]? = some (.draining effects₁ sampledMs) := by
      rw [hthreads, List.getElem?_set_self hlt]
    cases hpass : effects₁.moreRunnable with
    | true =>
      rw [hpass] at hmore₁
      have hless : queuedTotal σ₁.state < n := by
        rw [hstate, ← hn]
        exact queuedTotal_promote hmore₁.symm
      obtain ⟨passes, σ', effects', hle, hreplay, hlast, hend⟩ := ih _ hless hthread₁ hpass rfl
      refine ⟨passes + 1, σ', effects', by omega, ?_, ?_, hend⟩
      · rw [List.replicate_succ]
        simp only [Runs.replay, hstep]
        exact hreplay
      · rw [hlast, hthreads, List.set_set]
    | false =>
      rw [hpass] at hmore₁
      obtain ⟨hrunnable, hcycle⟩ := promote_end hmore₁.symm
      refine ⟨1, σ₁, effects₁, by omega, ?_, hthreads, hpass, ?_, ?_, ?_⟩
      · simp only [List.replicate, Runs.replay, hstep]
      · rw [hstate]
        exact hmore₁.symm
      · rw [hstate]
        exact hrunnable
      · rw [hstate]
        exact hcycle

theorem drain_ends {i : Nat} {effects : TransitionEffects} {sampledMs : Nat}
    (hthread : σ.threads[i]? = some (.draining effects sampledMs)) (hmore : effects.moreRunnable = true) :
    ∃ passes σ', passes ≤ queuedTotal σ.state + 1 ∧
      Runs.replay g.step σ (List.replicate (passes + 1) (.drain i)) = some σ' ∧
      σ'.threads = σ.threads.eraseIdx i ∧ σ'.state.promotionPending = false ∧
      hasRunnable σ'.state g.policy = false ∧ g.findCycle σ'.state = none := by
  obtain ⟨passes, σ', effects', hle, hreplay, hthreads, hlast, hend⟩ := drain_passes hthread hmore
  obtain ⟨hlt, _⟩ := List.getElem?_eq_some_iff.mp hthread
  have hthread' : σ'.threads[i]? = some (.draining effects' sampledMs) := by
    rw [hthreads, List.getElem?_set_self hlt]
  refine ⟨passes, { σ' with threads := σ'.threads.eraseIdx i }, hle, ?_, ?_, hend⟩
  · rw [List.replicate_succ', Runs.replay_append, hreplay]
    simp only [Option.bind_some, Runs.replay, step_drain_done hthread' hlast]
  · show σ'.threads.eraseIdx i = _
    rw [hthreads, List.eraseIdx_set_eq]

/-- No queued awaited child is in an irreversible wait cycle. -/
def CycleFree (g : Governor) (s : GovernedState) : Prop :=
  ∀ c policy r witness, g.policy.classPolicy c = some policy → r ∈ (s.cls c).queue →
    r.scope.isAwaitedChild = true →
    assessPending s g.policy r policy.maxInflight.toNat false ≠ .irreversibleWaitCycle witness

/-- A scan that finds nothing missed nothing. -/
theorem QueueInv.cycleFree (hinv : QueueInv g s) (h : g.findCycle s = none) : CycleFree g s := by
  intro c policy r witness hpolicy hr hawaited
  refine findCycle_none h hpolicy hr ?_ witness
  exact ((hinv.indexed c).awaited r.seqNo).mpr ⟨r.untagged, List.mem_map_of_mem hr, hawaited, rfl⟩

/-! ## Work conservation -/

/-- A runnable request is never left without a continuation; `select` and `hasRunnable` agree; and a
drain without interference ends with nothing left to do. -/
theorem promotion_conserves_work (g : Governor) :
    (∀ σ : g.System, g.Reachable σ →
      (∀ c r, RunnableCandidate g σ.state c r → σ.state.promotionPending = true) ∧
      (σ.state.promotionPending = true → Owed σ) ∧
      (¬ Owed σ → ∀ c r, ¬ RunnableCandidate g σ.state c r)) ∧
    (∀ s policies, (select s policies).2.isSome = true ↔ hasRunnable s policies = true) ∧
    (∀ s nowMs, (g.promote s nowMs).2.moreRunnable = true →
      queuedTotal (g.promote s nowMs).1 < queuedTotal s) ∧
    (∀ (σ : g.System) i effects sampledMs, σ.threads[i]? = some (.draining effects sampledMs) →
      effects.moreRunnable = true →
      ∃ passes σ', passes ≤ queuedTotal σ.state + 1 ∧
        Runs.replay g.step σ (List.replicate (passes + 1) (.drain i)) = some σ' ∧
        σ'.threads = σ.threads.eraseIdx i ∧ σ'.state.promotionPending = false ∧
        hasRunnable σ'.state g.policy = false ∧ (g.Reachable σ → CycleFree g σ'.state)) := by
  refine ⟨fun σ hreach => ?_, fun s policies => ?_, fun s nowMs => queuedTotal_promote,
    fun σ i effects sampledMs hthread hmore => ?_⟩
  · have hpi := PromotionInv.of_reachable hreach
    have hqueues := (SysInv.of_reachable hreach).state.queues
    have hflagged : ∀ c r, RunnableCandidate g σ.state c r → σ.state.promotionPending = true :=
      fun c r hrun => hpi.flagged (hqueues.hasRunnable_iff.mpr ⟨c, r, hrun⟩)
    have howed : σ.state.promotionPending = true → Owed σ := by
      intro hpending
      obtain ⟨effects, sampledMs, hmem, hmore⟩ := hpi.owed hpending
      exact ⟨_, hmem, effects, rfl, hmore⟩
    exact ⟨hflagged, howed, fun hnot c r hrun => hnot (howed (hflagged c r hrun))⟩
  · rw [select_isSome_iff]
  · obtain ⟨passes, σ', hle, hreplay, hover, hpending, hrunnable, hcycle⟩ := drain_ends hthread hmore
    refine ⟨passes, σ', hle, hreplay, hover, hpending, hrunnable, fun hreach => ?_⟩
    obtain ⟨trace, hrun⟩ := Runs.run_of_replay hreplay
    exact (SysInv.of_reachable (hreach.run hrun)).state.queues.cycleFree hcycle

/-- In the sample one request waits, nothing is owed, and the request cannot run. -/
theorem sample_conserves_work : queuedTotal Sample.busy.state = 1 ∧ ¬ Owed Sample.busy ∧
    ∀ c r, ¬ RunnableCandidate Sample.governor Sample.busy.state c r := by
  have hnot : ¬ Owed Sample.busy := by
    have hthreads : Sample.busy.threads.length = 0 := by decide +kernel
    rintro ⟨th, hmem, _⟩
    rw [List.length_eq_zero_iff.mp hthreads] at hmem
    simp at hmem
  exact ⟨by decide +kernel, hnot, ((promotion_conserves_work Sample.governor).1 Sample.busy
    (Runs.Reachable.of_restrict Sample.busy_reachable)).2.2 hnot⟩

end Taskmesh
