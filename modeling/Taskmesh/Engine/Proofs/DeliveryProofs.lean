import Taskmesh.Engine.Proofs.HandoverProofs
import Taskmesh.Engine.Proofs.HostCallProofs

/-!
# Every waker reaches the host

What a transition returns is applied outside the lock by the call that made it, also when host code
panics, as long as no payload's destructor ends the application. Together with the handovers of a step:
no reference is lost in the state, none is destroyed under the lock, none is woken or destroyed twice,
and a waiter whose ticket moved on without it is woken.
-/

namespace Taskmesh

open Std MachineInt Governor

variable {g : Governor} {σ σ' : g.System} {a : Action} {e : Event}

/-! ## Effects in flight -/

/-- A measure of the effects that calls in progress still have to apply. -/
def inFlight (f : TransitionEffects → Nat) (threads : List (Thread g.policy)) : Nat :=
  (threads.map fun th => f th.owed).sum

section InFlight

variable {f : TransitionEffects → Nat} {threads : List (Thread g.policy)} {th new : Thread g.policy} {i : Nat}

/-- A call that starts adds what it owes. -/
theorem inFlight_push (f : TransitionEffects → Nat) (threads : List (Thread g.policy)) (new : Thread g.policy) :
    inFlight f (threads ++ [new]) = inFlight f threads + f new.owed := by
  simp [inFlight]

/-- A call that is over takes what it owed. -/
theorem inFlight_erase (f : TransitionEffects → Nat) (h : threads[i]? = some th) :
    inFlight f (threads.eraseIdx i) + f th.owed = inFlight f threads := by
  obtain ⟨hlt, rfl⟩ := List.getElem?_eq_some_iff.mp h
  have hsum := ((List.getElem_cons_eraseIdx_perm hlt).map fun th => f th.owed).sum_eq
  rw [List.map_cons, List.sum_cons] at hsum
  unfold inFlight
  omega

/-- A call that goes on owes something else. -/
theorem inFlight_set (f : TransitionEffects → Nat) (h : threads[i]? = some th) (new : Thread g.policy) :
    inFlight f (threads.set i new) + f th.owed = inFlight f threads + f new.owed := by
  have herase := inFlight_erase f h
  obtain ⟨hlt, _⟩ := List.getElem?_eq_some_iff.mp h
  have hsum := ((List.set_perm_cons_eraseIdx hlt new).map fun th => f th.owed).sum_eq
  rw [List.map_cons, List.sum_cons] at hsum
  unfold inFlight at herase ⊢
  omega

/-- A step that continues no call and starts none. -/
theorem inFlight_kept {prepared : g.Prepared} (f : TransitionEffects → Nat) (hf : f {} = 0)
    (hnone : a.thread = none) (hthreads : (Governor.finish prepared).threads = σ.threads)
    (heffects : (g.commit prepared.sec prepared.nowMs).2 = {}) :
    inFlight f (Governor.finish prepared).threads + f (owedBy σ a) =
      inFlight f σ.threads + f (g.commit prepared.sec prepared.nowMs).2 := by
  have howed : owedBy σ a = {} := by simp [owedBy, hnone]
  rw [hthreads, heffects, howed, hf]

/-- A public operation starts a call that owes what the operation returned. -/
theorem inFlight_operation {α : Type} {sampledMs : Nat} {section_ : GovernedState → Nat → Governor.Section α}
    {event : α → Event} {prepared : g.Prepared} (f : TransitionEffects → Nat) (hf : f {} = 0)
    (hnone : a.thread = none) (hp : prepared = Governor.operation σ sampledMs section_ event) :
    inFlight f (Governor.finish prepared).threads + f (owedBy σ a) =
      inFlight f σ.threads + f (g.commit prepared.sec prepared.nowMs).2 := by
  have howed : owedBy σ a = {} := by simp [owedBy, hnone]
  subst hp
  rw [howed, hf]
  exact inFlight_push f σ.threads _

/-- The same for an operation that may return early, with nothing to apply. -/
theorem inFlight_operationUnless {α : Type} {sampledMs : Nat}
    {section_ : GovernedState → Nat → Governor.Section α} {event : α → Event} {early : α → Bool}
    {prepared : g.Prepared} (f : TransitionEffects → Nat) (hf : f {} = 0) (hnone : a.thread = none)
    (hearly : ∀ s now, early (section_ s now).outcome = true →
      (section_ s now).promotes = false ∧ (section_ s now).effects = {})
    (hp : prepared = Governor.operationUnless σ sampledMs section_ event early) :
    inFlight f (Governor.finish prepared).threads + f (owedBy σ a) =
      inFlight f σ.threads + f (g.commit prepared.sec prepared.nowMs).2 := by
  subst hp
  cases hcase : early (section_ (σ.state.commitTime sampledMs)
      (σ.state.commitTime sampledMs).commitWatermarkMs).outcome with
  | true =>
    refine inFlight_kept f hf hnone ?_ ?_
    · simp [Governor.finish, Governor.operationUnless, hcase]
    · have hpromotes : (Governor.operationUnless σ sampledMs section_ event early).sec.promotes = false :=
        (hearly _ _ hcase).1
      rw [commit_of_not_promotes _ _ hpromotes]
      exact (hearly _ _ hcase).2
  | false =>
    have hoperation : inFlight f (Governor.finish (Governor.operation σ sampledMs section_ event)).threads +
        f (owedBy σ a) = inFlight f σ.threads +
          f (g.commit (Governor.operation σ sampledMs section_ event).sec
            (Governor.operation σ sampledMs section_ event).nowMs).2 :=
      inFlight_operation f hf hnone rfl
    have hthreads : (Governor.finish (Governor.operationUnless σ sampledMs section_ event early)).threads =
        (Governor.finish (Governor.operation σ sampledMs section_ event)).threads := by
      simp only [Governor.finish, Governor.operationUnless, hcase]
      rfl
    rw [hthreads]
    exact hoperation

/-- What an action applies is what the call it continues owes. -/
theorem owedBy_thread (hthread : σ.threads[i]? = some th) (hi : a.thread = some i) :
    owedBy σ a = th.owed := by
  simp [owedBy, hi, hthread]

/-- A call that goes on holds what its step returned. -/
theorem inFlight_continued {prepared : g.Prepared} (f : TransitionEffects → Nat)
    (hthread : σ.threads[i]? = some th) (hi : a.thread = some i)
    (hthreads : (Governor.finish prepared).threads = σ.threads.set i new)
    (hnew : new.owed = (g.commit prepared.sec prepared.nowMs).2) :
    inFlight f (Governor.finish prepared).threads + f (owedBy σ a) =
      inFlight f σ.threads + f (g.commit prepared.sec prepared.nowMs).2 := by
  rw [hthreads, owedBy_thread hthread hi, ← hnew]
  exact inFlight_set f hthread new

/-- A call that ends returns nothing. -/
theorem inFlight_over {prepared : g.Prepared} (f : TransitionEffects → Nat) (hf : f {} = 0)
    (hthread : σ.threads[i]? = some th) (hi : a.thread = some i)
    (hthreads : (Governor.finish prepared).threads = σ.threads.eraseIdx i)
    (heffects : (g.commit prepared.sec prepared.nowMs).2 = {}) :
    inFlight f (Governor.finish prepared).threads + f (owedBy σ a) =
      inFlight f σ.threads + f (g.commit prepared.sec prepared.nowMs).2 := by
  rw [hthreads, owedBy_thread hthread hi, heffects, hf]
  exact inFlight_erase f hthread

end InFlight

/-- A claim answered at once owes nothing. -/
theorem beginClaim_answered {s : GovernedState} {ticket : Ticket} {nowMs : Nat} {outcome : ClaimOutcome}
    (h : (beginClaim s ticket nowMs).2.2 = .answered outcome) : (beginClaim s ticket nowMs).2.1 = {} := by
  unfold Governor.beginClaim at h ⊢
  split at h
  · rename_i p hticket
    cases hp : s.permits[p]? with
    | none => rfl
    | some record =>
      rw [hp] at h
      simp at h
  all_goals rfl

/-- The start of a claim owes exactly what its section returned. -/
theorem inFlight_claim (f : TransitionEffects → Nat) (hf : f {} = 0) (σ : g.System) (ticket : Ticket)
    (sampledMs : UInt64) :
    inFlight f (Governor.finish (startClaim σ ticket sampledMs.toNat)).threads +
        f (owedBy σ (.claim ticket sampledMs)) =
      inFlight f σ.threads + f (g.commit (startClaim σ ticket sampledMs.toNat).sec
        (startClaim σ ticket sampledMs.toNat).nowMs).2 := by
  have hcommit : g.commit (startClaim σ ticket sampledMs.toNat).sec
      (startClaim σ ticket sampledMs.toNat).nowMs =
        ((startClaim σ ticket sampledMs.toNat).sec.state, (startClaim σ ticket sampledMs.toNat).sec.effects) :=
    commit_of_not_promotes _ _ rfl
  cases hstart : (beginClaim (σ.state.commitTime sampledMs.toNat) ticket
      (σ.state.commitTime sampledMs.toNat).commitWatermarkMs).2.2 with
  | answered outcome =>
    refine inFlight_kept f hf rfl ?_ ?_
    · unfold Governor.finish Governor.startClaim
      simp only [hstart]
    · rw [hcommit]
      exact beginClaim_answered hstart
  | claiming p =>
    have howed : owedBy σ (.claim ticket sampledMs) = {} := rfl
    have hthreads : (Governor.finish (startClaim σ ticket sampledMs.toNat)).threads =
        σ.threads ++ [.claiming ticket p (startClaim σ ticket sampledMs.toNat).sec.effects
          sampledMs.toNat] := by
      unfold Governor.finish
      rw [hcommit]
      unfold Governor.startClaim
      simp only [hstart]
    rw [hthreads, hcommit, howed, hf]
    exact inFlight_push f σ.threads _

/-- What a call owes after an allocation is what its section returned. -/
theorem inFlight_allocate {i : Nat} {intake : Intake g.policy} {sampledMs : Nat} {taken : Taken}
    (f : TransitionEffects → Nat) (hf : f {} = 0)
    (hthread : σ.threads[i]? = some (.allocating intake sampledMs taken)) :
    inFlight f (Governor.finish (allocate σ i intake sampledMs taken)).threads +
        f (owedBy σ (.allocate i)) =
      inFlight f σ.threads + f (g.commit (allocate σ i intake sampledMs taken).sec
        (allocate σ i intake sampledMs taken).nowMs).2 := by
  have hover : ∀ {event : Event}, inFlight f (Governor.finish
      (unlocked σ (σ.threads.eraseIdx i) event)).threads + f (owedBy σ (.allocate i)) =
        inFlight f σ.threads + f (g.commit (unlocked σ (σ.threads.eraseIdx i) event).sec
          (unlocked σ (σ.threads.eraseIdx i) event).nowMs).2 :=
    inFlight_over f hf hthread rfl rfl rfl
  unfold Governor.allocate
  cases taken with
  | nothing =>
    simp only
    split
    · exact hover
    · exact inFlight_continued f hthread rfl rfl rfl
  | permit permit =>
    simp only
    split
    · exact hover
    · exact inFlight_continued f hthread rfl rfl rfl
  | ticket permit ticket =>
    simp only
    split
    · exact hover
    · exact inFlight_continued f hthread rfl rfl rfl

/-- A reading refused at once owes nothing. -/
theorem reconcileEarly_effects {s : GovernedState} {p : PermitId} {measuredBytes nowMs : Nat}
    {epoch : Option Nat}
    (h : reconcileEarly epoch (g.reconcileMemory s p measuredBytes epoch nowMs).outcome = true) :
    (g.reconcileMemory s p measuredBytes epoch nowMs).effects = {} := by
  rcases reconcileMemory_cases g s p measuredBytes epoch nowMs with ⟨outcome, heq, _⟩ | ⟨error, heq⟩ |
    ⟨record, ledger, _, _, heq, _⟩
  · rw [heq]
  · rw [heq] at h
    simp [reconcileEarly] at h
  · rw [heq]

/-- A stage release itself wakes nobody; its pass may. -/
theorem releaseStage_effects (s : GovernedState) (p : PermitId) (freedUnits : Nat) (sequence : Option Nat)
    (nowMs : Nat) : (g.releaseStage s p freedUnits sequence nowMs).effects = {} := by
  unfold Governor.releaseStage
  split
  · rfl
  · split <;> rfl

/-- A step takes the effects it applied out of flight and puts those it returned into it. -/
theorem prepare_inFlight (f : TransitionEffects → Nat) (hf : f {} = 0) {prepared : g.Prepared}
    (h : Governor.prepare σ a = some prepared) :
    inFlight f (Governor.finish prepared).threads + f (owedBy σ a) =
      inFlight f σ.threads + f (g.commit prepared.sec prepared.nowMs).2 := by
  cases a with
  | call entry sampledMs =>
    simp only [Governor.prepare, Option.some.injEq] at h
    subst h
    unfold Governor.call
    split
    · exact inFlight_kept f hf rfl rfl rfl
    · rename_i intake _
      have hpush := inFlight_push f σ.threads (.allocating intake sampledMs.toNat .nothing)
      have howed : f (Thread.allocating intake sampledMs.toNat .nothing).owed = 0 := hf
      show inFlight f (σ.threads ++ [_]) + f {} = inFlight f σ.threads + f {}
      omega
  | allocate i =>
    simp only [Governor.prepare] at h
    split at h
    · rename_i intake sampledMs taken hthread
      obtain rfl := Option.some.inj h
      exact inFlight_allocate f hf hthread
    · simp at h
  | enter i =>
    simp only [Governor.prepare] at h
    split at h
    · rename_i intake sampledMs ids hthread
      obtain rfl := Option.some.inj h
      exact inFlight_continued f hthread rfl rfl rfl
    · simp at h
  | settle i panicked =>
    simp only [Governor.prepare] at h
    split at h
    · rename_i decision effects sampledMs hthread
      split at h
      · simp at h
      · obtain rfl := Option.some.inj h
        unfold Governor.settle
        split
        · exact inFlight_over f hf hthread rfl rfl rfl
        · exact inFlight_continued f hthread rfl rfl rfl
        · exact inFlight_over f hf hthread rfl rfl rfl
    · simp at h
  | claim ticket sampledMs =>
    simp only [Governor.prepare, Option.some.injEq] at h
    subst h
    exact inFlight_claim f hf σ ticket sampledMs
  | finishClaim i panicked =>
    simp only [Governor.prepare] at h
    split at h
    · rename_i ticket p effects sampledMs hthread
      split at h
      · simp at h
      · obtain rfl := Option.some.inj h
        unfold Governor.endClaim
        split
        · exact inFlight_continued f hthread rfl rfl rfl
        · exact inFlight_over f hf hthread rfl rfl rfl
    · simp at h
  | abandon ticket sampledMs =>
    simp only [Governor.prepare, Option.some.injEq] at h
    exact inFlight_operation f hf rfl h.symm
  | release permitId sampledMs =>
    simp only [Governor.prepare, Option.some.injEq] at h
    exact inFlight_operation f hf rfl h.symm
  | releaseLeased token sampledMs =>
    simp only [Governor.prepare, Option.some.injEq] at h
    exact inFlight_operation f hf rfl h.symm
  | advancePhase permitId phase =>
    simp only [Governor.prepare, Option.some.injEq] at h
    subst h
    exact inFlight_kept f hf rfl rfl rfl
  | reconcileMemory permitId measuredBytes epoch sampledMs =>
    simp only [Governor.prepare, Option.some.injEq] at h
    refine inFlight_operationUnless f hf rfl ?_ h.symm
    exact fun s now h => ⟨reconcileEarly_promotes s _ _ _ now h, reconcileEarly_effects h⟩
  | releaseStageMemory permitId freedUnits sequence sampledMs =>
    simp only [Governor.prepare, Option.some.injEq] at h
    refine inFlight_operationUnless f hf rfl ?_ h.symm
    exact fun s now h => ⟨stageReleaseEarly_promotes s _ _ _ now h, releaseStage_effects _ _ _ _ _⟩
  | reapLeaks staleAfterMs sampledMs =>
    simp only [Governor.prepare, Option.some.injEq] at h
    exact inFlight_operation f hf rfl h.symm
  | closeAdmission =>
    simp only [Governor.prepare, Option.some.injEq] at h
    subst h
    exact inFlight_kept f hf rfl rfl rfl
  | drain i =>
    simp only [Governor.prepare] at h
    split at h
    · rename_i effects sampledMs hthread
      obtain rfl := Option.some.inj h
      unfold Governor.drain
      split
      · exact inFlight_continued f hthread rfl rfl rfl
      · exact inFlight_over f hf hthread rfl rfl rfl
    · simp at h
  | mintElsewhere =>
    simp only [Governor.prepare, Option.some.injEq] at h
    subst h
    exact inFlight_kept f hf rfl rfl rfl

/-! ## The host -/

/-- Every reference returned so far was applied once, or is held by a call that will apply it. -/
structure Delivered (σ : HostSys g) : Prop where
  woken : ∀ w, σ.calls.count (.wake w) + inFlight (fun effects => effects.wake.count w) σ.sys.threads =
    σ.returned.wake.count w
  destroyed : ∀ w, σ.calls.count (.drop w) + inFlight (fun effects => effects.refs w) σ.sys.threads =
    σ.returned.refs w

/-- What is left of it whatever host code does: nothing is woken twice, and nothing is destroyed twice or never. -/
structure Accounted (σ : HostSys g) : Prop where
  woken_le : ∀ w, σ.calls.count (.wake w) + inFlight (fun effects => effects.wake.count w) σ.sys.threads ≤
    σ.returned.wake.count w
  destroyed : ∀ w, σ.calls.count (.drop w) + inFlight (fun effects => effects.refs w) σ.sys.threads =
    σ.returned.refs w

/-- The calls of a step destroy what the call in progress owes, and wake it as `applyEffects` does. -/
theorem count_hostRun {fates : Nat → Fate} {frame : Frame} {σ : g.System} {a : Action}
    (halive : (hostRun fates frame σ a).ending ≠ .aborted) (w : Waker) :
    (hostRun fates frame σ a).calls.count (.drop w) = (owedBy σ a).refs w ∧
      (hostRun fates frame σ a).calls.count (.wake w) = (applyEffects fates (owedBy σ a)).calls.count (.wake w) ∧
      (hostRun fates frame σ a).calls.count (.wake w) ≤ (owedBy σ a).wake.count w := by
  have heffects := applies_effects fates (owedBy σ a)
  have hrun := applies_hostRun fates frame σ a
  have hdropped := hrun.dropped halive w
  have hwoken := hrun.wakes_eq w
  have hbefore := heffects.dropped (hrun.alive halive) w
  have hle := heffects.le w
  simp only [List.count_nil, Nat.zero_add, Nat.add_zero, List.count_append] at hdropped hbefore hle
  exact ⟨by rw [hdropped, hbefore]; rfl, hwoken, by rw [hwoken]; exact hle⟩

/-- What a step made of the calls in progress: it took what it applied out of flight, and put in what it
returned. -/
structure HostMoved (σ σ' : HostSys g) (a : HostAction) (run : HostRun) (effects : TransitionEffects) : Prop where
  alive : run.ending ≠ .aborted
  calls : σ'.calls = σ.calls ++ run.calls
  returned : σ'.returned = σ.returned.absorb effects
  inFlight : ∀ f : TransitionEffects → Nat, f {} = 0 →
    inFlight f σ'.sys.threads + f (owedBy σ.sys a.action) = inFlight f σ.sys.threads + f effects

/-- An action that continues no call leaves none. -/
theorem hostRun_of_thread (fates : Nat → Fate) (frame : Frame) (σ : g.System) {a : Action} (h : a.thread = none) :
    (hostRun fates frame σ a).ending = .contained := by
  have howed : owedBy σ a = {} := by simp [owedBy, h]
  cases a with
  | drain i => simp [Action.thread] at h
  | _ =>
    unfold hostRun
    rw [howed]
    rfl

/-- Only a call in progress can go on. -/
theorem thread_of_prepare {prepared : g.Prepared} {i : Nat} (h : Governor.prepare σ a = some prepared)
    (hi : a.thread = some i) : ∃ th, σ.threads[i]? = some th := by
  cases hthread : σ.threads[i]? with
  | some th => exact ⟨th, rfl⟩
  | none =>
    cases a with
    | allocate j | enter j | settle j panicked | finishClaim j panicked | drain j =>
      obtain rfl : j = i := Option.some.inj hi
      simp [Governor.prepare, hthread] at h
    | _ => simp [Action.thread] at hi

/-- A step of the host is a step of the governor, or the end of a call that is left. -/
theorem hostStep_cases {σ σ' : HostSys g} {a : HostAction} (h : hostStep g σ a = some (σ', e)) :
    ∃ effects, HostMoved σ σ' a (hostRun a.fates (σ.frame a.action) σ.sys a.action) effects ∧
      ((∃ ev, g.step σ.sys a.action = some (σ'.sys, ev)) ∨
        ∃ i, σ'.sys = { σ.sys with threads := σ.sys.threads.eraseIdx i }) := by
  unfold Governor.hostStep at h
  simp only at h
  generalize hrun : hostRun a.fates (σ.frame a.action) σ.sys a.action = run at h ⊢
  split at h
  · split at h
    · rename_i sys event effects hstep hreturned
      obtain ⟨prepared, hp, rfl, _⟩ := step_eq_some hstep
      obtain rfl : (g.commit prepared.sec prepared.nowMs).2 = effects := by
        unfold Governor.returned at hreturned
        rw [hp, Option.map_some] at hreturned
        exact Option.some.inj hreturned
      split at h
      · rename_i hending
        obtain ⟨rfl, rfl⟩ := Prod.mk.inj (Option.some.inj h)
        exact ⟨_, ⟨by simp [hending], rfl, rfl, fun f hf => prepare_inFlight f hf hp⟩, Or.inl ⟨_, hstep⟩⟩
      · rename_i hending
        obtain ⟨rfl, rfl⟩ := Prod.mk.inj (Option.some.inj h)
        cases hi : a.action.thread with
        | none =>
          have hcontained := hostRun_of_thread a.fates (σ.frame a.action) σ.sys hi
          rw [hrun, hending] at hcontained
          simp at hcontained
        | some i =>
          obtain ⟨th, hthread⟩ := thread_of_prepare hp hi
          unfold HostSys.unwound
          simp only [hi]
          refine ⟨{}, ⟨by simp [hending], rfl, ?_, fun f hf => ?_⟩, Or.inr ⟨i, rfl⟩⟩
          · simp [TransitionEffects.absorb]
          · rw [owedBy_thread hthread hi, hf]
            exact inFlight_erase f hthread
      · simp at h
    · simp at h
  · simp at h

/-- A step accounts for every reference, and keeps everything delivered exactly if nobody is passed over. -/
theorem Accounted.step {σ σ' : HostSys g} {a : HostAction} (hacc : Accounted σ) (h : hostStep g σ a = some (σ', e)) :
    Accounted σ' ∧ (Delivered σ' ↔ Delivered σ ∧ ¬ Skips a.fates (owedBy σ.sys a.action)) := by
  obtain ⟨effects, hmoved, _⟩ := hostStep_cases h
  have hcount := count_hostRun hmoved.alive
  have hwoken : ∀ w, σ'.calls.count (.wake w) = σ.calls.count (.wake w) +
      (applyEffects a.fates (owedBy σ.sys a.action)).calls.count (.wake w) := by
    intro w
    rw [hmoved.calls, List.count_append, (hcount w).2.1]
  have hreturned : ∀ w, σ'.returned.wake.count w = σ.returned.wake.count w + effects.wake.count w := by
    intro w
    rw [hmoved.returned]
    exact List.count_append
  have hdestroyed : ∀ w, σ'.calls.count (.drop w) + inFlight (fun effects => effects.refs w) σ'.sys.threads =
      σ'.returned.refs w := by
    intro w
    have hflight := hmoved.inFlight (fun effects => effects.refs w) rfl
    have hbefore := hacc.destroyed w
    have hdropped := (hcount w).1
    rw [hmoved.calls, hmoved.returned, List.count_append, refs_absorb]
    omega
  have hle : ∀ w, (applyEffects a.fates (owedBy σ.sys a.action)).calls.count (.wake w) ≤
      (owedBy σ.sys a.action).wake.count w := fun w => (hcount w).2.1 ▸ (hcount w).2.2
  refine ⟨⟨fun w => ?_, hdestroyed⟩, ⟨fun hd => ⟨⟨fun w => ?_, hacc.destroyed⟩, ?_⟩, fun ⟨hd, hspares⟩ => ⟨fun w => ?_, hdestroyed⟩⟩⟩
  · have hflight := hmoved.inFlight (fun effects => effects.wake.count w) rfl
    have hbefore := hacc.woken_le w
    have hmade := hle w
    rw [hwoken, hreturned]
    omega
  · have hflight := hmoved.inFlight (fun effects => effects.wake.count w) rfl
    have hbefore := hacc.woken_le w
    have hafter := hd.woken w
    have hmade := hle w
    rw [hwoken, hreturned] at hafter
    omega
  · refine (woken_iff _ _).mp fun w => ?_
    have hflight := hmoved.inFlight (fun effects => effects.wake.count w) rfl
    have hbefore := hacc.woken_le w
    have hafter := hd.woken w
    have hmade := hle w
    rw [hwoken, hreturned] at hafter
    omega
  · have hflight := hmoved.inFlight (fun effects => effects.wake.count w) rfl
    have hbefore := hd.woken w
    have hmade := (woken_iff _ _).mpr hspares w
    rw [hwoken, hreturned]
    omega

/-- A call that is left takes its identities with it, if it had any. -/
theorem SysInv.erase (hinv : SysInv σ) (i : Nat) :
    SysInv ({ σ with threads := σ.threads.eraseIdx i } : g.System) := by
  have hheld : ∀ {α : Type} (f : Thread g.policy → Option α),
      ((σ.threads.eraseIdx i).filterMap f).Sublist (σ.threads.filterMap f) := fun f =>
    (List.eraseIdx_sublist ..).filterMap f
  refine ⟨hinv.state, hinv.permits.less (hheld _).subperm fun _ h => h,
    hinv.tickets.less (hheld _).subperm fun _ h => h, hinv.seqs.less (hheld _).subperm fun _ h => h, ?_, hinv.counter,
    fun t p effects sampledMs hmem => ?_⟩
  · have hlength := (hheld Thread.ticketSeq).length_le
    exact Nat.lt_of_le_of_lt (Nat.add_le_add_left hlength _) hinv.load
  · obtain ⟨⟨hlt, hnot⟩, hfinds⟩ := hinv.claims t p effects sampledMs (List.mem_of_mem_eraseIdx hmem)
    exact ⟨⟨hlt, fun hmem => hnot ((hheld _).subset hmem)⟩, hfinds⟩

/-- A host step keeps the invariant: it is a step of the governor, or a call that is left. -/
theorem SysInv.hostStep {σ σ' : HostSys g} {a : HostAction} (hinv : SysInv σ.sys)
    (h : Governor.hostStep g σ a = some (σ', e)) : SysInv σ'.sys := by
  obtain ⟨_, _, ⟨ev, hstep⟩ | ⟨i, hleft⟩⟩ := hostStep_cases h
  · exact hinv.step hstep
  · rw [hleft]
    exact hinv.erase i

/-- A call goes on as after a panic only where it ran host code. -/
theorem prepare_touchesHost {prepared : g.Prepared} (h : Governor.prepare σ a = some prepared)
    (hpanicked : a.panicked = some true) : touchesHost (owedBy σ a) = true := by
  cases a with
  | settle i panicked =>
    obtain rfl : panicked = true := Option.some.inj hpanicked
    simp only [Governor.prepare] at h
    split at h
    · rename_i decision effects sampledMs hthread
      rw [owedBy_thread hthread rfl]
      by_contra hnot
      simp [Thread.owed] at hnot
      simp [hnot] at h
    · simp at h
  | finishClaim i panicked =>
    obtain rfl : panicked = true := Option.some.inj hpanicked
    simp only [Governor.prepare] at h
    split at h
    · rename_i ticket p effects sampledMs hthread
      rw [owedBy_thread hthread rfl]
      by_contra hnot
      simp [Thread.owed] at hnot
      simp [hnot] at h
    · simp at h
  | _ => simp [Action.panicked] at hpanicked

/-- Host code that panics wherever it is called, or nowhere, with payloads that can be destroyed. -/
def evenly (panicked : Bool) (_ : Nat) : Fate := if panicked then .panics false else .returns

/-- Fates that differ by whether they panic at all never hand out a payload that panics. -/
theorem evenly_calm (panicked : Bool) (k : Nat) : evenly panicked k ≠ .panics true := by
  cases panicked <;> simp [evenly]

/-- Every panic is contained, and the first one is seen. -/
structure Calm (panicked : Bool) (run : HostRun) : Prop where
  contained : run.ending = .contained
  first : run.firstPanic.isSome = (panicked && !run.calls.isEmpty)
  kept : run.firstPanic ≠ some true

/-- One more host call stays calm. -/
theorem Calm.contain {panicked : Bool} {run : HostRun} (h : Calm panicked run) (call : HostCall) :
    Calm panicked (run.contain (evenly panicked) call) := by
  obtain ⟨hcontained, hfirst, hkept⟩ := h
  have hcalls := (contain_contained (evenly panicked) hcontained call).1
  unfold HostRun.contain evenly HostRun.getOrInsert at hcalls ⊢
  rw [hcontained] at hcalls ⊢
  cases panicked with
  | false =>
    refine ⟨rfl, ?_, hkept⟩
    simpa using hfirst
  | true =>
    cases hpanic : run.firstPanic with
    | none => exact ⟨by simp, by simp, by simp⟩
    | some payload =>
      rw [hpanic] at hkept
      exact ⟨by simp, by simp, by simpa using hkept⟩

theorem Calm.dropPayload {panicked : Bool} {run : HostRun} (h : Calm panicked run) :
    Calm panicked run.dropPayload := by
  unfold HostRun.dropPayload
  rwa [if_neg (by simp [h.contained])]

/-- Applying effects stays calm, and makes a call exactly where there is something to touch. -/
theorem calm_applyEffects (panicked : Bool) (effects : TransitionEffects) :
    Calm panicked (applyEffects (evenly panicked) effects) ∧
      ((applyEffects (evenly panicked) effects).calls.isEmpty = !touchesHost effects) := by
  have hwakes : ∀ (wakers : List Waker) (run : HostRun), Calm panicked run →
      Calm panicked (run.wakeEach (evenly panicked) wakers) := by
    intro wakers
    induction wakers with
    | nil => exact fun run h => h
    | cons w rest ih => exact fun run h => ih _ ((h.contain _).contain _)
  have hdrops : ∀ (wakers : List Waker) (run : HostRun), Calm panicked run →
      Calm panicked (run.dropEach (evenly panicked) wakers) := by
    intro wakers
    induction wakers with
    | nil => exact fun run h => h
    | cons w rest ih => exact fun run h => ih _ (h.contain _)
  have hcalm : Calm panicked (applyEffects (evenly panicked) effects) :=
    (hdrops _ _ (hwakes _ _ ⟨rfl, by simp, by simp⟩).dropPayload).dropPayload
  refine ⟨hcalm, ?_⟩
  have hcount := (applies_effects (evenly panicked) effects).dropped (by simp [hcalm.contained])
  cases howed : effects.wake ++ effects.retire with
  | nil =>
    obtain ⟨hwake, hretire⟩ := List.append_eq_nil_iff.mp howed
    simp [applyEffects, HostRun.wakeEach, HostRun.dropEach, HostRun.dropPayload, touchesHost, hwake, hretire]
  | cons w rest =>
    have htouches : touchesHost effects = true := by
      unfold touchesHost
      cases hwake : effects.wake with
      | nil =>
        rw [hwake, List.nil_append] at howed
        simp [howed]
      | cons w' rest' => simp
    have hpos := hcount w
    rw [howed, List.count_cons_self] at hpos
    rw [htouches, Bool.not_true, List.isEmpty_eq_false_iff]
    intro hnil
    rw [hnil] at hpos
    simp at hpos

/-- No call in progress keeps a payload that panics. -/
def CalmFrames (σ : HostSys g) : Prop := ∀ f ∈ σ.frames, f.firstPanic ≠ some true ∧ f.original ≠ some true

/-- The frame of every call keeps calm payloads only. -/
theorem CalmFrames.frame {σ : HostSys g} (h : CalmFrames σ) (a : Action) :
    (σ.frame a).firstPanic ≠ some true ∧ (σ.frame a).original ≠ some true := by
  unfold HostSys.frame
  cases hframe : a.thread.bind fun i => σ.frames[i]? with
  | none => simp
  | some f =>
    obtain ⟨i, _, hf⟩ := Option.bind_eq_some_iff.mp hframe
    exact h f (List.mem_of_getElem? hf)

/-- Such host code lets every call go on as the governor does. -/
theorem hostRun_evenly {frame : Frame} {σ : g.System} {a : Action}
    (hframe : frame.firstPanic ≠ some true ∧ frame.original ≠ some true) :
    (hostRun (evenly (a.panicked.getD false)) frame σ a).ending = .contained ∧
      (hostRun (evenly (a.panicked.getD false)) frame σ a).firstPanic ≠ some true ∧
      ∀ panicked, a.panicked = some panicked →
        (hostRun (evenly (a.panicked.getD false)) frame σ a).firstPanic.isSome =
          (panicked && touchesHost (owedBy σ a)) := by
  obtain ⟨hcalm, htouches⟩ := calm_applyEffects (a.panicked.getD false) (owedBy σ a)
  cases a with
  | drain i =>
    have hnone : (applyEffects (evenly false) (owedBy σ (.drain i))).firstPanic = none := by
      have hfirst := hcalm.first
      simpa [Action.panicked] using hfirst
    have hkeep : frame.keep (applyEffects (evenly false) (owedBy σ (.drain i))) =
        { applyEffects (evenly false) (owedBy σ (.drain i)) with firstPanic := frame.firstPanic } := by
      have hcontained : (applyEffects (evenly false) (owedBy σ (.drain i))).ending = .contained := hcalm.contained
      simp [Frame.keep, hnone, HostRun.dropPayload, hcontained]
    have hcontained : (applyEffects (evenly false) (owedBy σ (.drain i))).ending = .contained := hcalm.contained
    have hcompensate : ∀ run : HostRun, run.ending = .contained → run.firstPanic ≠ some true →
        (frame.compensate run).ending = .contained ∧ (frame.compensate run).firstPanic ≠ some true := by
      intro run hrun hpanic
      unfold Frame.compensate
      split
      · simp [HostRun.dropPayload, hrun, hpanic, hframe.2]
      · exact ⟨hrun, hpanic⟩
    have hboth : (hostRun (evenly false) frame σ (.drain i)).ending = .contained ∧
        (hostRun (evenly false) frame σ (.drain i)).firstPanic ≠ some true := by
      unfold hostRun
      simp only [hkeep]
      split
      · refine hcompensate _ ?_ ?_
        · simp [HostRun.contain, evenly, hcontained, HostRun.dropPayload]
        · simpa [HostRun.contain, evenly, hcontained, HostRun.dropPayload] using hframe.1
      · rw [if_neg (by simp [hcontained])]
        exact ⟨hcontained, hframe.1⟩
    exact ⟨hboth.1, hboth.2, by simp [Action.panicked]⟩
  | _ =>
    refine ⟨hcalm.contained, hcalm.kept, fun panicked hpanicked => ?_⟩
    unfold hostRun
    simp only
    rw [hcalm.first, htouches, hpanicked]
    simp

/-- Whatever the governor does, it does for some fate of its host code. -/
theorem hostStep_of_step {σ : HostSys g} {sys : g.System} (hframes : CalmFrames σ)
    (h : g.step σ.sys a = some (sys, e)) :
    ∃ σ', hostStep g σ ⟨a, evenly (a.panicked.getD false)⟩ = some (σ', e) ∧ σ'.sys = sys ∧ CalmFrames σ' := by
  obtain ⟨prepared, hp, _, _⟩ := step_eq_some h
  have hreturned : Governor.returned σ.sys a = some (g.commit prepared.sec prepared.nowMs).2 := by
    simp [Governor.returned, hp]
  obtain ⟨hcontained, hkept, hfirst⟩ := hostRun_evenly (σ := σ.sys) (a := a) (hframes.frame a)
  refine ⟨⟨sys, σ.nextFrames a (hostRun (evenly (a.panicked.getD false)) (σ.frame a) σ.sys a) sys,
    σ.calls ++ (hostRun (evenly (a.panicked.getD false)) (σ.frame a) σ.sys a).calls,
    σ.returned.absorb (g.commit prepared.sec prepared.nowMs).2⟩, ?_, rfl, ?_⟩
  · have hconsistent : (a.panicked.all fun panicked =>
        panicked == (hostRun (evenly (a.panicked.getD false)) (σ.frame a) σ.sys a).firstPanic.isSome) = true := by
      cases hpanicked : a.panicked with
      | none => rfl
      | some panicked =>
        rw [hpanicked] at hfirst
        rw [Option.all_some, hfirst panicked rfl]
        cases panicked with
        | false => rfl
        | true => simp [prepare_touchesHost hp hpanicked]
    unfold Governor.hostStep
    simp only [hconsistent, if_true, h, hreturned, hcontained]
  · intro f hf
    unfold HostSys.nextFrames at hf
    split at hf
    · rcases List.mem_append.mp hf with hf | hf
      · exact hframes f hf
      · rw [(List.mem_replicate.mp hf).2]
        simp
    · split at hf
      · exact hframes f (List.mem_of_mem_eraseIdx hf)
      · rcases List.mem_or_eq_of_mem_set hf with hf | rfl
        · exact hframes f hf
        · unfold Frame.after
          split
          · exact ⟨hkept, (hframes.frame _).2⟩
          · exact ⟨by simp, hkept⟩

/-! ## Wakers over a step and over a run -/

/-- The reference an admission brings when it takes the lock. -/
def passed (σ : g.System) : Action → Option Waker
  | .enter i =>
    match σ.threads[i]? with
    | some (.admitting intake _ _) => intake.waker
    | _ => none
  | _ => none

theorem passed_of_not_enter (hother : ∀ i, a ≠ .enter i) : passed σ a = none := by
  cases a with
  | enter i => exact absurd rfl (hother i)
  | _ => rfl

/-- What a step that returns `effects` does with host references. -/
structure WakersKept (σ σ' : g.System) (a : Action) (e : Event) (effects : TransitionEffects) : Prop where
  /-- A ticket moves on by its own claim or abandon, or its waker is woken. -/
  woken : ∀ t w, Registered σ.state t w → (∀ sampledMs, a ≠ .claim t sampledMs) →
    (∀ sampledMs, a ≠ .abandon t sampledMs) →
    σ'.state.tickets[t]? = σ.state.tickets[t]? ∨ w ∈ effects.wake
  /-- A ticket keeps its waker as long as it is queued or granted. -/
  registered : ∀ t w, Registered σ.state t w → Registered σ'.state t w ∨ Parted σ'.state t
  queued : ∀ ids t w, e = .decided ids (.queued t) → passed σ a = some w → Registered σ'.state t w
  /-- What was held or brought is held or returned; a grant keeps a second reference. -/
  conserved : ∀ w, heldRefs σ'.state w + effects.wake.count w + effects.retire.count w =
    heldRefs σ.state w + refTo (passed σ a) w + mintedRefs σ.state σ'.state w
  minted : ∀ w, mintedRefs σ.state σ'.state w ≤ effects.wake.count w

/-- A step that takes no identities into the lock. -/
theorem SysInv.wakersKept_of_not_enter (hinv : SysInv σ) {prepared : g.Prepared}
    (h : Governor.prepare σ a = some prepared) (hother : ∀ i, a ≠ .enter i) :
    WakersKept σ (Governor.finish prepared) a e (g.commit prepared.sec prepared.nowMs).2 := by
  have hpassed := passed_of_not_enter (σ := σ) hother
  refine ⟨fun t w hregistered hclaim habandon => ?_, fun t w hregistered => ?_, fun ids t w _ hw => ?_,
    fun w => ?_, fun w => (hinv.prepare_refs h hother w).2⟩
  · -- The claiming call of a ticket does not find it queued or granted.
    have hnot : ¬ (callerOf σ a).tickets t := by
      rintro (⟨sampledMs, rfl⟩ | ⟨sampledMs, rfl⟩ | ⟨i, panicked, p, effects, sampledMs, rfl, hthread⟩)
      · exact hclaim sampledMs rfl
      · exact habandon sampledMs rfl
      · have hfinds := (hinv.claims t p effects sampledMs (List.mem_of_getElem? hthread)).2
        rcases hregistered with ⟨c, hticket, _⟩ | ⟨q, record, hticket, _⟩
        · simp [ClaimFinds, hticket, TicketBook.isTerminal] at hfinds
        · simp [ClaimFinds, hticket, TicketBook.isTerminal] at hfinds
    rcases hinv.prepare_heard h hother hregistered with ⟨_, hmoved⟩ | ⟨_, howner | hwoken⟩
    · exact hmoved
    · exact absurd howner hnot
    · exact Or.inr hwoken
  · rcases hinv.prepare_heard h hother hregistered with ⟨hkept, _⟩ | ⟨hparted, _⟩
    · exact Or.inl hkept
    · exact Or.inr hparted
  · rw [hpassed] at hw
    simp at hw
  · have hrefs := (hinv.prepare_refs h hother w).1
    have hzero : refTo (passed σ a) w = 0 := by simp [refTo, hpassed]
    unfold TransitionEffects.refs at hrefs
    show heldRefs (g.commit prepared.sec prepared.nowMs).1 w + _ + _ =
      heldRefs σ.state w + _ + mintedRefs σ.state (g.commit prepared.sec prepared.nowMs).1 w
    omega

/-- A registration does not depend on the clock. -/
theorem registered_commitTime {s : GovernedState} {t : Ticket} {w : Waker} (sampledMs : Nat)
    (h : Registered s t w) : Registered (s.commitTime sampledMs) t w :=
  h.mono (fun _ _ hr => hr) (fun _ _ hp => hp) rfl

/-- The locked section of an admission. -/
theorem SysInv.wakersKept_enter (hinv : SysInv σ) {i : Nat} (h : g.step σ (.enter i) = some (σ', e)) :
    ∃ effects, Governor.returned σ (.enter i) = some effects ∧
      WakersKept σ σ' (.enter i) e effects := by
  obtain ⟨intake, sampledMs, ids, decision, hthread, rfl, hentered⟩ := hinv.step_entered h
  have hfresh := (hinv.fresh (List.mem_of_getElem? hthread)).commitTime sampledMs
  have hprepare : Governor.prepare σ (.enter i) = some (Governor.enter σ i intake sampledMs ids) := by
    simp [Governor.prepare, hthread]
  have hpassed : passed σ (.enter i) = intake.waker := by simp [passed, hthread]
  have hcommit : g.commit (Governor.enter σ i intake sampledMs ids).sec
      (Governor.enter σ i intake sampledMs ids).nowMs =
        ((Governor.enter σ i intake sampledMs ids).sec.state,
          (Governor.enter σ i intake sampledMs ids).sec.effects) := commit_of_not_promotes _ _ rfl
  refine ⟨(Governor.enter σ i intake sampledMs ids).sec.effects, ?_, ?_⟩
  · simp [Governor.returned, hprepare, hcommit]
  have hinv' := hinv.step_state h
  obtain ⟨prepared, hp, hσ', houtcome⟩ := step_eq_some h
  obtain rfl : Governor.enter σ i intake sampledMs ids = prepared :=
    Option.some.inj (hprepare.symm.trans hp)
  have hstate : σ'.state = (Governor.enter σ i intake sampledMs ids).sec.state := by
    rw [hσ']
    unfold Governor.finish
    rw [hcommit]
  have hdecision : decision = (admitRequest (σ.state.commitTime sampledMs) g.policy
      (σ.state.commitTime sampledMs).commitWatermarkMs intake.request intake.waker ids {}).decision := by
    simpa [Governor.enter] using houtcome
  have hsettled : WakerSettled intake.waker {}
      ⟨σ'.state, (Governor.enter σ i intake sampledMs ids).sec.effects, decision⟩ := by
    rw [hstate, hdecision]
    exact admit_settled
  have hrefs := hentered.refs hfresh hsettled
  refine ⟨fun t w hregistered _ _ => ?_, fun t w hregistered => ?_, fun ids' t w hqueued hw => ?_,
    fun w => ?_, fun w => ?_⟩
  · exact Or.inl (hentered.registered hfresh (registered_commitTime sampledMs hregistered)).2
  · exact Or.inl (hentered.registered hfresh (registered_commitTime sampledMs hregistered)).1
  · simp only [Event.decided.injEq] at hqueued
    obtain ⟨rfl, hqueued⟩ := hqueued
    rw [hpassed] at hw
    generalize hs' : σ'.state = s' at hentered hinv'
    cases hentered with
    | refused cycle => simp at hqueued
    | granted accepted runnable => simp at hqueued
    | @queued policy c blockers accepted blocked sound room =>
      obtain rfl : ids.ticket = t := by simpa using hqueued
      have hres := rescheduled_enqueueTags (σ.state.commitTime sampledMs) c policy
        (resolveCost policy).cpuUnits (σ.state.commitTime sampledMs).commitWatermarkMs
      refine (hinv'.tickets.registered_waiting (c := c) ((pushed_commitPending hres).mem_iff.mpr
        (Or.inr ⟨rfl, rfl⟩)) ?_ ?_).1
      · rfl
      · exact hw
  · have hzero := (hrefs w).2
    have hsum := (hrefs w).1
    have hminted : mintedRefs σ.state σ'.state w = mintedRefs (σ.state.commitTime sampledMs) σ'.state w := rfl
    have hheld : heldRefs (σ.state.commitTime sampledMs) w = heldRefs σ.state w := rfl
    unfold TransitionEffects.refs at hsum
    rw [hpassed]
    omega
  · have hminted : mintedRefs σ.state σ'.state w = mintedRefs (σ.state.commitTime sampledMs) σ'.state w := rfl
    rw [hminted, (hrefs w).2]
    exact Nat.zero_le _

/-- A governor with nothing in progress and nothing called. -/
def hostInit (g : Governor) : HostSys g := { sys := g.init }

/-- A step that lets nobody be passed over. -/
def sparing (σ : HostSys g) (a : HostAction) : Bool := !decide (Skips a.fates (owedBy σ.sys a.action))

/-- At the start nothing is owed and nobody waits. -/
theorem accounted_init (g : Governor) : Accounted (hostInit g) ∧ Delivered (hostInit g) :=
  ⟨⟨fun w => by simp [hostInit, inFlight, Governor.init], fun w => by simp [hostInit, inFlight, Governor.init]⟩,
    ⟨fun w => by simp [hostInit, inFlight, Governor.init], fun w => by simp [hostInit, inFlight, Governor.init]⟩⟩

/-- Whatever host code does: every step of the governor keeps or returns every reference and wakes whoever it
concerns, every reference that was returned is destroyed once, and none is woken twice. Everybody is woken who was to be, in
every run whose every step is sparing; and a step that is not sparing passes somebody over for good.
Every run of the governor is a sparing run of its host. -/
theorem wakers_delivered (g : Governor) :
    (∀ σ : HostSys g, Runs.Reachable (hostStep g) (hostInit g) σ → Accounted σ ∧
      ∀ (sys : g.System) (a : Action) (e : Event), g.step σ.sys a = some (sys, e) →
        ∃ effects, Governor.returned σ.sys a = some effects ∧ WakersKept σ.sys sys a e effects) ∧
    (∀ σ : HostSys g, Runs.Reachable (Runs.guarded sparing (hostStep g)) (hostInit g) σ → Delivered σ) ∧
    (∀ (σ σ' : HostSys g) (a : HostAction) (e : Event), Runs.Reachable (hostStep g) (hostInit g) σ →
      hostStep g σ a = some (σ', e) → (Delivered σ' ↔ Delivered σ ∧ sparing σ a = true)) ∧
    ∀ σ : g.System, g.Reachable σ →
      ∃ host : HostSys g, Runs.Reachable (Runs.guarded sparing (hostStep g)) (hostInit g) host ∧ host.sys = σ := by
  have haccounted : ∀ σ : HostSys g, Runs.Reachable (hostStep g) (hostInit g) σ → Accounted σ := fun σ h =>
    h.invariant (accounted_init g).1 fun _ _ _ _ hacc hstep => (hacc.step hstep).1
  refine ⟨fun σ hreachable => ⟨haccounted σ hreachable, fun sys a e hstep => ?_⟩, fun σ hreachable => ?_,
    fun σ σ' a e hreachable hstep => ?_, fun σ hreachable => ?_⟩
  · have hinv : SysInv σ.sys := hreachable.invariant (P := fun τ => SysInv τ.sys) (sysInv_init g)
      fun _ _ _ _ hinv hstep => hinv.hostStep hstep
    by_cases hother : ∀ i, a ≠ .enter i
    · obtain ⟨prepared, hp, rfl, _⟩ := step_eq_some hstep
      exact ⟨_, by simp [Governor.returned, hp], hinv.wakersKept_of_not_enter hp hother⟩
    · push Not at hother
      obtain ⟨i, rfl⟩ := hother
      exact hinv.wakersKept_enter hstep
  · have hboth : Accounted σ ∧ Delivered σ := by
      refine hreachable.invariant (P := fun τ => Accounted τ ∧ Delivered τ) (accounted_init g) ?_
      rintro τ a υ e ⟨hacc, hd⟩ hstep
      obtain ⟨hspares, hstep⟩ := Runs.guarded_eq_some.mp hstep
      obtain ⟨hacc', hiff⟩ := hacc.step hstep
      exact ⟨hacc', hiff.mpr ⟨hd, by simpa [sparing] using hspares⟩⟩
    exact hboth.2
  · rw [((haccounted σ hreachable).step hstep).2]
    simp [sparing]
  · have hboth : ∃ host : HostSys g, Runs.Reachable (Runs.guarded sparing (hostStep g)) (hostInit g) host ∧
        host.sys = σ ∧ CalmFrames host := by
      refine hreachable.invariant (P := fun σ => ∃ host : HostSys g,
        Runs.Reachable (Runs.guarded sparing (hostStep g)) (hostInit g) host ∧ host.sys = σ ∧ CalmFrames host)
        ⟨_, Runs.Reachable.refl _, rfl, by simp [CalmFrames, hostInit]⟩ ?_
      rintro τ a υ e ⟨host, hhost, rfl, hframes⟩ hstep
      obtain ⟨host', hstep', rfl, hframes'⟩ := hostStep_of_step hframes hstep
      refine ⟨host', hhost.next (Runs.guarded_eq_some.mpr ⟨?_, hstep'⟩), rfl, hframes'⟩
      have hspares := not_skips_of_calm (evenly_calm (a.panicked.getD false)) (owedBy host.sys a)
      simpa [sparing] using hspares
    obtain ⟨host, hhost, hsys, _⟩ := hboth
    exact ⟨host, hhost, hsys⟩

namespace Sample

/-- One task holds the only slot and another one waits behind it with a waker. -/
def notified : governor.System :=
  (Runs.replay governor.step governor.init (admission (.admitSpec (task "a")) ++
    admission (.admitWaitable (task "b") ⟨9⟩))).getD governor.init

/-- A task that takes every CPU, and a class with room for three tasks at once. -/
def hall : Governor :=
  ⟨7, PolicySet.new ⟨4, 8, 0, 0, ⟨0⟩⟩
    (((∅ : BTreeMap TaskClass ClassPolicy).insert ⟨"heavy"⟩ { classPolicy with permitCost := ⟨4, 2⟩ }).insert ⟨"work"⟩
      { classPolicy with maxInflight := 3 }) 1, by decide +kernel⟩

/-- Three tasks wait with their wakers for the first one, which is released. -/
def crowdedRelease : List Action :=
  admission (.admitSpec { task "h" with
      taskClass := ⟨"heavy"⟩
      stages := [⟨⟨"heavy"⟩, ⟨"run"⟩, .asyncIo, false, none⟩] }) ++
    admission (.admitWaitable (task "a") ⟨1⟩) ++ admission (.admitWaitable (task "b") ⟨2⟩) ++
    admission (.admitWaitable (task "c") ⟨3⟩) ++ [.release ⟨7, 1⟩ 5]

/-- The first two wakes panic, and the payload of the second one when it is destroyed. -/
def clumsy : Nat → Fate
  | 0 => .panics false
  | 2 => .panics true
  | _ => .returns

/-- The call that released them is left while it wakes the second one. -/
def overlooked : HostSys hall :=
  (Runs.replay (hostStep hall) (hostInit hall)
    (crowdedRelease.map (fun a => ⟨a, fun _ => .returns⟩) ++ [⟨.drain 0, clumsy⟩])).getD (hostInit hall)

end Sample

/-- The release of the slot grants the waiting ticket and wakes its waker. -/
theorem sample_wakers : ∃ σ' effects, Sample.governor.step Sample.notified (.release ⟨7, 1⟩ 5) =
      some (σ', .released ⟨7, 1⟩ .released) ∧
    Governor.returned Sample.notified (.release ⟨7, 1⟩ 5) = some effects ∧
    σ'.state.tickets[(⟨7, 2⟩ : Ticket)]? = some (.granted ⟨7, 2⟩) ∧ (⟨9⟩ : Waker) ∈ effects.wake := by
  have hreachable : Sample.governor.Reachable Sample.notified :=
    Runs.reachable_replay Sample.governor.init _
  have hqueued : Sample.notified.state.tickets[(⟨7, 2⟩ : Ticket)]? = some (.queued ⟨"work"⟩) := by
    decide +kernel
  have hentry : ((Sample.notified.state.cls ⟨"work"⟩).queue.any fun r =>
      decide (r.ticket = ⟨7, 2⟩ ∧ r.waker = some ⟨9⟩)) = true := by decide +kernel
  have hstep : ((Sample.governor.step Sample.notified (.release ⟨7, 1⟩ 5)).any fun next =>
      decide (next.2 = .released ⟨7, 1⟩ .released ∧
        next.1.state.tickets[(⟨7, 2⟩ : Ticket)]? = some (.granted ⟨7, 2⟩))) = true := by decide +kernel
  obtain ⟨r, hr, hmatch⟩ := List.any_eq_true.mp hentry
  obtain ⟨⟨σ', e⟩, hnext, hafter⟩ := (Option.any_eq_true _ _).mp hstep
  obtain ⟨rfl, hgranted⟩ := of_decide_eq_true hafter
  have hregistered : Registered Sample.notified.state ⟨7, 2⟩ ⟨9⟩ :=
    Or.inl ⟨⟨"work"⟩, hqueued, r, hr, of_decide_eq_true hmatch⟩
  obtain ⟨hsteps, _, _, hhosts⟩ := wakers_delivered Sample.governor
  obtain ⟨host, ⟨trace, hrun⟩, hsys⟩ := hhosts Sample.notified hreachable
  obtain ⟨effects, hreturned, hkept⟩ := (hsteps host ⟨trace, hrun.of_guarded⟩).2 σ' _ _ (hsys ▸ hnext)
  rw [hsys] at hreturned hkept
  refine ⟨σ', effects, hnext, hreturned, hgranted, ?_⟩
  rcases hkept.woken ⟨7, 2⟩ ⟨9⟩ hregistered (by simp) (by simp) with hsame | hwoken
  · have hgranted' : σ'.state.tickets[(⟨7, 2⟩ : Ticket)]? = some (.granted ⟨7, 2⟩) := hgranted
    rw [hsame, hqueued] at hgranted'
    simp at hgranted'
  · exact hwoken

/-- A waiter that was granted its permit is not woken, and no call is left that would: the payload of the
second panic was destroyed where nothing contains its own. -/
theorem overlooked_waiter : Runs.Reachable (hostStep Sample.hall) (hostInit Sample.hall) Sample.overlooked ∧
    Sample.overlooked.sys.threads.length = 0 ∧
    Sample.overlooked.sys.state.tickets[(⟨7, 4⟩ : Ticket)]? = some (.granted ⟨7, 4⟩) ∧
    Sample.overlooked.returned.wake = [⟨1⟩, ⟨2⟩, ⟨3⟩] ∧
    Sample.overlooked.calls = [.wake ⟨1⟩, .drop ⟨1⟩, .wake ⟨2⟩, .drop ⟨2⟩, .drop ⟨3⟩] ∧
    ¬ Delivered Sample.overlooked := by
  have hthreads : Sample.overlooked.sys.threads.length = 0 := by decide +kernel
  have hreturned : Sample.overlooked.returned.wake = [⟨1⟩, ⟨2⟩, ⟨3⟩] := by decide +kernel
  have hcalls : Sample.overlooked.calls = [.wake ⟨1⟩, .drop ⟨1⟩, .wake ⟨2⟩, .drop ⟨2⟩, .drop ⟨3⟩] := by decide +kernel
  refine ⟨Runs.reachable_replay _ _, hthreads, by decide +kernel, hreturned, hcalls, fun hdelivered => ?_⟩
  have hwoken := hdelivered.woken ⟨3⟩
  rw [hcalls, hreturned, List.length_eq_zero_iff.mp hthreads] at hwoken
  simp [inFlight] at hwoken

end Taskmesh
