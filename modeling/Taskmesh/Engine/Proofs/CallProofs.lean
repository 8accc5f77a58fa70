import Taskmesh.Collections.Slots
import Taskmesh.Engine.Proofs.HandleProofs

/-!
# Calls in progress

What one step does to the calls in progress, call by call: the one that starts, goes on or is over, and
what its caller hears then.
-/

namespace Taskmesh

open Std MachineInt Governor

variable {g : Governor} {σ σ' : g.System} {a : Action} {e : Event}

/-- The call is over but for what is left to retire. -/
def Thread.drains : Thread g.policy → Bool
  | .draining _ _ => true
  | _ => false

/-- A step of the system as one call sees it, before and after. -/
inductive Calls : Action → Event → Option (Thread g.policy) → Option (Thread g.policy) → Prop
  | called {entry : AdmitCall} {intake : Intake g.policy} (sampledMs : UInt64)
      (accepted : preflight g.policy entry = .ok intake) :
      Calls (.call entry sampledMs) .progressed none (some (.allocating intake sampledMs.toNat .nothing))
  | refused {entry : AdmitCall} {answer : AdmitAnswer} (sampledMs : UInt64)
      (refused : preflight g.policy entry = .error answer) : Calls (.call entry sampledMs) (.answered answer) none none
  | took (i : Nat) (intake : Intake g.policy) (sampledMs : Nat) (taken taken' : Taken) :
      Calls (.allocate i) .progressed (some (.allocating intake sampledMs taken))
        (some (.allocating intake sampledMs taken'))
  | numbered (i : Nat) (intake : Intake g.policy) (sampledMs : Nat) (taken : Taken) (ids : Ids) :
      Calls (.allocate i) .progressed (some (.allocating intake sampledMs taken))
        (some (.admitting intake sampledMs ids))
  | exhausted (i : Nat) (intake : Intake g.policy) (sampledMs : Nat) (taken : Taken) :
      Calls (.allocate i) (.answered (.ok (.rejected .identityExhausted)))
        (some (.allocating intake sampledMs taken)) none
  | entered (i : Nat) (intake : Intake g.policy) (sampledMs : Nat) (ids : Ids) (decision : AdmissionDecision)
      (effects : TransitionEffects) :
      Calls (.enter i) (.decided ids decision) (some (.admitting intake sampledMs ids))
        (some (.settling decision effects sampledMs))
  | settled (i : Nat) (decision : AdmissionDecision) (effects : TransitionEffects) (sampledMs : Nat) :
      Calls (.settle i false) (.answered (.ok decision)) (some (.settling decision effects sampledMs)) none
  | compensated (i : Nat) (decision : AdmissionDecision) (effects : TransitionEffects) (sampledMs : Nat)
      {next : Option (Thread g.policy)} (drains : next.all Thread.drains = true) :
      Calls (.settle i true) .panicked (some (.settling decision effects sampledMs)) next
  | begun (ticket : Ticket) (p : PermitId) (effects : TransitionEffects) (sampledMs : UInt64) :
      Calls (.claim ticket sampledMs) .progressed none (some (.claiming ticket p effects sampledMs.toNat))
  | told (ticket : Ticket) (outcome : ClaimOutcome) (sampledMs : UInt64) (waits : ∀ p, outcome ≠ .ready p) :
      Calls (.claim ticket sampledMs) (.claimed ticket outcome) none none
  | claimed (i : Nat) (ticket : Ticket) (p : PermitId) (effects : TransitionEffects) (sampledMs : Nat)
      (outcome : ClaimOutcome) :
      Calls (.finishClaim i false) (.claimed ticket outcome) (some (.claiming ticket p effects sampledMs)) none
  | undone (i : Nat) (ticket : Ticket) (p : PermitId) (effects : TransitionEffects) (sampledMs : Nat)
      (next : Thread g.policy) (drains : next.drains = true) :
      Calls (.finishClaim i true) .panicked (some (.claiming ticket p effects sampledMs)) (some next)
  | drained (i : Nat) {old : Thread g.policy} {next : Option (Thread g.policy)} (draining : old.drains = true)
      (drains : next.all Thread.drains = true) : Calls (.drain i) .progressed (some old) next
  | operated {a : Action} {e : Event} {next : Option (Thread g.policy)} (alone : a.thread = none)
      (call : ∀ entry sampledMs, a ≠ .call entry sampledMs) (claim : ∀ ticket sampledMs, a ≠ .claim ticket sampledMs)
      (drains : next.all Thread.drains = true) : Calls a e none next

/-- A step continues one call, starts one or has none. -/
theorem step_calls (h : g.step σ a = some (σ', e)) :
    ∃ old new, Calls a e old new ∧ SlotChange a.thread σ.threads σ'.threads old new := by
  obtain ⟨prepared, hp, rfl, rfl⟩ := step_eq_some h
  -- An operation without a call of its own drains its effects, or has none.
  have hoperation : ∀ {α : Type} (sampledMs : Nat) (section_ : GovernedState → Nat → Section α)
      (event : α → Event), a.thread = none → (∀ entry sampledMs, a ≠ .call entry sampledMs) →
      (∀ ticket sampledMs, a ≠ .claim ticket sampledMs) →
      ∃ old new, Calls a (operation σ sampledMs section_ event).sec.outcome old new ∧
        SlotChange a.thread σ.threads (Governor.finish (operation σ sampledMs section_ event)).threads old new := by
    intro α sampledMs section_ event halone hcall hclaim
    rw [halone]
    exact ⟨none, _, .operated halone hcall hclaim rfl, .added _ _⟩
  have hquiet : ∀ {e : Event}, a.thread = none → (∀ entry sampledMs, a ≠ .call entry sampledMs) →
      (∀ ticket sampledMs, a ≠ .claim ticket sampledMs) →
      ∃ old new, Calls a e old new ∧ SlotChange a.thread σ.threads σ.threads old new := by
    intro e halone hcall hclaim
    rw [halone]
    exact ⟨none, none, .operated halone hcall hclaim rfl, .same _⟩
  cases a with
  | call entry sampledMs =>
    simp only [Governor.prepare, Option.some.injEq] at hp
    subst hp
    unfold Governor.call
    split
    · rename_i answer heq
      exact ⟨none, none, .refused sampledMs heq, .same _⟩
    · rename_i intake heq
      exact ⟨none, _, .called sampledMs heq, .added _ _⟩
  | allocate i =>
    simp only [Governor.prepare] at hp
    split at hp
    · rename_i intake sampledMs taken hthread
      obtain rfl := Option.some.inj hp
      unfold Governor.allocate
      split
      all_goals
        simp only
        split
        · exact ⟨_, none, .exhausted i intake sampledMs _, .removed hthread⟩
        · first
            | exact ⟨_, _, .took i intake sampledMs _ _, .written hthread _⟩
            | exact ⟨_, _, .numbered i intake sampledMs _ _, .written hthread _⟩
    · simp at hp
  | enter i =>
    simp only [Governor.prepare] at hp
    split at hp
    · rename_i intake sampledMs ids hthread
      obtain rfl := Option.some.inj hp
      exact ⟨_, _, .entered i intake sampledMs ids _ _, .written hthread _⟩
    · simp at hp
  | settle i panicked =>
    simp only [Governor.prepare] at hp
    split at hp
    · rename_i decision effects sampledMs hthread
      split at hp
      · simp at hp
      · obtain rfl := Option.some.inj hp
        cases panicked with
        | false => exact ⟨_, none, .settled i decision effects sampledMs, .removed hthread⟩
        | true =>
          cases decision with
          | admitted p => exact ⟨_, _, .compensated i _ effects sampledMs rfl, .written hthread _⟩
          | queued t => exact ⟨_, none, .compensated i _ effects sampledMs rfl, .removed hthread⟩
          | rejected verdict => exact ⟨_, none, .compensated i _ effects sampledMs rfl, .removed hthread⟩
    · simp at hp
  | claim ticket sampledMs =>
    simp only [Governor.prepare, Option.some.injEq] at hp
    subst hp
    unfold Governor.startClaim
    simp only
    rcases beginClaim_cases (σ.state.commitTime sampledMs.toNat) ticket
      (σ.state.commitTime sampledMs.toNat).commitWatermarkMs with ⟨outcome, heq, hnot⟩ | ⟨p, _, heq, _⟩
    · refine ⟨none, none, ?_, ?_⟩
      · rw [heq]
        exact .told ticket outcome sampledMs hnot
      · show SlotChange none σ.threads _ none none
        unfold Governor.finish
        simp only [heq]
        exact .same _
    · have hthreads : ∃ effects, (Governor.finish (Governor.startClaim σ ticket sampledMs.toNat)).threads =
          σ.threads ++ [.claiming ticket p effects sampledMs.toNat] := by
        unfold Governor.finish Governor.startClaim
        simp only [heq]
        exact ⟨_, rfl⟩
      obtain ⟨effects, hthreads⟩ := hthreads
      refine ⟨none, some (.claiming ticket p effects sampledMs.toNat), ?_, ?_⟩
      · rw [heq]
        exact .begun ticket p effects sampledMs
      · show SlotChange none σ.threads (Governor.finish (Governor.startClaim σ ticket sampledMs.toNat)).threads none _
        rw [hthreads]
        exact .added _ _
  | finishClaim i panicked =>
    simp only [Governor.prepare] at hp
    split at hp
    · rename_i ticket p effects sampledMs hthread
      split at hp
      · simp at hp
      · obtain rfl := Option.some.inj hp
        cases panicked with
        | false => exact ⟨_, none, .claimed i ticket p effects sampledMs _, .removed hthread⟩
        | true => exact ⟨_, _, .undone i ticket p effects sampledMs _ rfl, .written hthread _⟩
    · simp at hp
  | drain i =>
    simp only [Governor.prepare] at hp
    split at hp
    · rename_i effects sampledMs hthread
      obtain rfl := Option.some.inj hp
      unfold Governor.drain
      split
      · exact ⟨_, _, .drained i rfl rfl, .written hthread _⟩
      · exact ⟨_, none, .drained i rfl rfl, .removed hthread⟩
    · simp at hp
  | abandon ticket sampledMs =>
    obtain rfl := Option.some.inj hp
    exact hoperation _ _ _ rfl (by simp) (by simp)
  | release p sampledMs =>
    obtain rfl := Option.some.inj hp
    exact hoperation _ _ _ rfl (by simp) (by simp)
  | releaseLeased token sampledMs =>
    obtain rfl := Option.some.inj hp
    exact hoperation _ _ _ rfl (by simp) (by simp)
  | reapLeaks staleAfterMs sampledMs =>
    obtain rfl := Option.some.inj hp
    exact hoperation _ _ _ rfl (by simp) (by simp)
  | advancePhase p phase =>
    obtain rfl := Option.some.inj hp
    exact hquiet rfl (by simp) (by simp)
  | closeAdmission =>
    obtain rfl := Option.some.inj hp
    exact hquiet rfl (by simp) (by simp)
  | mintElsewhere =>
    obtain rfl := Option.some.inj hp
    exact hquiet rfl (by simp) (by simp)
  | reconcileMemory p measuredBytes epoch sampledMs =>
    obtain rfl := Option.some.inj hp
    unfold Governor.finish Governor.operationUnless
    simp only
    split
    · exact hquiet rfl (by simp) (by simp)
    · exact hoperation _ _ _ rfl (by simp) (by simp)
  | releaseStageMemory p freedUnits sequence sampledMs =>
    obtain rfl := Option.some.inj hp
    unfold Governor.finish Governor.operationUnless
    simp only
    split
    · exact hquiet rfl (by simp) (by simp)
    · exact hoperation _ _ _ rfl (by simp) (by simp)

end Taskmesh
