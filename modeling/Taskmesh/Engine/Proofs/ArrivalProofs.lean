import Taskmesh.Engine.Proofs.RetentionProofs
import Taskmesh.Engine.Proofs.ShareProofs

/-!
# Arrivals alone

Until the first service virtual time is zero, and an arrival adds less than `2 ^ 96` to the tag of its class:
a run of admissions overflows nothing.
-/

namespace Taskmesh

open Std MachineInt Governor

variable {g : Governor} {s s' : GovernedState}

theorem wfqIncrement_lt (policy : ClassPolicy) (weight : Nat) :
    wfqIncrement (resolveCost policy).cpuUnits weight < 2 ^ 96 := by
  have hcost : (resolveCost policy).cpuUnits < 2 ^ 32 := policy.permitCost.cpuUnits.toNat_lt
  refine Nat.lt_of_le_of_lt (Nat.div_le_self _ _) ?_
  unfold wfqScale
  omega

/-- A call moves the governed state only inside its locked sections. -/
theorem step_state_eq {σ σ' : g.System} {a : Action} {e : Event} (h : g.step σ a = some (σ', e))
    (hcalls : (∃ entry sampledMs, a = .call entry sampledMs) ∨ (∃ i, a = .allocate i) ∨ ∃ i, a = .settle i false) :
    σ'.state = σ.state := by
  obtain ⟨p, hp, rfl, _⟩ := step_eq_some h
  have hunlocked : p.sec.state = σ.state ∧ p.sec.promotes = false := by
    rcases hcalls with ⟨entry, sampledMs, rfl⟩ | ⟨i, rfl⟩ | ⟨i, rfl⟩
    · obtain rfl := Option.some.inj hp
      unfold Governor.call
      split <;> exact ⟨rfl, rfl⟩
    · simp only [Governor.prepare] at hp
      split at hp
      · rename_i intake sampledMs taken _
        obtain rfl := Option.some.inj hp
        unfold Governor.allocate
        cases taken <;> simp only <;> split <;> exact ⟨rfl, rfl⟩
      · simp at hp
    · simp only [Governor.prepare] at hp
      split at hp
      · split at hp
        · simp at hp
        · obtain rfl := Option.some.inj hp
          exact ⟨rfl, rfl⟩
      · simp at hp
  show (g.commit p.sec p.nowMs).1 = _
  unfold Governor.commit
  rw [hunlocked.2]
  exact hunlocked.1

/-- A run that overflows nothing leads to the state. -/
def Fitted (g : Governor) (s : GovernedState) : Prop :=
  ∃ tr, ScheduleTrace g {} tr s ∧ ∀ x ∈ tr, TagsFit g.policy x

theorem Fitted.append {tr : List (GovernedState × ScheduleEvent)} (h : Fitted g s)
    (htrace : ScheduleTrace g s tr s') (hfits : ∀ x ∈ tr, TagsFit g.policy x) : Fitted g s' := by
  obtain ⟨before, hbefore, hfitted⟩ := h
  refine ⟨_, hbefore.append htrace, fun x hx => ?_⟩
  rcases List.mem_append.mp hx with hx | hx
  · exact hfitted x hx
  · exact hfits x hx

theorem Fitted.move {event : ScheduleEvent} (h : Fitted g s) (hmove : ScheduleMove g s event s')
    (hfits : TagsFit g.policy (s, event)) : Fitted g s' :=
  h.append (Traces.Trace.single hmove) fun x hx => by
    rw [List.mem_singleton.mp hx]
    exact hfits

/-- Nobody was served yet, and every tag is that of one of at most `k` arrivals. -/
structure Arriving (g : Governor) (k : Nat) (s : GovernedState) : Prop where
  fitted : Fitted g s
  time : s.virtualTime = 0
  tags : ∀ c, (s.cls c).lastFinishTag ≤ k * 2 ^ 96

theorem Arriving.later {k : Nat} (h : Arriving g k s) : Arriving g (k + 1) s :=
  ⟨h.fitted, h.time, fun c => (h.tags c).trans (Nat.mul_le_mul_right _ (Nat.le_succ k))⟩

/-- One more arrival overflows nothing. -/
theorem Arriving.move {k : Nat} {event : ScheduleEvent} {c : TaskClass} (h : Arriving g k s)
    (hk : k < 2 ^ 31) (hmove : ScheduleMove g s event s') (hevent : event = .granted c ∨ event = .enqueued c) :
    Arriving g (k + 1) s' := by
  rcases hevent with rfl | rfl
  · have hfits : TagsFit g.policy (s, .granted c) := by simp [TagsFit, tagSums]
    have hfitted := h.fitted.move hmove hfits
    cases hmove with
    | granted known =>
      refine ⟨hfitted, h.time, fun k => ?_⟩
      rw [show ((s.grant _).cls k).lastFinishTag = (s.cls k).lastFinishTag from
        congrArg ClassSchedule.lastFinishTag (schedule_grant s _ k)]
      exact h.later.tags k
  · have hsum : ∀ policy weight, max (s.cls c).lastFinishTag s.virtualTime +
        wfqIncrement (resolveCost policy).cpuUnits weight ≤ (k + 1) * 2 ^ 96 := by
      intro policy weight
      have hlast := h.tags c
      have hinc := wfqIncrement_lt policy weight
      rw [h.time]
      omega
    have hbound : (k + 1) * 2 ^ 96 ≤ u128Max := by
      unfold u128Max
      omega
    have hfits : TagsFit g.policy (s, .enqueued c) := by
      intro sum hmem
      simp only [tagSums] at hmem
      split at hmem
      · obtain rfl := List.mem_singleton.mp hmem
        exact (hsum _ _).trans hbound
      · simp at hmem
    have hfitted := h.fitted.move hmove hfits
    cases hmove with
    | @enqueued policy _ request waker ids blockedOn known enabled =>
      obtain ⟨tagged, r, harrives⟩ := arrives_enqueuedAt s policy c request waker ids blockedOn
      generalize enqueuedAt s policy c request waker ids blockedOn = after at harrives hfitted ⊢
      refine ⟨hfitted, (harrives.time_eq fun weight burst _ => (hsum policy _).trans hbound).trans h.time,
        fun k' => ?_⟩
      have htagging := harrives.tagging
      have hkept : (after.cls k').lastFinishTag = (tagged.cls k').lastFinishTag := by
        by_cases hc : k' = c
        · subst hc
          exact congrArg ClassSchedule.lastFinishTag harrives.own
        · exact congrArg ClassSchedule.lastFinishTag (harrives.others k' hc)
      rw [hkept]
      generalize r.finishTag = tag at htagging
      generalize r.wfqArrivalTag = arrival at htagging
      cases htagging with
      | untagged plain => exact h.later.tags k'
      | exact fair sum fits =>
        rw [cls_recordFinishTag]
        split
        · exact sum ▸ hsum policy _
        · exact h.later.tags k'
      | rebased fair sum overflows =>
        exact absurd ((hsum policy _).trans hbound) (Nat.not_le.mpr overflows)

/-- A call of an admission makes at most one arrival. -/
theorem Arriving.step {k : Nat} {σ σ' : g.System} {a : Action} {e : Event} {entry : AdmitCall}
    (h : Arriving g k σ.state) (hk : k < 2 ^ 31) (hinv : SysInv σ) (hstep : g.step σ a = some (σ', e))
    (ha : a ∈ Sample.admission entry) : Arriving g (k + 1) σ'.state := by
  by_cases henter : a = .enter 0
  · subst henter
    obtain ⟨start, hstart, hdone⟩ := step_arrives hinv hstep
    have harriving : Arriving g k start := by
      rcases hstart.started with rfl | ⟨sampledMs, rfl⟩
      · exact h
      · exact ⟨h.fitted.move (.ticked _ sampledMs) (by simp [TagsFit, tagSums]), h.time, h.tags⟩
    rcases hdone with hsame | ⟨event, hmove, c, hevent⟩
    · rw [hsame]
      exact harriving.later
    · exact harriving.move hk hmove hevent
  · have hsame : σ'.state = σ.state := by
      simp only [Sample.admission, List.mem_cons, List.not_mem_nil, or_false] at ha
      rcases ha with rfl | rfl | rfl | rfl | rfl | rfl
      · exact step_state_eq hstep (Or.inl ⟨_, _, rfl⟩)
      · exact step_state_eq hstep (Or.inr (Or.inl ⟨_, rfl⟩))
      · exact step_state_eq hstep (Or.inr (Or.inl ⟨_, rfl⟩))
      · exact step_state_eq hstep (Or.inr (Or.inl ⟨_, rfl⟩))
      · exact absurd rfl henter
      · exact step_state_eq hstep (Or.inr (Or.inr ⟨_, rfl⟩))
    rw [hsame]
    exact h.later

/-- Admissions alone overflow nothing. -/
theorem Arriving.replay {actions : List Action} {k : Nat} {σ σ' : g.System}
    (h : Arriving g k σ.state) (hreached : g.Reachable σ) (hk : k + actions.length < 2 ^ 31)
    (hactions : ∀ a ∈ actions, ∃ entry, a ∈ Sample.admission entry)
    (hreplay : Runs.replay g.step σ actions = some σ') : Arriving g (k + actions.length) σ'.state := by
  induction actions generalizing k σ with
  | nil =>
    obtain rfl := Option.some.inj hreplay
    exact h
  | cons a rest ih =>
    unfold Runs.replay at hreplay
    cases hstep : g.step σ a with
    | none => simp [hstep] at hreplay
    | some next =>
      obtain ⟨σ₁, e⟩ := next
      rw [hstep] at hreplay
      obtain ⟨entry, hentry⟩ := hactions a List.mem_cons_self
      rw [List.length_cons] at hk ⊢
      have hnext := h.step (by omega) (SysInv.of_reachable hreached) hstep hentry
      rw [show k + (rest.length + 1) = k + 1 + rest.length by omega]
      exact ih hnext (hreached.next hstep) (by omega) (fun b hb => hactions b (List.mem_cons_of_mem _ hb)) hreplay

end Taskmesh
