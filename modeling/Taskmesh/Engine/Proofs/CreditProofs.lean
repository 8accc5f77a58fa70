import Taskmesh.Engine.Proofs.ClassMoveProofs
import Taskmesh.Engine.Proofs.ConservationProofs

/-!
# Credit and debt of a class

A busy period ends when a queue drains, and with it the credit and the virtual-time baseline of its
class: an idle class carries neither. Within a busy period credit grows only by the visits of the
ring.
-/

namespace Taskmesh

open Std MachineInt GovernedState

variable {g : Governor} {s s' : GovernedState}

/-! ## The queue of a class after its tags were re-derived -/

theorem repriceQueue_length (weight cursor : Nat) (l : List PendingRequest) :
    (repriceQueue weight cursor l).1.length = l.length := by
  have := congrArg List.length (repriceQueue_untagged weight cursor l)
  simpa using this

theorem rebuilt_queue_ne_nil {weight virtualTime : Nat} {c : ClassSchedule} (h : c.queue ≠ []) :
    (c.rebuilt weight virtualTime).queue ≠ [] := by
  intro hnil
  have hlength := repriceQueue_length weight c.lastServedFinishTag c.queue
  have hzero : (repriceQueue weight c.lastServedFinishTag c.queue).1 = [] := hnil
  rw [hzero] at hlength
  exact h (List.length_eq_zero_iff.mp hlength.symm)

/-- A class whose queue is empty carries neither credit nor debt. -/
def ClassSchedule.Rested (virtualTime : Nat) (c : ClassSchedule) : Prop :=
  c.queue = [] → c.deficit = 0 ∧ c.lastFinishTag ≤ virtualTime ∧ c.lastServedFinishTag ≤ virtualTime

theorem ClassSchedule.Rested.of_ne_nil {virtualTime : Nat} {c : ClassSchedule} (h : c.queue ≠ []) :
    c.Rested virtualTime := fun hnil => absurd hnil h

theorem rested_idle (virtualTime : Nat) : (ClassSchedule.idle virtualTime).Rested virtualTime :=
  fun _ => ⟨rfl, Nat.le_refl _, Nat.le_refl _⟩

theorem ClassSchedule.Rested.rebased {virtualTime : Nat} {c : ClassState}
    (h : c.schedule.Rested virtualTime) : (rebaseClass virtualTime c).schedule.Rested 0 := by
  intro hempty
  obtain ⟨hdeficit, hfinish, hserved⟩ := h (List.map_eq_nil_iff.mp hempty)
  refine ⟨hdeficit, ?_, ?_⟩
  · show c.lastFinishTag - virtualTime ≤ 0
    exact Nat.le_of_eq (Nat.sub_eq_zero_of_le hfinish)
  · show c.lastServedFinishTag - virtualTime ≤ 0
    exact Nat.le_of_eq (Nat.sub_eq_zero_of_le hserved)

/-- Re-deriving the tags of a class leaves it rested, or busy. -/
theorem rested_rederived (fairness : FairnessPolicy) (virtualTime : Nat) (c : ClassSchedule) :
    (c.rederived fairness virtualTime).Rested virtualTime := by
  unfold ClassSchedule.rederived
  split
  · exact rested_idle virtualTime
  · rename_i hne
    have hqueue : c.queue ≠ [] := by simpa using hne
    cases fairness with
    | weightedFairQueue weight burst => exact ClassSchedule.Rested.of_ne_nil (rebuilt_queue_ne_nil hqueue)
    | fifo => exact ClassSchedule.Rested.of_ne_nil hqueue
    | deficitRoundRobin quantum => exact ClassSchedule.Rested.of_ne_nil hqueue
    | deadlineAware slack => exact ClassSchedule.Rested.of_ne_nil hqueue
    | bestEffortScavenger => exact ClassSchedule.Rested.of_ne_nil hqueue

theorem rested_credited (fairness : FairnessPolicy) (virtualTime index tag : Nat) (c : ClassSchedule) :
    (c.credited fairness virtualTime index tag).Rested virtualTime := by
  unfold ClassSchedule.credited
  split
  · exact rested_idle virtualTime
  · rename_i hne
    have hqueue : c.queue ≠ [] := by simpa using hne
    simp only
    split
    · cases fairness with
      | weightedFairQueue weight burst =>
        exact ClassSchedule.Rested.of_ne_nil (rebuilt_queue_ne_nil hqueue)
      | fifo => exact ClassSchedule.Rested.of_ne_nil hqueue
      | deficitRoundRobin quantum => exact ClassSchedule.Rested.of_ne_nil hqueue
      | deadlineAware slack => exact ClassSchedule.Rested.of_ne_nil hqueue
      | bestEffortScavenger => exact ClassSchedule.Rested.of_ne_nil hqueue
    · exact ClassSchedule.Rested.of_ne_nil hqueue

/-! ## What a choice does to credits and time -/

theorem dispatchChoice_time_le (s : GovernedState) (first : Candidate) (rest : List Candidate) :
    s.virtualTime ≤ (dispatchChoice s first rest).1.virtualTime := by
  unfold dispatchChoice
  cases first.fairness with
  | fifo => exact Nat.le_refl _
  | bestEffortScavenger => exact Nat.le_refl _
  | weightedFairQueue w b => exact Nat.le_max_left _ _
  | deadlineAware slack => exact Nat.le_refl _
  | deficitRoundRobin q => exact (virtualTime_drrSelect s _).ge

/-- A choice credits only classes of its pool. -/
theorem dispatchChoice_deficits {first : Candidate} {rest : List Candidate} {k : TaskClass}
    (hascending : Ascending (first :: rest)) (hk : ∀ c ∈ first :: rest, c.taskClass ≠ k) :
    (dispatchChoice s first rest).1.deficits k = s.deficits k := by
  unfold dispatchChoice
  cases first.fairness with
  | fifo => rfl
  | bestEffortScavenger => rfl
  | weightedFairQueue w b => rfl
  | deadlineAware slack => rfl
  | deficitRoundRobin q =>
    obtain ⟨c, _, hserves⟩ := drrSelect_serves s (List.cons_ne_nil first rest) hascending
    simp only
    generalize (drrSelect s (first :: rest)).1.deficits = deficits at hserves
    generalize (drrSelect s (first :: rest)).1.drrCursor = cursor at hserves
    cases hserves with
    | kept serves =>
      obtain ⟨_, hmem, _⟩ := drrCursorServes_eq_some serves
      exact Function.update_of_ne (Ne.symm (hk _ hmem)) _ _
    | walked serves found earliest plan slots others =>
      rw [Function.update_of_ne (Ne.symm (hk _ (List.mem_of_getElem? found)))]
      exact others k hk

/-! ## Idle classes -/

/-- No idle class carries credit or debt. -/
def IdleRested (s : GovernedState) : Prop := ∀ c, (s.cls c).schedule.Rested s.virtualTime

theorem IdleRested.step {event : ScheduleEvent} (h : IdleRested s) (hmove : ScheduleMove g s event s') :
    IdleRested s' := by
  intro c
  cases hmove.class_cases c with
  | kept same time apart still =>
    rw [same, time]
    exact h c
  | shifted other rebased time known fair overflows =>
    rw [rebased, time]
    exact (h c).rebased
  | arrived known arrives =>
    refine ClassSchedule.Rested.of_ne_nil ?_
    rw [arrives.own]
    simp
  | passed serves other =>
    rename_i first candidate rest policy head
    rw [serves.others c other, serves.time]
    intro hempty
    obtain ⟨hdeficit, hfinish, hserved⟩ := h c hempty
    have hle := dispatchChoice_time_le s first rest
    refine ⟨?_, hfinish.trans hle, hserved.trans hle⟩
    refine (dispatchChoice_deficits (serves.selects.tier ▸ ascending_contendedTier s g.policy)
      fun c' hc' heq => ?_).trans hdeficit
    have hmem : c' ∈ runnableCandidates s g.policy :=
      contendedTier_subset (by rw [serves.selects.tier]; exact hc')
    exact candidate_queue_ne_nil hmem (heq ▸ hempty)
  | served serves own =>
    subst own
    rw [serves.own]
    exact rested_credited _ _ _ _ _
  | dropped known found left time =>
    rw [left, time]
    exact rested_rederived _ _ _
  | emptied left time =>
    rw [left, time]
    exact rested_idle _

theorem IdleRested.of_reachable {σ : g.System} (h : g.Reachable σ) : IdleRested σ.state := by
  refine reachable_of_schedule (fun c _ => ?_) (fun _ _ _ hrested hmove => hrested.step hmove) h
  simp [GovernedState.cls, default, ClassState.schedule]

/-! ## The first request after an idle period -/

/-- What the first request queued after an idle period finds: no credit in its class, and tags that
start at the virtual time. -/
structure StartsFresh (policies : PolicySet) (s : GovernedState) (c : TaskClass) (r : PendingRequest) :
    Prop where
  alone : (s.cls c).queue = [r]
  deficit : (s.cls c).deficit = 0
  tags : ∀ policy weight burst, policies.classPolicy c = some policy →
    policy.fairness = .weightedFairQueue weight burst →
    r.wfqArrivalTag = s.virtualTime ∧
      r.finishTag = s.virtualTime + wfqIncrement policy.permitCost.cpuUnits.toNat weight.toNat

theorem wfqIncrement_le_u128Max (policy : ClassPolicy) (weight : Nat) :
    wfqIncrement (resolveCost policy).cpuUnits weight ≤ u128Max := by
  have hcost : max (resolveCost policy).cpuUnits 1 ≤ 2 ^ 32 := by
    have := policy.permitCost.cpuUnits.toNat_lt
    simp only [resolveCost]
    omega
  calc wfqIncrement (resolveCost policy).cpuUnits weight
      ≤ max (resolveCost policy).cpuUnits 1 * wfqScale := Nat.div_le_self _ _
    _ ≤ 2 ^ 32 * 2 ^ 64 := Nat.mul_le_mul_right _ hcost
    _ ≤ u128Max := by decide

/-- A queue that is empty stays empty as long as nothing arrives in it. -/
theorem ScheduleMove.queue_nil {event : ScheduleEvent} {c : TaskClass} (h : ScheduleMove g s event s')
    (hnot : event ≠ .enqueued c) (hempty : (s.cls c).queue = []) : (s'.cls c).queue = [] := by
  cases h.class_cases c with
  | kept same time apart still => exact (congrArg ClassSchedule.queue same).trans hempty
  | shifted other rebased time known fair overflows =>
    exact (congrArg ClassSchedule.queue rebased).trans (List.map_eq_nil_iff.mpr hempty)
  | arrived known arrives => exact absurd rfl hnot
  | passed serves other => exact (congrArg ClassSchedule.queue (serves.others c other)).trans hempty
  | served serves own => exact absurd hempty (own ▸ candidate_queue_ne_nil serves.selects.mem)
  | dropped known found left time => simp [hempty] at found
  | emptied left time => exact congrArg ClassSchedule.queue left

theorem arrives_startsFresh {policy : ClassPolicy} {c : TaskClass} {tagged : GovernedState}
    {r r' : PendingRequest} (hrested : IdleRested s) (hknown : g.policy.classPolicy c = some policy)
    (harrives : Arrives s s' c policy tagged r) (hempty : (s.cls c).queue = [])
    (hr' : r' ∈ (s'.cls c).queue) : StartsFresh g.policy s' c r' := by
  obtain ⟨hdeficit, hfinish, _⟩ := hrested c hempty
  have hfinish : (s.cls c).lastFinishTag ≤ s.virtualTime := hfinish
  have hqueue : (s'.cls c).queue = (tagged.cls c).queue ++ [r] := congrArg ClassSchedule.queue harrives.own
  have hcredit : (s'.cls c).deficit = (tagged.cls c).deficit := congrArg ClassSchedule.deficit harrives.own
  have htime := harrives.time
  have hfit := wfqIncrement_le_u128Max policy
  have htagging := harrives.tagging
  generalize htag : r.finishTag = tag at htagging
  generalize harrival : r.wfqArrivalTag = arrival at htagging
  have hfresh : (tagged.cls c).queue = [] ∧ (tagged.cls c).deficit = 0 ∧
      ∀ weight burst, policy.fairness = .weightedFairQueue weight burst →
        arrival = tagged.virtualTime ∧
          tag = tagged.virtualTime + wfqIncrement (resolveCost policy).cpuUnits weight.toNat := by
    cases htagging with
    | untagged plain => exact ⟨hempty, hdeficit, fun weight burst hfair => absurd hfair (plain weight burst)⟩
    | exact fair sum fits =>
      rw [cls_recordFinishTag, if_pos rfl]
      refine ⟨hempty, hdeficit, fun weight burst hfair => ⟨rfl, ?_⟩⟩
      obtain ⟨rfl, _⟩ := FairnessPolicy.weightedFairQueue.inj (fair.symm.trans hfair)
      rw [sum, Nat.max_eq_right hfinish]
      rfl
    | rebased fair sum overflows =>
      rw [cls_recordFinishTag, if_pos rfl, cls_rebaseVirtualTime]
      refine ⟨List.map_eq_nil_iff.mpr hempty, hdeficit, fun weight burst hfair => ⟨rfl, ?_⟩⟩
      obtain ⟨rfl, _⟩ := FairnessPolicy.weightedFairQueue.inj (fair.symm.trans hfair)
      rw [sum, Nat.sub_eq_zero_of_le hfinish]
      refine Nat.min_eq_left ?_
      simpa using hfit _
  obtain ⟨hnil, hzero, htags⟩ := hfresh
  rw [hnil, List.nil_append] at hqueue
  obtain rfl : r' = r := by simpa [hqueue] using hr'
  refine ⟨hqueue, hcredit.trans hzero, fun policy' weight burst hknown' hfair => ?_⟩
  obtain rfl : policy = policy' := Option.some.inj (hknown.symm.trans hknown')
  rw [htag, harrival, htime]
  exact htags weight burst hfair

theorem Started.cls_eq {start : GovernedState} (h : Started s start) : start.cls = s.cls := by
  rcases h with rfl | ⟨sampledMs, rfl⟩ <;> rfl

/-- The queue of a class fills up only when a request arrives in it. -/
theorem Reschedules.queue_nil {c : TaskClass} (h : Reschedules g s s') (hempty : (s.cls c).queue = []) :
    (s'.cls c).queue = [] := by
  obtain ⟨tr, htrace, hinside⟩ := h
  refine htrace.invariant_of (P := fun s => (s.cls c).queue = []) (fun s event s' hnil hin hmove => ?_)
    hinside hempty
  refine hmove.queue_nil (fun heq => ?_) hnil
  simp [heq, ScheduleEvent.inside] at hin

/-- The first request queued after an idle period starts fresh. -/
theorem step_startsFresh {σ σ' : g.System} {a : Action} {e : Event} {c : TaskClass} {r : PendingRequest}
    (hinv : SysInv σ) (hrested : IdleRested σ.state) (hstep : g.step σ a = some (σ', e))
    (hempty : (σ.state.cls c).queue = []) (hr : r ∈ (σ'.state.cls c).queue) :
    StartsFresh g.policy σ'.state c r := by
  by_cases henter : ∃ i, a = .enter i
  · obtain ⟨i, rfl⟩ := henter
    obtain ⟨start, hstart, hdone⟩ := step_arrives hinv hstep
    have hnil : (start.cls c).queue = [] := by rw [hstart.started.cls_eq, hempty]
    have hrested' : IdleRested start := by
      rcases hstart.started with rfl | ⟨sampledMs, rfl⟩ <;> exact hrested
    generalize σ'.state = final at hdone hr ⊢
    rcases hdone with rfl | ⟨event, hmove, _⟩
    · simp [hnil] at hr
    · by_cases hevent : event = .enqueued c
      · cases hmove with
        | enqueued known enabled =>
          obtain rfl := ScheduleEvent.enqueued.inj hevent
          obtain ⟨tagged, r', harrives⟩ := arrives_enqueuedAt start _ _ _ _ _ _
          exact arrives_startsFresh hrested' known harrives hnil hr
        | _ => simp at hevent
      · simp [hmove.queue_nil hevent hnil] at hr
  · obtain ⟨start, hstart, hreschedules⟩ := step_reschedules hinv hstep fun i heq => henter ⟨i, heq⟩
    have hnil := hreschedules.queue_nil (c := c) (by rw [hstart.started.cls_eq, hempty])
    simp [hnil] at hr

/-- In every reachable state a class whose queue is empty carries neither credit nor debt, and the
first request queued in it starts fresh. -/
theorem idle_classes_rested (g : Governor) (σ : g.System) (h : g.Reachable σ) :
    (∀ c, (σ.state.cls c).queue = [] →
      (σ.state.cls c).deficit = 0 ∧ (σ.state.cls c).lastFinishTag ≤ σ.state.virtualTime ∧
        (σ.state.cls c).lastServedFinishTag ≤ σ.state.virtualTime) ∧
    ∀ a σ' e c r, g.step σ a = some (σ', e) → (σ.state.cls c).queue = [] →
      r ∈ (σ'.state.cls c).queue → StartsFresh g.policy σ'.state c r := by
  have hrested := IdleRested.of_reachable h
  refine ⟨hrested, fun a σ' e c r hstep hempty hr => ?_⟩
  exact step_startsFresh (SysInv.of_reachable h) hrested hstep hempty hr

namespace FairSample

/-- A class with room for one permit and a queue, under a discipline. -/
def classPolicy (fairness : FairnessPolicy) : ClassPolicy :=
  { Sample.classPolicy with
    permitCost := ⟨1, 0⟩
    fairness := fairness }

/-- Two classes that share the machine by weight. -/
def policy : PolicySet :=
  PolicySet.new ⟨4, 8, 0, 0, ⟨0⟩⟩
    (((∅ : BTreeMap TaskClass ClassPolicy).insert ⟨"a"⟩ (classPolicy (.weightedFairQueue 2 0))).insert ⟨"b"⟩
      (classPolicy (.weightedFairQueue 1 0))) 1

def governor : Governor := ⟨7, policy, by decide +kernel⟩

def task (c operation : String) : TaskSpec :=
  { Sample.task operation with
    taskClass := ⟨c⟩
    stages := [⟨⟨c⟩, ⟨"run"⟩, .asyncIo, false, none⟩] }

/-- One task of the heavier class runs, and the next one is about to be decided. -/
def arriving : governor.System :=
  (Runs.replay governor.step governor.init
    (Sample.admission (.admitSpec (task "a" "x")) ++
      [.call (.admitSpec (task "a" "y")) 0, .allocate 0, .allocate 0, .allocate 0])).getD governor.init

theorem arriving_reachable : governor.Reachable arriving := Runs.reachable_replay governor.init _

end FairSample

/-- In the sample the second task is queued with a tag of one increment. -/
theorem sample_startsFresh : ∃ σ' e r, FairSample.governor.step FairSample.arriving (.enter 0) = some (σ', e) ∧
    (σ'.state.cls ⟨"a"⟩).queue = [r] ∧ r.finishTag = σ'.state.virtualTime + wfqScale / 2 := by
  have hstep : ((FairSample.governor.step FairSample.arriving (.enter 0)).map fun next =>
      (next.1.state.cls ⟨"a"⟩).queue.length) = some 1 := by decide +kernel
  obtain ⟨⟨σ', e⟩, hnext, hlength⟩ := Option.map_eq_some_iff.mp hstep
  obtain ⟨r, hr⟩ := List.length_eq_one_iff.mp hlength
  have hempty : (FairSample.arriving.state.cls ⟨"a"⟩).queue = [] :=
    List.length_eq_zero_iff.mp (by decide +kernel)
  have hfresh := (idle_classes_rested FairSample.governor FairSample.arriving
    FairSample.arriving_reachable).2 (.enter 0) σ' e ⟨"a"⟩ r hnext hempty (by rw [hr]; simp)
  obtain ⟨_, htag⟩ := hfresh.tags (FairSample.classPolicy (.weightedFairQueue 2 0)) 2 0 (by decide +kernel) rfl
  exact ⟨σ', e, r, hnext, hr, htag⟩

end Taskmesh
