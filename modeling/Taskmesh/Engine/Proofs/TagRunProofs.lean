import Taskmesh.Engine.Proofs.TagProofs
import Taskmesh.Engine.Proofs.DeficitProofs

/-!
# Tags along a run

The enabled classes of a tier share one discipline, so a weighted-fair class is always served by its
tags, and virtual time moves with exactly these services. As long as no addition overflows, the tags of
every weighted-fair class stay canonical and exact.
-/

namespace Taskmesh

open Std MachineInt GovernedState

variable {g : Governor} {s s' : GovernedState} {c : TaskClass} {policy : ClassPolicy} {weight burst : UInt32}

/-! ## One discipline per tier -/

/-- A class that has a candidate is enabled. -/
theorem IsCandidate.enabled {candidate : Candidate} {head : PendingRequest}
    (h : IsCandidate s g.policy candidate policy head) : policy.isDisabled = false := by
  have hrunnable := h.runnable
  unfold isRunnableCandidate at hrunnable
  rw [Bool.and_eq_true, decide_eq_true_eq] at hrunnable
  have hfree := (assessScope_runnable hrunnable.2).1
  cases hdisabled : policy.isDisabled with
  | false => rfl
  | true =>
    have hzero : policy.maxInflight = 0 := by simpa [ClassPolicy.isDisabled] using hdisabled
    simp [BlockerSet.isEmpty, blockersFor, hzero] at hfree

theorem contendedTier_bestEffort {candidates : List Candidate} {k k' : Candidate}
    (hk : k ∈ contendedTier candidates) (hk' : k' ∈ contendedTier candidates) :
    k.bestEffort = k'.bestEffort := by
  have htier := (List.mem_filter.mp hk).2
  have htier' := (List.mem_filter.mp hk').2
  generalize (candidates.any fun c => !c.bestEffort) = primary at htier htier'
  cases hb : k.bestEffort <;> cases hb' : k'.bestEffort <;> cases primary <;> simp [hb, hb'] at htier htier' ⊢

/-- The candidates of a contended tier share one discipline. -/
theorem tier_kind {k k' : Candidate} (hk : k ∈ contendedTier (runnableCandidates s g.policy))
    (hk' : k' ∈ contendedTier (runnableCandidates s g.policy)) : k.fairness.kind = k'.fairness.kind := by
  obtain ⟨policy, head, hcandidate⟩ := isCandidate_of_mem (contendedTier_subset hk)
  obtain ⟨policy', head', hcandidate'⟩ := isCandidate_of_mem (contendedTier_subset hk')
  rw [hcandidate.fairness, hcandidate'.fairness]
  refine tier_discipline g hcandidate.known hcandidate'.known hcandidate.enabled hcandidate'.enabled ?_
  rw [← hcandidate.bestEffort, ← hcandidate'.bestEffort]
  exact contendedTier_bestEffort hk hk'

theorem kind_weightedFair {fairness : FairnessPolicy} (h : fairness.kind = .weightedFairQueue) :
    ∃ weight burst, fairness = .weightedFairQueue weight burst := by
  cases fairness with
  | weightedFairQueue weight burst => exact ⟨weight, burst, rfl⟩
  | fifo => simp [FairnessPolicy.kind] at h
  | deficitRoundRobin quantum => simp [FairnessPolicy.kind] at h
  | deadlineAware slack => simp [FairnessPolicy.kind] at h
  | bestEffortScavenger => simp [FairnessPolicy.kind] at h

/-! ## Virtual time -/

/-- A weighted-fair service moves virtual time up to its tag, and comes from the least tag of the tier;
any other service leaves virtual time alone. -/
theorem Serves.weighted {first candidate : Candidate} {rest : List Candidate} {head : PendingRequest}
    (h : Serves g s s' first rest candidate policy head) :
    (policy.fairness.kind = .weightedFairQueue ∧
      s'.virtualTime = max s.virtualTime candidate.headFinishTag ∧
      ∀ k ∈ contendedTier (runnableCandidates s g.policy), candidate.headFinishTag ≤ k.headFinishTag) ∨
    (policy.fairness.kind ≠ .weightedFairQueue ∧ s'.virtualTime = s.virtualTime) := by
  have hpicked : candidate ∈ contendedTier (runnableCandidates s g.policy) := by
    rw [h.selects.tier]
    exact h.selects.picked
  have hfirst : first ∈ contendedTier (runnableCandidates s g.policy) := by
    rw [h.selects.tier]
    exact List.mem_cons_self
  have hkind : first.fairness.kind = policy.fairness.kind := by
    rw [← h.driven.fairness]
    exact tier_kind hfirst hpicked
  have htime := h.time
  have hchose := h.selects.chose
  unfold dispatchChoice at htime hchose
  rw [← hkind]
  cases hfair : first.fairness with
  | weightedFairQueue w b =>
    rw [hfair] at htime hchose
    simp only [Option.some.injEq] at htime hchose
    have hmin : ∀ k ∈ first :: rest, (pickMin (fun c => (c.headFinishTag, c.headQueueOrder)) first
        rest).headFinishTag ≤ k.headFinishTag :=
      fun k hk => pickMin_le (fun c => (c.headFinishTag, c.headQueueOrder)) first rest hk
    have hmem := pickMin_mem (fun c => (c.headFinishTag, c.headQueueOrder)) first rest
    generalize pickMin (fun c => (c.headFinishTag, c.headQueueOrder)) first rest = best at htime hchose hmin hmem
    obtain rfl : best = candidate := by
      refine candidate_unique (contendedTier_subset ?_) h.selects.mem hchose
      rw [h.selects.tier]
      exact hmem
    refine Or.inl ⟨rfl, htime, ?_⟩
    intro k hk
    rw [h.selects.tier] at hk
    exact hmin k hk
  | fifo =>
    rw [hfair] at htime
    exact Or.inr ⟨by simp [FairnessPolicy.kind], htime⟩
  | deficitRoundRobin quantum =>
    rw [hfair] at htime
    exact Or.inr ⟨by simp [FairnessPolicy.kind], htime.trans (virtualTime_drrSelect s _)⟩
  | deadlineAware slack =>
    rw [hfair] at htime
    exact Or.inr ⟨by simp [FairnessPolicy.kind], htime⟩
  | bestEffortScavenger =>
    rw [hfair] at htime
    exact Or.inr ⟨by simp [FairnessPolicy.kind], htime⟩

/-! ## A move is its operations -/

/-- The virtual time and the tags of a class. -/
def tagState (c : TaskClass) (s : GovernedState) : TagState := ⟨s.virtualTime, (s.cls c).schedule.creditless⟩

theorem weightOf_eq (hknown : g.policy.classPolicy c = some policy)
    (hfair : policy.fairness = .weightedFairQueue weight burst) : g.policy.weightOf c = some weight.toNat := by
  simp [PolicySet.weightOf, hknown, hfair]

/-- A move that overflows nowhere does not rebase. -/
theorem enqueue_fits (hknown : g.policy.classPolicy c = some policy)
    (hfair : policy.fairness = .weightedFairQueue weight burst)
    (hfits : TagsFit g.policy (s, .enqueued c)) :
    max (s.cls c).lastFinishTag s.virtualTime + wfqIncrement (resolveCost policy).cpuUnits weight.toNat ≤
      u128Max := by
  refine hfits _ ?_
  simp [tagSums, hknown, weightOf_eq hknown hfair]

theorem creditless_credited (fairness : FairnessPolicy) (virtualTime index tag : Nat) (c : ClassSchedule) :
    (c.credited fairness virtualTime index tag).creditless =
      c.creditless.credited fairness virtualTime index tag := by
  unfold ClassSchedule.credited
  show ClassSchedule.creditless (if c.queue.isEmpty then _ else _) = if c.queue.isEmpty then _ else _
  split
  · rfl
  · simp only
    split
    · cases fairness <;> rfl
    · rfl

theorem creditless_rederived (fairness : FairnessPolicy) (virtualTime : Nat) (c : ClassSchedule) :
    (c.rederived fairness virtualTime).creditless = c.creditless.rederived fairness virtualTime := by
  unfold ClassSchedule.rederived
  show ClassSchedule.creditless (if c.queue.isEmpty then _ else _) = if c.queue.isEmpty then _ else _
  split
  · rfl
  · cases fairness <;> rfl

/-- What an arrival does to its class when nothing overflows. -/
theorem Arrives.joined {tagged : GovernedState} {r : PendingRequest} (h : Arrives s s' c policy tagged r)
    (hfair : policy.fairness = .weightedFairQueue weight burst)
    (hfits : max (s.cls c).lastFinishTag s.virtualTime +
      wfqIncrement (resolveCost policy).cpuUnits weight.toNat ≤ u128Max) :
    s'.virtualTime = s.virtualTime ∧ (s'.cls c).queue.getLast? = some r ∧
      (s'.cls c).schedule.creditless =
        (s.cls c).schedule.creditless.joined weight.toNat s.virtualTime r.untagged := by
  have htagging := h.tagging
  have htime := h.time
  have hown := h.own
  have hqueue := congrArg ClassSchedule.queue h.own
  have hcost : wfqIncrement (resolveCost policy).cpuUnits weight.toNat =
      wfqIncrement r.cost.cpuUnits weight.toNat := by rw [h.cost]
  generalize htag : r.finishTag = tag at htagging
  generalize harrival : r.wfqArrivalTag = arrival at htagging
  cases htagging with
  | untagged plain => exact absurd hfair (plain weight burst)
  | @exact w b tag fair sum fits =>
    obtain ⟨rfl, _⟩ := FairnessPolicy.weightedFairQueue.inj (fair.symm.trans hfair)
    rw [cls_recordFinishTag, if_pos rfl] at hown hqueue
    refine ⟨htime, ?_, ?_⟩
    · have hqueue : (s'.cls c).queue = (s.cls c).queue ++ [r] := hqueue
      rw [hqueue, List.getLast?_concat]
    · have hsum : saturatingAdd u128Max (max (s.cls c).lastFinishTag s.virtualTime)
          (wfqIncrement r.cost.cpuUnits w.toNat) = r.finishTag := by
        rw [← hcost, htag, sum]
        exact Nat.min_eq_left hfits
      have hjoined : (s.cls c).schedule.creditless.joined w.toNat s.virtualTime r.untagged =
          { (s.cls c).schedule.creditless with
            queue := (s.cls c).queue ++
              [{ r.untagged with finishTag := r.finishTag, wfqArrivalTag := s.virtualTime }]
            lastFinishTag := r.finishTag } := by
        rw [← hsum]
        rfl
      rw [hjoined, hown, ← harrival, ← htag]
      rfl
  | rebased fair sum overflows =>
    obtain ⟨rfl, _⟩ := FairnessPolicy.weightedFairQueue.inj (fair.symm.trans hfair)
    exact absurd hfits (Nat.not_le.mpr overflows)

theorem Arrives.time_eq {tagged : GovernedState} {r : PendingRequest} (h : Arrives s s' c policy tagged r)
    (hfits : ∀ weight burst, policy.fairness = .weightedFairQueue weight burst →
      max (s.cls c).lastFinishTag s.virtualTime +
        wfqIncrement (resolveCost policy).cpuUnits weight.toNat ≤ u128Max) :
    s'.virtualTime = s.virtualTime := by
  have htagging := h.tagging
  have htime := h.time
  generalize r.finishTag = tag at htagging
  generalize r.wfqArrivalTag = arrival at htagging
  cases htagging with
  | untagged plain => exact htime
  | exact fair sum fits => exact htime
  | rebased fair sum overflows => exact absurd (hfits _ _ fair) (Nat.not_le.mpr overflows)

/-- A move about another queue that serves nobody is no operation. -/
theorem opsOf_apart {event : ScheduleEvent} (apart : event.subject ≠ some c)
    (still : ∀ selection, event ≠ .dispatched selection) : opsOf c s' event = [] := by
  cases event with
  | dispatched selection => exact absurd rfl (still selection)
  | enqueued k =>
    have hk : k ≠ c := by simpa [ScheduleEvent.subject] using apart
    exact if_neg hk
  | dropped k index => simpa [opsOf, ScheduleEvent.subject] using apart
  | emptied k => simpa [opsOf, ScheduleEvent.subject] using apart
  | ticked => rfl
  | other => rfl
  | granted k => rfl

/-- A move that overflows nowhere does to the tags of a weighted-fair class what its operations do. -/
theorem ScheduleMove.replay {event : ScheduleEvent} (h : ScheduleMove g s event s')
    (hknown : g.policy.classPolicy c = some policy)
    (hfair : policy.fairness = .weightedFairQueue weight burst) (hfits : TagsFit g.policy (s, event)) :
    tagState c s' = (tagState c s).replay weight burst (opsOf c s' event) := by
  cases h.class_cases c with
  | kept same time apart still =>
    rw [opsOf_apart apart still]
    unfold tagState
    rw [same, time]
    rfl
  | shifted other rebased time known fair overflows =>
    exact absurd (enqueue_fits known fair hfits) (Nat.not_le.mpr overflows)
  | @arrived policy' tagged r known arrives =>
    obtain rfl : policy' = policy := Option.some.inj (known.symm.trans hknown)
    obtain ⟨htime, hlast, hschedule⟩ := arrives.joined hfair (enqueue_fits known hfair hfits)
    have hops : opsOf c s' (.enqueued c) = [.arrive r.untagged] := by
      simp [opsOf, hlast]
    rw [hops]
    unfold tagState
    rw [hschedule, htime]
    rfl
  | @passed first candidate rest policy' head serves other =>
    have hops : opsOf c s' candidate.dispatched = [.elsewhere s'.virtualTime] := if_neg (Ne.symm other)
    have hle : s.virtualTime ≤ s'.virtualTime := serves.time ▸ dispatchChoice_time_le s first rest
    rw [hops]
    unfold tagState
    rw [serves.others c other]
    show _ = (⟨max s.virtualTime s'.virtualTime, _⟩ : TagState)
    rw [Nat.max_eq_right hle]
    rfl
  | @served first candidate rest policy' head serves own =>
    subst own
    obtain rfl : policy' = policy := Option.some.inj (serves.driven.known.symm.trans hknown)
    have hops : opsOf candidate.taskClass s' candidate.dispatched = [.serve candidate.queueIndex] := if_pos rfl
    have hkind : policy'.fairness.kind = .weightedFairQueue := by
      rw [hfair]
      rfl
    rcases serves.weighted with ⟨_, htime, _⟩ | ⟨hnot, _⟩
    · have htag : candidate.headFinishTag = (s.cls candidate.taskClass).schedule.creditless.serviceTag
          weight.toNat candidate.queueIndex head := by
        rw [serves.driven.tag, hfair]
        rfl
      rw [hops]
      unfold tagState
      rw [serves.own, hfair, creditless_credited, htime, htag]
      show _ = TagState.apply weight burst ⟨s.virtualTime, (s.cls candidate.taskClass).schedule.creditless⟩
        (.serve candidate.queueIndex)
      have hqueued : (s.cls candidate.taskClass).schedule.creditless.queue[candidate.queueIndex]? =
          some head := serves.driven.queued
      simp only [TagState.apply, hqueued]
      rfl
    · exact absurd hkind hnot
  | @dropped policy' index r known found left time =>
    obtain rfl : policy' = policy := Option.some.inj (known.symm.trans hknown)
    have hops : opsOf c s' (.dropped c index) = [.cancel index] := if_pos rfl
    rw [hops]
    unfold tagState
    rw [left, hfair, creditless_rederived, time]
    show _ = TagState.apply weight burst ⟨s.virtualTime, (s.cls c).schedule.creditless⟩ (.cancel index)
    have hqueued : (s.cls c).schedule.creditless.queue[index]? = some r := found
    simp only [TagState.apply, hqueued]
    rfl
  | emptied left time =>
    have hops : opsOf c s' (.emptied c) = [.clear] := if_pos rfl
    rw [hops]
    unfold tagState
    rw [left, time]
    rfl

/-! ## Canonical along a run -/

/-- Every operation keeps the tags canonical. -/
theorem Canonical.apply {x : TagState} {op : TagOp} (h : Canonical weight.toNat x.virtualTime x.schedule)
    (hop : ∀ virtualTime, op = .elsewhere virtualTime → virtualTime ≤ u128Max) :
    Canonical weight.toNat (x.apply weight burst op).virtualTime (x.apply weight burst op).schedule := by
  cases op with
  | elsewhere virtualTime => exact h.later (le_max_left _ _) (max_le h.fits (hop virtualTime rfl))
  | arrive r => exact h.joined r
  | serve index =>
    simp only [TagState.apply]
    cases hr : x.schedule.queue[index]? with
    | none => exact h
    | some r => exact h.serve burst rfl hr rfl
  | cancel index =>
    simp only [TagState.apply]
    cases hr : x.schedule.queue[index]? with
    | none => exact h
    | some r => exact h.cancel index burst rfl
  | clear => exact Canonical.idle h.fits

theorem canonical_creditless {virtualTime : Nat} {c : ClassSchedule} :
    Canonical weight.toNat virtualTime c.creditless ↔ Canonical weight.toNat virtualTime c :=
  ⟨fun h => ⟨h.tags, h.next, h.served, h.arrivals, h.arrived, h.fits⟩,
    fun h => ⟨h.tags, h.next, h.served, h.arrivals, h.arrived, h.fits⟩⟩

/-- The sums that keep the tags of a class exact. -/
def OpFits (weight : Nat) (x : TagState) : TagOp → Prop
  | .arrive r =>
    max x.schedule.lastFinishTag x.virtualTime + wfqIncrement r.cost.cpuUnits weight ≤ u128Max
  | .serve index => index ≠ 0 → ∀ r, x.schedule.queue[index]? = some r →
    ∀ sum ∈ repriceSums weight (max x.schedule.lastServedFinishTag (x.schedule.serviceTag weight index r))
      (x.schedule.queue.eraseIdx index), sum ≤ u128Max
  | .cancel index =>
    ∀ sum ∈ repriceSums weight x.schedule.lastServedFinishTag (x.schedule.queue.eraseIdx index), sum ≤ u128Max
  | _ => True

theorem unclipped_rebuilt {weight virtualTime : Nat} {c : ClassSchedule} (h : Unclipped weight c) :
    Unclipped weight (c.rebuilt weight virtualTime) := by
  intro sum hsum
  refine h sum ?_
  rw [← repriceSums_congr weight (repriceQueue_unfinished weight c.lastServedFinishTag c.queue)]
  exact hsum

/-- Every operation that overflows nowhere keeps the tags exact. -/
theorem Unclipped.apply {x : TagState} {op : TagOp} (h : Unclipped weight.toNat x.schedule)
    (hcanonical : Canonical weight.toNat x.virtualTime x.schedule) (hop : OpFits weight.toNat x op) :
    Unclipped weight.toNat (x.apply weight burst op).schedule := by
  cases op with
  | elsewhere virtualTime => exact h
  | arrive r =>
    show ∀ sum ∈ repriceSums weight.toNat x.schedule.lastServedFinishTag (x.schedule.queue ++ [_]), _
    intro sum hsum
    rw [repriceSums_append, List.mem_append] at hsum
    rcases hsum with hsum | hsum
    · exact h sum hsum
    · rw [repriceSums_cons, List.mem_cons] at hsum
      rcases hsum with rfl | hsum
      · show max (repriceQueue _ _ _).2 x.virtualTime + _ ≤ _
        rw [← hcanonical.next]
        exact hop
      · simp [repriceSums] at hsum
  | serve index =>
    simp only [TagState.apply]
    cases hr : x.schedule.queue[index]? with
    | none => exact h
    | some r =>
      simp only
      unfold ClassSchedule.credited
      split
      · intro sum hsum
        simp [ClassSchedule.idle, repriceSums] at hsum
      · simp only
        split
        · refine unclipped_rebuilt ?_
          exact hop (by omega) r hr
        · rename_i hindex
          obtain rfl : index = 0 := by omega
          cases hqueue : x.schedule.queue with
          | nil => simp [hqueue] at hr
          | cons head rest =>
            obtain rfl : head = r := by simpa [hqueue] using hr
            obtain ⟨hprice, hle, _⟩ := hcanonical.head_tag hqueue
            intro sum hsum
            refine h sum ?_
            rw [hqueue, repriceSums_cons, hprice]
            have hsum : sum ∈ repriceSums weight.toNat
                (max x.schedule.lastServedFinishTag head.finishTag) (x.schedule.queue.eraseIdx 0) := hsum
            rw [Nat.max_eq_right hle, hqueue] at hsum
            exact List.mem_cons_of_mem _ hsum
  | cancel index =>
    simp only [TagState.apply]
    cases hr : x.schedule.queue[index]? with
    | none => exact h
    | some r =>
      simp only
      unfold ClassSchedule.rederived
      split
      · intro sum hsum
        simp [ClassSchedule.idle, repriceSums] at hsum
      · exact unclipped_rebuilt hop
  | clear =>
    intro sum hsum
    simp [TagState.apply, ClassSchedule.idle, repriceSums] at hsum

/-- A move that overflows nowhere makes only operations that do not. -/
theorem ScheduleMove.opFits {event : ScheduleEvent} (h : ScheduleMove g s event s')
    (hknown : g.policy.classPolicy c = some policy)
    (hfair : policy.fairness = .weightedFairQueue weight burst) (hfits : TagsFit g.policy (s, event)) :
    ∀ op ∈ opsOf c s' event, OpFits weight.toNat (tagState c s) op := by
  intro op hop
  cases h.class_cases c with
  | kept same time apart still =>
    rw [opsOf_apart apart still] at hop
    simp at hop
  | shifted other rebased time known fair overflows =>
    exact absurd (enqueue_fits known fair hfits) (Nat.not_le.mpr overflows)
  | @arrived policy' tagged r known arrives =>
    obtain rfl : policy' = policy := Option.some.inj (known.symm.trans hknown)
    have hsum := enqueue_fits known hfair hfits
    obtain ⟨_, hlast, _⟩ := arrives.joined hfair hsum
    obtain rfl : op = .arrive r.untagged := by simpa [opsOf, hlast] using hop
    rw [← arrives.cost] at hsum
    exact hsum
  | @passed first candidate rest policy' head serves other =>
    obtain rfl : op = .elsewhere s'.virtualTime := by
      simpa [opsOf, Candidate.dispatched, Ne.symm other] using hop
    trivial
  | @served first candidate rest policy' head serves own =>
    subst own
    obtain rfl : op = .serve candidate.queueIndex := by simpa [opsOf, Candidate.dispatched] using hop
    intro hindex r hr sum hsum
    obtain rfl : head = r := Option.some.inj (serves.driven.queued.symm.trans hr)
    obtain rfl : policy' = policy := Option.some.inj (serves.driven.known.symm.trans hknown)
    refine hfits sum ?_
    have htag : candidate.headFinishTag = (s.cls candidate.taskClass).schedule.creditless.serviceTag
        weight.toNat candidate.queueIndex head := by
      rw [serves.driven.tag, hfair]
      rfl
    simp only [tagSums, Candidate.dispatched, weightOf_eq hknown hfair, if_neg hindex, List.mem_append]
    refine Or.inr ?_
    rw [htag]
    exact hsum
  | @dropped policy' index r known found left time =>
    obtain rfl : op = .cancel index := by simpa [opsOf] using hop
    intro sum hsum
    refine hfits sum ?_
    simp only [tagSums, weightOf_eq hknown hfair]
    exact hsum
  | emptied left time =>
    obtain rfl : op = .clear := by simpa [opsOf] using hop
    trivial

/-- The tags of every weighted-fair class are canonical and exact. -/
structure TagInv (g : Governor) (s : GovernedState) : Prop where
  time : s.virtualTime ≤ u128Max
  canonical : ∀ c policy weight burst, g.policy.classPolicy c = some policy →
    policy.fairness = .weightedFairQueue weight burst →
    Canonical weight.toNat s.virtualTime (s.cls c).schedule
  unclipped : ∀ c policy weight burst, g.policy.classPolicy c = some policy →
    policy.fairness = .weightedFairQueue weight burst → Unclipped weight.toNat (s.cls c).schedule

theorem TagInv.init (g : Governor) : TagInv g {} := by
  have hcls : ∀ c, (({} : GovernedState).cls c).schedule = ClassSchedule.idle 0 := by
    intro c
    simp [GovernedState.cls, default, ClassState.schedule, ClassSchedule.idle]
  refine ⟨Nat.zero_le _, ?_, ?_⟩
  · intro c policy weight burst _ _
    rw [hcls]
    exact Canonical.idle (Nat.zero_le _)
  · intro c policy weight burst _ _ sum hsum
    rw [hcls] at hsum
    simp [ClassSchedule.idle, repriceSums] at hsum

/-- Virtual time stays within its range. -/
theorem TagInv.time_step {event : ScheduleEvent} (h : TagInv g s) (hmove : ScheduleMove g s event s')
    (hfits : TagsFit g.policy (s, event)) : s'.virtualTime ≤ u128Max := by
  cases hmove with
  | ticked => exact h.time
  | other same ages => exact same.time ▸ h.time
  | granted known => exact h.time
  | @enqueued policy k request waker ids blockedOn known enabled =>
    obtain ⟨tagged, r, harrives⟩ := arrives_enqueuedAt s policy k request waker ids blockedOn
    rw [harrives.time_eq fun weight burst hfair => enqueue_fits known hfair hfits]
    exact h.time
  | dispatched chosen promoted =>
    obtain ⟨first, rest, candidate, policy, head, hserves, _⟩ := serves_of_promoteStep promoted
    rcases hserves.weighted with ⟨hkind, htime, _⟩ | ⟨_, htime⟩
    · obtain ⟨weight, burst, hfair⟩ := kind_weightedFair hkind
      have hcanonical := h.canonical _ _ weight burst hserves.driven.known hfair
      have htag : candidate.headFinishTag = (s.cls candidate.taskClass).schedule.serviceTag
          weight.toNat candidate.queueIndex head := by
        rw [hserves.driven.tag, hfair]
        rfl
      rw [htime, htag, hcanonical.serviceTag_eq hserves.driven.queued]
      exact max_le h.time (pricedFrom_le _ _ _)
    · exact htime ▸ h.time
  | dropped known found same ages => exact same.time ▸ h.time
  | emptied same ages => exact same.time ▸ h.time

theorem opsOf_elsewhere {event : ScheduleEvent} {virtualTime : Nat}
    (h : .elsewhere virtualTime ∈ opsOf c s' event) : virtualTime = s'.virtualTime := by
  cases event with
  | dispatched selection =>
    simp only [opsOf] at h
    split at h
    · simp at h
    · simpa using h
  | enqueued k =>
    simp only [opsOf] at h
    split at h
    · simp at h
    · simp at h
  | dropped k index =>
    simp only [opsOf] at h
    split at h
    · simp at h
    · simp at h
  | emptied k =>
    simp only [opsOf] at h
    split at h
    · simp at h
    · simp at h
  | ticked => simp [opsOf] at h
  | other => simp [opsOf] at h
  | granted k => simp [opsOf] at h

/-- A move is at most one operation of a class. -/
theorem opsOf_cases (c : TaskClass) (s' : GovernedState) (event : ScheduleEvent) :
    opsOf c s' event = [] ∨ ∃ op, opsOf c s' event = [op] := by
  cases event with
  | enqueued k =>
    simp only [opsOf]
    split
    · cases (s'.cls c).queue.getLast? with
      | none => exact Or.inl rfl
      | some r => exact Or.inr ⟨_, rfl⟩
    · exact Or.inl rfl
  | dispatched selection =>
    simp only [opsOf]
    split
    · exact Or.inr ⟨_, rfl⟩
    · exact Or.inr ⟨_, rfl⟩
  | dropped k index =>
    simp only [opsOf]
    split
    · exact Or.inr ⟨_, rfl⟩
    · exact Or.inl rfl
  | emptied k =>
    simp only [opsOf]
    split
    · exact Or.inr ⟨_, rfl⟩
    · exact Or.inl rfl
  | ticked => exact Or.inl rfl
  | other => exact Or.inl rfl
  | granted k => exact Or.inl rfl

theorem TagInv.step {event : ScheduleEvent} (h : TagInv g s) (hmove : ScheduleMove g s event s')
    (hfits : TagsFit g.policy (s, event)) : TagInv g s' := by
  have htime := h.time_step hmove hfits
  have hclass : ∀ c policy weight burst, g.policy.classPolicy c = some policy →
      policy.fairness = .weightedFairQueue weight burst →
      Canonical weight.toNat s'.virtualTime (s'.cls c).schedule ∧
        Unclipped weight.toNat (s'.cls c).schedule := by
    intro c policy weight burst hknown hfair
    have hcanonical : Canonical weight.toNat (tagState c s).virtualTime (tagState c s).schedule :=
      canonical_creditless.mpr (h.canonical c policy weight burst hknown hfair)
    have hunclipped : Unclipped weight.toNat (tagState c s).schedule :=
      h.unclipped c policy weight burst hknown hfair
    have hreplay := hmove.replay hknown hfair hfits
    have hops := hmove.opFits hknown hfair hfits
    have hresult : Canonical weight.toNat (tagState c s').virtualTime (tagState c s').schedule ∧
        Unclipped weight.toNat (tagState c s').schedule := by
      rcases opsOf_cases c s' event with hnone | ⟨op, hone⟩
      · rw [hreplay, hnone]
        exact ⟨hcanonical, hunclipped⟩
      · rw [hreplay, hone]
        have hmem : op ∈ opsOf c s' event := by
          rw [hone]
          exact List.mem_singleton_self op
        refine ⟨hcanonical.apply ?_, hunclipped.apply hcanonical (hops op hmem)⟩
        rintro virtualTime rfl
        rw [opsOf_elsewhere hmem]
        exact htime
    exact ⟨canonical_creditless.mp hresult.1, hresult.2⟩
  refine ⟨htime, ?_, ?_⟩
  · intro c policy weight burst hknown hfair
    exact (hclass c policy weight burst hknown hfair).1
  · intro c policy weight burst hknown hfair
    exact (hclass c policy weight burst hknown hfair).2

theorem TagInv.of_trace {tr : List (GovernedState × ScheduleEvent)} (h : ScheduleTrace g {} tr s)
    (hfits : ∀ x ∈ tr, TagsFit g.policy x) : TagInv g s :=
  h.invariant_of (fun _ _ _ hinv hfit hmove => hinv.step hmove hfit) hfits (TagInv.init g)

end Taskmesh
