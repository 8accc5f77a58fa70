import Taskmesh.Engine.Proofs.ScheduleProofs

/-!
# What a move does to one class

Every move of the schedule, seen from one class: nothing, a rebase of its tags, an arrival, the service
of another class, its own service, or a request that leaves unserved. Whatever holds of a class along
every run is proved over these cases.
-/

namespace Taskmesh

open Std MachineInt GovernedState

variable {g : Governor} {s s' : GovernedState}

/-! ## Tags of an arrival -/

theorem schedule_pushed (c : ClassState) (r : PendingRequest) :
    (c.pushed r).schedule = { c.schedule with queue := c.queue ++ [r] } := by
  unfold ClassState.pushed ClassState.indexPending
  split <;> split <;> rfl

theorem schedule_commitPending (s : GovernedState) (r : PendingRequest) (k : TaskClass) :
    ((s.commitPending r).cls k).schedule =
      if r.taskClass = k then { (s.cls k).schedule with queue := (s.cls k).queue ++ [s.arrived r] }
      else (s.cls k).schedule := by
  have hcls : (s.commitPending r).cls k = (s.enqueue r).cls k := by
    unfold GovernedState.commitPending
    simp only
    split <;> rfl
  rw [hcls, cls_enqueue]
  split
  · exact schedule_pushed _ _
  · rfl

/-- How an arrival is tagged: not at all, exactly, or after virtual time was rebased. -/
inductive Tagging (s : GovernedState) (c : TaskClass) (cost : Nat) (fairness : FairnessPolicy) :
    GovernedState → Nat → Nat → Prop
  | untagged (plain : ∀ weight burst, fairness ≠ .weightedFairQueue weight burst) :
      Tagging s c cost fairness s 0 0
  | exact {weight burst : UInt32} {tag : Nat} (fair : fairness = .weightedFairQueue weight burst)
      (sum : tag = max (s.cls c).lastFinishTag s.virtualTime + wfqIncrement cost weight.toNat)
      (fits : tag ≤ u128Max) : Tagging s c cost fairness (recordFinishTag s c tag) tag s.virtualTime
  | rebased {weight burst : UInt32} {tag : Nat} (fair : fairness = .weightedFairQueue weight burst)
      (sum : tag = saturatingAdd u128Max ((s.cls c).lastFinishTag - s.virtualTime)
        (wfqIncrement cost weight.toNat))
      (overflows : u128Max <
        max (s.cls c).lastFinishTag s.virtualTime + wfqIncrement cost weight.toNat) :
      Tagging s c cost fairness (recordFinishTag (rebaseVirtualTime s) c tag) tag 0

theorem nextFinishTag_fits {c : TaskClass} {increment : Nat}
    (h : max (s.cls c).lastFinishTag s.virtualTime + increment ≤ u128Max) :
    nextFinishTag s c increment = (s, max (s.cls c).lastFinishTag s.virtualTime + increment) := by
  unfold nextFinishTag checkedAdd
  rw [if_pos h]

theorem nextFinishTag_rebased {c : TaskClass} {increment : Nat}
    (h : u128Max < max (s.cls c).lastFinishTag s.virtualTime + increment) :
    nextFinishTag s c increment = (rebaseVirtualTime s,
      saturatingAdd u128Max ((s.cls c).lastFinishTag - s.virtualTime) increment) := by
  unfold nextFinishTag checkedAdd
  rw [if_neg (Nat.not_le.mpr h)]
  simp only [cls_rebaseVirtualTime]
  simp [rebaseClass, rebaseVirtualTime]

theorem tagsFor_wfq (s : GovernedState) (c : TaskClass) (cost now : Nat) (weight burst : UInt32) :
    tagsFor s c cost now (.weightedFairQueue weight burst) =
      (recordFinishTag (nextFinishTag s c (wfqIncrement cost weight.toNat)).1 c
        (nextFinishTag s c (wfqIncrement cost weight.toNat)).2,
      (nextFinishTag s c (wfqIncrement cost weight.toNat)).2,
      (nextFinishTag s c (wfqIncrement cost weight.toNat)).1.virtualTime, u64Max) := by
  rw [tagsFor]

theorem enqueueTags_tagging (s : GovernedState) (c : TaskClass) (policy : ClassPolicy) (cost now : Nat) :
    Tagging s c cost policy.fairness (enqueueTags s c policy cost now).1
      (enqueueTags s c policy cost now).2.1 (enqueueTags s c policy cost now).2.2.1 := by
  unfold enqueueTags
  cases policy.fairness with
  | weightedFairQueue weight burst =>
    rw [tagsFor_wfq]
    by_cases hfits : max (s.cls c).lastFinishTag s.virtualTime + wfqIncrement cost weight.toNat ≤ u128Max
    · rw [nextFinishTag_fits hfits]
      exact Tagging.exact rfl rfl hfits
    · rw [nextFinishTag_rebased (Nat.not_le.mp hfits)]
      exact Tagging.rebased rfl rfl (Nat.not_le.mp hfits)
  | fifo => exact Tagging.untagged (by simp)
  | deficitRoundRobin quantum => exact Tagging.untagged (by simp)
  | deadlineAware slack => exact Tagging.untagged (by simp)
  | bestEffortScavenger => exact Tagging.untagged (by simp)

theorem cls_recordFinishTag (s : GovernedState) (c k : TaskClass) (tag : Nat) :
    (recordFinishTag s c tag).cls k =
      if c = k then { s.cls c with lastFinishTag := tag } else s.cls k := by
  unfold recordFinishTag
  rw [cls_modifyClass]

/-- Tagging an arrival leaves another class alone, or rebases it with the rest. -/
theorem Tagging.other_class {c k : TaskClass} {cost tag arrival : Nat} {fairness : FairnessPolicy}
    (h : Tagging s c cost fairness s' tag arrival) (hk : k ≠ c) :
    (s'.cls k = s.cls k ∧ s'.virtualTime = s.virtualTime) ∨
      (s'.cls k = rebaseClass s.virtualTime (s.cls k) ∧ s'.virtualTime = 0 ∧
        ∃ weight burst, fairness = .weightedFairQueue weight burst ∧ u128Max <
          max (s.cls c).lastFinishTag s.virtualTime + wfqIncrement cost weight.toNat) := by
  cases h with
  | untagged plain => exact Or.inl ⟨rfl, rfl⟩
  | exact fair sum fits =>
    refine Or.inl ⟨?_, rfl⟩
    rw [cls_recordFinishTag, if_neg (Ne.symm hk)]
  | rebased fair sum overflows =>
    refine Or.inr ⟨?_, rfl, _, _, fair, overflows⟩
    rw [cls_recordFinishTag, if_neg (Ne.symm hk), cls_rebaseVirtualTime]

/-- Tagging an arrival keeps its queue, up to a rebase of the tags. -/
theorem Tagging.own_class {c : TaskClass} {cost tag arrival : Nat} {fairness : FairnessPolicy}
    (h : Tagging s c cost fairness s' tag arrival) :
    (s'.cls c).queue.map PendingRequest.untagged = (s.cls c).queue.map PendingRequest.untagged ∧
      (s'.cls c).deficit = (s.cls c).deficit ∧ s'.drrCursor = s.drrCursor := by
  cases h with
  | untagged plain => exact ⟨rfl, rfl, rfl⟩
  | exact fair sum fits =>
    rw [cls_recordFinishTag, if_pos rfl]
    exact ⟨rfl, rfl, rfl⟩
  | rebased fair sum overflows =>
    rw [cls_recordFinishTag, if_pos rfl, cls_rebaseVirtualTime]
    exact ⟨List.map_map, rfl, rfl⟩

/-- What an arrival does to the schedule. -/
structure Arrives (s s' : GovernedState) (c : TaskClass) (policy : ClassPolicy) (tagged : GovernedState)
    (r : PendingRequest) : Prop where
  tagging : Tagging s c (resolveCost policy).cpuUnits policy.fairness tagged r.finishTag r.wfqArrivalTag
  cost : r.cost = resolveCost policy
  time : s'.virtualTime = tagged.virtualTime
  cursor : s'.drrCursor = tagged.drrCursor
  own : (s'.cls c).schedule = { (tagged.cls c).schedule with queue := (tagged.cls c).queue ++ [r] }
  others : ∀ k, k ≠ c → (s'.cls k).schedule = (tagged.cls k).schedule

theorem arrives_enqueuedAt (s : GovernedState) (policy : ClassPolicy) (c : TaskClass)
    (request : AdmissionRequest) (waker : Option Waker) (ids : Ids) (blockedOn : CapacityBlock) :
    ∃ tagged r, Arrives s (enqueuedAt s policy c request waker ids blockedOn) c policy tagged r := by
  have htagging := enqueueTags_tagging s c policy (resolveCost policy).cpuUnits s.commitWatermarkMs
  unfold enqueuedAt
  generalize enqueueTags s c policy (resolveCost policy).cpuUnits s.commitWatermarkMs = tagging at htagging
  obtain ⟨tagged, tags⟩ := tagging
  refine ⟨tagged, tagged.arrived (pendingRequest s policy c request waker ids s.commitWatermarkMs blockedOn
    tags), ⟨htagging, rfl, ?_, ?_, ?_, fun k hk => ?_⟩⟩
  · simp only [GovernedState.commitPending]
    split <;> rfl
  · simp only [GovernedState.commitPending]
    split <;> rfl
  · exact (schedule_commitPending tagged _ c).trans (if_pos rfl)
  · exact (schedule_commitPending tagged _ k).trans (if_neg (Ne.symm hk))

/-! ## The moves of a class -/

/-- The class whose queue a move is about. -/
def ScheduleEvent.subject : ScheduleEvent → Option TaskClass
  | .enqueued c | .dropped c _ | .emptied c => some c
  | .dispatched selection => some selection.taskClass
  | .ticked | .other | .granted _ => none

/-- The event of serving a candidate. -/
def Candidate.dispatched (candidate : Candidate) : ScheduleEvent :=
  .dispatched ⟨candidate.taskClass, candidate.queueIndex, candidate.headFinishTag⟩

/-- What a move does to the class `c`. -/
inductive ClassMove (g : Governor) (c : TaskClass) (s s' : GovernedState) : ScheduleEvent → Prop
  | kept {event : ScheduleEvent} (same : (s'.cls c).schedule = (s.cls c).schedule)
      (time : s'.virtualTime = s.virtualTime) (apart : event.subject ≠ some c)
      (still : ∀ selection, event ≠ .dispatched selection) : ClassMove g c s s' event
  | shifted {k : TaskClass} {policy : ClassPolicy} {weight burst : UInt32} (other : k ≠ c)
      (rebased : (s'.cls c).schedule = (rebaseClass s.virtualTime (s.cls c)).schedule)
      (time : s'.virtualTime = 0) (known : g.policy.classPolicy k = some policy)
      (fair : policy.fairness = .weightedFairQueue weight burst)
      (overflows : u128Max < max (s.cls k).lastFinishTag s.virtualTime +
        wfqIncrement (resolveCost policy).cpuUnits weight.toNat) : ClassMove g c s s' (.enqueued k)
  | arrived {policy : ClassPolicy} {tagged : GovernedState} {r : PendingRequest}
      (known : g.policy.classPolicy c = some policy) (arrives : Arrives s s' c policy tagged r) :
      ClassMove g c s s' (.enqueued c)
  | passed {first candidate : Candidate} {rest : List Candidate} {policy : ClassPolicy}
      {head : PendingRequest} (serves : Serves g s s' first rest candidate policy head)
      (other : c ≠ candidate.taskClass) : ClassMove g c s s' candidate.dispatched
  | served {first candidate : Candidate} {rest : List Candidate} {policy : ClassPolicy}
      {head : PendingRequest} (serves : Serves g s s' first rest candidate policy head)
      (own : candidate.taskClass = c) : ClassMove g c s s' candidate.dispatched
  | dropped {policy : ClassPolicy} {index : Nat} {r : PendingRequest}
      (known : g.policy.classPolicy c = some policy) (found : (s.cls c).queue[index]? = some r)
      (left : (s'.cls c).schedule =
        ((s.cls c).schedule.dequeued index).rederived policy.fairness s.virtualTime)
      (time : s'.virtualTime = s.virtualTime) : ClassMove g c s s' (.dropped c index)
  | emptied (left : (s'.cls c).schedule = ClassSchedule.idle s.virtualTime)
      (time : s'.virtualTime = s.virtualTime) : ClassMove g c s s' (.emptied c)

/-- Every move of the schedule is one of these for each class. -/
theorem ScheduleMove.class_cases {event : ScheduleEvent} (h : ScheduleMove g s event s') (c : TaskClass) :
    ClassMove g c s s' event := by
  cases h with
  | ticked => exact ClassMove.kept rfl rfl (by simp [ScheduleEvent.subject]) (by simp)
  | other same ages =>
    exact ClassMove.kept (same.classes c) same.time (by simp [ScheduleEvent.subject]) (by simp)
  | granted known =>
    exact ClassMove.kept (schedule_grant s _ c) rfl (by simp [ScheduleEvent.subject]) (by simp)
  | @enqueued policy k request waker ids blockedOn known enabled =>
    obtain ⟨tagged, r, harrives⟩ := arrives_enqueuedAt s policy k request waker ids blockedOn
    by_cases hk : k = c
    · subst hk
      exact ClassMove.arrived known harrives
    · rcases harrives.tagging.other_class (Ne.symm hk) with
        ⟨hsame, htime⟩ | ⟨hrebased, htime, weight, burst, hfair, hoverflows⟩
      · refine ClassMove.kept ?_ (harrives.time.trans htime) (by simpa [ScheduleEvent.subject] using hk)
          (by simp)
        rw [harrives.others c (Ne.symm hk), hsame]
      · refine ClassMove.shifted hk ?_ (harrives.time.trans htime) known hfair hoverflows
        rw [harrives.others c (Ne.symm hk), hrebased]
  | dispatched chosen promoted =>
    obtain ⟨first, rest, candidate, policy, head, hserves, hselect⟩ := serves_of_promoteStep promoted
    obtain rfl := Option.some.inj (chosen.symm.trans hselect)
    by_cases hk : candidate.taskClass = c
    · exact ClassMove.served hserves hk
    · exact ClassMove.passed hserves (Ne.symm hk)
  | @dropped _ policy k index r known found same ages =>
    have hclass := schedule_onUnservedRemoved (s.removedPending k index r) k policy c
    by_cases hk : k = c
    · subst hk
      refine ClassMove.dropped known found ?_ same.time
      rw [same.classes, hclass, if_pos rfl, cls_removedPending, if_pos rfl, schedule_dropped]
      rfl
    · refine ClassMove.kept ?_ same.time (by simpa [ScheduleEvent.subject] using hk) (by simp)
      rw [same.classes, hclass, if_neg hk, cls_removedPending, if_neg hk]
  | @emptied _ k same ages =>
    have hclass := schedule_emptiedClass s k c
    by_cases hk : k = c
    · subst hk
      refine ClassMove.emptied ?_ same.time
      rw [same.classes, hclass, if_pos rfl]
    · refine ClassMove.kept ?_ same.time (by simpa [ScheduleEvent.subject] using hk) (by simp)
      rw [same.classes, hclass, if_neg hk]

/-! ## The requests of a class -/

namespace ClassSchedule

/-- The queued requests without their tags. -/
def waiting (c : ClassSchedule) : List PendingRequest := c.queue.map PendingRequest.untagged

theorem waiting_rebuilt (weight virtualTime : Nat) (c : ClassSchedule) :
    (c.rebuilt weight virtualTime).waiting = c.waiting := repriceQueue_untagged _ _ _

theorem waiting_rederived (fairness : FairnessPolicy) (virtualTime : Nat) (c : ClassSchedule) :
    (c.rederived fairness virtualTime).waiting = c.waiting := by
  unfold rederived
  split
  · rename_i hempty
    simp [waiting, idle, List.isEmpty_iff.mp hempty]
  · cases fairness with
    | weightedFairQueue weight burst => exact waiting_rebuilt _ _ _
    | fifo => rfl
    | deficitRoundRobin quantum => rfl
    | deadlineAware slack => rfl
    | bestEffortScavenger => rfl

theorem waiting_credited (fairness : FairnessPolicy) (virtualTime index tag : Nat) (c : ClassSchedule) :
    (c.credited fairness virtualTime index tag).waiting = c.waiting := by
  unfold credited
  split
  · rename_i hempty
    simp [waiting, idle, List.isEmpty_iff.mp hempty]
  · simp only
    split
    · cases fairness with
      | weightedFairQueue weight burst => exact waiting_rebuilt _ _ _
      | fifo => rfl
      | deficitRoundRobin quantum => rfl
      | deadlineAware slack => rfl
      | bestEffortScavenger => rfl
    · rfl

theorem waiting_dequeued (index : Nat) (c : ClassSchedule) :
    (c.dequeued index).waiting = c.waiting.eraseIdx index := (List.eraseIdx_map _ _ _).symm

theorem waiting_rebased (origin : Nat) (c : ClassState) :
    (rebaseClass origin c).schedule.waiting = c.schedule.waiting := List.map_map

end ClassSchedule

/-- Apart from an arrival at its end, a queue only loses requests. -/
theorem ClassMove.waiting_cases {c : TaskClass} {event : ScheduleEvent} (h : ClassMove g c s s' event) :
    ((s'.cls c).schedule.waiting).Sublist (s.cls c).schedule.waiting ∨
      ∃ policy tagged r, event = .enqueued c ∧ g.policy.classPolicy c = some policy ∧
        Arrives s s' c policy tagged r ∧
        (s'.cls c).schedule.waiting = (s.cls c).schedule.waiting ++ [r.untagged] := by
  cases h with
  | kept same time apart still =>
    rw [same]
    exact Or.inl (List.Sublist.refl _)
  | shifted other rebased time known fair overflows =>
    rw [rebased, ClassSchedule.waiting_rebased]
    exact Or.inl (List.Sublist.refl _)
  | @arrived policy tagged r known arrives =>
    refine Or.inr ⟨policy, tagged, r, rfl, known, arrives, ?_⟩
    rw [arrives.own]
    show ((tagged.cls c).queue ++ [r]).map PendingRequest.untagged = _
    rw [List.map_append, arrives.tagging.own_class.1]
    rfl
  | passed serves other =>
    rw [serves.others c other]
    exact Or.inl (List.Sublist.refl _)
  | served serves own =>
    subst own
    rw [serves.own, ClassSchedule.waiting_credited, ClassSchedule.waiting_dequeued]
    exact Or.inl (List.eraseIdx_sublist _ _)
  | dropped known found left time =>
    rw [left, ClassSchedule.waiting_rederived, ClassSchedule.waiting_dequeued]
    exact Or.inl (List.eraseIdx_sublist _ _)
  | emptied left time =>
    rw [left]
    exact Or.inl (List.nil_sublist _)

end Taskmesh
