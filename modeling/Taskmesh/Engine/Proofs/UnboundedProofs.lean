import Taskmesh.Engine.Proofs.RebaseProofs
import Taskmesh.Engine.Unbounded

/-!
# Unbounded tags

As long as no addition on tags overflows, the scheduler that holds them in a `u128` is the one over unbounded
tags: each of its operations is the same function, so that a run beside the governor has the governor's own tags.
-/

namespace Taskmesh

open Std MachineInt GovernedState

variable {g : Governor} {s s' : GovernedState} {c : TaskClass} {policy : ClassPolicy}

/-! ## Tags of a state -/

theorem PendingRequest.retagged_self (r : PendingRequest) :
    r.retagged (some (r.finishTag, r.wfqArrivalTag)) = r := rfl

theorem ClassState.retagged_self (c : ClassState) : c.retagged c.schedule.tags = c := by
  have hqueue : (c.queue.mapIdx fun i r => r.retagged c.schedule.tags.queue[i]?) = c.queue := by
    refine List.ext_getElem (by simp) fun i hi hi' => ?_
    rw [List.getElem_mapIdx]
    have htags : c.schedule.tags.queue[i]? = some (c.queue[i].finishTag, c.queue[i].wfqArrivalTag) := by
      show (c.queue.map _)[i]? = _
      rw [List.getElem?_map, List.getElem?_eq_getElem hi']
      rfl
    rw [htags]
    exact PendingRequest.retagged_self _
  unfold ClassState.retagged
  rw [hqueue]
  rfl

/-- A state is the same with its own tags. -/
theorem retagged_tags (s : GovernedState) : s.retagged s.tags = s := by
  have hclasses : (s.classes.map fun c cs => cs.retagged (s.tags.classes c)) = s.classes := by
    refine ExtTreeMap.ext_getElem? fun c => ?_
    rw [ExtTreeMap.getElem?_map]
    cases hcs : s.classes[c]? with
    | none => rfl
    | some cs =>
      have hcls : s.cls c = cs := by simp [cls, hcs]
      show some (cs.retagged (s.cls c).schedule.tags) = some cs
      rw [hcls, ClassState.retagged_self]
  unfold GovernedState.retagged
  rw [hclasses]
  rfl

theorem PendingRequest.untagged_retagged (r : PendingRequest) (tags : Option (Nat × Nat)) :
    (r.retagged tags).untagged = r.untagged := by
  cases tags <;> rfl

theorem ClassState.queueHalf_retagged (c : ClassState) (tags : ClassTags) :
    (c.retagged tags).queueHalf = c.queueHalf := by
  have hqueue : (c.queue.mapIdx fun i r => r.retagged tags.queue[i]?).map PendingRequest.untagged =
      c.queue.map PendingRequest.untagged := by
    refine List.ext_getElem (by simp) fun i hi hi' => ?_
    rw [List.getElem_map, List.getElem_mapIdx, PendingRequest.untagged_retagged, List.getElem_map]
  unfold ClassState.queueHalf
  rw [← hqueue]
  rfl

/-- The class of a state with other tags, where the state knows it. -/
theorem cls_retagged {cs : ClassState} (h : s.classes[c]? = some cs) (tags : Tags) :
    (s.retagged tags).cls c = cs.retagged (tags.classes c) := by
  show (s.classes.map fun c cs => cs.retagged (tags.classes c))[c]?.getD default = _
  rw [ExtTreeMap.getElem?_map, h]
  rfl

/-- Other tags are all that changes. -/
theorem rescheduled_retagged (s : GovernedState) (tags : Tags) : s.Rescheduled (s.retagged tags) := by
  have hunknown : ∀ c, s.classes[c]? = none → (s.retagged tags).cls c = s.cls c := by
    intro c hnone
    show (s.classes.map fun c cs => cs.retagged (tags.classes c))[c]?.getD default = s.classes[c]?.getD default
    rw [ExtTreeMap.getElem?_map, hnone]
    rfl
  refine ⟨⟨fun c => ?_, rfl, rfl⟩, ⟨fun c => ?_, rfl, rfl, rfl, rfl, rfl, rfl⟩, rfl, rfl, ⟨rfl, rfl, rfl⟩⟩
  · cases hcs : s.classes[c]? with
    | none => rw [hunknown c hcs]
    | some cs =>
      rw [cls_retagged hcs, ClassState.queueHalf_retagged]
      simp [cls, hcs]
  · cases hcs : s.classes[c]? with
    | none => rw [hunknown c hcs]
    | some cs =>
      rw [cls_retagged hcs]
      simp [cls, hcs]
      rfl

theorem SameSchedule.tags_eq (h : SameSchedule s s') : s'.tags = s.tags := by
  have hclasses : (fun c => (s'.cls c).schedule.tags) = fun c => (s.cls c).schedule.tags :=
    funext fun c => congrArg ClassSchedule.tags (h.classes c)
  unfold GovernedState.tags
  rw [h.time, hclasses]

/-! ## The same operations -/

/-- An arrival that overflows nothing is tagged alike. -/
theorem Tagging.unbounded {tagged : GovernedState} {cost finishTag arrivalTag : Nat}
    {fairness : FairnessPolicy} (h : Tagging s c cost fairness tagged finishTag arrivalTag)
    (hfits : ∀ weight burst, fairness = .weightedFairQueue weight burst →
      max (s.cls c).lastFinishTag s.virtualTime + wfqIncrement cost weight.toNat ≤ u128Max) (now : Nat) :
    ∃ deadline, Unbounded.tagsFor s c cost now fairness = (tagged, finishTag, arrivalTag, deadline) := by
  cases h with
  | untagged plain =>
    cases fairness with
    | weightedFairQueue weight burst => exact absurd rfl (plain weight burst)
    | fifo => exact ⟨_, rfl⟩
    | deficitRoundRobin quantum => exact ⟨_, rfl⟩
    | deadlineAware slack => exact ⟨_, rfl⟩
    | bestEffortScavenger => exact ⟨_, rfl⟩
  | exact fair sum fits =>
    subst fair sum
    exact ⟨_, rfl⟩
  | rebased fair sum overflows => exact absurd (hfits _ _ fair) (Nat.not_le.mpr overflows)

/-- A rebuild that overflows nothing prices the queue alike. -/
theorem repriceQueue_unbounded {weight cursor : Nat} {queue : List PendingRequest}
    (hfits : ∀ sum ∈ repriceSums weight cursor queue, sum ≤ u128Max) :
    Unbounded.repriceQueue weight cursor queue = repriceQueue weight cursor queue := by
  induction queue generalizing cursor with
  | nil => rfl
  | cons r rest ih =>
    have hsum : max cursor r.wfqArrivalTag + wfqIncrement r.cost.cpuUnits weight ≤ u128Max :=
      hfits _ List.mem_cons_self
    have hprice := pricedFrom_exact hsum
    have hrest : ∀ sum ∈ repriceSums weight (pricedFrom weight cursor r) rest, sum ≤ u128Max := fun sum hmem =>
      hfits sum (List.mem_cons_of_mem _ hmem)
    rw [repriceQueue_cons, ← ih hrest, hprice]
    rfl

theorem rebuildWfqQueue_unbounded {weight virtualTime : Nat} {cs : ClassState}
    (hfits : ∀ sum ∈ repriceSums weight cs.lastServedFinishTag cs.queue, sum ≤ u128Max) :
    Unbounded.rebuildWfqQueue weight virtualTime cs = rebuildWfqQueue weight virtualTime cs := by
  unfold Unbounded.rebuildWfqQueue rebuildWfqQueue
  rw [repriceQueue_unbounded hfits]

/-- A cancellation that overflows nothing leaves the same tags. -/
theorem onUnservedRemoved_unbounded
    (hfits : ∀ weight burst, policy.fairness = .weightedFairQueue weight burst →
      ∀ sum ∈ repriceSums weight.toNat (s.cls c).lastServedFinishTag (s.cls c).queue, sum ≤ u128Max) :
    Unbounded.onUnservedRemoved s c policy = onUnservedRemoved s c policy := by
  unfold Unbounded.onUnservedRemoved onUnservedRemoved modifyClass
  cases hfair : policy.fairness with
  | weightedFairQueue weight burst => simp only [rebuildWfqQueue_unbounded (hfits weight burst hfair)]
  | _ => rfl

/-- A service that overflows nothing leaves the same tags. -/
theorem onRequestServed_unbounded {queueIndex tag : Nat}
    (hfits : queueIndex ≠ 0 → ∀ weight burst, policy.fairness = .weightedFairQueue weight burst →
      ∀ sum ∈ repriceSums weight.toNat (max (s.cls c).lastServedFinishTag tag) (s.cls c).queue,
        sum ≤ u128Max) :
    Unbounded.onRequestServed s c policy queueIndex tag = onRequestServed s c policy queueIndex tag := by
  unfold Unbounded.onRequestServed onRequestServed modifyClass
  by_cases hindex : queueIndex = 0
  · simp only [hindex, gt_iff_lt, Nat.lt_irrefl, if_false]
  · cases hfair : policy.fairness with
    | weightedFairQueue weight burst =>
      let credited := { s.cls c with lastServedFinishTag := max (s.cls c).lastServedFinishTag tag }
      have hrebuild : Unbounded.rebuildWfqQueue weight.toNat s.virtualTime credited =
          rebuildWfqQueue weight.toNat s.virtualTime credited :=
        rebuildWfqQueue_unbounded (hfits hindex weight burst hfair)
      simp only [credited] at hrebuild
      simp only [hrebuild]
    | _ => rfl

/-! ## The same candidates -/

/-- A candidate whose price overflows nothing is the same candidate. -/
theorem classCandidate_unbounded {policies : PolicySet}
    (hfits : ∀ candidate, classCandidate s policies c (s.cls c) = some candidate →
      ∀ sum, candidateSum s policies candidate = some sum → sum ≤ u128Max) :
    Unbounded.classCandidate s policies c (s.cls c) = classCandidate s policies c (s.cls c) := by
  unfold Unbounded.classCandidate classCandidate
  unfold classCandidate at hfits
  cases hpolicy : policies.classPolicy c with
  | none => rfl
  | some policy =>
    simp only [hpolicy] at hfits ⊢
    cases hindex : (s.cls c).queue.findIdx?
        (isRunnableCandidate s policies policy.maxInflight.toNat (s.cls c)) with
    | none => rfl
    | some index =>
      simp only [hindex] at hfits ⊢
      cases hhead : (s.cls c).queue[index]? with
      | none => rfl
      | some head =>
        simp only [hhead, Option.some.injEq] at hfits ⊢
        cases hfair : policy.fairness with
        | weightedFairQueue weight burst =>
          simp only [hfair] at hfits ⊢
          by_cases hzero : index = 0
          · simp only [if_pos hzero]
          · simp only [if_neg hzero] at hfits ⊢
            have hsum := hfits _ rfl (max (s.cls c).lastServedFinishTag head.wfqArrivalTag +
              wfqIncrement head.cost.cpuUnits weight.toNat)
              (by simp [candidateSum, PolicySet.weightOf, hpolicy, hfair, hhead, hzero])
            rw [saturatingAdd, Nat.min_eq_left hsum]
        | _ => rfl

theorem runnableCandidates_unbounded {policies : PolicySet}
    (hfits : ∀ sum ∈ (runnableCandidates s policies).filterMap (candidateSum s policies), sum ≤ u128Max) :
    Unbounded.runnableCandidates s policies = runnableCandidates s policies := by
  unfold Unbounded.runnableCandidates runnableCandidates
  refine List.filterMap_congr fun entry hentry => ?_
  have hcs := ExtTreeMap.mem_toList.mp hentry
  have hcls : s.cls entry.1 = entry.2 := by simp [cls, hcs]
  rw [← hcls]
  refine classCandidate_unbounded fun candidate hcandidate sum hsum => hfits sum ?_
  rw [hcls] at hcandidate
  exact List.mem_filterMap.mpr ⟨candidate, mem_runnableCandidates.mpr ⟨_, _, hcs, hcandidate⟩, hsum⟩

theorem select_unbounded {policies : PolicySet}
    (hfits : ∀ sum ∈ (runnableCandidates s policies).filterMap (candidateSum s policies), sum ≤ u128Max) :
    Unbounded.select s policies = select s policies := by
  unfold Unbounded.select
  rw [runnableCandidates_unbounded hfits]
  by_cases hnone : runnableCandidates s policies = []
  · rw [select_nil hnone, hnone]
    rfl
  · obtain ⟨first, rest, candidate, hselects⟩ := selects_of_runnable hnone
    have hchoice : dispatchChoice s first rest =
        ((dispatchChoice s first rest).1, some candidate.taskClass) := Prod.ext rfl hselects.chose
    have hfind : (runnableCandidates s policies).find? (fun d => decide (d.taskClass = candidate.taskClass)) =
        some candidate := by
      have hsome : ((runnableCandidates s policies).find?
          (fun d => decide (d.taskClass = candidate.taskClass))).isSome = true := by
        rw [List.find?_isSome]
        exact ⟨candidate, hselects.mem, by simp⟩
      obtain ⟨found, hfound⟩ := Option.isSome_iff_exists.mp hsome
      have hclass : found.taskClass = candidate.taskClass := by simpa using List.find?_some hfound
      rw [hfound, candidate_unique (List.mem_of_find?_eq_some hfound) hselects.mem hclass]
    rw [hselects.selects]
    simp only [hselects.tier]
    rw [hchoice]
    simp only [hfind]

/-- What a class has to run does not depend on how its tags are added up. -/
theorem classCandidate_none_iff {policies : PolicySet} {cs : ClassState} :
    Unbounded.classCandidate s policies c cs = none ↔ classCandidate s policies c cs = none := by
  unfold Unbounded.classCandidate classCandidate
  cases policies.classPolicy c with
  | none => rfl
  | some policy =>
    simp only
    cases cs.queue.findIdx? (isRunnableCandidate s policies policy.maxInflight.toNat cs) with
    | none => rfl
    | some index =>
      simp only
      cases cs.queue[index]? with
      | none => rfl
      | some head => simp

theorem unbounded_select_none_iff {policies : PolicySet} :
    (Unbounded.select s policies).2 = none ↔ hasRunnable s policies = false := by
  have hcandidates : Unbounded.runnableCandidates s policies = [] ↔ runnableCandidates s policies = [] := by
    unfold Unbounded.runnableCandidates runnableCandidates
    simp only [List.filterMap_eq_nil_iff, classCandidate_none_iff]
  have hrunnable : hasRunnable s policies = false ↔ runnableCandidates s policies = [] := by
    simp [hasRunnable]
  rw [hrunnable, ← hcandidates]
  unfold Unbounded.select
  cases htier : contendedTier (Unbounded.runnableCandidates s policies) with
  | nil =>
    simp only [htier]
    exact ⟨fun _ => contendedTier_eq_nil.mp htier, fun _ => trivial⟩
  | cons first rest =>
    obtain ⟨_, picked, hpicked, hchoice⟩ := dispatchChoice_spec s first rest
    have hmem : picked ∈ Unbounded.runnableCandidates s policies := by
      refine contendedTier_subset ?_
      rw [htier]
      exact hpicked
    have hsome : ((Unbounded.runnableCandidates s policies).find?
        (fun d => decide (d.taskClass = picked.taskClass))).isSome = true := by
      rw [List.find?_isSome]
      exact ⟨picked, hmem, by simp⟩
    obtain ⟨found, hfound⟩ := Option.isSome_iff_exists.mp hsome
    have hchose : dispatchChoice s first rest = ((dispatchChoice s first rest).1, some picked.taskClass) :=
      Prod.ext rfl hchoice
    simp only [htier]
    rw [hchose]
    simp [hfound, List.ne_nil_of_mem hmem]

/-- Whether anything is selected does not depend on the tags. -/
theorem select_retagged_none_iff (g : Governor) (s : GovernedState) (tags : Tags) :
    (Unbounded.select (s.retagged tags) g.policy).2 = none ↔ (select s g.policy).2 = none := by
  have hres := rescheduled_retagged s tags
  have hback : (s.retagged tags).SameLedger s :=
    ⟨fun c => (hres.ledger.classes c).symm, rfl, rfl, rfl, rfl, rfl, rfl⟩
  have hsame : hasRunnable (s.retagged tags) g.policy = hasRunnable s g.policy := by
    rw [Bool.eq_iff_iff]
    exact ⟨(noFreer_of_sameLedger hres.ledger rfl).hasRunnable hres.queues,
      (noFreer_of_sameLedger hback rfl).hasRunnable ⟨fun c => (hres.queues.classes c).symm, rfl, rfl⟩⟩
  rw [unbounded_select_none_iff, hsame]
  constructor
  · intro hnone
    rw [select_nil (by simpa [hasRunnable] using hnone)]
  · intro hnone
    by_contra hrun
    have hsome : runnableCandidates s g.policy ≠ [] := by simpa [hasRunnable] using hrun
    obtain ⟨s', candidate, _, _, hselect⟩ := select_spec hsome
    rw [hselect] at hnone
    simp at hnone

/-! ## Beside the governor -/

theorem Arrives.tags_eq {tagged : GovernedState} {r : PendingRequest} (h : Arrives s s' c policy tagged r) :
    s'.tags = tagged.tags.queued c r.finishTag r.wfqArrivalTag := by
  have hclasses : s'.tags.classes = (tagged.tags.queued c r.finishTag r.wfqArrivalTag).classes := by
    funext k
    show (s'.cls k).schedule.tags = Function.update tagged.tags.classes c _ k
    by_cases hk : k = c
    · subst hk
      rw [h.own, Function.update_self]
      simp only [ClassSchedule.tags, List.map_append]
      rfl
    · rw [h.others k hk, Function.update_of_ne hk]
      rfl
  show Tags.mk s'.virtualTime s'.tags.classes = _
  rw [h.time, hclasses]
  rfl

/-- A removal takes one request out of its queue, and moves no tag. -/
theorem tags_removedPending (s : GovernedState) (c : TaskClass) (index : Nat) (r : PendingRequest) :
    ((s.removedPending c index r).cls c).queue = (s.cls c).queue.eraseIdx index ∧
      ((s.removedPending c index r).cls c).lastServedFinishTag = (s.cls c).lastServedFinishTag := by
  have hschedule : ((s.removedPending c index r).cls c).schedule = (s.cls c).schedule.dequeued index := by
    rw [cls_removedPending, if_pos rfl, schedule_dropped]
  exact ⟨congrArg ClassSchedule.queue hschedule, congrArg ClassSchedule.lastServedFinishTag hschedule⟩

/-- The service of a selected request leaves the governor's tags. -/
theorem serve_unbounded {nowMs : Nat} {grant : GrantRequest} {selection : Selection}
    (chosen : (select s g.policy).2 = some selection) (promoted : g.promoteStep nowMs s = (s', some grant))
    (hfits : TagsFit g.policy (s, .dispatched selection)) : (Unbounded.serve s g.policy).tags = s'.tags := by
  obtain ⟨first, rest, candidate, policy, head, hserves, hselect⟩ := serves_of_promoteStep promoted
  obtain rfl := Option.some.inj (chosen.symm.trans hselect)
  have hqueue := congrArg ClassSchedule.queue (schedule_dispatchChoice s first rest candidate.taskClass)
  have hlast := congrArg ClassSchedule.lastServedFinishTag
    (schedule_dispatchChoice s first rest candidate.taskClass)
  simp only [ClassState.schedule] at hqueue hlast
  have hhead : ((dispatchChoice s first rest).1.cls candidate.taskClass).queue[candidate.queueIndex]? =
      some head := by
    rw [hqueue]
    exact hserves.driven.queued
  let removed := (dispatchChoice s first rest).1.removedPending candidate.taskClass candidate.queueIndex head
  have hserved : Unbounded.onRequestServed removed candidate.taskClass policy candidate.queueIndex
      candidate.headFinishTag =
        onRequestServed removed candidate.taskClass policy candidate.queueIndex candidate.headFinishTag := by
    refine onRequestServed_unbounded fun hindex weight burst hfair sum hsum => hfits sum ?_
    obtain ⟨hrest, hserviced⟩ := tags_removedPending (dispatchChoice s first rest).1 candidate.taskClass
      candidate.queueIndex head
    rw [hrest, hserviced, hqueue, hlast] at hsum
    simp only [tagSums, weightOf_eq hserves.driven.known hfair, if_neg hindex, List.mem_append]
    exact Or.inr hsum
  unfold Governor.promoteStep at promoted
  rw [hserves.selects.selects] at promoted
  simp only [removePending_of_getElem hhead, Governor.served, hserves.driven.known, Prod.mk.injEq,
    Option.some.injEq] at promoted
  obtain ⟨hstate, _⟩ := promoted
  unfold Unbounded.serve
  rw [select_unbounded fun sum hsum => hfits sum (List.mem_append_left _ hsum), hserves.selects.selects]
  simp only [removePending_of_getElem hhead, Unbounded.served, hserves.driven.known]
  rw [hserved, ← hstate]
  exact SameSchedule.tags_eq (SameSchedule.symm ⟨fun k => schedule_grant _ _ k, rfl, rfl⟩)

/-- A call that overflows nothing does to the unbounded tags what it does to the governor's. -/
theorem ScheduleMove.tags_eq {event : ScheduleEvent} (h : ScheduleMove g s event s')
    (hfits : TagsFit g.policy (s, event)) : Unbounded.step g.policy s.tags (s, event) = s'.tags := by
  cases h with
  | ticked sampledMs => rfl
  | other same ages => exact same.tags_eq.symm
  | @granted policy c request ids known =>
    exact (SameSchedule.tags_eq ⟨fun k => schedule_grant s _ k, rfl, rfl⟩).symm
  | @enqueued policy c request waker ids blockedOn known enabled =>
    obtain ⟨tagged, r, harrives⟩ := arrives_enqueuedAt s policy c request waker ids blockedOn
    obtain ⟨deadline, htags⟩ := harrives.tagging.unbounded
      (fun weight burst hfair => enqueue_fits known hfair hfits) s.commitWatermarkMs
    rw [harrives.tags_eq]
    simp only [Unbounded.step, known, retagged_tags, Unbounded.enqueueTags, htags]
  | dispatched chosen promoted =>
    simp only [Unbounded.step, retagged_tags]
    exact serve_unbounded chosen promoted hfits
  | @dropped _ policy c index r known found same ages =>
    have hleft : Unbounded.onUnservedRemoved (s.removedPending c index r) c policy =
        onUnservedRemoved (s.removedPending c index r) c policy := by
      refine onUnservedRemoved_unbounded fun weight burst hfair sum hsum => hfits sum ?_
      obtain ⟨hrest, hserviced⟩ := tags_removedPending s c index r
      rw [hrest, hserviced] at hsum
      simp only [tagSums, weightOf_eq known hfair]
      exact hsum
    simp only [Unbounded.step, retagged_tags, removePending_of_getElem found, Unbounded.unserved, known, hleft]
    exact same.tags_eq.symm
  | @emptied _ c same ages =>
    simp only [Unbounded.step, retagged_tags]
    exact same.tags_eq.symm

theorem tagsAfter_snoc (policies : PolicySet) (tr : List (GovernedState × ScheduleEvent))
    (x : GovernedState × ScheduleEvent) :
    Unbounded.tagsAfter policies (tr ++ [x]) = Unbounded.step policies (Unbounded.tagsAfter policies tr) x :=
  List.foldl_concat ..

/-- In a run that overflows nothing the unbounded tags are the governor's. -/
theorem tagsAfter_eq {tr : List (GovernedState × ScheduleEvent)} (h : ScheduleTrace g {} tr s)
    (hfits : ∀ x ∈ tr, TagsFit g.policy x) : Unbounded.tagsAfter g.policy tr = s.tags := by
  induction h with
  | nil => rfl
  | @snoc t u tr event before last ih =>
    rw [tagsAfter_snoc, ih fun x hx => hfits x (List.mem_append_left _ hx)]
    exact last.tags_eq (hfits _ (List.mem_append_right _ (List.mem_singleton_self _)))

/-- A run that overflows nothing makes the selections of the scheduler over unbounded tags. -/
theorem sameSelections_of_fits {tr : List (GovernedState × ScheduleEvent)} (h : ScheduleTrace g {} tr s)
    (hfits : ∀ x ∈ tr, TagsFit g.policy x) : SameSelections g tr := by
  intro before t selection after hsplit
  subst hsplit
  obtain ⟨hbefore, t', hmove⟩ := h.at_move
  have hfit := hfits (t, .dispatched selection) (by simp)
  rw [tagsAfter_eq hbefore fun x hx => hfits x (List.mem_append_left _ hx), retagged_tags]
  cases hmove with
  | dispatched chosen promoted =>
    unfold Unbounded.selects
    rw [select_unbounded fun sum hsum => hfit sum (List.mem_append_left _ hsum), chosen]
    rfl

/-- In a run in which no addition on tags overflows, the governor makes the selections of the scheduler over unbounded
tags, with its tags; and whether there is anything to select depends on no tag. -/
theorem wfq_equals_unbounded (g : Governor) :
    (∀ tr s, ScheduleTrace g {} tr s → (∀ x ∈ tr, TagsFit g.policy x) →
      SameSelections g tr ∧ Unbounded.tagsAfter g.policy tr = s.tags) ∧
    (∀ s tags, (Unbounded.select (s.retagged tags) g.policy).2 = none ↔ (select s g.policy).2 = none) ∧
    ∀ σ : g.System, g.Reachable σ → ∃ tr, ScheduleTrace g {} tr σ.state :=
  ⟨fun _ _ htrace hfits => ⟨sameSelections_of_fits htrace hfits, tagsAfter_eq htrace hfits⟩,
    select_retagged_none_iff g, fun _ h => reachable_trace h⟩

namespace FairSample

/-- A task of the lighter class is queued, and then one of the heavier class. -/
def behind : GovernedState := queued (lighter {} 1) 2

def overtaken : GovernedState := (governor.promoteStep behind.commitWatermarkMs behind).1

def drained : GovernedState := (governor.promoteStep overtaken.commitWatermarkMs overtaken).1

/-- The later task is served first, because its tag is earlier. -/
def overtaking : List (GovernedState × ScheduleEvent) :=
  [({}, .enqueued ⟨"b"⟩), (lighter {} 1, .enqueued ⟨"a"⟩), (behind, .dispatched ⟨⟨"a"⟩, 0, 2 ^ 63⟩),
    (overtaken, .dispatched ⟨⟨"b"⟩, 0, 2 ^ 64⟩)]

theorem overtaking_trace : ScheduleTrace governor {} overtaking drained := by
  have hlight : ∀ s n, ScheduleMove governor s (.enqueued ⟨"b"⟩) (lighter s n) := by
    intro s n
    exact ScheduleMove.enqueued (by decide +kernel) (by decide)
  have hheavy : ∀ s n, ScheduleMove governor s (.enqueued ⟨"a"⟩) (queued s n) := by
    intro s n
    exact ScheduleMove.enqueued (by decide +kernel) (by decide)
  have hfirst : ScheduleMove governor behind (.dispatched ⟨⟨"a"⟩, 0, 2 ^ 63⟩) overtaken :=
    ScheduleMove.of_select (by decide +kernel) (by decide +kernel)
  have hsecond : ScheduleMove governor overtaken (.dispatched ⟨⟨"b"⟩, 0, 2 ^ 64⟩) drained :=
    ScheduleMove.of_select (by decide +kernel) (by decide +kernel)
  exact Traces.Trace.snoc (Traces.Trace.snoc (Traces.Trace.snoc (Traces.Trace.single (hlight {} 1))
    (hheavy (lighter {} 1) 2)) hfirst) hsecond

theorem overtaking_fits : ∀ x ∈ overtaking, TagsFit governor.policy x := by
  have hfits : (overtaking.all fun x => (tagSums governor.policy x).all fun sum =>
      decide (sum ≤ u128Max)) = true := by decide +kernel
  intro x hx sum hsum
  simpa using List.all_eq_true.mp (List.all_eq_true.mp hfits x hx) sum hsum

end FairSample

/-- In the sample the scheduler over unbounded tags serves the later task first as well, and ends at the same
virtual time. -/
theorem sample_unbounded :
    Unbounded.selects (FairSample.behind.retagged (Unbounded.tagsAfter FairSample.governor.policy
      (FairSample.overtaking.take 2))) FairSample.governor.policy = some (⟨"a"⟩, 0) ∧
    (Unbounded.tagsAfter FairSample.governor.policy FairSample.overtaking).virtualTime =
      FairSample.drained.virtualTime := by
  obtain ⟨hsame, htags⟩ := (wfq_equals_unbounded FairSample.governor).1 FairSample.overtaking FairSample.drained
    FairSample.overtaking_trace FairSample.overtaking_fits
  exact ⟨hsame _ FairSample.behind ⟨⟨"a"⟩, 0, 2 ^ 63⟩ _ rfl, congrArg Tags.virtualTime htags⟩

/-! ## After a rebase -/

/-- An arrival in one class leaves the unbounded tags of the others alone. -/
theorem unbounded_enqueued_other {k : TaskClass} (hk : k ≠ c) :
    (Unbounded.step g.policy s.tags (s, .enqueued c)).classes k = s.tags.classes k := by
  simp only [Unbounded.step]
  split
  · rfl
  · rename_i policy _
    simp only [retagged_tags, Unbounded.enqueueTags]
    have hother : ∀ (tagged : GovernedState) finishTag arrivalTag,
        (tagged.tags.queued c finishTag arrivalTag).classes k = tagged.tags.classes k :=
      fun tagged finishTag arrivalTag => Function.update_of_ne hk _ _
    unfold Unbounded.tagsFor
    cases policy.fairness with
    | weightedFairQueue weight burst =>
      simp only [hother]
      show ((recordFinishTag s c _).cls k).schedule.tags = _
      rw [cls_recordFinishTag, if_neg (Ne.symm hk)]
      rfl
    | _ => exact hother _ _ _

theorem tagsAfter_append (policies : PolicySet) (tr tr' : List (GovernedState × ScheduleEvent)) :
    Unbounded.tagsAfter policies (tr ++ tr') = tr'.foldl (Unbounded.step policies) (Unbounded.tagsAfter policies tr) :=
  List.foldl_append

theorem mem_queue_retagged {tags : Tags} {r : PendingRequest} (h : r ∈ ((s.retagged tags).cls c).queue) :
    ∃ r' ∈ (s.cls c).queue, ∃ t, r = r'.retagged t := by
  cases hcs : s.classes[c]? with
  | none =>
    have hnone : (s.retagged tags).classes[c]? = none := by
      show (s.classes.map fun c cs => cs.retagged (tags.classes c))[c]? = none
      rw [ExtTreeMap.getElem?_map, hcs]
      rfl
    simp [cls, hnone, default] at h
  | some cs =>
    rw [cls_retagged hcs] at h
    obtain ⟨i, hi, rfl⟩ := List.mem_mapIdx.mp h
    have hcls : s.cls c = cs := by simp [cls, hcs]
    rw [hcls]
    exact ⟨cs.queue[i], List.getElem_mem hi, _, rfl⟩

theorem queue_retagged (hbusy : (s.cls c).queue ≠ []) (tags : Tags) :
    ((s.retagged tags).cls c).queue =
      (s.cls c).queue.mapIdx fun i r => r.retagged (tags.classes c).queue[i]? := by
  cases hcs : s.classes[c]? with
  | none => simp [cls, hcs, default] at hbusy
  | some cs =>
    rw [cls_retagged hcs]
    simp [cls, hcs]
    rfl

namespace Rebase

variable {k : Nat} {queue : List PendingRequest} {last : PendingRequest}

theorem Waits.retagged {r : PendingRequest} (h : Waits c r) (tags : Option (Nat × Nat)) :
    Waits c (r.retagged tags) := by
  cases tags with
  | none => exact h
  | some tags => exact ⟨h.taskClass, h.memory, h.root, h.operation⟩

/-- The rivals stay rivals with other tags. -/
theorem Rivals.retagged (h : Rivals k queue last s) (hqueue : queue ≠ []) (tags : Tags) :
    Rivals k (queue.mapIdx fun i r => r.retagged (tags.classes double).queue[i]?)
      (last.retagged (tags.classes single).queue[0]?) (s.retagged tags) := by
  have hres := rescheduled_retagged s tags
  have hmove : Move governor Caller.nobody .growing s (s.retagged tags) := Move.rescheduled hres
  refine ⟨h.ordered.move hmove, h.sound, ?_, ?_, fun c hc r hr => ?_, fun r hr => ?_, h.memory,
    (hres.ledger.inflight_eq heavy).trans h.load, (hres.ledger.inflight_eq double).trans h.doubleLoad,
    (hres.ledger.inflight_eq single).trans h.singleLoad⟩
  · rw [queue_retagged (by rw [h.doubles]; exact hqueue), h.doubles]
  · rw [queue_retagged (by rw [h.singles]; simp), h.singles]
    rfl
  · obtain ⟨r', hr', t, rfl⟩ := mem_queue_retagged hr
    exact (h.waits c hc r' hr').retagged t
  · obtain ⟨r', hr', t, rfl⟩ := mem_queue_retagged hr
    have hroot := h.heavyRoot r' hr'
    cases t with
    | none => exact hroot
    | some t => exact hroot

/-- With the earlier tag at the head of the other class, the scheduler over unbounded tags serves that class. -/
theorem Rivals.selects_single {next : PendingRequest} {rest : List PendingRequest}
    (h : Rivals k (next :: rest) last s) (hk : k < 2) (hlater : last.finishTag < next.finishTag) :
    Unbounded.selects s governor.policy ≠ some (double, 0) := by
  intro hselects
  have hfits := h.fits hk 0
  unfold Unbounded.selects at hselects
  rw [select_unbounded fun sum hsum => hfits sum (List.mem_append_left _ hsum)] at hselects
  obtain ⟨selection, hselect, hchoice⟩ := Option.map_eq_some_iff.mp hselects
  rcases h.selected hk hselect with ⟨_, hbefore⟩ | ⟨rfl, _⟩
  · simp only [KeyLt] at hbefore
    omega
  · simp [double, single] at hchoice

/-- The tags the first of each class was queued with. -/
theorem start_tags : ∃ arrival arrival',
    ((start.state.tags.classes double).queue[0]? = some (2 * 2 ^ 64, arrival)) ∧
    (start.state.tags.classes single).queue[0]? = some (2 ^ 64, arrival') := by
  have htags : ((start.state.tags.classes double).queue[0]?.map Prod.fst = some (2 * 2 ^ 64)) ∧
      (start.state.tags.classes single).queue[0]?.map Prod.fst = some (2 ^ 64) := by decide +kernel
  obtain ⟨⟨tag, arrival⟩, hdouble, rfl⟩ := Option.map_eq_some_iff.mp htags.1
  obtain ⟨⟨tag', arrival'⟩, hsingle, rfl⟩ := Option.map_eq_some_iff.mp htags.2
  exact ⟨arrival, arrival', hdouble, hsingle⟩

end Rebase

/-- After the rebase the governor selects the class whose requests came first, where the scheduler over unbounded
tags selects the one with the earlier tag. -/
theorem rebase_changes_selections : ∃ (σ σ' : Rebase.governor.System) (e : Event)
    (tr : List (GovernedState × ScheduleEvent)), Rebase.governor.Reachable σ ∧
    Rebase.governor.step σ (.release ⟨7, 1⟩ 0) = some (σ', e) ∧
    ScheduleTrace Rebase.governor {} tr σ'.state ∧ ¬ SameSelections Rebase.governor tr := by
  obtain ⟨σ₀, hspinning⟩ := Rebase.exists_spinning (2 ^ 32 + 1) (Nat.le_refl _)
  obtain ⟨σ, tagged, r, hfull, harrives, hqueued⟩ := hspinning.queues (by decide)
  obtain ⟨htime, hqueues⟩ := hspinning.rebases harrives
  obtain ⟨σ', freed, s₁, s₂, a, b, c, last, hpass⟩ :=
    hfull.lastPass htime (Nat.le_mul_of_pos_left _ (by decide)) hqueues
  obtain ⟨past, hpast, hfits⟩ := hspinning.fitted
  have hticked : ScheduleMove Rebase.governor σ₀.state .ticked (σ₀.state.commitTime 0) := .ticked _ 0
  let s₀ := σ₀.state.commitTime 0
  let tags := Unbounded.step Rebase.governor.policy s₀.tags (s₀, .enqueued Rebase.heavy)
  refine ⟨σ, σ', _,
    past ++ ([(σ₀.state, .ticked), (s₀, .enqueued Rebase.heavy)] ++ Rebase.lastMoves σ freed s₁ s₂),
    hfull.reached, hpass.step,
    hpast.append (((Traces.Trace.single hticked).snoc hqueued).append hpass.trace),
    fun hsame => ?_⟩
  have hselects := hsame (past ++ [(σ₀.state, .ticked), (s₀, .enqueued Rebase.heavy), (σ.state, .ticked),
    (σ.state.commitTime 0, .other)]) freed ⟨Rebase.double, 0, 0⟩
    [(s₁, .dispatched ⟨Rebase.double, 0, 0⟩), (s₂, .other)] (by simp [Rebase.lastMoves])
  have htags : Unbounded.tagsAfter Rebase.governor.policy (past ++ [(σ₀.state, .ticked),
      (s₀, .enqueued Rebase.heavy), (σ.state, .ticked), (σ.state.commitTime 0, .other)]) = tags := by
    rw [tagsAfter_append, tagsAfter_eq hpast hfits]
    rfl
  -- The unbounded tags of the two classes are those they were queued with.
  have hkept : ∀ c, c ≠ Rebase.heavy → (tags.classes c).queue = (Rebase.start.state.tags.classes c).queue := by
    intro c hc
    have hothers := congrArg ClassTags.queue (unbounded_enqueued_other (g := Rebase.governor) (s := s₀) hc)
    have hqueue : (s₀.cls c).queue = (Rebase.start.state.cls c).queue := hspinning.others c hc
    exact hothers.trans (congrArg (List.map fun r : PendingRequest => (r.finishTag, r.wfqArrivalTag)) hqueue)
  obtain ⟨arrival, arrival', hdouble, hsingle⟩ := Rebase.start_tags
  have hrivals := hpass.first.toRivals.retagged (List.cons_ne_nil _ _) tags
  rw [List.mapIdx_cons, hkept _ (by decide), hkept _ (by decide), hdouble, hsingle] at hrivals
  rw [htags] at hselects
  exact hrivals.selects_single (by decide) (by show 2 ^ 64 < 2 * 2 ^ 64; decide) hselects

end Taskmesh
