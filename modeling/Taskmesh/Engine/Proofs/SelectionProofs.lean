import Taskmesh.Engine.Proofs.RingProofs
import Taskmesh.Engine.Schedule

/-!
# What a selection does to the schedule

The candidates come in ascending order of their classes, so the class a discipline picks determines
the request served. A selection moves the virtual time, the credits or the cursor; the service that
follows takes one request out of one queue and re-derives the tags of that class.
-/

namespace Taskmesh

open Std MachineInt GovernedState

variable {g : Governor} {s s' : GovernedState} {policies : PolicySet}

/-! ## Candidates -/

theorem ascending_runnableCandidates (s : GovernedState) (policies : PolicySet) :
    Ascending (runnableCandidates s policies) := by
  unfold Ascending runnableCandidates
  rw [List.pairwise_filterMap]
  refine List.Pairwise.imp ?_ (ExtTreeMap.ordered_keys_toList (t := s.classes))
  rintro ⟨c, cs⟩ ⟨c', cs'⟩ hlt candidate hcandidate candidate' hcandidate'
  obtain ⟨_, _, _, hclass, _⟩ := classCandidate_spec hcandidate
  obtain ⟨_, _, _, hclass', _⟩ := classCandidate_spec hcandidate'
  rw [hclass, hclass']
  exact hlt

theorem ascending_contendedTier (s : GovernedState) (policies : PolicySet) :
    Ascending (contendedTier (runnableCandidates s policies)) :=
  List.Pairwise.sublist List.filter_sublist (ascending_runnableCandidates s policies)

/-- Each class has at most one candidate. -/
theorem candidate_unique {candidate candidate' : Candidate}
    (h : candidate ∈ runnableCandidates s policies) (h' : candidate' ∈ runnableCandidates s policies)
    (hclass : candidate.taskClass = candidate'.taskClass) : candidate = candidate' :=
  List.inj_on_of_nodup_map (ascending_runnableCandidates s policies).nodup h h' hclass

/-- The finish tag a class would be served at: the tag of its head, or for a request behind the head
the tag it has when only served work counts. -/
def serviceTag (fairness : FairnessPolicy) (cs : ClassState) (index : Nat) (head : PendingRequest) : Nat :=
  match fairness with
  | .weightedFairQueue weight _ =>
    if index = 0 then head.finishTag
    else
      saturatingAdd u128Max (max cs.lastServedFinishTag head.wfqArrivalTag)
        (wfqIncrement head.cost.cpuUnits weight.toNat)
  | _ => head.finishTag

/-- A candidate is the first runnable request of its class, with the keys its class gives it. -/
structure IsCandidate (s : GovernedState) (policies : PolicySet) (candidate : Candidate)
    (policy : ClassPolicy) (head : PendingRequest) : Prop where
  known : policies.classPolicy candidate.taskClass = some policy
  queued : (s.cls candidate.taskClass).queue[candidate.queueIndex]? = some head
  runnable : isRunnableCandidate s policies policy.maxInflight.toNat (s.cls candidate.taskClass) head = true
  first : (s.cls candidate.taskClass).queue.findIdx?
    (isRunnableCandidate s policies policy.maxInflight.toNat (s.cls candidate.taskClass)) =
      some candidate.queueIndex
  fairness : candidate.fairness = policy.fairness
  bestEffort : candidate.bestEffort = policy.bestEffort
  order : candidate.headQueueOrder = head.queueOrder
  tag : candidate.headFinishTag =
    serviceTag policy.fairness (s.cls candidate.taskClass) candidate.queueIndex head
  cost : candidate.headCostCpu = head.cost.cpuUnits

theorem isCandidate_of_mem {candidate : Candidate} (h : candidate ∈ runnableCandidates s policies) :
    ∃ policy head, IsCandidate s policies candidate policy head := by
  obtain ⟨c, cs, hcs, hcandidate⟩ := mem_runnableCandidates.mp h
  have hcls : s.cls c = cs := by simp [GovernedState.cls, hcs]
  obtain ⟨policy, head, hpolicy, hclass, hhead, hrun, horder, hfirst⟩ := classCandidate_spec hcandidate
  unfold classCandidate at hcandidate
  rw [hpolicy] at hcandidate
  simp only [hfirst, hhead, Option.some.injEq] at hcandidate
  subst hclass
  rw [← hcls] at hhead hrun hfirst
  refine ⟨policy, head, hpolicy, hhead, hrun, hfirst, ?_, ?_, horder, ?_, ?_⟩
  · rw [← hcandidate]
  · rw [← hcandidate]
  · rw [hcls, ← hcandidate]
    rfl
  · rw [← hcandidate]

theorem candidate_queue_ne_nil {candidate : Candidate} (h : candidate ∈ runnableCandidates s policies) :
    (s.cls candidate.taskClass).queue ≠ [] := by
  obtain ⟨policy, head, hcandidate⟩ := isCandidate_of_mem h
  intro hnil
  have := hcandidate.queued
  rw [hnil] at this
  simp at this

/-- A class whose oldest request is runnable is a candidate at the head of its queue. -/
theorem candidate_of_head {c : TaskClass} {policy : ClassPolicy} {head : PendingRequest}
    {rest : List PendingRequest} (hpolicy : policies.classPolicy c = some policy)
    (hqueue : (s.cls c).queue = head :: rest)
    (hrun : isRunnableCandidate s policies policy.maxInflight.toNat (s.cls c) head = true) :
    ∃ candidate ∈ runnableCandidates s policies, candidate.taskClass = c ∧ candidate.queueIndex = 0 ∧
      candidate.headFinishTag = head.finishTag ∧ candidate.fairness = policy.fairness ∧
      candidate.bestEffort = policy.bestEffort := by
  have hcls : ∃ cs, s.classes[c]? = some cs := by
    cases hcs : s.classes[c]? with
    | none => simp [GovernedState.cls, hcs, default] at hqueue
    | some cs => exact ⟨cs, rfl⟩
  obtain ⟨cs, hcs⟩ := hcls
  have heq : s.cls c = cs := by simp [GovernedState.cls, hcs]
  rw [heq] at hqueue hrun
  have hfirst : cs.queue.findIdx? (isRunnableCandidate s policies policy.maxInflight.toNat cs) = some 0 := by
    rw [hqueue, List.findIdx?_cons, if_pos hrun]
  have hcandidate : ∃ candidate, classCandidate s policies c cs = some candidate ∧
      candidate.taskClass = c ∧ candidate.queueIndex = 0 ∧ candidate.headFinishTag = head.finishTag ∧
      candidate.fairness = policy.fairness ∧ candidate.bestEffort = policy.bestEffort := by
    have hhead : cs.queue[0]? = some head := by rw [hqueue]; rfl
    unfold classCandidate
    rw [hpolicy]
    simp only [hfirst, hhead]
    refine ⟨_, rfl, rfl, rfl, ?_, rfl, rfl⟩
    simp only [if_true]
    split <;> rfl
  obtain ⟨candidate, hsome, hrest⟩ := hcandidate
  exact ⟨candidate, mem_runnableCandidates.mpr ⟨c, cs, hcs, hsome⟩, hrest⟩

/-! ## The choice -/

theorem pickMin_le (key : Candidate → Nat × Nat) (best : Candidate) (rest : List Candidate)
    {c : Candidate} (hc : c ∈ best :: rest) : (key (pickMin key best rest)).1 ≤ (key c).1 := by
  induction rest generalizing best c with
  | nil =>
    obtain rfl : c = best := by simpa using hc
    exact Nat.le_refl _
  | cons d rest ih =>
    unfold pickMin
    split
    · rename_i hlt
      have hd := ih d List.mem_cons_self
      rcases List.mem_cons.mp hc with rfl | hmem
      · omega
      · exact ih d hmem
    · rename_i hge
      have hbest := ih best List.mem_cons_self
      rcases List.mem_cons.mp hc with rfl | hmem
      · exact hbest
      · rcases List.mem_cons.mp hmem with rfl | hmem
        · omega
        · exact ih best (List.mem_cons_of_mem _ hmem)

/-- The request a selection serves, picked by the discipline of the contended tier. -/
structure Selects (s : GovernedState) (policies : PolicySet) (first : Candidate) (rest : List Candidate)
    (candidate : Candidate) : Prop where
  tier : contendedTier (runnableCandidates s policies) = first :: rest
  picked : candidate ∈ first :: rest
  chose : (dispatchChoice s first rest).2 = some candidate.taskClass
  selects : select s policies =
    ((dispatchChoice s first rest).1,
      some ⟨candidate.taskClass, candidate.queueIndex, candidate.headFinishTag⟩)

theorem Selects.mem {first candidate : Candidate} {rest : List Candidate}
    (h : Selects s policies first rest candidate) : candidate ∈ runnableCandidates s policies := by
  refine contendedTier_subset ?_
  rw [h.tier]
  exact h.picked

theorem selects_of_runnable (h : runnableCandidates s policies ≠ []) :
    ∃ first rest candidate, Selects s policies first rest candidate := by
  cases htier : contendedTier (runnableCandidates s policies) with
  | nil => exact absurd (contendedTier_eq_nil.mp htier) h
  | cons first rest =>
    obtain ⟨_, picked, hpicked, hchoice⟩ := dispatchChoice_spec s first rest
    have hmem : picked ∈ runnableCandidates s policies := by
      refine contendedTier_subset ?_
      rw [htier]
      exact hpicked
    have hfind : (runnableCandidates s policies).find?
        (fun c => decide (c.taskClass = picked.taskClass)) = some picked := by
      cases hfound : (runnableCandidates s policies).find?
          (fun c => decide (c.taskClass = picked.taskClass)) with
      | none => exact absurd (List.find?_eq_none.mp hfound picked hmem) (by simp)
      | some candidate =>
        have hclass : candidate.taskClass = picked.taskClass := by simpa using List.find?_some hfound
        rw [candidate_unique (List.mem_of_find?_eq_some hfound) hmem hclass]
    exact ⟨first, rest, picked, htier, hpicked, hchoice, select_eq htier hchoice hfind⟩

/-- A selection was made among the candidates of the contended tier. -/
theorem selects_of_select {selection : Selection} (h : (select s policies).2 = some selection) :
    ∃ first rest candidate, Selects s policies first rest candidate ∧
      selection = ⟨candidate.taskClass, candidate.queueIndex, candidate.headFinishTag⟩ := by
  have hne : runnableCandidates s policies ≠ [] := by
    intro hnil
    rw [select_nil hnil] at h
    simp at h
  obtain ⟨first, rest, candidate, hselects⟩ := selects_of_runnable hne
  refine ⟨first, rest, candidate, hselects, ?_⟩
  rw [hselects.selects] at h
  exact (Option.some.inj h).symm

/-! ## The schedule of one class -/

namespace ClassSchedule

/-- The schedule of a class whose busy period ended at a virtual time. -/
def idle (virtualTime : Nat) : ClassSchedule := ⟨[], virtualTime, virtualTime, 0⟩

/-- Re-derive the tags of a queue from the service its class received. -/
def rebuilt (weight virtualTime : Nat) (c : ClassSchedule) : ClassSchedule :=
  { c with
    queue := (repriceQueue weight c.lastServedFinishTag c.queue).1
    lastFinishTag := max (repriceQueue weight c.lastServedFinishTag c.queue).2 virtualTime }

/-- Re-derive the tags of a class after a request left its queue without service. -/
def rederived (fairness : FairnessPolicy) (virtualTime : Nat) (c : ClassSchedule) : ClassSchedule :=
  if c.queue.isEmpty then idle virtualTime
  else
    match fairness with
    | .weightedFairQueue weight _ => c.rebuilt weight.toNat virtualTime
    | _ =>
      { c with
        lastFinishTag := max (c.queue.foldl (fun tag r => max tag r.finishTag) 0) virtualTime }

/-- Count the service of a request that left the queue from `index`, at the tag `tag`. -/
def credited (fairness : FairnessPolicy) (virtualTime index tag : Nat) (c : ClassSchedule) :
    ClassSchedule :=
  if c.queue.isEmpty then idle virtualTime
  else
    let c := { c with lastServedFinishTag := max c.lastServedFinishTag tag }
    if index > 0 then
      match fairness with
      | .weightedFairQueue weight _ => c.rebuilt weight.toNat virtualTime
      | _ => c
    else c

/-- The request at `index` leaves the queue. -/
def dequeued (index : Nat) (c : ClassSchedule) : ClassSchedule :=
  { c with queue := c.queue.eraseIdx index }

end ClassSchedule

theorem schedule_dropped (c : ClassState) (index : Nat) (r : PendingRequest) :
    (c.dropped index r).schedule = c.schedule.dequeued index := by
  unfold ClassState.dropped ClassState.unindexPending
  split <;> split <;> rfl

theorem schedule_onUnservedRemoved (s : GovernedState) (c : TaskClass) (policy : ClassPolicy)
    (k : TaskClass) : ((onUnservedRemoved s c policy).cls k).schedule =
      if c = k then (s.cls c).schedule.rederived policy.fairness s.virtualTime
      else (s.cls k).schedule := by
  unfold onUnservedRemoved ClassSchedule.rederived
  rw [cls_modifyClass]
  by_cases hk : c = k
  · rw [if_pos hk, if_pos hk]
    show _ = if (s.cls c).queue.isEmpty then _ else _
    by_cases hempty : (s.cls c).queue.isEmpty = true
    · rw [if_pos hempty, if_pos hempty]
      simp only [ClassState.schedule, resetClass, ClassSchedule.idle, List.isEmpty_iff.mp hempty]
    · rw [if_neg hempty, if_neg hempty]
      cases policy.fairness <;> rfl
  · rw [if_neg hk, if_neg hk]

theorem schedule_onRequestServed (s : GovernedState) (c : TaskClass) (policy : ClassPolicy)
    (index tag : Nat) (k : TaskClass) : ((onRequestServed s c policy index tag).cls k).schedule =
      if c = k then (s.cls c).schedule.credited policy.fairness s.virtualTime index tag
      else (s.cls k).schedule := by
  unfold onRequestServed ClassSchedule.credited
  rw [cls_modifyClass]
  by_cases hk : c = k
  · rw [if_pos hk, if_pos hk]
    show _ = if (s.cls c).queue.isEmpty then _ else _
    by_cases hempty : (s.cls c).queue.isEmpty = true
    · rw [if_pos hempty, if_pos hempty]
      simp only [ClassState.schedule, resetClass, ClassSchedule.idle, List.isEmpty_iff.mp hempty]
    · rw [if_neg hempty, if_neg hempty]
      by_cases hindex : index > 0
      · simp only [hindex, if_true]
        cases policy.fairness <;> rfl
      · simp only [hindex, if_false]
        rfl
  · rw [if_neg hk, if_neg hk]

/-! ## One service -/

theorem virtualTime_drrSelect (s : GovernedState) (pool : List Candidate) :
    (drrSelect s pool).1.virtualTime = s.virtualTime := by
  have hvisits : ∀ (plan : List PlannedVisit) (s : GovernedState) (n pos : Nat),
      (plan.foldl (creditVisit n pos) s).virtualTime = s.virtualTime := by
    intro plan
    induction plan with
    | nil =>
      intro s n pos
      rfl
    | cons v plan ih =>
      intro s n pos
      rw [List.foldl_cons, ih]
      unfold creditVisit
      split <;> rfl
  unfold drrSelect
  split
  · rfl
  · split
    · rfl
    · exact hvisits _ _ _ _

/-- A choice moves credits, but no tag and no queue. -/
theorem schedule_dispatchChoice (s : GovernedState) (first : Candidate) (rest : List Candidate)
    (k : TaskClass) : ((dispatchChoice s first rest).1.cls k).schedule =
      { (s.cls k).schedule with deficit := (dispatchChoice s first rest).1.deficits k } := by
  have hcredit : ∀ (s : GovernedState) (c : TaskClass) (f : Nat → Nat),
      ((s.modifyClass c fun cs => { cs with deficit := f cs.deficit }).cls k).schedule =
        { (s.cls k).schedule with
          deficit := (s.modifyClass c fun cs => { cs with deficit := f cs.deficit }).deficits k } := by
    intro s c f
    unfold GovernedState.deficits
    rw [cls_modifyClass]
    split
    · rename_i hk
      rw [hk]
      rfl
    · rfl
  have hvisits : ∀ (plan : List PlannedVisit) (s : GovernedState) (n pos : Nat),
      ((plan.foldl (creditVisit n pos) s).cls k).schedule =
        { (s.cls k).schedule with deficit := (plan.foldl (creditVisit n pos) s).deficits k } := by
    intro plan
    induction plan with
    | nil => intro s n pos; rfl
    | cons v plan ih =>
      intro s n pos
      rw [List.foldl_cons, ih]
      unfold creditVisit
      split
      · rfl
      · rw [hcredit s v.taskClass fun d => saturatingAdd u128Max d _]
  unfold dispatchChoice
  cases first.fairness with
  | fifo => rfl
  | bestEffortScavenger => rfl
  | weightedFairQueue w b => rfl
  | deadlineAware slack => rfl
  | deficitRoundRobin q =>
    simp only
    unfold drrSelect
    split
    · exact hcredit s _ fun d => d - _
    · split
      · rfl
      · rename_i first rest _
        show ((spendDeficit _ _ _).cls k).schedule = _
        unfold spendDeficit
        rw [hcredit _ _ fun d => d - _, hvisits]
        rfl

/-- What one dispatch does to the schedule: the chosen request leaves its queue and its class is
credited with the service; the other classes change at most their credit. -/
structure Serves (g : Governor) (s s' : GovernedState) (first : Candidate) (rest : List Candidate)
    (candidate : Candidate) (policy : ClassPolicy) (head : PendingRequest) : Prop where
  selects : Selects s g.policy first rest candidate
  driven : IsCandidate s g.policy candidate policy head
  time : s'.virtualTime = (dispatchChoice s first rest).1.virtualTime
  cursor : s'.drrCursor = (dispatchChoice s first rest).1.drrCursor
  own : (s'.cls candidate.taskClass).schedule =
    (({ (s.cls candidate.taskClass).schedule with
        deficit := (dispatchChoice s first rest).1.deficits candidate.taskClass } : ClassSchedule).dequeued
      candidate.queueIndex).credited policy.fairness s'.virtualTime candidate.queueIndex
        candidate.headFinishTag
  others : ∀ k, k ≠ candidate.taskClass → (s'.cls k).schedule =
    { (s.cls k).schedule with deficit := (dispatchChoice s first rest).1.deficits k }

theorem schedule_chargeClass (cost : ResolvedCost) (c : ClassState) :
    (GovernedState.chargeClass cost c).schedule = c.schedule := by
  unfold GovernedState.chargeClass ClassState.enterPhase
  rfl

theorem schedule_grant (s : GovernedState) (r : GrantRequest) (c : TaskClass) :
    ((s.grant r).cls c).schedule = (s.cls c).schedule := by
  rw [cls_grant]
  split
  · exact schedule_chargeClass _ _
  · rfl

theorem serves_of_promoteStep {nowMs : Nat} {grant : GrantRequest}
    (h : g.promoteStep nowMs s = (s', some grant)) :
    ∃ first rest candidate policy head, Serves g s s' first rest candidate policy head ∧
      (select s g.policy).2 =
        some ⟨candidate.taskClass, candidate.queueIndex, candidate.headFinishTag⟩ := by
  have hne : runnableCandidates s g.policy ≠ [] := by
    intro hnil
    unfold Governor.promoteStep at h
    rw [select_nil hnil] at h
    simp at h
  obtain ⟨first, rest, candidate, hselects⟩ := selects_of_runnable hne
  obtain ⟨policy, head, hcandidate⟩ := isCandidate_of_mem hselects.mem
  set chosen := (dispatchChoice s first rest).1 with hchosen
  have hschedule : ∀ k, (chosen.cls k).schedule =
      { (s.cls k).schedule with deficit := chosen.deficits k } := schedule_dispatchChoice s first rest
  have hqueue : (chosen.cls candidate.taskClass).queue[candidate.queueIndex]? = some head := by
    have := congrArg ClassSchedule.queue (hschedule candidate.taskClass)
    simp only [ClassState.schedule] at this
    rw [this]
    exact hcandidate.queued
  unfold Governor.promoteStep at h
  rw [hselects.selects] at h
  simp only [← hchosen, removePending_of_getElem hqueue, Governor.served, hcandidate.known,
    Prod.mk.injEq, Option.some.injEq] at h
  obtain ⟨hstate, _⟩ := h
  have hschedule' : ∀ k, (s'.cls k).schedule =
      ((onRequestServed (chosen.removedPending candidate.taskClass candidate.queueIndex head)
        candidate.taskClass policy candidate.queueIndex candidate.headFinishTag).cls k).schedule := by
    intro k
    rw [← hstate, schedule_grant]
    rfl
  have htime : s'.virtualTime = chosen.virtualTime := by rw [← hstate]; rfl
  refine ⟨first, rest, candidate, policy, head, ⟨hselects, hcandidate, htime, ?_, ?_, ?_⟩, ?_⟩
  · rw [← hstate]
    rfl
  · rw [hschedule', schedule_onRequestServed, if_pos rfl, cls_removedPending, if_pos rfl, schedule_dropped,
      hschedule, htime]
    rfl
  · intro k hk
    rw [hschedule', schedule_onRequestServed, if_neg (Ne.symm hk), cls_removedPending, if_neg (Ne.symm hk),
      hschedule]
  · rw [hselects.selects]

end Taskmesh
