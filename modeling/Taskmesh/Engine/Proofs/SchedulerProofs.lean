import Taskmesh.Engine.Frames

/-!
# Scheduling moves only scheduling data

Every function of the scheduler leaves the queues, the ledger and the tickets as they are, and
`select` finds a request exactly when one is runnable.
-/

namespace Taskmesh

open Std MachineInt GovernedState

/-! ## Tags -/

theorem untagged_setFinishTag (r : PendingRequest) (tag : Nat) :
    PendingRequest.untagged { r with finishTag := tag } = r.untagged := rfl

theorem untagged_setTags (r : PendingRequest) (tag arrival : Nat) :
    PendingRequest.untagged { r with finishTag := tag, wfqArrivalTag := arrival } = r.untagged := rfl

/-- A rebuild changes finish tags only, and keeps the order of the queue. -/
theorem repriceQueue_untagged (weight cursor : Nat) (l : List PendingRequest) :
    (repriceQueue weight cursor l).1.map PendingRequest.untagged = l.map PendingRequest.untagged := by
  induction l generalizing cursor with
  | nil => rfl
  | cons r rest ih =>
    simp only [repriceQueue, List.map_cons]
    rw [ih, untagged_setFinishTag]

/-- A class update that keeps both halves. -/
structure ClassState.TagsMoved (c c' : ClassState) : Prop where
  queue : c'.queueHalf = c.queueHalf
  ledger : c'.ledgerHalf = c.ledgerHalf

/-- A rebase moves tags only. -/
theorem tagsMoved_rebaseClass (origin : Nat) (c : ClassState) :
    ClassState.TagsMoved c (rebaseClass origin c) := by
  refine ⟨?_, rfl⟩
  have hmap : (c.queue.map fun r =>
      { r with finishTag := r.finishTag - origin, wfqArrivalTag := r.wfqArrivalTag - origin }).map
        PendingRequest.untagged = c.queue.map PendingRequest.untagged := by
    rw [List.map_map]
    exact List.map_congr_left fun r _ => untagged_setTags r _ _
  unfold ClassState.queueHalf rebaseClass
  rw [hmap]

/-- A rebuild of a class moves tags only. -/
theorem tagsMoved_rebuildWfqQueue (weight virtualTime : Nat) (c : ClassState) :
    ClassState.TagsMoved c (rebuildWfqQueue weight virtualTime c) := by
  refine ⟨?_, rfl⟩
  simp only [ClassState.queueHalf, rebuildWfqQueue]
  rw [repriceQueue_untagged]

theorem tagsMoved_setFinishTag (c : ClassState) (tag : Nat) :
    ClassState.TagsMoved c { c with lastFinishTag := tag } := ⟨rfl, rfl⟩

theorem tagsMoved_setServedTag (c : ClassState) (tag : Nat) :
    ClassState.TagsMoved c { c with lastServedFinishTag := tag } := ⟨rfl, rfl⟩

theorem tagsMoved_setDeficit (c : ClassState) (deficit : Nat) :
    ClassState.TagsMoved c { c with deficit := deficit } := ⟨rfl, rfl⟩

theorem tagsMoved_resetClass (virtualTime : Nat) (c : ClassState) :
    ClassState.TagsMoved c (resetClass virtualTime c) := ⟨rfl, rfl⟩

theorem ClassState.TagsMoved.trans {c c' c'' : ClassState} (h : ClassState.TagsMoved c c')
    (h' : ClassState.TagsMoved c' c'') : ClassState.TagsMoved c c'' :=
  ⟨h'.queue.trans h.queue, h'.ledger.trans h.ledger⟩

/-- Moving the tags of one class leaves every book alone. -/
theorem rescheduled_of_tagsMoved (s : GovernedState) (c : TaskClass) (f : ClassState → ClassState)
    (hf : ClassState.TagsMoved (s.cls c) (f (s.cls c))) : Rescheduled s (s.modifyClass c f) :=
  rescheduled_modifyClass c ⟨hf.queue, hf.ledger⟩

theorem rescheduled_commitTime (s : GovernedState) (sampledMs : Nat) :
    Rescheduled s (s.commitTime sampledMs) :=
  ⟨⟨fun _ => rfl, rfl, rfl⟩, ⟨fun _ => rfl, rfl, rfl, rfl, rfl, rfl, rfl⟩, rfl, rfl, ⟨rfl, rfl, rfl⟩⟩

/-- A rebase shifts every class by the old virtual time. -/
theorem cls_rebaseVirtualTime (s : GovernedState) (c : TaskClass) :
    (rebaseVirtualTime s).cls c = rebaseClass s.virtualTime (s.cls c) := by
  simp only [GovernedState.cls, rebaseVirtualTime, ExtTreeMap.getElem?_map]
  cases s.classes[c]? with
  | none => simp [rebaseClass, default]
  | some cs => simp

theorem rescheduled_rebaseVirtualTime (s : GovernedState) : Rescheduled s (rebaseVirtualTime s) := by
  refine ⟨⟨fun c => ?_, rfl, rfl⟩, ⟨fun c => ?_, rfl, rfl, rfl, rfl, rfl, rfl⟩, rfl, rfl, ⟨rfl, rfl, rfl⟩⟩
  · rw [cls_rebaseVirtualTime]; exact (tagsMoved_rebaseClass _ _).queue
  · rw [cls_rebaseVirtualTime]; exact (tagsMoved_rebaseClass _ _).ledger

theorem rescheduled_recordFinishTag (s : GovernedState) (c : TaskClass) (tag : Nat) :
    Rescheduled s (recordFinishTag s c tag) :=
  rescheduled_of_tagsMoved s c _ (tagsMoved_setFinishTag _ _)

/-- Pricing an arrival leaves every book alone, whether it rebases or not. -/
theorem rescheduled_nextFinishTag (s : GovernedState) (c : TaskClass) (increment : Nat) :
    Rescheduled s (nextFinishTag s c increment).1 := by
  unfold nextFinishTag
  split
  · exact Rescheduled.refl s
  · exact rescheduled_rebaseVirtualTime s

theorem rescheduled_tagsFor (s : GovernedState) (c : TaskClass) (cost now : Nat)
    (fairness : FairnessPolicy) : Rescheduled s (tagsFor s c cost now fairness).1 := by
  cases fairness with
  | weightedFairQueue weight burst =>
    exact (rescheduled_nextFinishTag s c _).trans (rescheduled_recordFinishTag _ c _)
  | fifo => exact Rescheduled.refl s
  | deficitRoundRobin quantum => exact Rescheduled.refl s
  | deadlineAware slack => exact Rescheduled.refl s
  | bestEffortScavenger => exact Rescheduled.refl s

theorem rescheduled_enqueueTags (s : GovernedState) (c : TaskClass) (policy : ClassPolicy)
    (cost now : Nat) : Rescheduled s (enqueueTags s c policy cost now).1 :=
  rescheduled_tagsFor s c cost now policy.fairness

/-- Re-deriving a class after a removal leaves every book alone. -/
theorem rescheduled_onUnservedRemoved (s : GovernedState) (c : TaskClass) (policy : ClassPolicy) :
    Rescheduled s (onUnservedRemoved s c policy) := by
  unfold onUnservedRemoved
  refine rescheduled_of_tagsMoved s c _ ?_
  split
  · exact tagsMoved_resetClass _ _
  · split
    · exact tagsMoved_rebuildWfqQueue _ _ _
    · exact tagsMoved_setFinishTag _ _

/-- Crediting a service leaves every book alone. -/
theorem rescheduled_onRequestServed (s : GovernedState) (c : TaskClass) (policy : ClassPolicy)
    (index tag : Nat) : Rescheduled s (onRequestServed s c policy index tag) := by
  unfold onRequestServed
  refine rescheduled_of_tagsMoved s c _ ?_
  dsimp only
  split
  · exact tagsMoved_resetClass _ _
  · have hserved := tagsMoved_setServedTag (s.cls c) (max (s.cls c).lastServedFinishTag tag)
    split
    · split
      · exact hserved.trans (tagsMoved_rebuildWfqQueue _ _ _)
      · exact hserved
    · exact hserved

theorem rescheduled_unserved (g : Governor) (s : GovernedState) (c : TaskClass) :
    Rescheduled s (g.unserved s c) := by
  unfold Governor.unserved
  split
  · exact rescheduled_onUnservedRemoved s c _
  · exact Rescheduled.refl s

theorem rescheduled_served (g : Governor) (s : GovernedState) (selection : Selection) :
    Rescheduled s (g.served s selection) := by
  unfold Governor.served
  split
  · exact rescheduled_onRequestServed s _ _ _ _
  · exact Rescheduled.refl s

/-! ## Deficit round robin -/

theorem rescheduled_creditVisit (ringSize winningPos : Nat) (s : GovernedState) (visit : PlannedVisit) :
    Rescheduled s (creditVisit ringSize winningPos s visit) := by
  unfold creditVisit
  split
  · exact Rescheduled.refl s
  · refine rescheduled_of_tagsMoved s visit.taskClass _ ?_
    exact tagsMoved_setDeficit _ _

theorem rescheduled_creditVisits (ringSize winningPos : Nat) (visits : List PlannedVisit)
    (s : GovernedState) : Rescheduled s (visits.foldl (creditVisit ringSize winningPos) s) := by
  induction visits generalizing s with
  | nil => exact Rescheduled.refl s
  | cons visit rest ih => exact (rescheduled_creditVisit ringSize winningPos s visit).trans (ih _)

theorem rescheduled_spendDeficit (s : GovernedState) (c : TaskClass) (cost : Nat) :
    Rescheduled s (spendDeficit s c cost) :=
  rescheduled_of_tagsMoved s c _ (tagsMoved_setDeficit _ _)

theorem rescheduled_setRing (s : GovernedState) (visits : Nat) :
    Rescheduled s { s with drrRingVisits := visits } :=
  ⟨⟨fun _ => rfl, rfl, rfl⟩, ⟨fun _ => rfl, rfl, rfl, rfl, rfl, rfl, rfl⟩, rfl, rfl, ⟨rfl, rfl, rfl⟩⟩

theorem rescheduled_setCursor (s : GovernedState) (cursor : Option TaskClass) :
    Rescheduled s { s with drrCursor := cursor } :=
  ⟨⟨fun _ => rfl, rfl, rfl⟩, ⟨fun _ => rfl, rfl, rfl, rfl, rfl, rfl, rfl⟩, rfl, rfl, ⟨rfl, rfl, rfl⟩⟩

theorem rescheduled_setVirtualTime (s : GovernedState) (time : Nat) :
    Rescheduled s { s with virtualTime := time } :=
  ⟨⟨fun _ => rfl, rfl, rfl⟩, ⟨fun _ => rfl, rfl, rfl, rfl, rfl, rfl, rfl⟩, rfl, rfl, ⟨rfl, rfl, rfl⟩⟩

/-- A walk of the ring moves credits and the cursor only. -/
theorem rescheduled_drrSelect (s : GovernedState) (pool : List Candidate) :
    Rescheduled s (drrSelect s pool).1 := by
  unfold drrSelect
  split
  · exact rescheduled_spendDeficit s _ _
  · split
    · exact Rescheduled.refl s
    · refine Rescheduled.trans ?_ (rescheduled_setCursor _ _)
      refine Rescheduled.trans ?_ (rescheduled_spendDeficit _ _ _)
      exact (rescheduled_setRing s _).trans (rescheduled_creditVisits _ _ _ _)

/-- The earliest visit is one of the planned ones. -/
theorem earliestVisit_mem (best : PlannedVisit) (rest : List PlannedVisit) :
    earliestVisit best rest ∈ best :: rest := by
  induction rest generalizing best with
  | nil => simp [earliestVisit]
  | cons v rest ih =>
    unfold earliestVisit
    split
    · exact List.mem_cons_of_mem _ (ih v)
    · rcases List.mem_cons.mp (ih best) with h | h
      · rw [h]; exact List.mem_cons_self
      · exact List.mem_cons_of_mem _ (List.mem_cons_of_mem _ h)

/-- Every planned visit is that of a candidate. -/
theorem mem_planVisits {s : GovernedState} {pool : List Candidate} {start : Nat} {v : PlannedVisit}
    (hv : v ∈ planVisits s pool start) : ∃ candidate ∈ pool, v.taskClass = candidate.taskClass := by
  unfold planVisits at hv
  obtain ⟨⟨candidate, index⟩, hmem, rfl⟩ := List.mem_map.mp hv
  exact ⟨candidate, List.fst_mem_of_mem_zipIdx hmem, rfl⟩

theorem planVisits_length (s : GovernedState) (pool : List Candidate) (start : Nat) :
    (planVisits s pool start).length = pool.length := by
  simp [planVisits]

/-- Deficit round robin serves a class of its pool, which is never empty. -/
theorem drrSelect_mem (s : GovernedState) {pool : List Candidate} (hpool : pool ≠ []) :
    ∃ candidate ∈ pool, (drrSelect s pool).2 = some candidate.taskClass := by
  unfold drrSelect
  split
  · rename_i c hc
    unfold drrCursorServes at hc
    split at hc
    · simp at hc
    · split at hc
      · simp at hc
      · rename_i candidate hfind
        split at hc
        · obtain rfl : candidate = c := by simpa using hc
          exact ⟨candidate, List.mem_of_find?_eq_some hfind, rfl⟩
        · simp at hc
  · split
    · rename_i hnil
      have hlen := planVisits_length s pool (drrStart s pool)
      rw [hnil] at hlen
      exact absurd (List.length_eq_zero_iff.mp hlen.symm) hpool
    · rename_i first rest hplan
      have hmem : earliestVisit first rest ∈ planVisits s pool (drrStart s pool) := by
        rw [hplan]; exact earliestVisit_mem first rest
      obtain ⟨candidate, hc, heq⟩ := mem_planVisits hmem
      exact ⟨candidate, hc, by simp [heq]⟩

/-! ## Selection -/

/-- The least candidate is one of them. -/
theorem pickMin_mem (key : Candidate → Nat × Nat) (best : Candidate) (rest : List Candidate) :
    pickMin key best rest ∈ best :: rest := by
  induction rest generalizing best with
  | nil => simp [pickMin]
  | cons c rest ih =>
    unfold pickMin
    split
    · exact List.mem_cons_of_mem _ (ih c)
    · rcases List.mem_cons.mp (ih best) with h | h
      · rw [h]; exact List.mem_cons_self
      · exact List.mem_cons_of_mem _ (List.mem_cons_of_mem _ h)

theorem contendedTier_subset {candidates : List Candidate} {c : Candidate}
    (h : c ∈ contendedTier candidates) : c ∈ candidates := List.mem_of_mem_filter h

/-- The contended tier is empty only when nothing is runnable. -/
theorem contendedTier_eq_nil {candidates : List Candidate} :
    contendedTier candidates = [] ↔ candidates = [] := by
  constructor
  · intro h
    by_contra hne
    obtain ⟨c, hc⟩ := List.exists_mem_of_ne_nil _ hne
    unfold contendedTier at h
    cases hp : candidates.any fun c => !c.bestEffort with
    | true =>
      obtain ⟨p, hpmem, hpb⟩ := List.any_eq_true.mp hp
      have := List.filter_eq_nil_iff.mp h p hpmem
      simp [hp] at this
      simp [this] at hpb
    | false =>
      have hbest := List.any_eq_false.mp hp c hc
      have := List.filter_eq_nil_iff.mp h c hc
      simp [hp] at this
      simp [this] at hbest
  · rintro rfl
    simp [contendedTier]

/-- The choice of a discipline among the candidates of its tier, with the scheduling data it moves. -/
def dispatchChoice (s : GovernedState) (first : Candidate) (rest : List Candidate) :
    GovernedState × Option TaskClass :=
  match first.fairness with
  | .fifo | .bestEffortScavenger =>
    (s, some (pickMin (fun c => (c.headQueueOrder, 0)) first rest).taskClass)
  | .weightedFairQueue _ _ =>
    let c := pickMin (fun c => (c.headFinishTag, c.headQueueOrder)) first rest
    ({ s with virtualTime := max s.virtualTime c.headFinishTag }, some c.taskClass)
  | .deadlineAware _ =>
    (s, some (pickMin (fun c => (c.headDeadlineMs, c.headQueueOrder)) first rest).taskClass)
  | .deficitRoundRobin _ => drrSelect s (first :: rest)

/-- A choice among candidates leaves every book alone and picks one of them. -/
theorem dispatchChoice_spec (s : GovernedState) (first : Candidate) (rest : List Candidate) :
    Rescheduled s (dispatchChoice s first rest).1 ∧
      ∃ candidate ∈ first :: rest, (dispatchChoice s first rest).2 = some candidate.taskClass := by
  unfold dispatchChoice
  cases first.fairness with
  | fifo => exact ⟨Rescheduled.refl s, _, pickMin_mem _ _ _, rfl⟩
  | bestEffortScavenger => exact ⟨Rescheduled.refl s, _, pickMin_mem _ _ _, rfl⟩
  | weightedFairQueue w b => exact ⟨rescheduled_setVirtualTime s _, _, pickMin_mem _ _ _, rfl⟩
  | deadlineAware slack => exact ⟨Rescheduled.refl s, _, pickMin_mem _ _ _, rfl⟩
  | deficitRoundRobin q => exact ⟨rescheduled_drrSelect s _, drrSelect_mem s (by simp)⟩

/-- With no candidate nothing is selected and nothing moves. -/
theorem select_nil {s : GovernedState} {policies : PolicySet}
    (h : runnableCandidates s policies = []) : select s policies = (s, none) := by
  unfold select
  rw [h]
  rfl

/-- The choice of a tier is answered with the candidate it names. -/
theorem select_eq {s : GovernedState} {policies : PolicySet} {first candidate : Candidate}
    {rest : List Candidate} {c : TaskClass} (htier : contendedTier (runnableCandidates s policies) = first :: rest)
    (hchoice : (dispatchChoice s first rest).2 = some c)
    (hfind : (runnableCandidates s policies).find? (fun d => decide (d.taskClass = c)) = some candidate) :
    select s policies = ((dispatchChoice s first rest).1,
      some ⟨candidate.taskClass, candidate.queueIndex, candidate.headFinishTag⟩) := by
  unfold select
  simp only [htier]
  unfold dispatchChoice at hchoice ⊢
  cases hfair : first.fairness with
  | deficitRoundRobin q =>
    simp only [hfair] at hchoice ⊢
    simp only [hchoice, hfind]
  | _ =>
    simp only [hfair, Option.some.injEq] at hchoice ⊢
    simp only [hchoice, hfind]

/-- With something runnable, `select` picks one of the candidates and moves only scheduling data. -/
theorem select_spec {s : GovernedState} {policies : PolicySet}
    (h : runnableCandidates s policies ≠ []) :
    ∃ (s' : GovernedState) (candidate : Candidate), candidate ∈ runnableCandidates s policies ∧
      Rescheduled s s' ∧
      select s policies =
        (s', some ⟨candidate.taskClass, candidate.queueIndex, candidate.headFinishTag⟩) := by
  cases htier : contendedTier (runnableCandidates s policies) with
  | nil => exact absurd (contendedTier_eq_nil.mp htier) h
  | cons first rest =>
    obtain ⟨hres, picked, hpicked, hchoice⟩ := dispatchChoice_spec s first rest
    have hmem : picked ∈ runnableCandidates s policies := by
      refine contendedTier_subset ?_
      rw [htier]
      exact hpicked
    have hfound : ∃ candidate, (runnableCandidates s policies).find?
        (fun c => decide (c.taskClass = picked.taskClass)) = some candidate := by
      rw [← Option.isSome_iff_exists, List.find?_isSome]
      exact ⟨picked, hmem, by simp⟩
    obtain ⟨candidate, hfind⟩ := hfound
    refine ⟨(dispatchChoice s first rest).1, candidate, List.mem_of_find?_eq_some hfind, hres, ?_⟩
    exact select_eq htier hchoice hfind

/-! ## Runnable requests -/

/-- A candidate is that of a class the state has seen. -/
theorem mem_runnableCandidates {s : GovernedState} {policies : PolicySet} {candidate : Candidate} :
    candidate ∈ runnableCandidates s policies ↔
      ∃ c cs, s.classes[c]? = some cs ∧ classCandidate s policies c cs = some candidate := by
  unfold runnableCandidates
  rw [List.mem_filterMap]
  constructor
  · rintro ⟨⟨c, cs⟩, hmem, h⟩
    exact ⟨c, cs, ExtTreeMap.mem_toList.mp hmem, h⟩
  · rintro ⟨c, cs, hmem, h⟩
    exact ⟨(c, cs), ExtTreeMap.mem_toList.mpr hmem, h⟩

/-- A class candidate is the first runnable request of its queue. -/
theorem classCandidate_spec {s : GovernedState} {policies : PolicySet} {c : TaskClass}
    {cs : ClassState} {candidate : Candidate} (h : classCandidate s policies c cs = some candidate) :
    ∃ policy head, policies.classPolicy c = some policy ∧ candidate.taskClass = c ∧
      cs.queue[candidate.queueIndex]? = some head ∧
      isRunnableCandidate s policies policy.maxInflight.toNat cs head = true ∧
      candidate.headQueueOrder = head.queueOrder ∧
      cs.queue.findIdx? (isRunnableCandidate s policies policy.maxInflight.toNat cs) =
        some candidate.queueIndex := by
  unfold classCandidate at h
  split at h
  · simp at h
  · rename_i policy hpolicy
    split at h
    · simp at h
    · rename_i index hindex
      split at h
      · simp at h
      · rename_i head hhead
        simp only [Option.some.injEq] at h
        subst h
        refine ⟨policy, head, hpolicy, rfl, hhead, ?_, rfl, hindex⟩
        obtain ⟨hlt, hsat, _⟩ := List.findIdx?_eq_some_iff_getElem.mp hindex
        rw [List.getElem?_eq_getElem hlt] at hhead
        obtain rfl : cs.queue[index] = head := by simpa using hhead
        exact hsat

/-- A class whose queue holds a runnable request has a candidate. -/
theorem candidate_of_runnable {s : GovernedState} {policies : PolicySet} {c : TaskClass} {policy : ClassPolicy}
    {r : PendingRequest} (hpolicy : policies.classPolicy c = some policy) (hr : r ∈ (s.cls c).queue)
    (hrun : isRunnableCandidate s policies policy.maxInflight.toNat (s.cls c) r = true) :
    ∃ candidate ∈ runnableCandidates s policies, candidate.taskClass = c := by
  cases hcs : s.classes[c]? with
  | none => simp [GovernedState.cls, hcs, default] at hr
  | some cs =>
    have hcls : s.cls c = cs := by simp [GovernedState.cls, hcs]
    rw [hcls] at hr hrun
    have hfind : ∃ index,
        cs.queue.findIdx? (isRunnableCandidate s policies policy.maxInflight.toNat cs) = some index := by
      rw [← Option.isSome_iff_exists, List.findIdx?_isSome, List.any_eq_true]
      exact ⟨r, hr, hrun⟩
    obtain ⟨index, hindex⟩ := hfind
    obtain ⟨hlt, _, _⟩ := List.findIdx?_eq_some_iff_getElem.mp hindex
    have hhead : cs.queue[index]? = some cs.queue[index] := List.getElem?_eq_getElem hlt
    have hcand : ∃ candidate, classCandidate s policies c cs = some candidate := by
      unfold classCandidate
      rw [hpolicy]
      simp only [hindex, hhead]
      exact ⟨_, rfl⟩
    obtain ⟨candidate, hcand⟩ := hcand
    obtain ⟨_, _, _, hclass, _⟩ := classCandidate_spec hcand
    exact ⟨candidate, mem_runnableCandidates.mpr ⟨c, cs, hcs, hcand⟩, hclass⟩

/-- Something is runnable exactly when some queue holds a runnable request. -/
theorem hasRunnable_iff {s : GovernedState} {policies : PolicySet} :
    hasRunnable s policies = true ↔
      ∃ c policy r, policies.classPolicy c = some policy ∧ r ∈ (s.cls c).queue ∧
        isRunnableCandidate s policies policy.maxInflight.toNat (s.cls c) r = true := by
  unfold hasRunnable
  rw [Bool.not_eq_true', List.isEmpty_eq_false_iff_exists_mem]
  constructor
  · rintro ⟨candidate, hmem⟩
    obtain ⟨c, cs, hcs, hcand⟩ := mem_runnableCandidates.mp hmem
    obtain ⟨policy, head, hpolicy, _, hhead, hrun, _⟩ := classCandidate_spec hcand
    have hcls : s.cls c = cs := by simp [GovernedState.cls, hcs]
    exact ⟨c, policy, head, hpolicy, hcls ▸ List.mem_of_getElem? hhead, hcls ▸ hrun⟩
  · rintro ⟨c, policy, r, hpolicy, hr, hrun⟩
    obtain ⟨candidate, hmem, _⟩ := candidate_of_runnable hpolicy hr hrun
    exact ⟨candidate, hmem⟩

theorem hasRunnable_eq_false_iff {s : GovernedState} {policies : PolicySet} :
    hasRunnable s policies = false ↔ runnableCandidates s policies = [] := by
  unfold hasRunnable
  simp

/-- `select` finds a request exactly when one is runnable. -/
theorem select_isSome_iff (s : GovernedState) (policies : PolicySet) :
    (select s policies).2.isSome = hasRunnable s policies := by
  cases h : hasRunnable s policies with
  | false =>
    rw [hasRunnable_eq_false_iff] at h
    rw [select_nil h]
    rfl
  | true =>
    have hne : runnableCandidates s policies ≠ [] := by
      intro hc
      rw [hasRunnable_eq_false_iff.mpr hc] at h
      simp at h
    obtain ⟨s', candidate, _, _, hsel⟩ := select_spec hne
    rw [hsel]
    rfl

end Taskmesh
