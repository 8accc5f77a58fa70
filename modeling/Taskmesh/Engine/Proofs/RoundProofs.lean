import Taskmesh.Engine.Proofs.ChoiceProofs
import Taskmesh.Engine.Proofs.RetentionProofs
import Taskmesh.Engine.Proofs.ShareProofs

/-!
# One change to the totals

What a round of the grant loop, the end of a permit and the queueing of a request each change in the state:
the request a round promotes and whom it comes before, and the totals before and after.
-/

namespace Taskmesh

open Std MachineInt QueueFamily ExtTreeMap Governor

variable {g : Governor} {s s' : GovernedState} {p : PermitId}

/-! ## A round -/

/-- A round of the grant loop that grants is a service, and promotes the request it serves. -/
theorem round_promotes {nowMs : Nat} {grant : GrantRequest} (h : g.promoteStep nowMs s = (s', some grant)) :
    ∃ first rest candidate policy r head chosen served, Serves g s s' first rest candidate policy r ∧
      Promotes g nowMs s s' grant candidate.taskClass policy candidate.queueIndex r head chosen served ∧
      (select s g.policy).2 =
        some ⟨candidate.taskClass, candidate.queueIndex, candidate.headFinishTag⟩ := by
  obtain ⟨first, rest, candidate, policy, r, hserves, hselect⟩ := serves_of_promoteStep h
  have hres : s.Rescheduled (dispatchChoice s first rest).1 := (dispatchChoice_spec s first rest).1
  obtain ⟨head, hhead, hsame⟩ := hres.getElem_queue hserves.driven.queued
  unfold Governor.promoteStep at h
  rw [hserves.selects.selects] at h
  simp only [GovernedState.removePending_of_getElem hhead, Prod.mk.injEq, Option.some.injEq] at h
  obtain ⟨rfl, rfl⟩ := h
  exact ⟨first, rest, candidate, policy, r, head, _, _, hserves, ⟨hserves.driven.known, hserves.driven.queued,
    hserves.driven.runnable, hsame, hres, hhead, rescheduled_served g _ _, rfl, rfl⟩, hselect⟩

/-- What a promotion adds to the totals. -/
theorem Promotes.loads {nowMs : Nat} {grant : GrantRequest} {c : TaskClass} {policy : ClassPolicy} {index : Nat}
    {r head : PendingRequest} {chosen served : GovernedState}
    (h : Promotes g nowMs s s' grant c policy index r head chosen served) :
    s'.memoryUnitsHeld = s.memoryUnitsHeld + r.cost.memoryUnits ∧
      ∀ k, s'.inflight k = if c = k then wrappingAdd u32Max (s.inflight k) 1 else s.inflight k := by
  have hledger := h.ledger
  have hinflight : ∀ k, (served.removeTicket head.ticket).inflight k = s.inflight k := by
    intro k
    have hclass := congrArg ClassState.inflight (hledger.classes k)
    exact hclass
  have hcost : grant.cost = r.cost := by
    have hhead := congrArg PendingRequest.cost h.same
    rw [h.grants]
    exact hhead
  have hclass : grant.taskClass = c := by
    rw [h.grants]
    rfl
  rw [h.result]
  refine ⟨?_, fun k => ?_⟩
  · rw [← hcost, ← hledger.memory]
    rfl
  · rw [← hinflight k]
    show (((served.removeTicket head.ticket).grant grant).cls k).inflight = _
    rw [GovernedState.cls_grant, hclass]
    split
    · rfl
    · rfl

/-- While only heads can run, a dispatch adds nothing to a tag. -/
theorem fits_of_heads {selection : Selection}
    (hheads : ∀ candidate ∈ runnableCandidates s g.policy, candidate.queueIndex = 0)
    (hindex : selection.queueIndex = 0) : TagsFit g.policy (s, .dispatched selection) := by
  intro sum hsum
  simp only [tagSums, hindex, if_true, List.mem_append, List.mem_filterMap] at hsum
  rcases hsum with ⟨candidate, hmem, hpriced⟩ | hnone
  · unfold candidateSum at hpriced
    split at hpriced
    · rw [if_pos (hheads candidate hmem)] at hpriced
      simp at hpriced
    · simp at hpriced
  · split at hnone <;> simp at hnone

/-- The runnable head of a weighted-fair class that is selected comes before that of every other class. -/
theorem OrderedQueues.selected_before {c c' : TaskClass} {policy policy' : ClassPolicy}
    {weight weight' burst burst' : UInt32} {r r' : PendingRequest} {rest rest' : List PendingRequest}
    {selection : Selection} (h : OrderedQueues g s) (hshares : SharesByWeight g c policy weight burst)
    (hshares' : SharesByWeight g c' policy' weight' burst') (hhead : HeadRunnable g c policy s)
    (hhead' : HeadRunnable g c' policy' s) (hqueue : (s.cls c).queue = r :: rest)
    (hqueue' : (s.cls c').queue = r' :: rest') (hselect : (select s g.policy).2 = some selection)
    (hclass : selection.taskClass = c) (hne : c' ≠ c) :
    selection = ⟨c, 0, r.finishTag⟩ ∧ KeyLt (r.finishTag, r.queueOrder) (r'.finishTag, r'.queueOrder) := by
  obtain ⟨chosen, hchosen, rfl, _, kind, hkind, hwins, _⟩ := h.spec.chosen _ hselect
  obtain ⟨limits, head, hcandidate⟩ := isCandidate_of_mem hchosen
  have hclass : chosen.taskClass = c := hclass
  subst hclass
  obtain rfl : limits = policy := Option.some.inj (hcandidate.known.symm.trans hshares.known)
  have hindex := hhead.index_zero hcandidate rfl
  have hqueued := hcandidate.queued
  rw [hqueue, hindex] at hqueued
  obtain rfl := Option.some.inj hqueued
  have htag : chosen.headFinishTag = r.finishTag := by
    rw [hcandidate.tag, hindex, hshares.fair]
    rfl
  obtain ⟨first, others, hfirst, hrun⟩ := hhead'
  obtain ⟨rfl, rfl⟩ := List.cons.inj (hqueue'.symm.trans hfirst)
  obtain ⟨rival, hrival, hrivalClass, hrivalIndex, hrivalTag, _, hrivalTier⟩ :=
    candidate_of_head hshares'.known hqueue' hrun
  obtain ⟨_, rivalHead, hrivalHead⟩ := isCandidate_of_mem hrival
  have hrivalQueued := hrivalHead.queued
  rw [hrivalClass, hqueue', hrivalIndex] at hrivalQueued
  obtain rfl := Option.some.inj hrivalQueued
  have hown : chosen ∈ tierOf (runnableCandidates s g.policy) chosen := by simp [tierOf, hchosen]
  have hweighted : kind = .weightedFairQueue := by
    rw [← hkind chosen hown, hcandidate.fairness, hshares.fair]
    rfl
  rw [hweighted] at hwins
  refine ⟨by rw [hindex, htag], ?_⟩
  cases hwins with
  | weightedFair least =>
    have htier : rival ∈ tierOf (runnableCandidates s g.policy) chosen := by
      simp [tierOf, hrival, hrivalTier, hcandidate.bestEffort, hshares.primary, hshares'.primary]
    have hapart : rival ≠ chosen := by
      rintro rfl
      exact hne hrivalClass.symm
    have hlt := least.before rival htier hapart
    rwa [htag, hcandidate.order, hrivalTag, hrivalHead.order] at hlt

/-! ## The end of a permit -/

/-- What the end of a permit takes from the totals. -/
theorem unwind_loads {record : PermitRecord} (found : s.permits[p]? = some record) {reason : TerminalReason}
    {effects effects' : TransitionEffects} (h : s.unwind p reason effects = some (s', effects')) :
    s'.memoryUnitsHeld = s.memoryUnitsHeld - record.ledger.effectiveUnits ∧
      ∀ k, s'.inflight k = s.inflight k - if record.taskClass = k then 1 else 0 := by
  have hdischarge : ∀ k, (s.discharge p record).inflight k =
      s.inflight k - if record.taskClass = k then 1 else 0 := by
    intro k
    show ((s.discharge p record).cls k).inflight = _
    rw [GovernedState.cls_discharge]
    by_cases hk : record.taskClass = k
    · rw [if_pos hk]
      cases hcs : s.classes[k]? with
      | none => simp [GovernedState.inflight, GovernedState.cls, hcs, default]
      | some cs =>
        rw [if_pos ⟨hk, by simp⟩]
        exact (totals_dischargeClass record (s.cls k)).1
    · rw [if_neg hk, if_neg fun hboth => hk hboth.1]
      rfl
  unfold GovernedState.unwind at h
  simp only [found] at h
  cases hticket : record.pendingTicket with
  | none =>
    simp only [hticket, Option.some.injEq, Prod.mk.injEq] at h
    obtain ⟨rfl, _⟩ := h
    exact ⟨rfl, hdischarge⟩
  | some t =>
    simp only [hticket, Option.some.injEq, Prod.mk.injEq] at h
    obtain ⟨rfl, _⟩ := h
    exact ⟨rfl, hdischarge⟩

/-- What a release changes before its pass: the permit is gone, and its share of the totals. -/
structure Frees (s freed : GovernedState) (p : PermitId) (record : PermitRecord) : Prop where
  schedule : SameSchedule s freed
  flags : s.SameFlags freed
  permits : freed.permits = s.permits.erase p
  memory : freed.memoryUnitsHeld = s.memoryUnitsHeld - record.ledger.effectiveUnits
  inflight : ∀ k, freed.inflight k = s.inflight k - if record.taskClass = k then 1 else 0

theorem ReleasedAlone.frees {σ : g.System} {freed : GovernedState} (h : ReleasedAlone g σ p freed)
    {record : PermitRecord} (found : σ.state.permits[p]? = some record) : Frees σ.state freed p record := by
  obtain ⟨effects, hunwind⟩ := h.unwinds
  have hfound : (σ.state.commitTime 0).permits[p]? = some record := found
  obtain ⟨hmemory, hinflight⟩ := unwind_loads hfound hunwind
  have hmove : ScheduleMove g (σ.state.commitTime 0) .other freed := unwind_move hunwind
  have hschedule : SameSchedule σ.state freed := by
    cases hmove with
    | other same _ => exact ⟨same.classes, same.time, same.cursor⟩
  obtain ⟨hflags, _, _⟩ := unwind_records hfound hunwind
  exact ⟨hschedule, ⟨hflags.fault, hflags.closed, hflags.pending⟩, permits_unwind hunwind, hmemory, hinflight⟩

/-! ## A request that queues -/

/-- What queueing a request does to the state, and the request that is queued. -/
structure Enqueues (s s' : GovernedState) (policy : ClassPolicy) (c : TaskClass) (request : AdmissionRequest)
    (ids : Ids) (tagged : GovernedState) (r : PendingRequest) : Prop where
  arrives : Arrives s s' c policy tagged r
  flags : s.SameFlags s'
  ledger : s.SameLedger s'
  operation : r.operation = request.spec.operation
  permitId : r.permitId = ids.permitId
  scope : r.scope = request.spec.scope

theorem frames_commitPending (s : GovernedState) (r : PendingRequest) :
    s.SameFlags (s.commitPending r) ∧ s.SameLedger (s.commitPending r) := by
  have hledger := GovernedState.sameLedger_enqueue s r
  unfold GovernedState.commitPending
  simp only
  split
  · exact ⟨⟨rfl, rfl, rfl⟩, hledger.trans ⟨fun _ => rfl, rfl, rfl, rfl, rfl, rfl, rfl⟩⟩
  · exact ⟨⟨rfl, rfl, rfl⟩, hledger.trans ⟨fun _ => rfl, rfl, rfl, rfl, rfl, rfl, rfl⟩⟩

theorem enqueuedAt_eq (s : GovernedState) (policy : ClassPolicy) (c : TaskClass) (request : AdmissionRequest)
    (waker : Option Waker) (ids : Ids) (blockedOn : CapacityBlock) :
    enqueuedAt s policy c request waker ids blockedOn =
      (enqueueTags s c policy (resolveCost policy).cpuUnits s.commitWatermarkMs).1.commitPending
        (pendingRequest s policy c request waker ids s.commitWatermarkMs blockedOn
          (enqueueTags s c policy (resolveCost policy).cpuUnits s.commitWatermarkMs).2) := rfl

theorem enqueues_enqueuedAt (s : GovernedState) (policy : ClassPolicy) (c : TaskClass)
    (request : AdmissionRequest) (waker : Option Waker) (ids : Ids) (blockedOn : CapacityBlock) :
    ∃ tagged r, Enqueues s (enqueuedAt s policy c request waker ids blockedOn) policy c request ids tagged r := by
  obtain ⟨tagged, r, harrives⟩ := arrives_enqueuedAt s policy c request waker ids blockedOn
  have hres := rescheduled_enqueueTags s c policy (resolveCost policy).cpuUnits s.commitWatermarkMs
  have hafter := enqueuedAt_eq s policy c request waker ids blockedOn
  generalize enqueueTags s c policy (resolveCost policy).cpuUnits s.commitWatermarkMs = tagging at hres hafter
  generalize enqueuedAt s policy c request waker ids blockedOn = after at harrives hafter ⊢
  obtain ⟨hflags, hledger⟩ := frames_commitPending tagging.1 (pendingRequest s policy c request waker ids
    s.commitWatermarkMs blockedOn tagging.2)
  have hentry : r.untagged =
      queuedEntry s policy c request waker ids s.commitWatermarkMs blockedOn tagging.2 := by
    have hpushed : Pushed s.waiting after.waiting c (queuedEntry s policy c request waker ids
      s.commitWatermarkMs blockedOn tagging.2) := hafter ▸ pushed_commitPending hres
    have hown : after.waiting c = (tagged.cls c).queue.map PendingRequest.untagged ++ [r.untagged] := by
      have hqueue := congrArg (fun c : ClassSchedule => c.queue.map PendingRequest.untagged) harrives.own
      simp only [List.map_append] at hqueue
      exact hqueue
    have hends := (List.append_inj' (hown.symm.trans hpushed.back) (by simp)).2
    simpa using hends
  refine ⟨tagged, r, harrives, ?_, ?_, ?_, ?_, ?_⟩
  · rw [hafter]
    exact ⟨hflags.fault.trans hres.flags.fault, hflags.closed.trans hres.flags.closed,
      hflags.pending.trans hres.flags.pending⟩
  · rw [hafter]
    exact hres.ledger.trans hledger
  · exact congrArg PendingRequest.operation hentry
  · exact congrArg PendingRequest.permitId hentry
  · exact congrArg PendingRequest.scope hentry

end Taskmesh
