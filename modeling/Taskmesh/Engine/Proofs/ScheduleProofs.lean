import Taskmesh.Engine.Proofs.SelectionProofs
import Taskmesh.Engine.Proofs.SystemInvariantProofs

/-!
# Every step of the system is a trace of the schedule

Each locked section commits its clock sample, makes at most one call into the scheduler of its own,
and ends with the calls of its promotion pass.
-/

namespace Taskmesh

open Std MachineInt GovernedState Traces

variable {g : Governor} {s s' s'' : GovernedState}

/-! ## What leaves the schedule alone -/

theorem SameSchedule.refl (s : GovernedState) : SameSchedule s s := ⟨fun _ => rfl, rfl, rfl⟩

theorem SameSchedule.trans (h : SameSchedule s s') (h' : SameSchedule s' s'') : SameSchedule s s'' :=
  ⟨fun c => (h'.classes c).trans (h.classes c), h'.time.trans h.time, h'.cursor.trans h.cursor⟩

theorem SameSchedule.symm (h : SameSchedule s s') : SameSchedule s' s :=
  ⟨fun c => (h.classes c).symm, h.time.symm, h.cursor.symm⟩

theorem Ages.refl (s : GovernedState) : Ages s s :=
  ⟨rfl, fun _ record h => ⟨record, h, rfl, Nat.le_refl _, Nat.le_max_left _ _⟩⟩

theorem Ages.trans (h : Ages s s') (h' : Ages s' s'') : Ages s s'' := by
  refine ⟨h'.watermark.trans h.watermark, fun p record'' found'' => ?_⟩
  obtain ⟨record', found', hleased', htouched', hbound'⟩ := h'.permits p record'' found''
  obtain ⟨record, found, hleased, htouched, hbound⟩ := h.permits p record' found'
  rw [h.watermark] at hbound'
  exact ⟨record, found, hleased'.trans hleased, htouched.trans htouched', by omega⟩

/-- A state with the same permits ages nothing. -/
theorem Ages.of_permits (hwatermark : s'.commitWatermarkMs = s.commitWatermarkMs)
    (hpermits : s'.permits = s.permits) : Ages s s' := by
  refine ⟨hwatermark, fun p record found => ?_⟩
  rw [hpermits] at found
  exact ⟨record, found, rfl, Nat.le_refl _, Nat.le_max_left _ _⟩

/-- A permit that ends leaves the others as they were. -/
theorem Ages.of_erase {p : PermitId} (hwatermark : s'.commitWatermarkMs = s.commitWatermarkMs)
    (hpermits : s'.permits = s.permits.erase p) : Ages s s' := by
  refine ⟨hwatermark, fun q record found => ?_⟩
  rw [hpermits, ExtTreeMap.getElem?_erase] at found
  split at found
  · simp at found
  · exact ⟨record, found, rfl, Nat.le_refl _, Nat.le_max_left _ _⟩

/-- A permit may be written again under the same lease, touched at most now. -/
theorem Ages.of_insert {p : PermitId} {record record' : PermitRecord}
    (hwatermark : s'.commitWatermarkMs = s.commitWatermarkMs)
    (hpermits : s'.permits = s.permits.insert p record') (found : s.permits[p]? = some record)
    (hleased : record'.ledger.leasedAtMs = record.ledger.leasedAtMs)
    (htouched : record.ledger.lastTouchedMs ≤ record'.ledger.lastTouchedMs)
    (hbound : record'.ledger.lastTouchedMs ≤ max record.ledger.lastTouchedMs s.commitWatermarkMs) :
    Ages s s' := by
  refine ⟨hwatermark, fun q recordq foundq => ?_⟩
  rw [hpermits, ExtTreeMap.getElem?_insert] at foundq
  split at foundq
  · rename_i heq
    obtain rfl : p = q := LawfulEqCmp.eq_of_compare heq
    obtain rfl := Option.some.inj foundq
    exact ⟨record, found, hleased, htouched, hbound⟩
  · exact ⟨recordq, foundq, rfl, Nat.le_refl _, Nat.le_max_left _ _⟩

/-- A change that neither the scheduler nor the permits see. -/
theorem ScheduleMove.of_frame (hclasses : s'.classes = s.classes) (htime : s'.virtualTime = s.virtualTime)
    (hcursor : s'.drrCursor = s.drrCursor) (hwatermark : s'.commitWatermarkMs = s.commitWatermarkMs)
    (hpermits : s'.permits = s.permits) : ScheduleMove g s .other s' :=
  ScheduleMove.other ⟨fun c => by rw [cls_of_classes_eq hclasses], htime, hcursor⟩
    (Ages.of_permits hwatermark hpermits)

theorem schedule_setPhaseSlot (c : ClassState) (phase : ExecutionPhase) (value : Nat) :
    (c.setPhaseSlot phase value).schedule = c.schedule := by
  cases phase <;> rfl

theorem schedule_dischargeClass (record : PermitRecord) (c : ClassState) :
    (dischargeClass record c).schedule = c.schedule := by
  unfold dischargeClass
  exact schedule_setPhaseSlot _ record.phase _

theorem schedule_advanceClass (previous phase : ExecutionPhase) (c : ClassState) :
    (advanceClass previous phase c).schedule = c.schedule := by
  have hmoved : ((c.leavePhase previous).enterPhase phase).schedule = c.schedule :=
    (schedule_setPhaseSlot _ phase _).trans (schedule_setPhaseSlot _ previous _)
  unfold advanceClass
  split
  · exact hmoved
  · exact hmoved

/-- The end of a permit changes gauges, never a queue or a tag. -/
theorem sameSchedule_discharge (s : GovernedState) (p : PermitId) (record : PermitRecord) :
    SameSchedule s (s.discharge p record) := by
  refine ⟨fun c => ?_, rfl, rfl⟩
  rw [cls_discharge]
  split
  · exact schedule_dischargeClass record _
  · rfl

/-- The end of a permit is invisible to the scheduler. -/
theorem unwind_move {p : PermitId} {reason : TerminalReason} {effects effects' : TransitionEffects}
    (h : s.unwind p reason effects = some (s', effects')) : ScheduleMove g s .other s' := by
  have hpermits := permits_unwind h
  unfold GovernedState.unwind at h
  split at h
  · simp at h
  · rename_i record _
    simp only at h
    have hsame := sameSchedule_discharge s p record
    split at h
    · obtain ⟨rfl, _⟩ := Prod.mk.inj (Option.some.inj h)
      exact ScheduleMove.other ⟨hsame.classes, rfl, rfl⟩ (Ages.of_erase rfl hpermits)
    · obtain ⟨rfl, _⟩ := Prod.mk.inj (Option.some.inj h)
      exact ScheduleMove.other ⟨hsame.classes, rfl, rfl⟩ (Ages.of_erase rfl hpermits)

/-- A class update that leaves the schedule of every class alone leaves the schedule alone. -/
theorem schedule_modify {f : ClassState → ClassState} (hf : ∀ cs, (f cs).schedule = cs.schedule)
    (s : GovernedState) (c k : TaskClass) :
    (cls { s with classes := s.classes.modify c f } k).schedule = (s.cls k).schedule := by
  rw [cls_modify]
  split
  · exact hf _
  · rfl

theorem sameSchedule_adjustMemory (s : GovernedState) (c : TaskClass) (root : Option String)
    (f : Nat → Nat) : SameSchedule s (s.adjustMemory c root f) := by
  refine ⟨fun k => ?_, rfl, rfl⟩
  exact schedule_modify (f := fun cs => { cs with memoryUnitsHeld := f cs.memoryUnitsHeld })
    (fun _ => rfl) s c k

theorem sameSchedule_recordAccountingFault (s : GovernedState) (what : String) :
    SameSchedule s (s.recordAccountingFault what) := by
  unfold GovernedState.recordAccountingFault
  split
  · exact ⟨fun _ => rfl, rfl, rfl⟩
  · exact SameSchedule.refl s

theorem sameSchedule_applyMemoryDelta (s : GovernedState) (c : TaskClass) (root : Option String)
    (delta : Int) : SameSchedule s (s.applyMemoryDelta c root delta) := by
  unfold GovernedState.applyMemoryDelta
  split
  · exact sameSchedule_adjustMemory s c root _
  · simp only
    split
    · exact (sameSchedule_adjustMemory s c root _).trans (sameSchedule_recordAccountingFault _ _)
    · exact sameSchedule_adjustMemory s c root _

/-- A memory delta touches no permit and takes no time. -/
theorem applyMemoryDelta_frame (s : GovernedState) (c : TaskClass) (root : Option String) (delta : Int) :
    (s.applyMemoryDelta c root delta).permits = s.permits ∧
      (s.applyMemoryDelta c root delta).commitWatermarkMs = s.commitWatermarkMs := by
  unfold GovernedState.applyMemoryDelta
  split
  · exact ⟨rfl, rfl⟩
  · simp only
    split
    · unfold GovernedState.recordAccountingFault
      split <;> exact ⟨rfl, rfl⟩
    · exact ⟨rfl, rfl⟩

/-- A changed charge touches the permit at most now. -/
theorem recharge_move {p : PermitId} {record : PermitRecord} {ledger : PermitLedger}
    (found : s.permits[p]? = some record)
    (hleased : ledger.leasedAtMs = record.ledger.leasedAtMs)
    (htouched : ledger.lastTouchedMs = max record.ledger.lastTouchedMs s.commitWatermarkMs) :
    ScheduleMove g s .other (s.rechargePermit p record ledger) := by
  unfold GovernedState.rechargePermit
  have hsame := sameSchedule_applyMemoryDelta
    { s with permits := s.permits.insert p { record with ledger := ledger } } record.taskClass
    (if record.scope.isChild then some record.rootOperationId else none)
    (ledger.effectiveUnits - record.ledger.effectiveUnits : Int)
  obtain ⟨hpermits, hwatermark⟩ := applyMemoryDelta_frame
    { s with permits := s.permits.insert p { record with ledger := ledger } } record.taskClass
    (if record.scope.isChild then some record.rootOperationId else none)
    (ledger.effectiveUnits - record.ledger.effectiveUnits : Int)
  refine ScheduleMove.other ⟨hsame.classes, hsame.time, hsame.cursor⟩
    (Ages.of_insert hwatermark hpermits found hleased ?_ (Nat.le_of_eq htouched))
  rw [htouched]
  exact Nat.le_max_left _ _

/-! ## Traces without an arrival -/

/-- The move is no arrival: nothing is queued, nothing is granted directly, and no time passes. -/
def ScheduleEvent.inside : ScheduleEvent → Bool
  | .ticked | .enqueued _ | .granted _ => false
  | _ => true

/-- The schedule moves without an arrival. -/
def Reschedules (g : Governor) (s s' : GovernedState) : Prop :=
  ∃ tr, ScheduleTrace g s tr s' ∧ ∀ x ∈ tr, x.2.inside = true

/-- A selection that ends in a grant is a dispatch. -/
theorem ScheduleMove.of_select {selection : Selection} (hselect : (select s g.policy).2 = some selection)
    (hsome : (g.promoteStep s.commitWatermarkMs s).2.isSome = true) :
    ScheduleMove g s (.dispatched selection) (g.promoteStep s.commitWatermarkMs s).1 := by
  obtain ⟨grant, hgrant⟩ := Option.isSome_iff_exists.mp hsome
  exact ScheduleMove.dispatched hselect (Prod.ext rfl hgrant)

theorem Reschedules.refl (s : GovernedState) : Reschedules g s s := ⟨[], Trace.nil s, by simp⟩

theorem Reschedules.trans (h : Reschedules g s s') (h' : Reschedules g s' s'') : Reschedules g s s'' := by
  obtain ⟨tr, htr, hno⟩ := h
  obtain ⟨tr', htr', hno'⟩ := h'
  refine ⟨tr ++ tr', htr.append htr', fun x hx => ?_⟩
  rcases List.mem_append.mp hx with hx | hx
  · exact hno x hx
  · exact hno' x hx

theorem Reschedules.single {event : ScheduleEvent} (h : ScheduleMove g s event s')
    (hno : event.inside = true) : Reschedules g s s' := by
  refine ⟨[(s, event)], Trace.single h, fun x hx => ?_⟩
  obtain rfl : x = (s, event) := by simpa using hx
  exact hno

/-- A change the scheduler does not see is a trace of one move. -/
theorem Reschedules.other (h : ScheduleMove g s .other s') : Reschedules g s s' :=
  Reschedules.single h rfl

/-! ## The committed time -/

theorem watermark_nextFinishTag (s : GovernedState) (c : TaskClass) (increment : Nat) :
    (nextFinishTag s c increment).1.commitWatermarkMs = s.commitWatermarkMs := by
  unfold nextFinishTag
  split <;> rfl

theorem watermark_recordFinishTag (s : GovernedState) (c : TaskClass) (tag : Nat) :
    (recordFinishTag s c tag).commitWatermarkMs = s.commitWatermarkMs := rfl

theorem watermark_enqueueTags (s : GovernedState) (c : TaskClass) (policy : ClassPolicy) (cost now : Nat) :
    (enqueueTags s c policy cost now).1.commitWatermarkMs = s.commitWatermarkMs := by
  unfold enqueueTags
  cases policy.fairness with
  | weightedFairQueue weight burst =>
    exact (watermark_recordFinishTag _ c _).trans (watermark_nextFinishTag s c _)
  | fifo => rfl
  | deficitRoundRobin quantum => rfl
  | deadlineAware slack => rfl
  | bestEffortScavenger => rfl

/-- A choice credits and spends; it neither commits time nor touches a permit. -/
theorem watermark_dispatchChoice (s : GovernedState) (first : Candidate) (rest : List Candidate) :
    (dispatchChoice s first rest).1.commitWatermarkMs = s.commitWatermarkMs ∧
      (dispatchChoice s first rest).1.permits = s.permits := by
  have hvisits : ∀ (plan : List PlannedVisit) (s : GovernedState) (n pos : Nat),
      (plan.foldl (creditVisit n pos) s).commitWatermarkMs = s.commitWatermarkMs ∧
        (plan.foldl (creditVisit n pos) s).permits = s.permits := by
    intro plan
    induction plan with
    | nil => intro s n pos; exact ⟨rfl, rfl⟩
    | cons v plan ih =>
      intro s n pos
      rw [List.foldl_cons]
      obtain ⟨hwatermark, hpermits⟩ := ih (creditVisit n pos s v) n pos
      rw [hwatermark, hpermits]
      unfold creditVisit
      split <;> exact ⟨rfl, rfl⟩
  unfold dispatchChoice
  cases first.fairness with
  | fifo => exact ⟨rfl, rfl⟩
  | bestEffortScavenger => exact ⟨rfl, rfl⟩
  | weightedFairQueue w b => exact ⟨rfl, rfl⟩
  | deadlineAware slack => exact ⟨rfl, rfl⟩
  | deficitRoundRobin q =>
    simp only
    unfold drrSelect
    split
    · exact ⟨rfl, rfl⟩
    · split
      · exact ⟨rfl, rfl⟩
      · exact hvisits _ _ _ _

/-- A dispatch keeps the committed time and adds the permit it grants, leased now. -/
theorem promoteStep_frame {nowMs : Nat} {grant : GrantRequest}
    (h : g.promoteStep nowMs s = (s', some grant)) :
    s'.commitWatermarkMs = s.commitWatermarkMs ∧
      s'.permits = s.permits.insert grant.permitId grant.record ∧ grant.nowMs = nowMs := by
  have hne : runnableCandidates s g.policy ≠ [] := by
    intro hnil
    unfold Governor.promoteStep at h
    rw [select_nil hnil] at h
    simp at h
  obtain ⟨first, rest, candidate, hselects⟩ := selects_of_runnable hne
  obtain ⟨hwatermark, hpermits⟩ := watermark_dispatchChoice s first rest
  unfold Governor.promoteStep at h
  rw [hselects.selects] at h
  simp only at h
  split at h
  · simp at h
  · rename_i removed head hremoved
    obtain ⟨_, rfl⟩ := removePending_spec hremoved
    simp only [Prod.mk.injEq, Option.some.injEq] at h
    obtain ⟨hstate, hgrant⟩ := h
    subst hgrant
    rw [← hwatermark, ← hpermits, ← hstate]
    unfold Governor.served
    split <;> exact ⟨rfl, rfl, rfl⟩

/-- Nothing but a committed sample moves the committed time. -/
theorem ScheduleMove.watermark_eq {event : ScheduleEvent} (h : ScheduleMove g s event s')
    (hnot : event ≠ .ticked) : s'.commitWatermarkMs = s.commitWatermarkMs := by
  cases h with
  | ticked => exact absurd rfl hnot
  | other same ages => exact ages.watermark
  | granted known => rfl
  | @enqueued policy c request waker ids blockedOn known enabled =>
    refine Eq.trans ?_ (watermark_enqueueTags s c policy (resolveCost policy).cpuUnits s.commitWatermarkMs)
    unfold enqueuedAt GovernedState.commitPending
    simp only
    split <;> rfl
  | dispatched chosen promoted => exact (promoteStep_frame promoted).1
  | dropped known found same ages => exact ages.watermark
  | emptied same ages => exact ages.watermark

/-! ## Promotion -/

theorem unserved_eq {policy : ClassPolicy} {c : TaskClass} (h : g.policy.classPolicy c = some policy) :
    g.unserved s c = onUnservedRemoved s c policy := by
  unfold Governor.unserved
  rw [h]

/-- A cycle scan drops one request at most, without the clock. -/
theorem terminalizeWaitCycle_reschedules (g : Governor) (s : GovernedState) (effects : TransitionEffects) :
    Reschedules g s (g.terminalizeWaitCycle s effects).state ∧
      (g.terminalizeWaitCycle s effects).state.commitWatermarkMs = s.commitWatermarkMs := by
  rcases terminalizeWaitCycle_cases g s effects with ⟨_, heq⟩ | ⟨c, index, witness, r, held, hfind, hr, _,
    heq⟩
  · rw [heq]
    exact ⟨Reschedules.refl s, rfl⟩
  · rw [heq]
    obtain ⟨policy, _, hpolicy, _⟩ := findCycle_spec hfind
    have hmove : ScheduleMove g s (.dropped c index)
        (g.terminalizeCycle (s.removedPending c index r) c r held) := by
      unfold Governor.terminalizeCycle
      rw [unserved_eq hpolicy]
      exact ScheduleMove.dropped hpolicy hr ⟨fun _ => rfl, rfl, rfl⟩ (Ages.of_permits rfl rfl)
    exact ⟨Reschedules.single hmove rfl, hmove.watermark_eq (by simp)⟩

/-- Every grant of the loop is a dispatch. -/
theorem promoteLoop_reschedules (g : Governor) (slots : Nat) (s : GovernedState)
    (effects : TransitionEffects) (changed : Bool) :
    Reschedules g s (g.promoteLoop s.commitWatermarkMs slots s effects changed).state ∧
      (g.promoteLoop s.commitWatermarkMs slots s effects changed).state.commitWatermarkMs =
        s.commitWatermarkMs := by
  induction slots generalizing s effects changed with
  | zero => exact ⟨Reschedules.refl s, rfl⟩
  | succ slots ih =>
    unfold Governor.promoteLoop
    cases h : g.promoteStep s.commitWatermarkMs s with
    | mk s' grant =>
      cases grant with
      | none =>
        obtain ⟨_, rfl⟩ := promoteStep_none h
        exact ⟨Reschedules.refl s', rfl⟩
      | some grant =>
        obtain ⟨_, _, _, _, _, _, hchosen⟩ := serves_of_promoteStep h
        obtain ⟨hwatermark, _⟩ := promoteStep_frame h
        simp only
        rw [← hwatermark]
        obtain ⟨hrest, hkept⟩ := ih s' (effects.pushWake grant.claimWaker) true
        exact ⟨(Reschedules.single (ScheduleMove.dispatched hchosen h) rfl).trans hrest, hkept⟩

/-- A whole promotion pass is a trace of dispatches and drops. -/
theorem promote_reschedules (g : Governor) (s : GovernedState) :
    Reschedules g s (g.promote s s.commitWatermarkMs).1 := by
  obtain ⟨hfirst, hfirstTime⟩ := terminalizeWaitCycle_reschedules g s {}
  have hloop := promoteLoop_reschedules g promotionBudget (g.terminalizeWaitCycle s {}).state
    (g.terminalizeWaitCycle s {}).effects (g.terminalizeWaitCycle s {}).removed
  rw [hfirstTime] at hloop
  have hlast : ∀ pass, Reschedules g pass.state (g.lastScan pass).state := by
    intro pass
    unfold Governor.lastScan
    split
    · exact (terminalizeWaitCycle_reschedules g _ _).1
    · exact Reschedules.refl _
  refine ((hfirst.trans hloop.1).trans (hlast (g.grantPass s s.commitWatermarkMs))).trans ?_
  exact Reschedules.other (ScheduleMove.of_frame rfl rfl rfl rfl rfl)

/-! ## Sections -/

/-- A queued ticket names a queue that holds its request. -/
def TicketsQueued (s : GovernedState) : Prop :=
  ∀ (ticket : Ticket) c, s.tickets[ticket]? = some (.queued c) → ∃ r ∈ (s.cls c).queue, r.ticket = ticket

/-- Every class with a queue is in the policy. -/
def QueuesKnown (g : Governor) (s : GovernedState) : Prop :=
  ∀ c, (s.cls c).queue ≠ [] → ∃ policy, g.policy.classPolicy c = some policy

/-- What is re-derived after a removal depends on the schedule alone. -/
theorem sameSchedule_onUnservedRemoved (h : SameSchedule s s') (c : TaskClass) (policy : ClassPolicy) :
    SameSchedule (onUnservedRemoved s c policy) (onUnservedRemoved s' c policy) := by
  refine ⟨fun k => ?_, h.time, h.cursor⟩
  rw [schedule_onUnservedRemoved, schedule_onUnservedRemoved, h.classes, h.classes, h.time]

/-- A waiter that gives up takes its request out of its queue, and the tags are re-derived. -/
theorem cancelQueued_reschedules {c : TaskClass} {ticket : Ticket} (hqueued : TicketsQueued s)
    (hknown : QueuesKnown g s) (hticket : s.tickets[ticket]? = some (.queued c)) :
    Reschedules g s (g.unserved (Governor.cancelQueued s c ticket).1 c) := by
  obtain ⟨r, hr, hsame⟩ := hqueued ticket c hticket
  obtain ⟨policy, hpolicy⟩ := hknown c (List.ne_nil_of_mem hr)
  unfold Governor.cancelQueued
  cases hindex : (s.cls c).queue.findIdx? fun r => decide (r.ticket = ticket) with
  | none =>
    have := List.findIdx?_eq_none_iff.mp hindex r hr
    simp [hsame] at this
  | some index =>
    obtain ⟨hlt, _, _⟩ := List.findIdx?_eq_some_iff_getElem.mp hindex
    have hfound : (s.cls c).queue[index]? = some (s.cls c).queue[index] := List.getElem?_eq_getElem hlt
    simp only [removePending_of_getElem hfound]
    rw [unserved_eq hpolicy]
    refine Reschedules.single (ScheduleMove.dropped hpolicy hfound
      (sameSchedule_onUnservedRemoved ?_ c policy) (Ages.of_permits ?_ ?_)) rfl
    · split <;> exact ⟨fun _ => rfl, rfl, rfl⟩
    · split <;> rfl
    · split <;> rfl

/-- A release is invisible to the scheduler until its pass. -/
theorem releaseWithProofReason_reschedules (s : GovernedState) (p : PermitId) (proof : Option Nat)
    (reason : TerminalReason) (effects : TransitionEffects) :
    Reschedules g s (s.releaseWithProofReason p proof reason effects).1 := by
  rcases releaseWithProofReason_cases s p proof reason effects with ⟨_, heq⟩ | ⟨_, _, _, heq⟩ |
    ⟨_, s', effects', _, _, hunwind, heq⟩
  · rw [heq]
    exact Reschedules.refl s
  · rw [heq]
    exact Reschedules.refl s
  · rw [heq]
    exact Reschedules.other (unwind_move hunwind)

/-- Only tickets and guards changed. -/
theorem Reschedules.of_frame (hclasses : s'.classes = s.classes) (htime : s'.virtualTime = s.virtualTime)
    (hcursor : s'.drrCursor = s.drrCursor) (hwatermark : s'.commitWatermarkMs = s.commitWatermarkMs)
    (hpermits : s'.permits = s.permits) : Reschedules g s s' :=
  Reschedules.other (ScheduleMove.of_frame hclasses htime hcursor hwatermark hpermits)

/-- A granted ticket that is given up has left its queue long before. -/
theorem abandonGranted_reschedules (s : GovernedState) (ticket : Ticket) (p : PermitId) :
    Reschedules g s (Governor.abandonGranted s ticket p).state := by
  have hrelease := releaseWithProofReason_reschedules (g := g) s p none .abandoned {}
  unfold Governor.abandonGranted
  split
  · rename_i s₁ effects heq
    rw [heq] at hrelease
    exact hrelease.trans (Reschedules.of_frame rfl rfl rfl rfl rfl)
  · rename_i s₁ effects phase heq
    rw [heq] at hrelease
    exact hrelease
  · rename_i s₁ effects heq
    rw [heq] at hrelease
    exact hrelease.trans (Reschedules.of_frame rfl rfl rfl rfl rfl)

/-- Giving up a queued ticket drops its request; any other abandonment is invisible. -/
theorem abandon_reschedules (hqueued : TicketsQueued s) (hknown : QueuesKnown g s) (ticket : Ticket) :
    Reschedules g s (g.abandon s ticket).state := by
  unfold Governor.abandon
  split
  · exact abandonGranted_reschedules s ticket _
  · exact abandonGranted_reschedules s ticket _
  · rename_i c hticket
    exact cancelQueued_reschedules hqueued hknown hticket
  · exact Reschedules.of_frame rfl rfl rfl rfl rfl
  · exact Reschedules.of_frame rfl rfl rfl rfl rfl
  · exact Reschedules.refl s

/-- A record rewritten in place: its charge is the same, and it is touched at most now. -/
theorem rewrite_reschedules {p : PermitId} {record record' : PermitRecord} {s' : GovernedState}
    (found : s.permits[p]? = some record) (hpermits : s'.permits = s.permits.insert p record')
    (hclasses : s'.classes = s.classes) (htime : s'.virtualTime = s.virtualTime)
    (hcursor : s'.drrCursor = s.drrCursor) (hwatermark : s'.commitWatermarkMs = s.commitWatermarkMs)
    (hleased : record'.ledger.leasedAtMs = record.ledger.leasedAtMs)
    (htouched : record'.ledger.lastTouchedMs = record.ledger.lastTouchedMs ∨
      record'.ledger.lastTouchedMs = max record.ledger.lastTouchedMs s.commitWatermarkMs) :
    Reschedules g s s' := by
  refine Reschedules.other (ScheduleMove.other ⟨fun c => by rw [cls_of_classes_eq hclasses], htime, hcursor⟩
    (Ages.of_insert hwatermark hpermits found hleased ?_ ?_))
  · omega
  · omega

/-- A claim answers or begins a hand-over; no queue changes. -/
theorem beginClaim_reschedules (s : GovernedState) (ticket : Ticket) :
    Reschedules g s (Governor.beginClaim s ticket s.commitWatermarkMs).1 := by
  unfold Governor.beginClaim
  split
  · split
    · exact Reschedules.refl s
    · rename_i record found
      exact rewrite_reschedules found rfl rfl rfl rfl rfl rfl (Or.inr rfl)
  · exact Reschedules.refl s
  · exact Reschedules.refl s
  · exact Reschedules.of_frame rfl rfl rfl rfl rfl
  · exact Reschedules.of_frame rfl rfl rfl rfl rfl
  · exact Reschedules.refl s

theorem finishClaim_reschedules (s : GovernedState) (ticket : Ticket) :
    Reschedules g s (Governor.finishClaim s ticket s.commitWatermarkMs).1 := by
  unfold Governor.finishClaim
  split
  · split
    · exact Reschedules.of_frame rfl rfl rfl rfl rfl
    · rename_i record found
      exact rewrite_reschedules found rfl rfl rfl rfl rfl rfl (Or.inr rfl)
  · exact Reschedules.of_frame rfl rfl rfl rfl rfl
  · exact Reschedules.of_frame rfl rfl rfl rfl rfl
  · exact Reschedules.refl s
  · exact Reschedules.refl s
  · exact Reschedules.refl s

/-- A claim that failed to deliver gives its permit up like a release. -/
theorem compensateClaim_reschedules (s : GovernedState) (ticket : Ticket) (p : PermitId) :
    Reschedules g s (Governor.compensateClaim s ticket p).state := by
  have hrelease := releaseWithProofReason_reschedules (g := g) s p none .claimDeliveryFailed {}
  unfold Governor.compensateClaim
  split
  · split
    · rename_i s₁ effects heq
      rw [heq] at hrelease
      exact hrelease
    · rename_i s₁ effects phase heq
      rw [heq] at hrelease
      refine hrelease.trans ?_
      unfold Governor.detachTicket
      simp only
      split
      · rename_i record found
        exact rewrite_reschedules found rfl rfl rfl rfl rfl rfl (Or.inl rfl)
      · exact Reschedules.of_frame rfl rfl rfl rfl rfl
    · rename_i s₁ effects heq
      rw [heq] at hrelease
      exact hrelease.trans (Reschedules.of_frame rfl rfl rfl rfl rfl)
  · exact Reschedules.refl s

/-! ## Faults and sweeps -/

/-- The loop that empties a queue takes its requests out one by one and leaves the tags alone. -/
theorem faultQueue_schedule (c : TaskClass) (rounds : Nat) (s : GovernedState) (effects : TransitionEffects)
    (k : TaskClass) : ((Governor.faultQueue c rounds s effects).1.cls k).schedule =
      if c = k then { (s.cls c).schedule with queue := (s.cls c).queue.drop rounds }
      else (s.cls k).schedule := by
  induction rounds generalizing s effects with
  | zero =>
    unfold Governor.faultQueue
    by_cases hk : c = k
    · subst hk
      rw [if_pos rfl]
      rfl
    · rw [if_neg hk]
  | succ rounds ih =>
    unfold Governor.faultQueue
    cases hremove : s.removePending c 0 with
    | none =>
      have hempty : (s.cls c).queue = [] := by
        cases hqueue : (s.cls c).queue with
        | nil => rfl
        | cons r rest =>
          have hhead : (s.cls c).queue[0]? = some r := by rw [hqueue]; rfl
          have := removePending_of_getElem hhead
          rw [hremove] at this
          simp at this
      by_cases hk : c = k
      · subst hk
        rw [if_pos rfl]
        simp only [ClassState.schedule, hempty, List.drop_nil]
      · rw [if_neg hk]
    | some removed =>
      obtain ⟨s₁, r⟩ := removed
      obtain ⟨hr, rfl⟩ := removePending_spec hremove
      simp only
      have hquiet : ∀ k, ((if r.scope.isChild then
          (s.removedPending c 0 r).vacateRecursionGuard r.rootOperationId r.targetStage
          else s.removedPending c 0 r).setTicket r.ticket .faulted).cls k = (s.removedPending c 0 r).cls k := by
        intro k
        split <;> rfl
      rw [ih, hquiet, hquiet, cls_removedPending, cls_removedPending, if_pos rfl]
      by_cases hk : c = k
      · subst hk
        have hdropped := schedule_dropped (s.cls c) 0 r
        have hqueue : ((s.cls c).dropped 0 r).queue = (s.cls c).queue.eraseIdx 0 :=
          congrArg ClassSchedule.queue hdropped
        rw [if_pos rfl, if_pos rfl, hdropped, hqueue]
        cases (s.cls c).queue with
        | nil => simp [ClassSchedule.dequeued]
        | cons r rest => simp [ClassSchedule.dequeued]
      · rw [if_neg hk, if_neg hk, if_neg hk]

/-- Emptying a queue leaves virtual time, the ring and the clock alone. -/
theorem faultQueue_frame (c : TaskClass) (rounds : Nat) (s : GovernedState) (effects : TransitionEffects) :
    (Governor.faultQueue c rounds s effects).1.virtualTime = s.virtualTime ∧
      (Governor.faultQueue c rounds s effects).1.drrCursor = s.drrCursor ∧
      (Governor.faultQueue c rounds s effects).1.commitWatermarkMs = s.commitWatermarkMs ∧
      (Governor.faultQueue c rounds s effects).1.permits = s.permits := by
  induction rounds generalizing s effects with
  | zero => exact ⟨rfl, rfl, rfl, rfl⟩
  | succ rounds ih =>
    unfold Governor.faultQueue
    cases hremove : s.removePending c 0 with
    | none => exact ⟨rfl, rfl, rfl, rfl⟩
    | some removed =>
      obtain ⟨s₁, r⟩ := removed
      obtain ⟨_, rfl⟩ := removePending_spec hremove
      obtain ⟨htime, hcursor, hwatermark, hpermits⟩ := ih
        ((if r.scope.isChild then
          (s.removedPending c 0 r).vacateRecursionGuard r.rootOperationId r.targetStage
          else s.removedPending c 0 r).setTicket r.ticket .faulted) (effects.pushWake r.waker)
      simp only
      rw [htime, hcursor, hwatermark, hpermits]
      split <;> exact ⟨rfl, rfl, rfl, rfl⟩

theorem SameSchedule.queue_eq (h : SameSchedule s s') (c : TaskClass) :
    (s'.cls c).queue = (s.cls c).queue := congrArg ClassSchedule.queue (h.classes c)

/-- An emptied class is idle at virtual time, and the others do not notice. -/
theorem schedule_emptiedClass (s : GovernedState) (c k : TaskClass) :
    ((emptiedClass s c).cls k).schedule =
      if c = k then ClassSchedule.idle s.virtualTime else (s.cls k).schedule := by
  unfold emptiedClass
  rw [cls_modifyClass]
  split <;> rfl

/-- A fault empties one queue after the other, each as one move. -/
theorem faultClass_reschedules (acc : GovernedState × TransitionEffects) (c : TaskClass)
    (hknown : QueuesKnown g acc.1) :
    Reschedules g acc.1 (g.faultClass acc c).1 ∧ QueuesKnown g (g.faultClass acc c).1 := by
  obtain ⟨s, effects⟩ := acc
  obtain ⟨htime, hcursor, hwatermark, hpermits⟩ :=
    faultQueue_frame c (s.cls c).queue.length s effects
  have hschedule := faultQueue_schedule c (s.cls c).queue.length s effects
  unfold Governor.faultClass
  simp only
  split
  · rename_i hlength
    have hsame : SameSchedule s (Governor.faultQueue c (s.cls c).queue.length s effects).1 := by
      refine ⟨fun k => ?_, htime, hcursor⟩
      rw [hschedule, hlength]
      split
      · rename_i hk
        rw [← hk]
        rfl
      · rfl
    refine ⟨Reschedules.other (ScheduleMove.other hsame (Ages.of_permits hwatermark hpermits)), fun k hk => ?_⟩
    rw [hsame.queue_eq] at hk
    exact hknown k hk
  · rename_i hlength
    obtain ⟨policy, hpolicy⟩ := hknown c fun hnil => hlength (by simp [hnil])
    rw [unserved_eq hpolicy]
    have hsame : SameSchedule (emptiedClass s c)
        (onUnservedRemoved (Governor.faultQueue c (s.cls c).queue.length s effects).1 c policy) := by
      refine ⟨fun k => ?_, htime, hcursor⟩
      rw [schedule_onUnservedRemoved, schedule_emptiedClass, hschedule, hschedule, if_pos rfl, htime]
      by_cases hk : c = k
      · rw [if_pos hk, if_pos hk]
        simp [ClassSchedule.rederived]
      · rw [if_neg hk, if_neg hk, if_neg hk]
    refine ⟨Reschedules.single (ScheduleMove.emptied hsame (Ages.of_permits hwatermark hpermits)) rfl,
      fun k hk => ?_⟩
    rw [hsame.queue_eq] at hk
    have hqueue := congrArg ClassSchedule.queue (schedule_emptiedClass s c k)
    simp only [ClassState.schedule] at hqueue
    by_cases hck : c = k
    · exact ⟨policy, hck ▸ hpolicy⟩
    · rw [hqueue, if_neg hck] at hk
      exact hknown k hk

theorem faultClasses_reschedules (classes : List TaskClass) (acc : GovernedState × TransitionEffects)
    (hknown : QueuesKnown g acc.1) : Reschedules g acc.1 (classes.foldl g.faultClass acc).1 := by
  induction classes generalizing acc with
  | nil => exact Reschedules.refl _
  | cons c rest ih =>
    obtain ⟨hfirst, hknown'⟩ := faultClass_reschedules acc c hknown
    exact hfirst.trans (ih _ hknown')

theorem terminalizeQueued_reschedules (effects : TransitionEffects) (hknown : QueuesKnown g s) :
    Reschedules g s (g.terminalizeQueuedForAccountingFault s effects).1 :=
  (faultClasses_reschedules s.classes.keys (s, effects) hknown).trans
    (Reschedules.of_frame rfl rfl rfl rfl rfl)

theorem recordAccountingFault_reschedules (s : GovernedState) (what : String) :
    Reschedules g s (s.recordAccountingFault what) := by
  unfold GovernedState.recordAccountingFault
  split
  · exact Reschedules.of_frame rfl rfl rfl rfl rfl
  · exact Reschedules.refl s

/-- A reading is invisible unless it faults, and then every queue is emptied. -/
theorem reconcileMemory_reschedules (p : PermitId) (measuredBytes : Nat) (epoch : Option Nat)
    (hknown : QueuesKnown g s) :
    Reschedules g s (g.reconcileMemory s p measuredBytes epoch s.commitWatermarkMs).state := by
  rcases reconcileMemory_cases g s p measuredBytes epoch s.commitWatermarkMs with ⟨outcome, heq, _⟩ |
    ⟨error, heq⟩ | ⟨record, ledger, found, _, heq, hleased, htouched⟩
  · rw [heq]
    exact Reschedules.refl s
  · rw [heq]
    refine (recordAccountingFault_reschedules s _).trans (terminalizeQueued_reschedules {} fun c hc => ?_)
    rw [(sameSchedule_recordAccountingFault s _).queue_eq] at hc
    exact hknown c hc
  · rw [heq]
    exact Reschedules.other (recharge_move found hleased htouched)

theorem releaseStage_reschedules (p : PermitId) (freedUnits : Nat) (sequence : Option Nat) :
    Reschedules g s (g.releaseStage s p freedUnits sequence s.commitWatermarkMs).state := by
  unfold Governor.releaseStage
  split
  · exact Reschedules.refl s
  · split
    · exact Reschedules.refl s
    · rename_i policy _
      rcases releaseStageMemory_cases s p freedUnits policy.memoryReleasePolicy sequence
        s.commitWatermarkMs with heq | ⟨record, ledger, found, _, _, heq, hleased, htouched⟩
      · simp only [heq]
        exact Reschedules.refl s
      · simp only [heq]
        exact Reschedules.other (recharge_move found hleased htouched)

/-- Reclaimed permits end like released ones. -/
theorem reclaimAll_reschedules (permits : List PermitId) (s : GovernedState) (effects : TransitionEffects)
    (count : Nat) : Reschedules g s (reclaimAll permits s effects count).1 := by
  induction permits generalizing s effects count with
  | nil => exact Reschedules.refl s
  | cons p rest ih =>
    unfold reclaimAll
    cases h : s.unwind p .reclaimed effects with
    | none => exact ih s effects count
    | some unwound =>
      obtain ⟨s', effects'⟩ := unwound
      exact (Reschedules.other (unwind_move h)).trans (ih s' effects' _)

/-! ## Steps -/

theorem advanced_reschedules {p : PermitId} {record : PermitRecord} (found : s.permits[p]? = some record)
    (phase : ExecutionPhase) (nonces : Nat) : Reschedules g s (s.advancedTo p record phase nonces) := by
  refine Reschedules.other (ScheduleMove.other ⟨fun c => ?_, rfl, rfl⟩
    (Ages.of_insert rfl rfl found rfl (Nat.le_refl _) (Nat.le_max_left _ _)))
  rw [cls_advancedTo]
  split
  · exact schedule_advanceClass _ _ _
  · rfl

/-- Inside a section the clock stands still. -/
theorem Reschedules.watermark_eq (h : Reschedules g s s') : s'.commitWatermarkMs = s.commitWatermarkMs := by
  obtain ⟨tr, htrace, hinside⟩ := h
  refine htrace.invariant_of (P := fun t => t.commitWatermarkMs = s.commitWatermarkMs)
    (Q := fun x => x.2.inside = true) (fun t event u ht hevent hmove => ?_) hinside rfl
  refine (hmove.watermark_eq ?_).trans ht
  rintro rfl
  simp [ScheduleEvent.inside] at hevent

/-- The state a section starts from: its clock sample is committed, if it takes one. -/
def Started (s start : GovernedState) : Prop := start = s ∨ ∃ sampledMs, start = s.commitTime sampledMs

/-- The clock sample of a call in progress. -/
def Thread.sampledMs {policies : PolicySet} : Thread policies → Nat
  | .allocating _ sampledMs _ | .admitting _ sampledMs _ | .settling _ _ sampledMs
  | .claiming _ _ _ sampledMs | .draining _ sampledMs => sampledMs

/-- The clock sample an action comes with: its own, or that of the call it goes on with. -/
def Action.sample {policies : PolicySet} (threads : List (Thread policies)) : Action → Option Nat
  | .call _ sampledMs | .claim _ sampledMs | .abandon _ sampledMs | .release _ sampledMs
  | .releaseLeased _ sampledMs | .reconcileMemory _ _ _ sampledMs | .releaseStageMemory _ _ _ sampledMs
  | .reapLeaks _ sampledMs => some sampledMs.toNat
  | .allocate i | .enter i | .settle i _ | .finishClaim i _ | .drain i => threads[i]?.map Thread.sampledMs
  | .advancePhase _ _ | .closeAdmission | .mintElsewhere => none

/-- The state the section of an action starts from. -/
def StartedBy (σ : g.System) (a : Action) (start : GovernedState) : Prop :=
  start = σ.state ∨ ∃ sampledMs, a.sample σ.threads = some sampledMs ∧ start = σ.state.commitTime sampledMs

theorem StartedBy.started {σ : g.System} {a : Action} {start : GovernedState} (h : StartedBy σ a start) :
    Started σ.state start := by
  rcases h with h | ⟨sampledMs, _, h⟩
  · exact Or.inl h
  · exact Or.inr ⟨sampledMs, h⟩

/-- The section of a step, up to its promotion pass. An admission is left out: it may queue. -/
theorem prepare_reschedules {σ : g.System} {a : Action} {p : g.Prepared}
    (hqueued : TicketsQueued σ.state) (hknown : QueuesKnown g σ.state)
    (h : Governor.prepare σ a = some p) (hnot : ∀ i, a ≠ .enter i) :
    ∃ start, StartedBy σ a start ∧ Reschedules g start p.sec.state ∧
      (p.sec.promotes = true → p.nowMs = start.commitWatermarkMs) := by
  have hsame : ∀ q : g.Prepared, q.sec.state = σ.state → q.sec.promotes = false →
      ∃ start, StartedBy σ a start ∧ Reschedules g start q.sec.state ∧
        (q.sec.promotes = true → q.nowMs = start.commitWatermarkMs) := by
    intro q hstate hpromotes
    rw [hstate, hpromotes]
    exact ⟨σ.state, Or.inl rfl, Reschedules.refl _, by simp⟩
  cases a with
  | call entry sampledMs =>
    obtain rfl := Option.some.inj h
    refine hsame _ ?_ ?_ <;> unfold Governor.call <;> split <;> rfl
  | allocate i =>
    simp only [Governor.prepare] at h
    split at h
    · rename_i intake sampledMs taken _
      obtain rfl := Option.some.inj h
      refine hsame _ ?_ ?_ <;> unfold Governor.allocate <;> cases taken <;> simp only <;> split <;> rfl
    · simp at h
  | enter i => exact absurd rfl (hnot i)
  | settle i panicked =>
    simp only [Governor.prepare] at h
    split at h
    · rename_i decision effects sampledMs hthread
      have hsample := congrArg (Option.map Thread.sampledMs) hthread
      split at h
      · simp at h
      · obtain rfl := Option.some.inj h
        unfold Governor.settle
        split
        · exact hsame _ rfl rfl
        · exact ⟨_, Or.inr ⟨sampledMs, hsample, rfl⟩, releaseWithProofReason_reschedules _ _ _ _ _, fun _ => rfl⟩
        · exact hsame _ rfl rfl
    · simp at h
  | claim ticket sampledMs =>
    obtain rfl := Option.some.inj h
    exact ⟨_, Or.inr ⟨sampledMs.toNat, rfl, rfl⟩, beginClaim_reschedules _ _, fun hp => by cases hp⟩
  | finishClaim i panicked =>
    simp only [Governor.prepare] at h
    split at h
    · rename_i ticket permit effects sampledMs hthread
      have hsample := congrArg (Option.map Thread.sampledMs) hthread
      split at h
      · simp at h
      · obtain rfl := Option.some.inj h
        unfold Governor.endClaim
        split
        · exact ⟨_, Or.inr ⟨sampledMs, hsample, rfl⟩, compensateClaim_reschedules _ _ _, fun _ => rfl⟩
        · exact ⟨_, Or.inr ⟨sampledMs, hsample, rfl⟩, finishClaim_reschedules _ _, fun _ => rfl⟩
    · simp at h
  | abandon ticket sampledMs =>
    obtain rfl := Option.some.inj h
    exact ⟨_, Or.inr ⟨sampledMs.toNat, rfl, rfl⟩, abandon_reschedules (s := σ.state.commitTime sampledMs.toNat) hqueued hknown ticket,
      fun _ => rfl⟩
  | release permitId sampledMs =>
    obtain rfl := Option.some.inj h
    exact ⟨_, Or.inr ⟨sampledMs.toNat, rfl, rfl⟩, releaseWithProofReason_reschedules _ _ _ _ _, fun _ => rfl⟩
  | releaseLeased token sampledMs =>
    obtain rfl := Option.some.inj h
    exact ⟨_, Or.inr ⟨sampledMs.toNat, rfl, rfl⟩, releaseWithProofReason_reschedules _ _ _ _ _, fun _ => rfl⟩
  | advancePhase permitId phase =>
    obtain rfl := Option.some.inj h
    unfold Governor.advance
    rcases GovernedState.advancePhase_cases σ.state permitId phase σ.leaseNonces with
      ⟨refusal, heq⟩ | ⟨record, found, _, hstate, _⟩
    · rw [heq]
      exact hsame _ rfl rfl
    · refine ⟨σ.state, Or.inl rfl, ?_, fun hp => by cases hp⟩
      simp only [hstate]
      exact advanced_reschedules found phase σ.leaseNonces
  | reconcileMemory permitId measuredBytes epoch sampledMs =>
    obtain rfl := Option.some.inj h
    exact ⟨_, Or.inr ⟨sampledMs.toNat, rfl, rfl⟩, reconcileMemory_reschedules _ _ _ hknown, fun _ => rfl⟩
  | releaseStageMemory permitId freedUnits sequence sampledMs =>
    obtain rfl := Option.some.inj h
    exact ⟨_, Or.inr ⟨sampledMs.toNat, rfl, rfl⟩, releaseStage_reschedules _ _ _, fun _ => rfl⟩
  | reapLeaks staleAfterMs sampledMs =>
    obtain rfl := Option.some.inj h
    exact ⟨_, Or.inr ⟨sampledMs.toNat, rfl, rfl⟩, reclaimAll_reschedules _ _ _ _, fun _ => rfl⟩
  | closeAdmission =>
    obtain rfl := Option.some.inj h
    exact ⟨σ.state, Or.inl rfl, Reschedules.of_frame rfl rfl rfl rfl rfl, fun hp => by cases hp⟩
  | drain i =>
    simp only [Governor.prepare] at h
    split at h
    · rename_i effects sampledMs hthread
      have hsample := congrArg (Option.map Thread.sampledMs) hthread
      obtain rfl := Option.some.inj h
      unfold Governor.drain
      split
      · exact ⟨_, Or.inr ⟨sampledMs, hsample, rfl⟩, Reschedules.refl _, fun _ => rfl⟩
      · exact hsame _ rfl rfl
    · simp at h
  | mintElsewhere =>
    obtain rfl := Option.some.inj h
    exact hsame _ rfl rfl

/-- Any step but an admission moves the schedule without an arrival, from its committed time on. -/
theorem step_reschedules {σ σ' : g.System} {a : Action} {e : Event} (hinv : SysInv σ)
    (h : g.step σ a = some (σ', e)) (hnot : ∀ i, a ≠ .enter i) :
    ∃ start, StartedBy σ a start ∧ Reschedules g start σ'.state := by
  obtain ⟨p, hp, rfl, _⟩ := step_eq_some h
  have hqueued : TicketsQueued σ.state := fun ticket c hticket => hinv.state.tickets.entry_queued hticket
  have hknown : QueuesKnown g σ.state := by
    intro c hne
    obtain ⟨r, hr⟩ := List.exists_mem_of_ne_nil _ hne
    obtain ⟨policy, hfits⟩ := hinv.state.queues.fits c r.untagged
      (List.mem_map_of_mem (f := PendingRequest.untagged) hr)
    exact ⟨policy, hfits.known⟩
  obtain ⟨start, hstart, hsec, hnow⟩ := prepare_reschedules hqueued hknown hp hnot
  refine ⟨start, hstart, ?_⟩
  show Reschedules g start (g.commit p.sec p.nowMs).1
  unfold Governor.commit
  split
  · rename_i hpromotes
    rw [hnow hpromotes, ← hsec.watermark_eq]
    exact hsec.trans (promote_reschedules g p.sec.state)
  · exact hsec

/-- An admission refuses, grants directly or queues, at its committed time. -/
theorem step_arrives {σ σ' : g.System} {i : Nat} {e : Event} (hinv : SysInv σ)
    (h : g.step σ (.enter i) = some (σ', e)) :
    ∃ start, StartedBy σ (.enter i) start ∧
      (σ'.state = start ∨ ∃ event, ScheduleMove g start event σ'.state ∧
        ∃ c, event = .granted c ∨ event = .enqueued c) := by
  obtain ⟨intake, sampledMs, ids, decision, hthread, _, hentered⟩ := hinv.step_entered h
  have hsample := congrArg (Option.map Thread.sampledMs) hthread
  refine ⟨_, Or.inr ⟨sampledMs, hsample, rfl⟩, ?_⟩
  generalize σ.state.commitTime sampledMs = start at hentered
  generalize σ'.state = final at hentered
  cases hentered with
  | refused => exact Or.inl rfl
  | granted accepted runnable =>
    exact Or.inr ⟨_, ScheduleMove.granted accepted.known, _, Or.inl rfl⟩
  | queued accepted blocked sound room =>
    exact Or.inr ⟨_, ScheduleMove.enqueued accepted.known accepted.enabled, _, Or.inr rfl⟩

/-- Committing a clock sample is one move. -/
theorem Started.trace {start : GovernedState} (h : Started s start) :
    ∃ tr, ScheduleTrace g s tr start := by
  rcases h with rfl | ⟨sampledMs, rfl⟩
  · exact ⟨[], Trace.nil _⟩
  · exact ⟨_, Trace.single (ScheduleMove.ticked s sampledMs)⟩

/-- Every step is a trace of the schedule. -/
theorem step_trace {σ σ' : g.System} {a : Action} {e : Event} (hinv : SysInv σ)
    (h : g.step σ a = some (σ', e)) : ∃ tr, ScheduleTrace g σ.state tr σ'.state := by
  by_cases henter : ∃ i, a = .enter i
  · obtain ⟨i, rfl⟩ := henter
    obtain ⟨start, hstart, hsame | ⟨event, hmove, _⟩⟩ := step_arrives hinv h
    · rw [hsame]
      exact hstart.started.trace
    · obtain ⟨tr, htrace⟩ := hstart.started.trace (g := g)
      exact ⟨_, htrace.snoc hmove⟩
  · obtain ⟨start, hstart, tr', htrace', _⟩ := step_reschedules hinv h fun i heq => henter ⟨i, heq⟩
    obtain ⟨tr, htrace⟩ := hstart.started.trace (g := g)
    exact ⟨_, htrace.append htrace'⟩

/-- What every move of the schedule keeps holds in every reachable state. -/
theorem reachable_of_schedule {P : GovernedState → Prop} (hinit : P {})
    (hmove : ∀ s event s', P s → ScheduleMove g s event s' → P s') {σ : g.System}
    (h : g.Reachable σ) : P σ.state := by
  have hboth : SysInv σ ∧ P σ.state := by
    refine Runs.Reachable.invariant (P := fun σ : g.System => SysInv σ ∧ P σ.state) h
      ⟨sysInv_init g, hinit⟩ ?_
    rintro σ a σ' e ⟨hinv, hP⟩ hstep
    obtain ⟨tr, htrace⟩ := step_trace hinv hstep
    exact ⟨hinv.step hstep, htrace.invariant hmove hP⟩
  exact hboth.2

/-- Every reachable state is reached by a trace of the schedule. -/
theorem reachable_trace {σ : g.System} (h : g.Reachable σ) : ∃ tr, ScheduleTrace g {} tr σ.state :=
  reachable_of_schedule (P := fun s => ∃ tr, ScheduleTrace g {} tr s) ⟨[], Trace.nil _⟩
    (fun _ _ _ ⟨_, htrace⟩ hmove => ⟨_, htrace.snoc hmove⟩) h

end Taskmesh
