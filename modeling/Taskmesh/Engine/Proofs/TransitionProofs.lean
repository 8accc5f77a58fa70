import Taskmesh.Engine.Proofs.QueueProofs
import Taskmesh.Engine.Proofs.SchedulerProofs

/-!
# What each transition writes

For every transition of the governed state: the class it updates, and the books it leaves alone.
-/

namespace Taskmesh

open Std MachineInt SetIndex QueueFamily

namespace ClassState

theorem ledgerHalf_pushed (c : ClassState) (r : PendingRequest) :
    (c.pushed r).ledgerHalf = c.ledgerHalf := by
  unfold pushed indexPending
  split <;> split <;> rfl

theorem ledgerHalf_dropped (c : ClassState) (index : Nat) (r : PendingRequest) :
    (c.dropped index r).ledgerHalf = c.ledgerHalf := by
  unfold dropped unindexPending
  split <;> split <;> rfl

theorem queueHalf_setPhaseSlot (c : ClassState) (phase : ExecutionPhase) (value : Nat) :
    (c.setPhaseSlot phase value).queueHalf = c.queueHalf := by
  cases phase <;> rfl

theorem queueHalf_enterPhase (c : ClassState) (phase : ExecutionPhase) :
    (c.enterPhase phase).queueHalf = c.queueHalf := queueHalf_setPhaseSlot _ _ _

theorem queueHalf_leavePhase (c : ClassState) (phase : ExecutionPhase) :
    (c.leavePhase phase).queueHalf = c.queueHalf := queueHalf_setPhaseSlot _ _ _

end ClassState

namespace GovernedState

/-- A state built by writing one class reads back as that class, and the rest as before. -/
theorem cls_insert (s : GovernedState) (c c' : TaskClass) (cs : ClassState) :
    cls { s with classes := s.classes.insert c cs } c' = if c = c' then cs else s.cls c' := by
  simp only [cls, ExtTreeMap.getElem?_insert]
  by_cases h : c = c'
  · simp [h]
  · simp [h]

theorem cls_of_classes_eq {s s' : GovernedState} (h : s'.classes = s.classes) (c : TaskClass) :
    s'.cls c = s.cls c := by
  rw [cls, cls, h]

/-! ## Queueing -/

/-- The request as the queue stores it: its arrival is assigned under the lock. -/
def arrived (s : GovernedState) (r : PendingRequest) : PendingRequest :=
  { r with queueOrder := s.nextQueueOrder + 1 }

theorem cls_enqueue (s : GovernedState) (r : PendingRequest) (c : TaskClass) :
    (s.enqueue r).cls c = if r.taskClass = c then (s.cls c).pushed (s.arrived r) else s.cls c := by
  have h := cls_insert s r.taskClass c ((s.cls r.taskClass).pushed (s.arrived r))
  by_cases hc : r.taskClass = c
  · subst hc
    rw [if_pos rfl] at h ⊢
    exact h
  · rw [if_neg hc] at h ⊢
    exact h

/-- Enqueueing charges nobody. -/
theorem sameLedger_enqueue (s : GovernedState) (r : PendingRequest) : SameLedger s (s.enqueue r) := by
  refine ⟨fun c => ?_, rfl, rfl, rfl, rfl, rfl, rfl⟩
  rw [cls_enqueue]
  split
  · exact ClassState.ledgerHalf_pushed _ _
  · rfl

/-- Seen as a queue family, `enqueue` is a push at the end of the request's own class. -/
theorem pushed_enqueue (s : GovernedState) (r : PendingRequest) :
    Pushed s.waiting (s.enqueue r).waiting r.taskClass (s.arrived r).untagged := by
  constructor
  · simp [waiting, cls_enqueue, ClassState.queueHalf, ClassState.pushed]
  · intro c hc
    simp [waiting, cls_enqueue, Ne.symm hc]

/-! ## Taking a request out of its queue -/

/-- The state after the request at a position left its queue. -/
def removedPending (s : GovernedState) (c : TaskClass) (index : Nat) (r : PendingRequest) :
    GovernedState :=
  { s with
    classes := s.classes.insert c ((s.cls c).dropped index r)
    queuedOperationIdentities := removeMember s.queuedOperationIdentities r.rootOperationId r.operation }

/-- A removal that succeeds took the request at that index and is `removedPending`. -/
theorem removePending_spec {s s' : GovernedState} {c : TaskClass} {index : Nat} {r : PendingRequest}
    (h : s.removePending c index = some (s', r)) :
    (s.cls c).queue[index]? = some r ∧ s' = s.removedPending c index r := by
  unfold removePending at h
  split at h
  · simp at h
  · rename_i cs hcs
    have hcls : s.cls c = cs := by simp [cls, hcs]
    split at h
    · simp at h
    · rename_i r' hr'
      simp only [Option.some.injEq, Prod.mk.injEq] at h
      obtain ⟨rfl, rfl⟩ := h
      rw [hcls]
      refine ⟨hr', ?_⟩
      rw [removedPending, hcls]
      rfl

theorem removePending_of_getElem {s : GovernedState} {c : TaskClass} {index : Nat}
    {r : PendingRequest} (h : (s.cls c).queue[index]? = some r) :
    s.removePending c index = some (s.removedPending c index r, r) := by
  unfold removePending
  cases hcs : s.classes[c]? with
  | none => simp [cls, hcs, default] at h
  | some cs =>
    have hcls : s.cls c = cs := by simp [cls, hcs]
    rw [hcls] at h
    simp only [h, removedPending, hcls]
    rfl

theorem cls_removedPending (s : GovernedState) (c c' : TaskClass) (index : Nat) (r : PendingRequest) :
    (s.removedPending c index r).cls c' =
      if c = c' then (s.cls c).dropped index r else s.cls c' := by
  have h := cls_insert s c c' ((s.cls c).dropped index r)
  exact h

/-- Removing a queued request charges and frees nobody. -/
theorem sameLedger_removedPending (s : GovernedState) (c : TaskClass) (index : Nat)
    (r : PendingRequest) : SameLedger s (s.removedPending c index r) := by
  refine ⟨fun c' => ?_, rfl, rfl, rfl, rfl, rfl, rfl⟩
  rw [cls_removedPending]
  split
  · rename_i h
    subst h
    exact ClassState.ledgerHalf_dropped _ _ _
  · rfl

/-- Seen as a queue family, a removal takes exactly the request at the index. -/
theorem removed_removedPending {s : GovernedState} {c : TaskClass} {index : Nat} {r : PendingRequest}
    (h : (s.cls c).queue[index]? = some r) :
    Removed s.waiting (s.removedPending c index r).waiting c index r.untagged := by
  constructor
  · simp [waiting, ClassState.queueHalf, h]
  · simp [waiting, cls_removedPending, ClassState.queueHalf, ClassState.dropped,
      List.eraseIdx_map]
  · intro c' hc
    simp [waiting, cls_removedPending, Ne.symm hc]

/-! ## Granting -/

/-- A grant charges the class of the request and no other. -/
theorem cls_grant (s : GovernedState) (r : GrantRequest) (c : TaskClass) :
    (s.grant r).cls c = if r.taskClass = c then chargeClass r.cost (s.cls c) else s.cls c := by
  have h := cls_insert s r.taskClass c (chargeClass r.cost (s.cls r.taskClass))
  by_cases hc : r.taskClass = c
  · subst hc
    rw [if_pos rfl] at h ⊢
    exact h
  · rw [if_neg hc] at h ⊢
    exact h

theorem queueHalf_chargeClass (cost : ResolvedCost) (c : ClassState) :
    (chargeClass cost c).queueHalf = c.queueHalf := ClassState.queueHalf_enterPhase _ _

/-- A grant leaves every queue as it was. -/
theorem sameQueues_grant (s : GovernedState) (r : GrantRequest) : SameQueues s (s.grant r) := by
  refine ⟨fun c => ?_, rfl, rfl⟩
  rw [cls_grant]
  split
  · exact queueHalf_chargeClass _ _
  · rfl

/-! ## Unwinding -/

/-- A discharge credits the class of the record, where it is still known, and no other. -/
theorem cls_discharge (s : GovernedState) (p : PermitId) (record : PermitRecord) (c : TaskClass) :
    (s.discharge p record).cls c =
      if record.taskClass = c ∧ s.classes[c]? ≠ none then dischargeClass record (s.cls c)
      else s.cls c := by
  simp only [cls, discharge, ExtTreeMap.getElem?_modify]
  by_cases hc : record.taskClass = c
  · subst hc
    cases hcs : s.classes[record.taskClass]? with
    | none => simp
    | some cs => simp
  · simp [hc]

theorem queueHalf_dischargeClass (record : PermitRecord) (c : ClassState) :
    (dischargeClass record c).queueHalf = c.queueHalf := by
  unfold dischargeClass
  exact ClassState.queueHalf_leavePhase _ _

/-- A discharge leaves every queue as it was. -/
theorem sameQueues_discharge (s : GovernedState) (p : PermitId) (record : PermitRecord) :
    SameQueues s (s.discharge p record) := by
  refine ⟨fun c => ?_, rfl, rfl⟩
  rw [cls_discharge]
  split
  · exact queueHalf_dischargeClass _ _
  · rfl

/-! ## Phase advance and memory -/

theorem queueHalf_advanceClass (previous phase : ExecutionPhase) (c : ClassState) :
    (advanceClass previous phase c).queueHalf = c.queueHalf := by
  unfold advanceClass
  split
  · exact (ClassState.queueHalf_enterPhase _ _).trans (ClassState.queueHalf_leavePhase _ _)
  · exact (ClassState.queueHalf_enterPhase _ _).trans (ClassState.queueHalf_leavePhase _ _)

/-- The state after a permit's phase advanced. -/
def advancedTo (s : GovernedState) (p : PermitId) (record : PermitRecord) (phase : ExecutionPhase)
    (nonces : Nat) : GovernedState :=
  { s with
    permits :=
      s.permits.insert p { record with phase := phase, leaseNonce := some (record.leaseNonce.getD nonces) }
    classes :=
      s.classes.insert record.taskClass (advanceClass record.phase phase (s.cls record.taskClass)) }

/-- A phase change moves one count inside the class of the record. -/
theorem cls_advancedTo (s : GovernedState) (p : PermitId) (record : PermitRecord)
    (phase : ExecutionPhase) (nonces : Nat) (c : TaskClass) :
    (s.advancedTo p record phase nonces).cls c =
      if record.taskClass = c then advanceClass record.phase phase (s.cls c) else s.cls c := by
  have h := cls_insert s record.taskClass c
    (advanceClass record.phase phase (s.cls record.taskClass))
  by_cases hc : record.taskClass = c
  · subst hc
    rw [if_pos rfl] at h ⊢
    exact h
  · rw [if_neg hc] at h ⊢
    exact h

/-- A phase change leaves every queue as it was. -/
theorem sameQueues_advancedTo (s : GovernedState) (p : PermitId) (record : PermitRecord)
    (phase : ExecutionPhase) (nonces : Nat) : SameQueues s (s.advancedTo p record phase nonces) := by
  refine ⟨fun c => ?_, rfl, rfl⟩
  rw [cls_advancedTo]
  split
  · exact queueHalf_advanceClass _ _ _
  · rfl

/-- An advance is refused and changes nothing, or moves the permit to the later phase. -/
theorem advancePhase_cases (s : GovernedState) (p : PermitId) (phase : ExecutionPhase) (nonces : Nat) :
    (∃ refusal, s.advancePhase p phase nonces = (s, .refused refusal, nonces)) ∨
      ∃ record, s.permits[p]? = some record ∧ record.phase.rank < phase.rank ∧
        (s.advancePhase p phase nonces).1 = s.advancedTo p record phase nonces ∧
        (s.advancePhase p phase nonces).2 =
          if record.leaseNonce.isNone then (.leased ⟨p, nonces⟩, wrappingAdd u64Max nonces 1)
          else (.advanced, nonces) := by
  unfold advancePhase
  cases hp : s.permits[p]? with
  | none => exact Or.inl ⟨_, rfl⟩
  | some record =>
    simp only
    by_cases hrank : phase.rank ≤ record.phase.rank
    · rw [if_pos hrank]
      exact Or.inl ⟨_, rfl⟩
    · rw [if_neg hrank]
      refine Or.inr ⟨record, rfl, by omega, ?_, ?_⟩
      · split <;> rfl
      · split <;> rfl

theorem cls_modify (s : GovernedState) (c c' : TaskClass) (f : ClassState → ClassState) :
    cls { s with classes := s.classes.modify c f } c' =
      if c = c' ∧ s.classes[c']? ≠ none then f (s.cls c') else s.cls c' := by
  simp only [cls, ExtTreeMap.getElem?_modify]
  by_cases hc : c = c'
  · subst hc
    cases hcs : s.classes[c]? with
    | none => simp
    | some cs => simp
  · simp [hc]

theorem sameQueues_modify {s : GovernedState} {c : TaskClass} {f : ClassState → ClassState}
    (hf : ∀ cs, (f cs).queueHalf = cs.queueHalf) :
    SameQueues s { s with classes := s.classes.modify c f } := by
  refine ⟨fun c' => ?_, rfl, rfl⟩
  rw [cls_modify]
  split
  · exact hf _
  · rfl

end GovernedState

end Taskmesh
