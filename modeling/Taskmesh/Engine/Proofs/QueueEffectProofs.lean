import Taskmesh.Engine.Proofs.SystemProofs

/-!
# What a move does to the queues

A move leaves the queues alone, pushes one request at the back of a queue, or removes one request
from a queue; the arrival index follows. From this every invariant of the queues is a case split
over three cases.
-/

namespace Taskmesh

open Std MachineInt SetIndex QueueFamily

namespace ClassState

theorem queueHalf_pushed (c : ClassState) (r : PendingRequest) :
    (c.pushed r).queueHalf = c.queueHalf.pushed r.untagged := by
  by_cases hawaited : r.scope.isAwaitedChild = true <;>
    by_cases hempty : r.capabilities.isEmpty = true <;>
    simp [pushed, indexPending, queueHalf, hawaited, hempty]

theorem queueHalf_dropped (c : ClassState) (index : Nat) (r : PendingRequest) :
    (c.dropped index r).queueHalf = c.queueHalf.dropped index r.untagged := by
  by_cases hawaited : r.scope.isAwaitedChild = true <;>
    by_cases hempty : r.capabilities.isEmpty = true <;>
    simp [dropped, unindexPending, queueHalf, hawaited, hempty, List.eraseIdx_map]

end ClassState

/-- The entry a queued request becomes. -/
def queuedEntry (s : GovernedState) (policy : ClassPolicy) (c : TaskClass) (request : AdmissionRequest)
    (waker : Option Waker) (ids : Ids) (nowMs : Nat) (blockedOn : CapacityBlock)
    (tags : Nat × Nat × Nat) : PendingRequest :=
  (s.arrived (pendingRequest s policy c request waker ids nowMs blockedOn tags)).untagged

/-- What a move does to the queues. -/
inductive QueueEffect (g : Governor) (s s' : GovernedState) : Prop
  | same (h : s.SameQueues s')
  | pushed {policy : ClassPolicy} {c : TaskClass} {request : AdmissionRequest} {ids : Ids}
      {blockers : BlockerSet} (waker : Option Waker) (nowMs : Nat) (tags : Nat × Nat × Nat)
      (accepted : Accepted g s policy c request ids)
      (blocked : assessIntake s g.policy policy c request = .reversiblyBlocked blockers)
      (sound : blockers.accountingFault = false) (room : s.queued c < policy.maxQueueDepth.toNat)
      (order : s'.nextQueueOrder = s.nextQueueOrder + 1)
      (classes : ∀ c', (s'.cls c').queueHalf =
        if c = c' then
          (s.cls c').queueHalf.pushed
            (queuedEntry s policy c request waker ids nowMs blockers.primary tags)
        else (s.cls c').queueHalf)
  | removed {c : TaskClass} {index : Nat} {r : PendingRequest} (found : (s.waiting c)[index]? = some r)
      (order : s'.nextQueueOrder = s.nextQueueOrder)
      (classes : ∀ c', (s'.cls c').queueHalf =
        if c = c' then (s.cls c').queueHalf.dropped index r else (s.cls c').queueHalf)

variable {g : Governor} {caller : Caller} {s s' s'' : GovernedState}

theorem QueueEffect.then_same (h : QueueEffect g s s') (h' : s'.SameQueues s'') : QueueEffect g s s'' := by
  cases h with
  | same hsame => exact .same (hsame.trans h')
  | pushed waker nowMs tags accepted blocked sound room order classes =>
    exact .pushed waker nowMs tags accepted blocked sound room (h'.order.trans order)
      fun c' => (h'.classes c').trans (classes c')
  | removed found order classes =>
    exact .removed found (h'.order.trans order) fun c' => (h'.classes c').trans (classes c')

theorem queueEffect_removedPending {chosen : GovernedState} (hchosen : s.SameQueues chosen)
    {c : TaskClass} {index : Nat} {r : PendingRequest}
    (hr : (chosen.cls c).queue[index]? = some r) :
    QueueEffect g s (chosen.removedPending c index r) := by
  have hfound : (chosen.waiting c)[index]? = some r.untagged := by
    simp [GovernedState.waiting, ClassState.queueHalf, hr]
  rw [hchosen.waiting_eq c] at hfound
  refine .removed hfound hchosen.order fun c' => ?_
  · rw [GovernedState.cls_removedPending]
    split
    · rename_i h
      subst h
      rw [ClassState.queueHalf_dropped, hchosen.classes c]
    · exact hchosen.classes c'

theorem sameQueues_vacateOf (s : GovernedState) (r : PendingRequest) : s.SameQueues (s.vacateOf r) := by
  unfold GovernedState.vacateOf
  split
  · exact ⟨fun _ => rfl, rfl, rfl⟩
  · exact GovernedState.SameQueues.refl s

theorem sameQueues_unwind {p : PermitId} {reason : TerminalReason} {effects effects' : TransitionEffects}
    (h : s.unwind p reason effects = some (s', effects')) : s.SameQueues s' := by
  unfold GovernedState.unwind at h
  split at h
  · simp at h
  · simp only at h
    have hdischarge := GovernedState.sameQueues_discharge s p
    split at h
    · simp only [Option.some.injEq, Prod.mk.injEq] at h
      rw [← h.1]
      exact (hdischarge _).trans ⟨fun _ => rfl, rfl, rfl⟩
    · simp only [Option.some.injEq, Prod.mk.injEq] at h
      rw [← h.1]
      exact hdischarge _

theorem sameQueues_detachTicket (s : GovernedState) (p : PermitId) (ticket : Ticket) :
    s.SameQueues (Governor.detachTicket s p ticket) := by
  unfold Governor.detachTicket
  split <;> exact ⟨fun _ => rfl, rfl, rfl⟩

theorem sameQueues_recordAccountingFault (s : GovernedState) (what : String) :
    s.SameQueues (s.recordAccountingFault what) := by
  unfold GovernedState.recordAccountingFault
  split
  · exact ⟨fun _ => rfl, rfl, rfl⟩
  · exact GovernedState.SameQueues.refl s

theorem sameQueues_adjustMemory (s : GovernedState) (c : TaskClass) (root : Option String)
    (f : Nat → Nat) : s.SameQueues (s.adjustMemory c root f) := by
  have h := GovernedState.sameQueues_modify (s := s) (c := c)
    (f := fun cs => { cs with memoryUnitsHeld := f cs.memoryUnitsHeld }) fun _ => rfl
  exact ⟨h.classes, rfl, rfl⟩

theorem sameQueues_applyMemoryDelta (s : GovernedState) (c : TaskClass) (root : Option String)
    (delta : Int) : s.SameQueues (s.applyMemoryDelta c root delta) := by
  unfold GovernedState.applyMemoryDelta
  split
  · exact sameQueues_adjustMemory s c root _
  · simp only
    split
    · exact (sameQueues_adjustMemory s c root _).trans (sameQueues_recordAccountingFault _ _)
    · exact sameQueues_adjustMemory s c root _

theorem sameQueues_rechargePermit (s : GovernedState) (p : PermitId) (record : PermitRecord)
    (ledger : PermitLedger) : s.SameQueues (s.rechargePermit p record ledger) := by
  unfold GovernedState.rechargePermit
  refine GovernedState.SameQueues.trans ?_ (sameQueues_applyMemoryDelta _ _ _ _)
  exact ⟨fun _ => rfl, rfl, rfl⟩

theorem sameQueues_terminalizeCycle (g : Governor) (s : GovernedState) (c : TaskClass)
    (r : PendingRequest) (held : HeldCapacity) : s.SameQueues (g.terminalizeCycle s c r held) :=
  (rescheduled_unserved g s c).queues.trans ⟨fun _ => rfl, rfl, rfl⟩

/-- A promotion removes the promoted request from its queue. -/
theorem Promotes.queueEffect {nowMs : Nat} {grant : GrantRequest} {c : TaskClass} {policy : ClassPolicy}
    {index : Nat} {r head : PendingRequest} {chosen served : GovernedState}
    (h : Promotes g nowMs s s' grant c policy index r head chosen served) : QueueEffect g s s' := by
  rw [h.result]
  refine QueueEffect.then_same (queueEffect_removedPending h.chose.queues h.found) ?_
  refine h.serves.queues.trans ?_
  refine GovernedState.SameQueues.trans ?_ (GovernedState.sameQueues_grant _ _)
  exact ⟨fun _ => rfl, rfl, rfl⟩

/-- What each move does to the queues. -/
theorem Move.queueEffect {trend : Trend} (h : Move g caller trend s s') : QueueEffect g s s' := by
  cases h with
  | rescheduled h => exact .same h.queues
  | flagged _ pending => exact .same ⟨fun _ => rfl, rfl, rfl⟩
  | closed => exact .same ⟨fun _ => rfl, rfl, rfl⟩
  | faulted _ what allowed => exact .same (sameQueues_recordAccountingFault s what)
  | admitted nowMs allowed accepted runnable => exact .same (GovernedState.sameQueues_grant _ _)
  | @enqueued _ tagged policy c request ids blockers waker nowMs tags allowed accepted blocked room hres sound =>
    refine .pushed waker nowMs tags accepted blocked sound room ?_ fun c' => ?_
    · have horder : (tagged.commitPending
          (pendingRequest s policy c request waker ids nowMs blockers.primary tags)).nextQueueOrder =
            tagged.nextQueueOrder + 1 := by
        unfold GovernedState.commitPending
        simp only
        split <;> rfl
      rw [horder, hres.queues.order]
    · have hcls : (tagged.commitPending
          (pendingRequest s policy c request waker ids nowMs blockers.primary tags)).cls c' =
            (tagged.enqueue
              (pendingRequest s policy c request waker ids nowMs blockers.primary tags)).cls c' := by
        unfold GovernedState.commitPending
        simp only
        split <;> rfl
      rw [hcls, GovernedState.cls_enqueue]
      have hclass : (pendingRequest s policy c request waker ids nowMs blockers.primary tags).taskClass = c :=
        rfl
      rw [hclass]
      split
      · rw [ClassState.queueHalf_pushed, hres.queues.classes c']
        have harrived : (tagged.arrived
            (pendingRequest s policy c request waker ids nowMs blockers.primary tags)) =
              s.arrived (pendingRequest s policy c request waker ids nowMs blockers.primary tags) := by
          unfold GovernedState.arrived
          rw [hres.queues.order]
        rw [harrived]
        rfl
      · exact hres.queues.classes c'
  | promoted nowMs h =>
    obtain ⟨c, policy, index, r, head, chosen, served, hpromotes⟩ := promoteStep_some h
    exact hpromotes.queueEffect
  | cycled h found first =>
    exact (queueEffect_removedPending (GovernedState.SameQueues.refl s) found).then_same
      (sameQueues_terminalizeCycle g _ _ _ _)
  | cancelled h found same owner =>
    refine (queueEffect_removedPending (GovernedState.SameQueues.refl s) found).then_same ?_
    refine GovernedState.SameQueues.trans ?_ (sameQueues_vacateOf _ _)
    exact ⟨fun _ => rfl, rfl, rfl⟩
  | lost h missing owner => exact .same ⟨fun _ => rfl, rfl, rfl⟩
  | faultedHead found =>
    refine (queueEffect_removedPending (GovernedState.SameQueues.refl s) found).then_same ?_
    exact (sameQueues_vacateOf _ _).trans ⟨fun _ => rfl, rfl, rfl⟩
  | unwound found ends h => exact .same (sameQueues_unwind h)
  | claimBegun nowMs h found owner => exact .same ⟨fun _ => rfl, rfl, rfl⟩
  | transferred nowMs h found owner => exact .same ⟨fun _ => rfl, rfl, rfl⟩
  | detached h found leased => exact .same (sameQueues_detachTicket s _ _)
  | expired h gone => exact .same ⟨fun _ => rfl, rfl, rfl⟩
  | orphaned h gone owner => exact .same ⟨fun _ => rfl, rfl, rfl⟩
  | forgot _ ticket owner => exact .same ⟨fun _ => rfl, rfl, rfl⟩
  | advanced nonces found later => exact .same (GovernedState.sameQueues_advancedTo s _ _ _ _)
  | recharged allowed found change => exact .same (sameQueues_rechargePermit s _ _ _)

/-! ## The queues as a family -/

theorem waiting_pushed {c : TaskClass} {r : PendingRequest}
    (classes : ∀ c', (s'.cls c').queueHalf =
      if c = c' then (s.cls c').queueHalf.pushed r else (s.cls c').queueHalf) :
    Pushed s.waiting s'.waiting c r := by
  constructor
  · simp [GovernedState.waiting, classes, ClassState.pushed]
  · intro c' hc
    simp [GovernedState.waiting, classes, Ne.symm hc]

theorem waiting_removed {c : TaskClass} {index : Nat} {r : PendingRequest}
    (found : (s.waiting c)[index]? = some r)
    (classes : ∀ c', (s'.cls c').queueHalf =
      if c = c' then (s.cls c').queueHalf.dropped index r else (s.cls c').queueHalf) :
    Removed s.waiting s'.waiting c index r := by
  constructor
  · exact found
  · simp [GovernedState.waiting, classes, ClassState.dropped]
  · intro c' hc
    simp [GovernedState.waiting, classes, Ne.symm hc]

end Taskmesh
