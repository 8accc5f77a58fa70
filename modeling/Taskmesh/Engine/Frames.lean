import Taskmesh.Engine.System

/-!
# Frames of the governed state

The state is several books kept side by side: the queues, the permit ledger with its totals, the
tickets, and the recursion guard. A transition usually writes one or two of them and the scheduling
tags; these relations say which book a transition leaves alone. Scheduling tags belong to no book.
-/

namespace Taskmesh

open Std

/-- A queued request without its scheduling tags. -/
def PendingRequest.untagged (r : PendingRequest) : PendingRequest :=
  { r with finishTag := 0, wfqArrivalTag := 0 }

namespace PendingRequest

@[simp] theorem untagged_permitId (r : PendingRequest) : r.untagged.permitId = r.permitId := rfl
@[simp] theorem untagged_ticket (r : PendingRequest) : r.untagged.ticket = r.ticket := rfl
@[simp] theorem untagged_seqNo (r : PendingRequest) : r.untagged.seqNo = r.seqNo := rfl
@[simp] theorem untagged_queueOrder (r : PendingRequest) : r.untagged.queueOrder = r.queueOrder := rfl
@[simp] theorem untagged_operation (r : PendingRequest) : r.untagged.operation = r.operation := rfl
@[simp] theorem untagged_rootOperationId (r : PendingRequest) : r.untagged.rootOperationId = r.rootOperationId := rfl
@[simp] theorem untagged_scope (r : PendingRequest) : r.untagged.scope = r.scope := rfl
@[simp] theorem untagged_capabilities (r : PendingRequest) : r.untagged.capabilities = r.capabilities := rfl
@[simp] theorem untagged_waker (r : PendingRequest) : r.untagged.waker = r.waker := rfl

end PendingRequest

namespace ClassState

/-- The queue half of a class: who waits, in which order, and the arrival index. -/
def queueHalf (c : ClassState) : ClassState where
  queue := c.queue.map PendingRequest.untagged
  queuedByCapability := c.queuedByCapability
  queuedUngated := c.queuedUngated
  queuedAwaitedChildren := c.queuedAwaitedChildren

/-- The ledger half of a class: its gauges and counters. -/
def ledgerHalf (c : ClassState) : ClassState where
  inflight := c.inflight
  cpuUnitsHeld := c.cpuUnitsHeld
  memoryUnitsHeld := c.memoryUnitsHeld
  dispatchReserved := c.dispatchReserved
  accepted := c.accepted
  running := c.running
  cleanupPending := c.cleanupPending
  admittedTotal := c.admittedTotal
  startedTotal := c.startedTotal
  terminatedTotal := c.terminatedTotal

end ClassState

namespace GovernedState

/-- The requests waiting in a class, oldest first, without scheduling tags. -/
def waiting (s : GovernedState) (c : TaskClass) : List PendingRequest := (s.cls c).queueHalf.queue

/-- The queues and their indexes are the same. -/
structure SameQueues (s s' : GovernedState) : Prop where
  classes : ∀ c, (s'.cls c).queueHalf = (s.cls c).queueHalf
  order : s'.nextQueueOrder = s.nextQueueOrder
  identities : s'.queuedOperationIdentities = s.queuedOperationIdentities

/-- The permits and every total over them are the same. -/
structure SameLedger (s s' : GovernedState) : Prop where
  classes : ∀ c, (s'.cls c).ledgerHalf = (s.cls c).ledgerHalf
  permits : s'.permits = s.permits
  cpu : s'.cpuUnitsHeld = s.cpuUnitsHeld
  memory : s'.memoryUnitsHeld = s.memoryUnitsHeld
  pools : s'.capabilityInUse = s.capabilityInUse
  roots : s'.roots = s.roots
  operations : s'.operationPermits = s.operationPermits

/-- The flags are the same: the accounting fault, the closed gate, the owed continuation. -/
structure SameFlags (s s' : GovernedState) : Prop where
  fault : s'.accountingFault = s.accountingFault
  closed : s'.admissionClosed = s.admissionClosed
  pending : s'.promotionPending = s.promotionPending

/-- Only scheduling data and the commit watermark moved. -/
structure Rescheduled (s s' : GovernedState) : Prop where
  queues : SameQueues s s'
  ledger : SameLedger s s'
  tickets : s'.book = s.book
  guards : s'.activeRecursion = s.activeRecursion
  flags : SameFlags s s'

variable {s s' s'' : GovernedState}

theorem SameQueues.refl (s : GovernedState) : SameQueues s s := ⟨fun _ => rfl, rfl, rfl⟩

theorem SameQueues.trans (h : SameQueues s s') (h' : SameQueues s' s'') : SameQueues s s'' :=
  ⟨fun c => (h'.classes c).trans (h.classes c), h'.order.trans h.order, h'.identities.trans h.identities⟩

theorem SameLedger.refl (s : GovernedState) : SameLedger s s :=
  ⟨fun _ => rfl, rfl, rfl, rfl, rfl, rfl, rfl⟩

theorem SameLedger.trans (h : SameLedger s s') (h' : SameLedger s' s'') : SameLedger s s'' :=
  ⟨fun c => (h'.classes c).trans (h.classes c), h'.permits.trans h.permits, h'.cpu.trans h.cpu,
    h'.memory.trans h.memory, h'.pools.trans h.pools, h'.roots.trans h.roots,
    h'.operations.trans h.operations⟩

theorem SameFlags.refl (s : GovernedState) : SameFlags s s := ⟨rfl, rfl, rfl⟩

theorem SameFlags.trans (h : SameFlags s s') (h' : SameFlags s' s'') : SameFlags s s'' :=
  ⟨h'.fault.trans h.fault, h'.closed.trans h.closed, h'.pending.trans h.pending⟩

theorem Rescheduled.refl (s : GovernedState) : Rescheduled s s :=
  ⟨SameQueues.refl s, SameLedger.refl s, rfl, rfl, SameFlags.refl s⟩

theorem Rescheduled.trans (h : Rescheduled s s') (h' : Rescheduled s' s'') : Rescheduled s s'' :=
  ⟨h.queues.trans h'.queues, h.ledger.trans h'.ledger, h'.tickets.trans h.tickets,
    h'.guards.trans h.guards, h.flags.trans h'.flags⟩

/-! ## What the frames give -/

theorem SameQueues.waiting_eq (h : SameQueues s s') (c : TaskClass) : s'.waiting c = s.waiting c := by
  rw [waiting, waiting, h.classes c]

theorem SameQueues.queued_eq (h : SameQueues s s') (c : TaskClass) : s'.queued c = s.queued c := by
  have hlen : (s'.cls c).queue.length = (s.cls c).queue.length := by
    have := congrArg (fun cs => cs.queue.length) (h.classes c)
    simpa [ClassState.queueHalf] using this
  simp [queued, ClassState.queued, hlen]

theorem SameLedger.inflight_eq (h : SameLedger s s') (c : TaskClass) : s'.inflight c = s.inflight c := by
  show (s'.cls c).ledgerHalf.inflight = (s.cls c).ledgerHalf.inflight
  rw [h.classes c]

theorem SameLedger.inUse_eq (h : SameLedger s s') (id : CapabilityId) : s'.inUse id = s.inUse id := by
  rw [inUse, inUse, h.pools]

/-! ## Updates of a class that touch only one half -/

theorem rescheduled_modifyClass {f : ClassState → ClassState} (c : TaskClass)
    (hf : (f (s.cls c)).queueHalf = (s.cls c).queueHalf ∧
      (f (s.cls c)).ledgerHalf = (s.cls c).ledgerHalf) : Rescheduled s (s.modifyClass c f) := by
  refine ⟨⟨fun c' => ?_, rfl, rfl⟩, ⟨fun c' => ?_, rfl, rfl, rfl, rfl, rfl, rfl⟩, rfl, rfl, ⟨rfl, rfl, rfl⟩⟩
  · rw [cls_modifyClass]
    split
    · rename_i h; subst h; exact hf.1
    · rfl
  · rw [cls_modifyClass]
    split
    · rename_i h; subst h; exact hf.2
    · rfl

end GovernedState

end Taskmesh
