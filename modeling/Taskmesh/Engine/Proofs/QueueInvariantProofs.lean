import Taskmesh.Engine.Proofs.QueueEffectProofs

/-!
# The invariant of the queues

Every waiting request was accepted under the policy of the class it waits in, within the class's
depth; identities are unique over all queues; and the arrival index of every class is exact.
-/

namespace Taskmesh

open Std MachineInt SetIndex QueueFamily

/-- A waiting request fits the policy of the class whose queue it is in. -/
structure FitsPolicy (g : Governor) (c : TaskClass) (r : PendingRequest) (policy : ClassPolicy) : Prop where
  known : g.policy.classPolicy c = some policy
  enabled : policy.isDisabled = false
  taskClass : r.taskClass = c
  cost : r.cost = resolveCost policy
  registered : RegisteredWith g.policy r.capabilities

structure QueueInv (g : Governor) (s : GovernedState) : Prop where
  indexed : ∀ c, (s.cls c).queueHalf.Indexed s.nextQueueOrder
  fits : ∀ c r, r ∈ s.waiting c → ∃ policy, FitsPolicy g c r policy
  depth : ∀ c policy, g.policy.classPolicy c = some policy →
    (s.waiting c).length ≤ policy.maxQueueDepth.toNat
  permitIds : UniqueBy PendingRequest.permitId s.waiting
  tickets : UniqueBy PendingRequest.ticket s.waiting

variable {g : Governor} {caller : Caller} {s s' : GovernedState}

theorem waiting_init (c : TaskClass) : GovernedState.waiting {} c = [] := by
  simp [GovernedState.waiting, GovernedState.cls, ClassState.queueHalf, default]

theorem queueInv_init (g : Governor) : QueueInv g {} := by
  have hcls : ∀ c, (GovernedState.cls {} c).queueHalf = {} := by
    intro c
    simp [GovernedState.cls, ClassState.queueHalf, default]
  refine ⟨fun c => ?_, fun c r hr => ?_, fun c policy _ => ?_, ⟨fun c => ?_, fun c c' r r' hr => ?_⟩,
    ⟨fun c => ?_, fun c c' r r' hr => ?_⟩⟩
  · rw [hcls]
    refine ⟨List.Pairwise.nil, by simp, by simp, ?_, ?_, by simp, by simp⟩
    · intro id n
      simp [Registered]
    · intro id
      simp
  · simp [waiting_init] at hr
  · simp [waiting_init]
  · simp [waiting_init]
  · simp [waiting_init] at hr
  · simp [waiting_init]
  · simp [waiting_init] at hr

theorem queued_eq_length (s : GovernedState) (c : TaskClass) :
    s.queued c = min (s.waiting c).length u32Max := by
  simp [GovernedState.queued, ClassState.queued, GovernedState.waiting, ClassState.queueHalf]

theorem maxQueueDepth_le (policy : ClassPolicy) : policy.maxQueueDepth.toNat ≤ u32Max := by
  have := policy.maxQueueDepth.toNat_lt
  simp only [u32Max]
  omega

/-- The queues keep their invariant under every effect a move can have on them. -/
theorem QueueEffect.queueInv (h : QueueEffect g s s') (hinv : QueueInv g s) : QueueInv g s' := by
  cases h with
  | same h =>
    have hw : s'.waiting = s.waiting := funext fun c => h.waiting_eq c
    refine ⟨fun c => ?_, ?_, ?_, ?_, ?_⟩
    · rw [h.classes c, h.order]
      exact hinv.indexed c
    · rw [hw]; exact hinv.fits
    · rw [hw]; exact hinv.depth
    · rw [hw]; exact hinv.permitIds
    · rw [hw]; exact hinv.tickets
  | @pushed policy c request ids blockers waker nowMs tags accepted blocked sound room order classes =>
    have hpushed := waiting_pushed classes
    refine ⟨fun c' => ?_, fun c' r hr => ?_, fun c' policy' hpolicy' => ?_, ?_, ?_⟩
    · rw [classes c', order]
      split
      · refine (hinv.indexed c').pushed rfl fun r hr => ?_
        exact (accepted.fresh.waiting c' r hr).2.2
      · have hc' := hinv.indexed c'
        exact ⟨hc'.sorted, fun r hr => Nat.le_succ_of_le (hc'.bounded r hr), hc'.ungated, hc'.gated,
          hc'.noEmpty, hc'.awaited, hc'.seqNos⟩
    · rcases hpushed.mem_iff.mp hr with hr | ⟨rfl, rfl⟩
      · exact hinv.fits c' r hr
      · exact ⟨policy, accepted.known, accepted.enabled, rfl, rfl, accepted.registered⟩
    · by_cases hc : c' = c
      · subst hc
        obtain rfl : policy = policy' := by
          have := accepted.known.symm.trans hpolicy'
          simpa using this
        rw [hpushed.back, List.length_append, List.length_singleton]
        have hdepth := maxQueueDepth_le policy
        rw [queued_eq_length] at room
        omega
      · rw [hpushed.other c' hc]
        exact hinv.depth c' policy' hpolicy'
    · exact hinv.permitIds.pushed hpushed fun c' r hr => (accepted.fresh.waiting c' r hr).1
    · exact hinv.tickets.pushed hpushed fun c' r hr => (accepted.fresh.waiting c' r hr).2.1
  | @removed c index r found order classes =>
    have hremoved := waiting_removed found classes
    refine ⟨fun c' => ?_, fun c' r' hr' => hinv.fits c' r' (hremoved.mem_of_mem hr'),
      fun c' policy' hpolicy' => ?_, hinv.permitIds.removed hremoved, hinv.tickets.removed hremoved⟩
    · rw [classes c', order]
      split
      · rename_i hc
        subst hc
        exact (hinv.indexed c).dropped found
      · exact hinv.indexed c'
    · have hdepth := hinv.depth c' policy' hpolicy'
      by_cases hc : c' = c
      · subst hc
        rw [hremoved.rest]
        exact Nat.le_trans (List.length_eraseIdx_le _ _) hdepth
      · rwa [hremoved.other c' hc]

theorem Move.queueInv {trend : Trend} (h : Move g caller trend s s') (hinv : QueueInv g s) :
    QueueInv g s' := h.queueEffect.queueInv hinv

/-! ## Order questions over the waiting requests -/

theorem hasQueuedPredecessor_queueHalf (c : ClassState) (r : PendingRequest) :
    c.queueHalf.hasQueuedPredecessor r = c.hasQueuedPredecessor r := rfl

/-- A waiting request of the same domain arrived earlier. -/
theorem QueueInv.hasQueuedPredecessor_iff (hinv : QueueInv g s) (c : TaskClass) (r : PendingRequest) :
    (s.cls c).hasQueuedPredecessor r = true ↔
      ∃ r' ∈ s.waiting c, r'.capabilities.intersects r.capabilities = true ∧
        r'.queueOrder < r.queueOrder :=
  ClassState.hasQueuedPredecessor_iff (hinv.indexed c) r

/-- A request of the domain is waiting. -/
theorem QueueInv.hasQueuedDomain_iff (hinv : QueueInv g s) (c : TaskClass)
    (capabilities : CapabilityRequirementSet) :
    (s.cls c).hasQueuedDomain capabilities = true ↔
      ∃ r' ∈ s.waiting c, r'.capabilities.intersects capabilities = true :=
  ClassState.hasQueuedDomain_iff (hinv.indexed c) capabilities

end Taskmesh
