import Taskmesh.Collections.QueueFamily
import Taskmesh.Engine.Frames

/-!
# The queues and their arrival index

What `enqueue` and `removePending` do to the queues, and that the per-class arrival index says
exactly what the queue says: the two index lookups are the two order questions of a first-in
first-out queue per capability domain.
-/

namespace Taskmesh

open Std SetIndex QueueFamily

namespace ClassState

/-- The arrival index of a class is exact, and its queue is in arrival order. -/
structure Indexed (c : ClassState) (lastOrder : Nat) : Prop where
  sorted : c.queue.Pairwise fun a b => a.queueOrder < b.queueOrder
  bounded : ∀ r ∈ c.queue, r.queueOrder ≤ lastOrder
  ungated : ∀ n, n ∈ c.queuedUngated ↔ ∃ r ∈ c.queue, r.capabilities.ids = [] ∧ r.queueOrder = n
  gated : ∀ id n, Registered c.queuedByCapability id n ↔
    ∃ r ∈ c.queue, id ∈ r.capabilities.ids ∧ r.queueOrder = n
  noEmpty : NoEmpty c.queuedByCapability
  awaited : ∀ n, n ∈ c.queuedAwaitedChildren ↔
    ∃ r ∈ c.queue, r.scope.isAwaitedChild = true ∧ r.seqNo = n
  seqNos : (c.queue.map PendingRequest.seqNo).Nodup

/-! ## Order questions -/

theorem firstBefore_iff {arrivals : BTreeSet Nat} {order : Nat} :
    firstBefore arrivals order = true ↔ ∃ n ∈ arrivals, n < order := by
  unfold firstBefore
  simp only [← ExtTreeSet.mem_toList]
  have hordered := ExtTreeSet.ordered_toList (t := arrivals)
  cases h : arrivals.toList with
  | nil => simp
  | cons first rest =>
    rw [h] at hordered
    simp only [List.head?_cons, Option.any_some, decide_eq_true_eq]
    constructor
    · intro hlt
      exact ⟨first, List.mem_cons_self, hlt⟩
    · rintro ⟨n, hn, hlt⟩
      rcases List.mem_cons.mp hn with rfl | hn
      · exact hlt
      · have := (List.pairwise_cons.mp hordered).1 n hn
        rw [Nat.compare_eq_lt] at this
        omega

theorem isEmpty_false_iff {arrivals : BTreeSet Nat} : (!arrivals.isEmpty) = true ↔ ∃ n, n ∈ arrivals := by
  rw [Bool.not_eq_true', ExtTreeSet.isEmpty_eq_false_iff]
  constructor
  · intro hne
    by_contra hcon
    push Not at hcon
    exact hne (ExtTreeSet.eq_empty_iff_forall_not_mem.mpr hcon)
  · rintro ⟨n, hn⟩ rfl
    simp at hn

variable {c : ClassState} {lastOrder : Nat}

/-- An index lookup over the pools of a set, as a question about the index relation. -/
theorem any_indexed_iff {ids : List CapabilityId} {m : BTreeMap CapabilityId (BTreeSet Nat)}
    {p : BTreeSet Nat → Bool} {P : Nat → Prop} (hp : ∀ set, p set = true ↔ ∃ n ∈ set, P n) :
    (ids.any fun id => m[id]?.any p) = true ↔ ∃ id ∈ ids, ∃ n, Registered m id n ∧ P n := by
  rw [List.any_eq_true]
  refine exists_congr fun id => and_congr_right fun _ => ?_
  cases h : m[id]? with
  | none => simp [Registered, h]
  | some set => simp [Registered, h, hp]

/-- The index answers whether an earlier request of the same domain is queued. -/
theorem hasQueuedPredecessor_iff (h : c.Indexed lastOrder) (r : PendingRequest) :
    c.hasQueuedPredecessor r = true ↔
      ∃ r' ∈ c.queue, r'.capabilities.intersects r.capabilities = true ∧ r'.queueOrder < r.queueOrder := by
  unfold hasQueuedPredecessor
  split
  · rename_i hempty
    have hnil : r.capabilities.ids = [] := by simpa [CapabilityRequirementSet.isEmpty] using hempty
    rw [firstBefore_iff]
    constructor
    · rintro ⟨n, hn, hlt⟩
      obtain ⟨r', hr', hnil', rfl⟩ := (h.ungated n).mp hn
      exact ⟨r', hr', CapabilityRequirementSet.intersects_iff.mpr (Or.inl ⟨hnil', hnil⟩), hlt⟩
    · rintro ⟨r', hr', hint, hlt⟩
      rcases CapabilityRequirementSet.intersects_iff.mp hint with ⟨hnil', _⟩ | ⟨id, _, hid⟩
      · exact ⟨r'.queueOrder, (h.ungated _).mpr ⟨r', hr', hnil', rfl⟩, hlt⟩
      · rw [hnil] at hid
        simp at hid
  · rename_i hempty
    have hne : r.capabilities.ids ≠ [] := by simpa [CapabilityRequirementSet.isEmpty] using hempty
    rw [any_indexed_iff fun set => firstBefore_iff]
    constructor
    · rintro ⟨id, hid, n, hn, hlt⟩
      obtain ⟨r', hr', hid', rfl⟩ := (h.gated id n).mp hn
      exact ⟨r', hr', CapabilityRequirementSet.intersects_iff.mpr (Or.inr ⟨id, hid', hid⟩), hlt⟩
    · rintro ⟨r', hr', hint, hlt⟩
      rcases CapabilityRequirementSet.intersects_iff.mp hint with ⟨_, hnil⟩ | ⟨id, hid', hid⟩
      · exact absurd hnil hne
      · exact ⟨id, hid, r'.queueOrder, (h.gated id _).mpr ⟨r', hr', hid', rfl⟩, hlt⟩

/-- The index answers whether a request of a domain is queued. -/
theorem hasQueuedDomain_iff (h : c.Indexed lastOrder) (capabilities : CapabilityRequirementSet) :
    c.hasQueuedDomain capabilities = true ↔
      ∃ r' ∈ c.queue, r'.capabilities.intersects capabilities = true := by
  unfold hasQueuedDomain
  split
  · rename_i hempty
    have hnil : capabilities.ids = [] := by simpa [CapabilityRequirementSet.isEmpty] using hempty
    rw [isEmpty_false_iff]
    constructor
    · rintro ⟨n, hn⟩
      obtain ⟨r', hr', hnil', rfl⟩ := (h.ungated n).mp hn
      exact ⟨r', hr', CapabilityRequirementSet.intersects_iff.mpr (Or.inl ⟨hnil', hnil⟩)⟩
    · rintro ⟨r', hr', hint⟩
      rcases CapabilityRequirementSet.intersects_iff.mp hint with ⟨hnil', _⟩ | ⟨id, _, hid⟩
      · exact ⟨r'.queueOrder, (h.ungated _).mpr ⟨r', hr', hnil', rfl⟩⟩
      · rw [hnil] at hid
        simp at hid
  · rename_i hempty
    have hne : capabilities.ids ≠ [] := by simpa [CapabilityRequirementSet.isEmpty] using hempty
    rw [any_indexed_iff (P := fun _ => True) fun set => by simp [← isEmpty_false_iff]]
    constructor
    · rintro ⟨id, hid, n, hn, _⟩
      obtain ⟨r', hr', hid', rfl⟩ := (h.gated id n).mp hn
      exact ⟨r', hr', CapabilityRequirementSet.intersects_iff.mpr (Or.inr ⟨id, hid', hid⟩)⟩
    · rintro ⟨r', hr', hint⟩
      rcases CapabilityRequirementSet.intersects_iff.mp hint with ⟨_, hnil⟩ | ⟨id, hid', hid⟩
      · exact absurd hnil hne
      · exact ⟨id, hid, r'.queueOrder, (h.gated id _).mpr ⟨r', hr', hid', rfl⟩, trivial⟩

/-! ## Index updates -/

@[simp] theorem indexPending_queue (c : ClassState) (r : PendingRequest) :
    (c.indexPending r).queue = c.queue := by
  unfold indexPending
  split <;> split <;> rfl

@[simp] theorem unindexPending_queue (c : ClassState) (r : PendingRequest) :
    (c.unindexPending r).queue = c.queue := by
  unfold unindexPending
  split <;> split <;> rfl

theorem mem_ungated_indexPending {r : PendingRequest} {n : Nat} :
    n ∈ (c.indexPending r).queuedUngated ↔
      (r.capabilities.ids = [] ∧ r.queueOrder = n) ∨ n ∈ c.queuedUngated := by
  unfold indexPending
  by_cases hnil : r.capabilities.ids = []
  · split <;> simp [CapabilityRequirementSet.isEmpty, hnil, ExtTreeSet.mem_insert]
  · have he : r.capabilities.isEmpty = false := by simpa [CapabilityRequirementSet.isEmpty] using hnil
    split <;> simp [he, hnil]

theorem mem_ungated_unindexPending {r : PendingRequest} {n : Nat} :
    n ∈ (c.unindexPending r).queuedUngated ↔
      n ∈ c.queuedUngated ∧ ¬ (r.capabilities.ids = [] ∧ r.queueOrder = n) := by
  unfold unindexPending
  by_cases hnil : r.capabilities.ids = []
  · split <;> simp [CapabilityRequirementSet.isEmpty, hnil, ExtTreeSet.mem_erase, and_comm]
  · have he : r.capabilities.isEmpty = false := by simpa [CapabilityRequirementSet.isEmpty] using hnil
    split <;> simp [he, hnil]

theorem registered_indexPending {r : PendingRequest} {id : CapabilityId} {n : Nat} :
    Registered (c.indexPending r).queuedByCapability id n ↔
      (id ∈ r.capabilities.ids ∧ r.queueOrder = n) ∨ Registered c.queuedByCapability id n := by
  unfold indexPending
  by_cases hnil : r.capabilities.ids = []
  · split <;> simp [CapabilityRequirementSet.isEmpty, hnil]
  · have he : r.capabilities.isEmpty = false := by simpa [CapabilityRequirementSet.isEmpty] using hnil
    split <;> simp [he, registered_foldl_insertMember]

theorem registered_unindexPending {r : PendingRequest} {id : CapabilityId} {n : Nat} :
    Registered (c.unindexPending r).queuedByCapability id n ↔
      Registered c.queuedByCapability id n ∧ ¬ (id ∈ r.capabilities.ids ∧ r.queueOrder = n) := by
  unfold unindexPending
  by_cases hnil : r.capabilities.ids = []
  · split <;> simp [CapabilityRequirementSet.isEmpty, hnil]
  · have he : r.capabilities.isEmpty = false := by simpa [CapabilityRequirementSet.isEmpty] using hnil
    split <;> simp [he, registered_foldl_removeMember]

theorem noEmpty_indexPending (h : NoEmpty c.queuedByCapability) (r : PendingRequest) :
    NoEmpty (c.indexPending r).queuedByCapability := by
  unfold indexPending
  split <;> split
  all_goals first | exact h | exact noEmpty_foldl_insertMember h _

theorem noEmpty_unindexPending (h : NoEmpty c.queuedByCapability) (r : PendingRequest) :
    NoEmpty (c.unindexPending r).queuedByCapability := by
  unfold unindexPending
  split <;> split
  all_goals first | exact h | exact noEmpty_foldl_removeMember h _

theorem mem_awaited_indexPending {r : PendingRequest} {n : Nat} :
    n ∈ (c.indexPending r).queuedAwaitedChildren ↔
      (r.scope.isAwaitedChild = true ∧ r.seqNo = n) ∨ n ∈ c.queuedAwaitedChildren := by
  unfold indexPending
  by_cases ha : r.scope.isAwaitedChild = true
  · rw [if_pos ha]
    split <;> simp [ha, ExtTreeSet.mem_insert]
  · rw [if_neg ha]
    split <;> simp [ha]

theorem mem_awaited_unindexPending {r : PendingRequest} {n : Nat} :
    n ∈ (c.unindexPending r).queuedAwaitedChildren ↔
      n ∈ c.queuedAwaitedChildren ∧ ¬ (r.scope.isAwaitedChild = true ∧ r.seqNo = n) := by
  unfold unindexPending
  by_cases ha : r.scope.isAwaitedChild = true
  · rw [if_pos ha]
    split <;> simp [ha, ExtTreeSet.mem_erase, and_comm]
  · rw [if_neg ha]
    split <;> simp [ha]

/-- The class after a request was queued. -/
def pushed (c : ClassState) (r : PendingRequest) : ClassState :=
  { c.indexPending r with queue := (c.indexPending r).queue ++ [r] }

/-- The class after the request at a position left its queue. -/
def dropped (c : ClassState) (index : Nat) (r : PendingRequest) : ClassState :=
  { c with queue := c.queue.eraseIdx index }.unindexPending r

/-- Queueing a request as the last arrival keeps the index exact. -/
theorem Indexed.pushed (h : c.Indexed lastOrder) {r : PendingRequest}
    (horder : r.queueOrder = lastOrder + 1) (hseq : ∀ r' ∈ c.queue, r'.seqNo ≠ r.seqNo) :
    (c.pushed r).Indexed (lastOrder + 1) := by
  have hqueue : (c.pushed r).queue = c.queue ++ [r] := by simp [ClassState.pushed]
  have hexists : ∀ P : PendingRequest → Prop,
      (∃ r' ∈ (c.pushed r).queue, P r') ↔ P r ∨ ∃ r' ∈ c.queue, P r' := by
    intro P
    rw [hqueue]
    simp [or_and_right, exists_or, or_comm]
  refine ⟨?_, ?_, fun n => ?_, fun id n => ?_, noEmpty_indexPending h.noEmpty r, fun n => ?_, ?_⟩
  · rw [hqueue, List.pairwise_append]
    refine ⟨h.sorted, List.pairwise_singleton _ _, fun a ha b hb => ?_⟩
    obtain rfl : b = r := by simpa using hb
    have := h.bounded a ha
    omega
  · intro r' hr'
    rw [hqueue] at hr'
    rcases List.mem_append.mp hr' with hr' | hr'
    · have := h.bounded r' hr'
      omega
    · obtain rfl : r' = r := by simpa using hr'
      omega
  · rw [hexists, ← h.ungated]
    exact mem_ungated_indexPending
  · rw [hexists, ← h.gated]
    exact registered_indexPending
  · rw [hexists, ← h.awaited]
    exact mem_awaited_indexPending
  · rw [hqueue, List.map_append, List.nodup_append]
    refine ⟨h.seqNos, by simp, fun x hx y hy => ?_⟩
    obtain ⟨r', hr', rfl⟩ := List.mem_map.mp hx
    obtain rfl : y = r.seqNo := by simpa using hy
    exact hseq r' hr'

theorem Indexed.orders_nodup (h : c.Indexed lastOrder) :
    (c.queue.map PendingRequest.queueOrder).Nodup :=
  (List.pairwise_map.mpr h.sorted).imp fun hab => Nat.ne_of_lt hab

/-- Removing a request from any position keeps the index exact. -/
theorem Indexed.dropped (h : c.Indexed lastOrder) {index : Nat} {r : PendingRequest}
    (hr : c.queue[index]? = some r) : (c.dropped index r).Indexed lastOrder := by
  have hqueue : (c.dropped index r).queue = c.queue.eraseIdx index := by simp [ClassState.dropped]
  have hsub : (c.dropped index r).queue.Sublist c.queue := by
    rw [hqueue]
    exact List.eraseIdx_sublist _ _
  have hrem : Removed (fun _ : Unit => c.queue) (fun _ => (c.dropped index r).queue) () index r :=
    ⟨hr, hqueue, fun k hk => absurd rfl hk⟩
  have hunique : ∀ {β : Type} (f : PendingRequest → β), (c.queue.map f).Nodup →
      UniqueBy f (fun _ : Unit => c.queue) := fun f hf => ⟨fun _ => hf, fun _ _ _ _ _ _ _ => rfl⟩
  have hmem : ∀ r', r' ∈ (c.dropped index r).queue ↔
      r' ∈ c.queue ∧ r'.queueOrder ≠ r.queueOrder := fun r' =>
    hrem.mem_iff (j := ()) (hunique PendingRequest.queueOrder h.orders_nodup)
  have hmem' : ∀ r', r' ∈ (c.dropped index r).queue ↔ r' ∈ c.queue ∧ r'.seqNo ≠ r.seqNo := fun r' =>
    hrem.mem_iff (j := ()) (hunique PendingRequest.seqNo h.seqNos)
  refine ⟨h.sorted.sublist hsub, fun r' hr' => h.bounded r' (hsub.subset hr'), fun n => ?_,
    fun id n => ?_, noEmpty_unindexPending (c := { c with queue := c.queue.eraseIdx index }) h.noEmpty r,
    fun n => ?_, h.seqNos.sublist (hsub.map _)⟩
  · rw [ClassState.dropped, mem_ungated_unindexPending, h.ungated]
    constructor
    · rintro ⟨⟨r', hr', hnil, rfl⟩, hne⟩
      refine ⟨r', (hmem r').mpr ⟨hr', fun heq => hne ?_⟩, hnil, rfl⟩
      obtain rfl := List.inj_on_of_nodup_map h.orders_nodup hr' hrem.mem heq
      exact ⟨hnil, rfl⟩
    · rintro ⟨r', hr', hnil, rfl⟩
      obtain ⟨hin, hne⟩ := (hmem r').mp hr'
      exact ⟨⟨r', hin, hnil, rfl⟩, fun heq => hne heq.2.symm⟩
  · rw [ClassState.dropped, registered_unindexPending, h.gated]
    constructor
    · rintro ⟨⟨r', hr', hid, rfl⟩, hne⟩
      refine ⟨r', (hmem r').mpr ⟨hr', fun heq => hne ?_⟩, hid, rfl⟩
      obtain rfl := List.inj_on_of_nodup_map h.orders_nodup hr' hrem.mem heq
      exact ⟨hid, rfl⟩
    · rintro ⟨r', hr', hid, rfl⟩
      obtain ⟨hin, hne⟩ := (hmem r').mp hr'
      exact ⟨⟨r', hin, hid, rfl⟩, fun heq => hne heq.2.symm⟩
  · rw [ClassState.dropped, mem_awaited_unindexPending, h.awaited]
    constructor
    · rintro ⟨⟨r', hr', ha, rfl⟩, hne⟩
      refine ⟨r', (hmem' r').mpr ⟨hr', fun heq => hne ?_⟩, ha, rfl⟩
      obtain rfl := List.inj_on_of_nodup_map h.seqNos hr' hrem.mem heq
      exact ⟨ha, rfl⟩
    · rintro ⟨r', hr', ha, rfl⟩
      obtain ⟨hin, hne⟩ := (hmem' r').mp hr'
      exact ⟨⟨r', hin, ha, rfl⟩, fun heq => hne heq.2.symm⟩

/-- The index speaks about the queue half only. -/
theorem indexed_queueHalf : c.queueHalf.Indexed lastOrder ↔ c.Indexed lastOrder := by
  have hexists : ∀ P : PendingRequest → Prop, (∀ r, P r.untagged ↔ P r) →
      ((∃ r ∈ c.queueHalf.queue, P r) ↔ ∃ r ∈ c.queue, P r) := by
    intro P hP
    simp [queueHalf, hP]
  have hforall : ∀ P : PendingRequest → Prop, (∀ r, P r.untagged ↔ P r) →
      ((∀ r ∈ c.queueHalf.queue, P r) ↔ ∀ r ∈ c.queue, P r) := by
    intro P hP
    simp [queueHalf, hP]
  have hseq : c.queueHalf.queue.map PendingRequest.seqNo = c.queue.map PendingRequest.seqNo := by
    simp only [queueHalf, List.map_map]
    rfl
  constructor
  · rintro ⟨h1, h2, h3, h4, h5, h6, h7⟩
    refine ⟨(List.pairwise_map.mp h1).imp id, (hforall _ fun _ => Iff.rfl).mp h2, fun n => ?_,
      fun id n => ?_, h5, fun n => ?_, hseq ▸ h7⟩
    · exact (h3 n).trans (hexists _ fun _ => Iff.rfl)
    · exact (h4 id n).trans (hexists _ fun _ => Iff.rfl)
    · exact (h6 n).trans (hexists _ fun _ => Iff.rfl)
  · rintro ⟨h1, h2, h3, h4, h5, h6, h7⟩
    refine ⟨List.pairwise_map.mpr (h1.imp id), (hforall _ fun _ => Iff.rfl).mpr h2, fun n => ?_,
      fun id n => ?_, h5, fun n => ?_, hseq ▸ h7⟩
    · exact (h3 n).trans (hexists _ fun _ => Iff.rfl).symm
    · exact (h4 id n).trans (hexists _ fun _ => Iff.rfl).symm
    · exact (h6 n).trans (hexists _ fun _ => Iff.rfl).symm

end ClassState

end Taskmesh
