import Taskmesh.Engine.Proofs.ConservationProofs

/-!
# The queue indexes and their oracle

The lookups of a class queue answer from three indexes what a scan of the queue answers. They agree
with the scan in every state whose indexes are exact, queueing a request and removing one from any
position keep the indexes exact, and so they are exact in every reachable state.
-/

namespace Taskmesh

open Std SetIndex QueueFamily

variable {g : Governor} {caller : Caller} {s s' : GovernedState} {c : TaskClass} {index : Nat} {r : PendingRequest}

/-- `queued_behind_index`: the linear oracle of the indexed lookup. An unknown position must not bypass
an earlier request. -/
def queuedBehindIndex (queue : List PendingRequest) (index : Nat) : Bool :=
  match queue[index]? with
  | none => true
  | some request => (queue.take index).any fun earlier => earlier.capabilities.intersects request.capabilities

/-- The indexes of every class are exact, and no two queued requests arrived at once. -/
structure IndexedQueues (s : GovernedState) : Prop where
  exactly : ∀ c, (s.cls c).Indexed s.nextQueueOrder
  orders : UniqueBy PendingRequest.queueOrder s.waiting

/-- Every lookup answers what a scan of the queue answers. -/
structure MatchesOracle (s : GovernedState) : Prop where
  predecessor : ∀ (c : TaskClass) (i : Nat) (r : PendingRequest), (s.cls c).queue[i]? = some r →
    (s.cls c).hasQueuedPredecessor r = queuedBehindIndex (s.cls c).queue i
  domain : ∀ (c : TaskClass) (capabilities : CapabilityRequirementSet),
    (s.cls c).hasQueuedDomain capabilities =
      (s.cls c).queue.any fun r => r.capabilities.intersects capabilities
  awaited : ∀ (c : TaskClass) (n : Nat), n ∈ (s.cls c).queuedAwaitedChildren ↔
    ∃ r ∈ (s.cls c).queue, r.scope.isAwaitedChild = true ∧ r.seqNo = n
  increasing : ∀ c, (s.cls c).queue.Pairwise fun a b => a.queueOrder < b.queueOrder
  distinct : ∀ (c c' : TaskClass) (r r' : PendingRequest), r ∈ (s.cls c).queue → r' ∈ (s.cls c').queue →
    r.queueOrder = r'.queueOrder → c = c' ∧ r = r'
  pools : ∀ (c : TaskClass) (id : CapabilityId), (s.cls c).queuedByCapability[id]? ≠ none ↔
    ∃ r ∈ (s.cls c).queue, id ∈ r.capabilities.ids

/-! ## Exact indexes agree with the scan -/

/-- In a queue sorted by arrival, the earlier arrivals are those at earlier positions. -/
theorem mem_take_iff {queue : List PendingRequest} {i : Nat}
    (hsorted : queue.Pairwise fun a b => a.queueOrder < b.queueOrder) (hr : queue[i]? = some r)
    (r' : PendingRequest) : r' ∈ queue.take i ↔ r' ∈ queue ∧ r'.queueOrder < r.queueOrder := by
  obtain ⟨hi, rfl⟩ := List.getElem?_eq_some_iff.mp hr
  rw [List.pairwise_iff_getElem] at hsorted
  rw [List.mem_take_iff_getElem]
  constructor
  · rintro ⟨j, hj, rfl⟩
    have hji : j < i := Nat.lt_of_lt_of_le hj (Nat.min_le_left _ _)
    exact ⟨List.getElem_mem _, hsorted j i (hji.trans hi) hi hji⟩
  · rintro ⟨hmem, hlt⟩
    obtain ⟨j, hj, rfl⟩ := List.getElem_of_mem hmem
    refine ⟨j, ?_, rfl⟩
    have hji : j < i := by
      rcases Nat.lt_trichotomy j i with hji | rfl | hij
      · exact hji
      · exact absurd hlt (Nat.lt_irrefl _)
      · exact absurd (hsorted i j hi hj hij) (Nat.lt_asymm hlt)
    omega

theorem ClassState.Indexed.predecessor_eq {cs : ClassState} {lastOrder : Nat} (h : cs.Indexed lastOrder) {i : Nat}
    (hr : cs.queue[i]? = some r) : cs.hasQueuedPredecessor r = queuedBehindIndex cs.queue i := by
  have hscan : queuedBehindIndex cs.queue i = true ↔
      ∃ r' ∈ cs.queue, r'.capabilities.intersects r.capabilities = true ∧ r'.queueOrder < r.queueOrder := by
    unfold queuedBehindIndex
    simp only [hr, List.any_eq_true, mem_take_iff h.sorted hr]
    exact exists_congr fun r' => by tauto
  rw [Bool.eq_iff_iff, ClassState.hasQueuedPredecessor_iff h, hscan]

theorem ClassState.Indexed.domain_eq {cs : ClassState} {lastOrder : Nat} (h : cs.Indexed lastOrder)
    (capabilities : CapabilityRequirementSet) :
    cs.hasQueuedDomain capabilities = cs.queue.any fun r => r.capabilities.intersects capabilities := by
  rw [Bool.eq_iff_iff, ClassState.hasQueuedDomain_iff h, List.any_eq_true]

/-- A pool has an entry as long as a queued request needs it. -/
theorem ClassState.Indexed.pools_iff {cs : ClassState} {lastOrder : Nat} (h : cs.Indexed lastOrder)
    (id : CapabilityId) :
    cs.queuedByCapability[id]? ≠ none ↔ ∃ r ∈ cs.queue, id ∈ r.capabilities.ids := by
  rw [← exists_registered_iff h.noEmpty]
  constructor
  · rintro ⟨n, hn⟩
    obtain ⟨r, hr, hid, _⟩ := (h.gated id n).mp hn
    exact ⟨r, hr, hid⟩
  · rintro ⟨r, hr, hid⟩
    exact ⟨r.queueOrder, (h.gated id r.queueOrder).mpr ⟨r, hr, hid, rfl⟩⟩

theorem mem_waiting_untagged (hr : r ∈ (s.cls c).queue) : r.untagged ∈ s.waiting c :=
  List.mem_map_of_mem hr

theorem IndexedQueues.matches_oracle (h : IndexedQueues s) : MatchesOracle s where
  predecessor c i r hr := (h.exactly c).predecessor_eq hr
  domain c capabilities := (h.exactly c).domain_eq capabilities
  awaited c n := (h.exactly c).awaited n
  increasing c := (h.exactly c).sorted
  distinct c c' r r' hr hr' hsame := by
    obtain rfl : c = c' :=
      h.orders.across c c' r.untagged r'.untagged (mem_waiting_untagged hr) (mem_waiting_untagged hr') hsame
    exact ⟨rfl, List.inj_on_of_nodup_map (h.exactly c).orders_nodup hr hr' hsame⟩
  pools c id := (h.exactly c).pools_iff id

/-! ## Queueing and removal keep the indexes exact -/

/-- The last arrival is later than every other. -/
theorem arrival_fresh (hindexed : ∀ c, (s.cls c).queueHalf.Indexed s.nextQueueOrder) (c : TaskClass)
    (hr : r ∈ s.waiting c) : r.queueOrder ≠ s.nextQueueOrder + 1 := by
  have hle := (hindexed c).bounded r hr
  omega

theorem IndexedQueues.enqueue (h : IndexedQueues s) (r : PendingRequest)
    (hseq : ∀ r' ∈ (s.cls r.taskClass).queue, r'.seqNo ≠ r.seqNo) : IndexedQueues (s.enqueue r) := by
  refine ⟨fun c => ?_, h.orders.pushed (GovernedState.pushed_enqueue s r) fun c b hb =>
    arrival_fresh (fun c => ClassState.indexed_queueHalf.mpr (h.exactly c)) c hb⟩
  have horder : (s.enqueue r).nextQueueOrder = s.nextQueueOrder + 1 := rfl
  rw [GovernedState.cls_enqueue, horder]
  split
  · rename_i hclass
    subst hclass
    exact (h.exactly _).pushed rfl hseq
  · have hc := h.exactly c
    exact ⟨hc.sorted, fun r' hr' => Nat.le_succ_of_le (hc.bounded r' hr'), hc.ungated, hc.gated, hc.noEmpty,
      hc.awaited, hc.seqNos⟩

theorem IndexedQueues.removed (h : IndexedQueues s) (hremove : s.removePending c index = some (s', r)) :
    IndexedQueues s' := by
  obtain ⟨hfound, rfl⟩ := GovernedState.removePending_spec hremove
  refine ⟨fun c' => ?_, h.orders.removed (GovernedState.removed_removedPending hfound)⟩
  have horder : (s.removedPending c index r).nextQueueOrder = s.nextQueueOrder := rfl
  rw [GovernedState.cls_removedPending, horder]
  split
  · rename_i hclass
    subst hclass
    exact (h.exactly c).dropped hfound
  · exact h.exactly c'

/-! ## Every reachable state -/

theorem QueueEffect.orders (h : QueueEffect g s s') (hinv : QueueInv g s)
    (horders : UniqueBy PendingRequest.queueOrder s.waiting) : UniqueBy PendingRequest.queueOrder s'.waiting := by
  cases h with
  | same h =>
    rw [show s'.waiting = s.waiting from funext fun c => h.waiting_eq c]
    exact horders
  | pushed waker nowMs tags accepted blocked sound room order classes =>
    exact horders.pushed (waiting_pushed classes) fun c r hr => arrival_fresh hinv.indexed c hr
  | removed found order classes => exact horders.removed (waiting_removed found classes)

theorem IndexedQueues.of_reachable {σ : g.System} (h : g.Reachable σ) : IndexedQueues σ.state := by
  have hboth : SysInv σ ∧ UniqueBy PendingRequest.queueOrder σ.state.waiting := by
    refine Runs.Reachable.invariant
      (P := fun σ : g.System => SysInv σ ∧ UniqueBy PendingRequest.queueOrder σ.state.waiting) h
      ⟨sysInv_init g, ⟨fun c => ?_, fun c c' r r' hr => ?_⟩⟩ ?_
    · simp [Governor.init, waiting_init]
    · simp [Governor.init, waiting_init] at hr
    · rintro σ a σ' e ⟨hinv, horders⟩ hstep
      refine ⟨hinv.step hstep, hinv.step_rule hstep
        (P := fun s => UniqueBy PendingRequest.queueOrder s.waiting) ?_ horders⟩
      exact fun _ _ _ hm hinv₁ _ h => hm.queueEffect.orders hinv₁.queues h
  exact ⟨fun c => ClassState.indexed_queueHalf.mp (hboth.1.state.queues.indexed c), hboth.2⟩

/-- In every reachable state the queue indexes are exact and their lookups agree with the scan of the
queue; and so they are after every `enqueue` and after a removal at any position, from any state where
they are. -/
theorem indexes_match_oracle (g : Governor) :
    (∀ σ : g.System, g.Reachable σ → IndexedQueues σ.state ∧ MatchesOracle σ.state) ∧
    (∀ (s : GovernedState) (r : PendingRequest), IndexedQueues s →
      (∀ r' ∈ (s.cls r.taskClass).queue, r'.seqNo ≠ r.seqNo) →
      IndexedQueues (s.enqueue r) ∧ MatchesOracle (s.enqueue r)) ∧
    ∀ (s s' : GovernedState) (c : TaskClass) (index : Nat) (r : PendingRequest), IndexedQueues s →
      s.removePending c index = some (s', r) → IndexedQueues s' ∧ MatchesOracle s' := by
  refine ⟨?_, ?_, ?_⟩
  · intro σ hreach
    have h := IndexedQueues.of_reachable hreach
    exact ⟨h, h.matches_oracle⟩
  · intro s r h hseq
    have h' := h.enqueue r hseq
    exact ⟨h', h'.matches_oracle⟩
  · intro s s' c index r h hremove
    have h' := h.removed hremove
    exact ⟨h', h'.matches_oracle⟩

/-- One task runs and three more wait. -/
def Sample.lined : Sample.governor.System :=
  (Runs.replay Sample.governor.step Sample.governor.init
    (["a", "b", "c", "d"].flatMap fun n => Sample.admission (.admitSpec (Sample.task n)))).getD Sample.governor.init

/-- In the sample the indexes stay exact when the second of three queued requests leaves its queue, and when
it comes back behind the others. -/
theorem sample_indexes : (Sample.lined.state.cls ⟨"work"⟩).queue.length = 3 ∧
    ∃ s r, Sample.lined.state.removePending ⟨"work"⟩ 1 = some (s, r) ∧
      MatchesOracle Sample.lined.state ∧ MatchesOracle s ∧ MatchesOracle (s.enqueue r) := by
  have hlined := (indexes_match_oracle Sample.governor).1 Sample.lined (Runs.reachable_replay Sample.governor.init _)
  have hqueue : ((Sample.lined.state.removePending ⟨"work"⟩ 1).any fun next =>
      (next.1.cls next.2.taskClass).queue.all fun r' => r'.seqNo ≠ next.2.seqNo) = true := by decide +kernel
  obtain ⟨⟨s, r⟩, hremove, hothers⟩ := (Option.any_eq_true _ _).mp hqueue
  have hremoved := (indexes_match_oracle Sample.governor).2.2 Sample.lined.state s _ 1 r hlined.1 hremove
  refine ⟨by decide +kernel, s, r, hremove, hlined.2, hremoved.2, ?_⟩
  refine ((indexes_match_oracle Sample.governor).2.1 s r hremoved.1 fun r' hr' => ?_).2
  exact of_decide_eq_true (List.all_eq_true.mp hothers r' hr')

end Taskmesh
