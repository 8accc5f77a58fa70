import Taskmesh.Engine.TagHistory
import Taskmesh.Engine.Proofs.ClassMoveProofs

/-!
# Canonical tags

The tags of a weighted-fair queue are the ones a rebuild from the service of its class would give them.
Every way a queue changes keeps that: an arrival is tagged behind the last request, the service of the
head moves the baseline to the tag the next request was already priced from, and the other ways rebuild.
-/

namespace Taskmesh

open Std MachineInt GovernedState

variable {g : Governor} {s s' : GovernedState}

/-! ## Rebuilding a queue -/

/-- A queued request without its finish tag. -/
def PendingRequest.unfinished (r : PendingRequest) : PendingRequest := { r with finishTag := 0 }

theorem PendingRequest.unfinished_retagged (r : PendingRequest) (tag : Nat) :
    ({ r with finishTag := tag } : PendingRequest).unfinished = r.unfinished := rfl

/-- The tag of a request that is priced from `cursor`. -/
def pricedFrom (weight cursor : Nat) (r : PendingRequest) : Nat :=
  saturatingAdd u128Max (max cursor r.wfqArrivalTag) (wfqIncrement r.cost.cpuUnits weight)

theorem repriceQueue_cons (weight cursor : Nat) (r : PendingRequest) (rest : List PendingRequest) :
    repriceQueue weight cursor (r :: rest) =
      ({ r with finishTag := pricedFrom weight cursor r } ::
        (repriceQueue weight (pricedFrom weight cursor r) rest).1,
      (repriceQueue weight (pricedFrom weight cursor r) rest).2) := rfl

theorem pricedFrom_le (weight cursor : Nat) (r : PendingRequest) : pricedFrom weight cursor r ≤ u128Max :=
  Nat.min_le_right _ _

/-- A price is no less than what it starts from. -/
theorem le_pricedFrom {weight cursor : Nat} {r : PendingRequest}
    (h : max cursor r.wfqArrivalTag ≤ u128Max) : max cursor r.wfqArrivalTag ≤ pricedFrom weight cursor r := by
  unfold pricedFrom saturatingAdd
  omega

theorem pricedFrom_congr {weight cursor cursor' : Nat} {r : PendingRequest}
    (h : max cursor r.wfqArrivalTag = max cursor' r.wfqArrivalTag) :
    pricedFrom weight cursor r = pricedFrom weight cursor' r := by
  unfold pricedFrom
  rw [h]

theorem pricedFrom_unfinished {weight cursor : Nat} {r r' : PendingRequest}
    (h : r.unfinished = r'.unfinished) : pricedFrom weight cursor r = pricedFrom weight cursor r' := by
  have harrival : r.unfinished.wfqArrivalTag = r'.unfinished.wfqArrivalTag := by rw [h]
  have hcost : r.unfinished.cost = r'.unfinished.cost := by rw [h]
  simp only [PendingRequest.unfinished] at harrival hcost
  unfold pricedFrom
  rw [harrival, hcost]

/-- A rebuild does not look at the tags it replaces. -/
theorem repriceQueue_congr (weight : Nat) {cursor : Nat} {q q' : List PendingRequest}
    (h : q.map PendingRequest.unfinished = q'.map PendingRequest.unfinished) :
    repriceQueue weight cursor q = repriceQueue weight cursor q' := by
  induction q generalizing q' cursor with
  | nil =>
    obtain rfl : q' = [] := by simpa using h.symm
    rfl
  | cons r rest ih =>
    cases q' with
    | nil => simp at h
    | cons r' rest' =>
      rw [List.map_cons, List.map_cons, List.cons.injEq] at h
      obtain ⟨hhead, hrest⟩ := h
      have htag : ∀ tag, ({ r with finishTag := tag } : PendingRequest) = { r' with finishTag := tag } := by
        intro tag
        have heq : ({ r.unfinished with finishTag := tag } : PendingRequest) =
            { r'.unfinished with finishTag := tag } := by rw [hhead]
        exact heq
      rw [repriceQueue_cons, repriceQueue_cons, pricedFrom_unfinished hhead, ih hrest, htag]

theorem repriceQueue_unfinished (weight cursor : Nat) (q : List PendingRequest) :
    (repriceQueue weight cursor q).1.map PendingRequest.unfinished = q.map PendingRequest.unfinished := by
  induction q generalizing cursor with
  | nil => rfl
  | cons r rest ih =>
    rw [repriceQueue_cons, List.map_cons, List.map_cons, ih, PendingRequest.unfinished_retagged]

/-- Rebuilding twice is rebuilding once. -/
theorem repriceQueue_idem (weight cursor : Nat) (q : List PendingRequest) :
    repriceQueue weight cursor (repriceQueue weight cursor q).1 = repriceQueue weight cursor q :=
  repriceQueue_congr weight (repriceQueue_unfinished weight cursor q)

/-- Of its starting point a rebuild sees only what the first arrival does not cover. -/
theorem repriceQueue_cursor (weight : Nat) {cursor cursor' : Nat} {r : PendingRequest}
    {rest : List PendingRequest} (h : max cursor r.wfqArrivalTag = max cursor' r.wfqArrivalTag) :
    repriceQueue weight cursor (r :: rest) = repriceQueue weight cursor' (r :: rest) := by
  rw [repriceQueue_cons, repriceQueue_cons, pricedFrom_congr h]

theorem repriceQueue_append (weight cursor : Nat) (q q' : List PendingRequest) :
    repriceQueue weight cursor (q ++ q') =
      ((repriceQueue weight cursor q).1 ++ (repriceQueue weight (repriceQueue weight cursor q).2 q').1,
        (repriceQueue weight (repriceQueue weight cursor q).2 q').2) := by
  induction q generalizing cursor with
  | nil => rfl
  | cons r rest ih =>
    rw [List.cons_append, repriceQueue_cons, repriceQueue_cons, ih]
    rfl

/-! ## Canonical classes -/

/-- The tags of a class are those of a rebuild, and so is the tag its next request will get. -/
structure Canonical (weight virtualTime : Nat) (c : ClassSchedule) : Prop where
  tags : (repriceQueue weight c.lastServedFinishTag c.queue).1 = c.queue
  next : max c.lastFinishTag virtualTime =
    max (repriceQueue weight c.lastServedFinishTag c.queue).2 virtualTime
  served : c.lastServedFinishTag ≤ virtualTime
  arrivals : c.queue.Pairwise fun r r' => r.wfqArrivalTag ≤ r'.wfqArrivalTag
  arrived : ∀ r ∈ c.queue, r.wfqArrivalTag ≤ virtualTime
  fits : virtualTime ≤ u128Max

namespace Canonical

variable {weight virtualTime : Nat} {c : ClassSchedule}

theorem idle (h : virtualTime ≤ u128Max) : Canonical weight virtualTime (ClassSchedule.idle virtualTime) := by
  refine ⟨rfl, rfl, Nat.le_refl _, List.Pairwise.nil, ?_, h⟩
  intro r hr
  simp [ClassSchedule.idle] at hr

/-- Virtual time moves on. -/
theorem later {virtualTime' : Nat} (h : Canonical weight virtualTime c) (hle : virtualTime ≤ virtualTime')
    (hfits : virtualTime' ≤ u128Max) : Canonical weight virtualTime' c := by
  refine ⟨h.tags, ?_, h.served.trans hle, h.arrivals, ?_, hfits⟩
  · have hnext := h.next
    omega
  · intro r hr
    exact (h.arrived r hr).trans hle

/-- A rebuild is canonical, whatever the tags were before. -/
theorem rebuilt (hserved : c.lastServedFinishTag ≤ virtualTime)
    (harrivals : c.queue.Pairwise fun r r' => r.wfqArrivalTag ≤ r'.wfqArrivalTag)
    (harrived : ∀ r ∈ c.queue, r.wfqArrivalTag ≤ virtualTime) (hfits : virtualTime ≤ u128Max) :
    Canonical weight virtualTime (c.rebuilt weight virtualTime) := by
  have hmap := repriceQueue_unfinished weight c.lastServedFinishTag c.queue
  have htags : (repriceQueue weight c.lastServedFinishTag c.queue).1.map PendingRequest.wfqArrivalTag =
      c.queue.map PendingRequest.wfqArrivalTag := by
    have := congrArg (List.map PendingRequest.wfqArrivalTag) hmap
    rwa [List.map_map, List.map_map] at this
  refine ⟨?_, ?_, hserved, ?_, ?_, hfits⟩
  · show (repriceQueue weight c.lastServedFinishTag (repriceQueue weight c.lastServedFinishTag c.queue).1).1 = _
    rw [repriceQueue_idem]
    rfl
  · show max (max (repriceQueue weight c.lastServedFinishTag c.queue).2 virtualTime) virtualTime =
      max (repriceQueue weight c.lastServedFinishTag
        (repriceQueue weight c.lastServedFinishTag c.queue).1).2 virtualTime
    rw [repriceQueue_idem]
    omega
  · show (repriceQueue weight c.lastServedFinishTag c.queue).1.Pairwise _
    rw [← List.pairwise_map (R := (· ≤ ·)), htags, List.pairwise_map]
    exact harrivals
  · intro r hr
    have hmem : r.wfqArrivalTag ∈ c.queue.map PendingRequest.wfqArrivalTag := by
      rw [← htags]
      exact List.mem_map_of_mem hr
    obtain ⟨r', hr', heq⟩ := List.mem_map.mp hmem
    rw [← heq]
    exact harrived r' hr'

theorem joined (h : Canonical weight virtualTime c) (r : PendingRequest) :
    Canonical weight virtualTime (c.joined weight virtualTime r) := by
  have hprice : ∀ tag, pricedFrom weight (repriceQueue weight c.lastServedFinishTag c.queue).2
      { r with finishTag := tag, wfqArrivalTag := virtualTime } =
        saturatingAdd u128Max (max c.lastFinishTag virtualTime) (wfqIncrement r.cost.cpuUnits weight) := by
    intro tag
    rw [h.next]
    rfl
  refine ⟨?_, ?_, h.served, ?_, ?_, h.fits⟩
  · show (repriceQueue weight c.lastServedFinishTag (c.queue ++ [_])).1 = c.queue ++ [_]
    rw [repriceQueue_append, h.tags, repriceQueue_cons, hprice]
    rfl
  · show max _ virtualTime = max (repriceQueue weight c.lastServedFinishTag (c.queue ++ [_])).2 virtualTime
    rw [repriceQueue_append, repriceQueue_cons, hprice]
    rfl
  · show (c.queue ++ [_]).Pairwise _
    rw [List.pairwise_append]
    refine ⟨h.arrivals, List.pairwise_singleton _ _, ?_⟩
    intro r' hr' last hlast
    rw [List.mem_singleton.mp hlast]
    exact h.arrived r' hr'
  · intro r' hr'
    rcases List.mem_append.mp hr' with hr' | hr'
    · exact h.arrived r' hr'
    · rw [List.mem_singleton.mp hr']

/-- Whatever place it is served from, a request is served at the price its class's service gives it. -/
theorem serviceTag_eq (h : Canonical weight virtualTime c) {index : Nat} {r : PendingRequest}
    (hr : c.queue[index]? = some r) :
    c.serviceTag weight index r = pricedFrom weight c.lastServedFinishTag r := by
  unfold ClassSchedule.serviceTag
  split
  · rename_i hzero
    subst hzero
    cases hqueue : c.queue with
    | nil => simp [hqueue] at hr
    | cons head rest =>
      obtain rfl : head = r := by simpa [hqueue] using hr
      have htags := h.tags
      rw [hqueue, repriceQueue_cons, List.cons.injEq] at htags
      exact (congrArg PendingRequest.finishTag htags.1).symm
  · rfl

theorem arrivals_dequeued (h : Canonical weight virtualTime c) (index : Nat) :
    (c.dequeued index).queue.Pairwise (fun r r' => r.wfqArrivalTag ≤ r'.wfqArrivalTag) ∧
      ∀ r ∈ (c.dequeued index).queue, r.wfqArrivalTag ≤ virtualTime := by
  refine ⟨h.arrivals.sublist (List.eraseIdx_sublist _ _), ?_⟩
  intro r hr
  exact h.arrived r (List.mem_of_mem_eraseIdx hr)

/-- A request that leaves unserved leaves the tags of a rebuild behind. -/
theorem cancel (h : Canonical weight virtualTime c) (index : Nat) {w : UInt32} (burst : UInt32)
    (hweight : w.toNat = weight) :
    Canonical weight virtualTime
      ((c.dequeued index).rederived (.weightedFairQueue w burst) virtualTime) := by
  obtain ⟨harrivals, harrived⟩ := h.arrivals_dequeued index
  unfold ClassSchedule.rederived
  split
  · exact Canonical.idle h.fits
  · simp only [hweight]
    exact Canonical.rebuilt h.served harrivals harrived h.fits

/-- The head is priced from the service of its class, and the rest of the queue from the head. -/
theorem head_tag (h : Canonical weight virtualTime c) {r : PendingRequest} {rest : List PendingRequest}
    (hqueue : c.queue = r :: rest) :
    pricedFrom weight c.lastServedFinishTag r = r.finishTag ∧ c.lastServedFinishTag ≤ r.finishTag ∧
      (repriceQueue weight r.finishTag rest).1 = rest := by
  have htags := h.tags
  rw [hqueue, repriceQueue_cons, List.cons.injEq] at htags
  obtain ⟨hhead, hrest⟩ := htags
  have hprice : pricedFrom weight c.lastServedFinishTag r = r.finishTag := congrArg PendingRequest.finishTag hhead
  have hstart : max c.lastServedFinishTag r.wfqArrivalTag ≤ u128Max := by
    have hserved := h.served
    have harrived := h.arrived r (by rw [hqueue]; exact List.mem_cons_self)
    have hfits := h.fits
    omega
  have hle : max c.lastServedFinishTag r.wfqArrivalTag ≤ pricedFrom weight c.lastServedFinishTag r :=
    le_pricedFrom hstart
  rw [hprice] at hrest hle
  exact ⟨hprice, (le_max_left _ _).trans hle, hrest⟩

/-- The service of the head leaves the tags of a rebuild behind, without one. -/
theorem serve_head (h : Canonical weight virtualTime c) {r : PendingRequest} {rest : List PendingRequest}
    (hqueue : c.queue = r :: rest) :
    Canonical weight (max virtualTime r.finishTag)
      { c with queue := rest, lastServedFinishTag := max c.lastServedFinishTag r.finishTag } := by
  obtain ⟨hprice, hle, hrest⟩ := h.head_tag hqueue
  have hnext := h.next
  have harrived := h.arrived
  have harrivals := h.arrivals
  rw [hqueue] at hnext harrived harrivals
  rw [repriceQueue_cons, hprice] at hnext
  have hfits : r.finishTag ≤ u128Max := by
    rw [← hprice]
    exact pricedFrom_le _ _ _
  rw [Nat.max_eq_right hle]
  refine ⟨hrest, ?_, le_max_right _ _, (List.pairwise_cons.mp harrivals).2, ?_, max_le h.fits hfits⟩
  · show max c.lastFinishTag (max virtualTime r.finishTag) =
      max (repriceQueue weight r.finishTag rest).2 (max virtualTime r.finishTag)
    omega
  · intro r' hr'
    exact (harrived r' (List.mem_cons_of_mem _ hr')).trans (le_max_left _ _)

/-- Every service leaves canonical tags behind. -/
theorem serve (h : Canonical weight virtualTime c) {index tag : Nat} {r : PendingRequest} {w : UInt32}
    (burst : UInt32) (hweight : w.toNat = weight) (hr : c.queue[index]? = some r)
    (htag : tag = c.serviceTag weight index r) :
    Canonical weight (max virtualTime tag)
      ((c.dequeued index).credited (.weightedFairQueue w burst) (max virtualTime tag) index tag) := by
  have hprice := h.serviceTag_eq hr
  have hfits : max virtualTime tag ≤ u128Max := by
    rw [htag, hprice]
    exact max_le h.fits (pricedFrom_le _ _ _)
  obtain ⟨harrivals, harrived⟩ := h.arrivals_dequeued index
  unfold ClassSchedule.credited
  split
  · exact Canonical.idle hfits
  · simp only
    split
    · simp only [hweight]
      refine Canonical.rebuilt ?_ harrivals ?_ hfits
      · show max c.lastServedFinishTag tag ≤ _
        exact max_le_max_right _ h.served
      · intro r' hr'
        exact (harrived r' hr').trans (le_max_left _ _)
    · rename_i hindex
      obtain rfl : index = 0 := by omega
      cases hqueue : c.queue with
      | nil => simp [hqueue] at hr
      | cons head rest =>
        obtain rfl : head = r := by simpa [hqueue] using hr
        obtain rfl : tag = head.finishTag := htag
        have hserved := h.serve_head hqueue
        have hdequeued : c.dequeued 0 = { c with queue := rest } := by
          unfold ClassSchedule.dequeued
          rw [hqueue]
          rfl
        rw [hdequeued]
        exact hserved

end Canonical

/-! ## Exact tags -/

/-- No sum of a rebuild of the class would overflow. -/
def Unclipped (weight : Nat) (c : ClassSchedule) : Prop :=
  ∀ sum ∈ repriceSums weight c.lastServedFinishTag c.queue, sum ≤ u128Max

theorem repriceSums_cons (weight cursor : Nat) (r : PendingRequest) (rest : List PendingRequest) :
    repriceSums weight cursor (r :: rest) =
      (max cursor r.wfqArrivalTag + wfqIncrement r.cost.cpuUnits weight) ::
        repriceSums weight (pricedFrom weight cursor r) rest := rfl

theorem repriceSums_congr (weight : Nat) {cursor : Nat} {q q' : List PendingRequest}
    (h : q.map PendingRequest.unfinished = q'.map PendingRequest.unfinished) :
    repriceSums weight cursor q = repriceSums weight cursor q' := by
  induction q generalizing q' cursor with
  | nil =>
    obtain rfl : q' = [] := by simpa using h.symm
    rfl
  | cons r rest ih =>
    cases q' with
    | nil => simp at h
    | cons r' rest' =>
      rw [List.map_cons, List.map_cons, List.cons.injEq] at h
      obtain ⟨hhead, hrest⟩ := h
      have harrival : r.unfinished.wfqArrivalTag = r'.unfinished.wfqArrivalTag := by rw [hhead]
      have hcost : r.unfinished.cost = r'.unfinished.cost := by rw [hhead]
      simp only [PendingRequest.unfinished] at harrival hcost
      rw [repriceSums_cons, repriceSums_cons, pricedFrom_unfinished hhead, ih hrest, harrival, hcost]

theorem repriceSums_append (weight cursor : Nat) (q q' : List PendingRequest) :
    repriceSums weight cursor (q ++ q') =
      repriceSums weight cursor q ++ repriceSums weight (repriceQueue weight cursor q).2 q' := by
  induction q generalizing cursor with
  | nil => rfl
  | cons r rest ih =>
    rw [List.cons_append, repriceSums_cons, repriceSums_cons, ih, repriceQueue_cons]
    rfl

theorem pricedFrom_exact {weight cursor : Nat} {r : PendingRequest}
    (h : max cursor r.wfqArrivalTag + wfqIncrement r.cost.cpuUnits weight ≤ u128Max) :
    pricedFrom weight cursor r = max cursor r.wfqArrivalTag + wfqIncrement r.cost.cpuUnits weight :=
  Nat.min_eq_left h

/-- The tag a queued request is priced behind: its predecessor's, or for the head its class's service. -/
def previousTag (cursor : Nat) (q : List PendingRequest) : Nat → Nat
  | 0 => cursor
  | i + 1 => (q[i]?.map PendingRequest.finishTag).getD 0

/-- Where a rebuild changes nothing and overflows nowhere, every tag is the exact sum. -/
theorem exact_of_fixed {weight cursor : Nat} {q : List PendingRequest}
    (hfixed : (repriceQueue weight cursor q).1 = q)
    (hfits : ∀ sum ∈ repriceSums weight cursor q, sum ≤ u128Max) :
    ∀ (i : Nat) (r : PendingRequest), q[i]? = some r →
      r.finishTag = max (previousTag cursor q i) r.wfqArrivalTag + wfqIncrement r.cost.cpuUnits weight := by
  induction q generalizing cursor with
  | nil =>
    intro i r hr
    simp at hr
  | cons head rest ih =>
    rw [repriceQueue_cons, List.cons.injEq] at hfixed
    obtain ⟨hhead, hrest⟩ := hfixed
    rw [repriceSums_cons, List.forall_mem_cons] at hfits
    have htag : head.finishTag = pricedFrom weight cursor head := (congrArg PendingRequest.finishTag hhead).symm
    intro i r hr
    cases i with
    | zero =>
      obtain rfl : head = r := by simpa using hr
      rw [htag, pricedFrom_exact hfits.1]
      rfl
    | succ i =>
      have hr' : rest[i]? = some r := by simpa using hr
      rw [ih hrest hfits.2 i r hr', ← htag]
      cases i with
      | zero => rfl
      | succ i => rfl

end Taskmesh
