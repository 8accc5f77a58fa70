import Taskmesh.Engine.Proofs.TagRunProofs

/-!
# Cancelled requests leave no tags behind

The tags of a weighted-fair class are the replay of its history. Striking out a request that left
unserved changes nothing from the moment it is gone: a service costs what the service of the class
gives it, whoever else was queued, and a queue that drains only without the struck request resets a
baseline that no later arrival is priced from.
-/

namespace Taskmesh

open Std MachineInt GovernedState

variable {g : Governor} {s s' : GovernedState} {c : TaskClass} {policy : ClassPolicy} {weight burst : UInt32}

/-! ## The history of a class replays to its tags -/

/-- One more event adds its own operations at the end of the history. -/
theorem historyOf_snoc (c : TaskClass) (tr : List (GovernedState × ScheduleEvent)) (t : GovernedState)
    (event : ScheduleEvent) (u : GovernedState) :
    historyOf c (tr ++ [(t, event)]) u = historyOf c tr t ++ opsOf c u event := by
  induction tr with
  | nil => rfl
  | cons x rest ih =>
    obtain ⟨s, first⟩ := x
    cases rest with
    | nil => rfl
    | cons y rest =>
      obtain ⟨s', second⟩ := y
      show opsOf c s' first ++ historyOf c ((s', second) :: rest ++ [(t, event)]) u =
        opsOf c s' first ++ historyOf c ((s', second) :: rest) t ++ opsOf c u event
      rw [ih, List.append_assoc]

/-- Replaying two histories in turn is replaying them joined. -/
theorem replay_append (x : TagState) (ops ops' : List TagOp) :
    x.replay weight burst (ops ++ ops') = (x.replay weight burst ops).replay weight burst ops' :=
  List.foldl_append

/-- Along a run that overflows nowhere, the tags of a class are the replay of its history, in which
virtual time never leaves its range. -/
theorem replay_historyOf {tr : List (GovernedState × ScheduleEvent)} (h : ScheduleTrace g {} tr s)
    (hfits : ∀ x ∈ tr, TagsFit g.policy x) (hknown : g.policy.classPolicy c = some policy)
    (hfair : policy.fairness = .weightedFairQueue weight burst) :
    tagState c s = TagState.start.replay weight burst (historyOf c tr s) ∧
      ∀ virtualTime, .elsewhere virtualTime ∈ historyOf c tr s → virtualTime ≤ u128Max := by
  induction h with
  | nil =>
    refine ⟨?_, ?_⟩
    · simp [tagState, TagState.replay, TagState.start, historyOf, GovernedState.cls, default,
        ClassState.schedule, ClassSchedule.creditless, ClassSchedule.idle]
    · intro virtualTime hmem
      simp [historyOf] at hmem
  | @snoc t u tr event htrace hmove ih =>
    have hbefore : ∀ x ∈ tr, TagsFit g.policy x := by
      intro x hx
      exact hfits x (List.mem_append_left _ hx)
    have hlast : TagsFit g.policy (t, event) :=
      hfits _ (List.mem_append_right _ (List.mem_singleton_self _))
    obtain ⟨hstate, hbounded⟩ := ih hbefore
    have htime := ((TagInv.of_trace htrace hbefore).step hmove hlast).time
    rw [historyOf_snoc]
    refine ⟨?_, ?_⟩
    · rw [replay_append, ← hstate]
      exact hmove.replay hknown hfair hlast
    · intro virtualTime hmem
      rcases List.mem_append.mp hmem with hmem | hmem
      · exact hbounded virtualTime hmem
      · rw [opsOf_elsewhere hmem]
        exact htime

/-! ## What an operation does to the requests and the baseline -/

/-- Rebuilding the tags of a queue leaves the requests themselves as they were. -/
theorem unfinished_rebuilt (weight virtualTime : Nat) (c : ClassSchedule) :
    (c.rebuilt weight virtualTime).queue.map PendingRequest.unfinished =
      c.queue.map PendingRequest.unfinished := repriceQueue_unfinished _ _ _

/-- A service takes one request out of the queue, and moves the baseline up to its price. -/
theorem apply_serve (weight burst : UInt32) {x : TagState} {index : Nat} {r : PendingRequest}
    (h : Canonical weight.toNat x.virtualTime x.schedule) (hr : x.schedule.queue[index]? = some r) :
    (x.apply weight burst (.serve index)).virtualTime =
        max x.virtualTime (pricedFrom weight.toNat x.schedule.lastServedFinishTag r) ∧
      (x.apply weight burst (.serve index)).schedule.queue.map PendingRequest.unfinished =
        (x.schedule.queue.eraseIdx index).map PendingRequest.unfinished ∧
      (x.schedule.queue.eraseIdx index ≠ [] →
        (x.apply weight burst (.serve index)).schedule.lastServedFinishTag =
          pricedFrom weight.toNat x.schedule.lastServedFinishTag r) := by
  have hstart : max x.schedule.lastServedFinishTag r.wfqArrivalTag ≤ u128Max := by
    have hserved := h.served
    have harrived := h.arrived r (List.mem_of_getElem? hr)
    have hfits := h.fits
    omega
  have hbaseline : max x.schedule.lastServedFinishTag
      (pricedFrom weight.toNat x.schedule.lastServedFinishTag r) =
        pricedFrom weight.toNat x.schedule.lastServedFinishTag r :=
    Nat.max_eq_right ((le_max_left _ _).trans (le_pricedFrom hstart))
  simp only [TagState.apply, hr, h.serviceTag_eq hr]
  refine ⟨trivial, ?_, ?_⟩
  · unfold ClassSchedule.credited
    split
    · rename_i hempty
      rw [List.isEmpty_iff] at hempty
      have hempty : x.schedule.queue.eraseIdx index = [] := hempty
      rw [hempty]
      rfl
    · simp only
      split
      · exact unfinished_rebuilt _ _ _
      · rfl
  · intro hne
    have hnonempty : (x.schedule.dequeued index).queue.isEmpty = false := by
      simpa [ClassSchedule.dequeued] using hne
    unfold ClassSchedule.credited
    rw [if_neg (by simp [hnonempty])]
    simp only
    split
    · exact hbaseline
    · exact hbaseline

/-- A request that leaves unserved leaves the baseline alone. -/
theorem apply_cancel (weight burst : UInt32) {x : TagState} {index : Nat} {r : PendingRequest}
    (hr : x.schedule.queue[index]? = some r) :
    (x.apply weight burst (.cancel index)).virtualTime = x.virtualTime ∧
      (x.apply weight burst (.cancel index)).schedule.queue.map PendingRequest.unfinished =
        (x.schedule.queue.eraseIdx index).map PendingRequest.unfinished ∧
      (x.schedule.queue.eraseIdx index ≠ [] →
        (x.apply weight burst (.cancel index)).schedule.lastServedFinishTag =
          x.schedule.lastServedFinishTag) := by
  simp only [TagState.apply, hr]
  refine ⟨trivial, ?_, ?_⟩
  · unfold ClassSchedule.rederived
    split
    · rename_i hempty
      rw [List.isEmpty_iff] at hempty
      have hempty : x.schedule.queue.eraseIdx index = [] := hempty
      rw [hempty]
      rfl
    · exact unfinished_rebuilt _ _ _
  · intro hne
    have hnonempty : (x.schedule.dequeued index).queue.isEmpty = false := by
      simpa [ClassSchedule.dequeued] using hne
    unfold ClassSchedule.rederived
    rw [if_neg (by simp [hnonempty])]
    rfl

theorem apply_none {x : TagState} {index : Nat} (hr : x.schedule.queue[index]? = none) :
    x.apply weight burst (.serve index) = x ∧ x.apply weight burst (.cancel index) = x := by
  simp [TagState.apply, hr]

/-! ## The same history without one request -/

/-- The queue without the request at `position`, if there is one to leave out. -/
def others (position : Option Nat) (q : List PendingRequest) : List PendingRequest :=
  match position with
  | none => q
  | some p => q.eraseIdx p

/-- Two replays of one history: the second one never queued the request that is at `position` in the
first. They agree on the virtual time and on every other request, and every other request is priced
from the same baseline. -/
structure Twin (weight : Nat) (position : Option Nat) (x y : TagState) : Prop where
  time : y.virtualTime = x.virtualTime
  canonical : Canonical weight x.virtualTime x.schedule
  canonical' : Canonical weight y.virtualTime y.schedule
  requests : y.schedule.queue.map PendingRequest.unfinished =
    (others position x.schedule.queue).map PendingRequest.unfinished
  baseline : ∀ r ∈ others position x.schedule.queue,
    max x.schedule.lastServedFinishTag r.wfqArrivalTag = max y.schedule.lastServedFinishTag r.wfqArrivalTag
  present : ∀ p, position = some p → p < x.schedule.queue.length

section TwinRuns

variable {x y : TagState} {position : Option Nat}

theorem arrival_unfinished {r r' : PendingRequest} (h : r.unfinished = r'.unfinished) :
    r.wfqArrivalTag = r'.wfqArrivalTag := by
  have : r.unfinished.wfqArrivalTag = r'.unfinished.wfqArrivalTag := by rw [h]
  exact this

/-- Once the request is gone, the tags are the same. -/
theorem Twin.queue_eq {weight : Nat} (h : Twin weight none x y) : y.schedule.queue = x.schedule.queue := by
  have hrequests : y.schedule.queue.map PendingRequest.unfinished =
      x.schedule.queue.map PendingRequest.unfinished := h.requests
  have hbaseline : ∀ r ∈ x.schedule.queue, _ := h.baseline
  rw [← h.canonical'.tags, repriceQueue_congr weight hrequests]
  have htags := h.canonical.tags
  cases hqueue : x.schedule.queue with
  | nil => rfl
  | cons r rest =>
    rw [hqueue] at htags hbaseline
    rw [repriceQueue_cursor weight (hbaseline r List.mem_cons_self).symm]
    exact htags

/-- Service of another class moves virtual time on both sides alike. -/
theorem Twin.elsewhere (h : Twin weight.toNat position x y) {virtualTime : Nat}
    (hfits : virtualTime ≤ u128Max) :
    Twin weight.toNat position (x.apply weight burst (.elsewhere virtualTime))
      (y.apply weight burst (.elsewhere virtualTime)) := by
  refine ⟨?_, ?_, ?_, h.requests, h.baseline, h.present⟩
  · show max y.virtualTime virtualTime = max x.virtualTime virtualTime
    rw [h.time]
  · exact h.canonical.later (le_max_left _ _) (max_le h.canonical.fits hfits)
  · exact h.canonical'.later (le_max_left _ _) (max_le h.canonical'.fits hfits)

theorem others_append {q q' : List PendingRequest} (hpresent : ∀ p, position = some p → p < q.length) :
    others position (q ++ q') = others position q ++ q' := by
  cases position with
  | none => rfl
  | some p => exact List.eraseIdx_append_of_lt_length (hpresent p rfl) q'

/-- The other requests arrive in both. -/
theorem Twin.arrive (h : Twin weight.toNat position x y) (r : PendingRequest) :
    Twin weight.toNat position (x.apply weight burst (.arrive r)) (y.apply weight burst (.arrive r)) := by
  refine ⟨h.time, h.canonical.joined r, h.canonical'.joined r, ?_, ?_, ?_⟩
  · show (y.schedule.queue ++ [_]).map PendingRequest.unfinished =
      (others position (x.schedule.queue ++ [_])).map PendingRequest.unfinished
    rw [others_append h.present, List.map_append, List.map_append, h.requests]
    simp only [List.map_cons, List.map_nil, PendingRequest.unfinished, h.time]
  · show ∀ r' ∈ others position (x.schedule.queue ++ [_]), _
    intro r' hr'
    rw [others_append h.present, List.mem_append, List.mem_singleton] at hr'
    rcases hr' with hr' | rfl
    · exact h.baseline r' hr'
    · show max x.schedule.lastServedFinishTag x.virtualTime = max y.schedule.lastServedFinishTag x.virtualTime
      have hserved := h.canonical.served
      have hserved' := h.canonical'.served
      rw [h.time] at hserved'
      omega
  · intro p hp
    have := h.present p hp
    show p < (x.schedule.queue ++ [_]).length
    rw [List.length_append]
    omega

/-- The request to strike out arrives in the first only. -/
theorem Twin.extra (burst : UInt32) (h : Canonical weight.toNat x.virtualTime x.schedule)
    (r : PendingRequest) :
    Twin weight.toNat (some x.schedule.queue.length) (x.apply weight burst (.arrive r)) x := by
  have hothers : ∀ r', others (some x.schedule.queue.length) (x.schedule.queue ++ [r']) = x.schedule.queue := by
    intro r'
    simp [others, List.eraseIdx_append_of_length_le]
  refine ⟨rfl, h.joined r, h, ?_, ?_, ?_⟩
  · show _ = (others _ (x.schedule.queue ++ [_])).map PendingRequest.unfinished
    rw [hothers]
  · intro r' _
    rfl
  · intro p hp
    obtain rfl := Option.some.inj hp
    show x.schedule.queue.length < (x.schedule.queue ++ [_]).length
    rw [List.length_append, List.length_singleton]
    exact Nat.lt_succ_self _

theorem others_map (position : Option Nat) (q : List PendingRequest) :
    (others position q).map PendingRequest.unfinished = others position (q.map PendingRequest.unfinished) := by
  cases position with
  | none => rfl
  | some p => exact (List.eraseIdx_map _ _ _).symm

theorem ne_nil_of_others {q : List PendingRequest} {r : PendingRequest} (h : r ∈ others position q) : q ≠ [] := by
  rintro rfl
  cases position with
  | none => simp [others] at h
  | some p => simp [others] at h

/-- Two steps that take the same request out of both queues, and leave the same baseline unless a queue
drains, keep the replays together. -/
theorem Twin.removed {position' : Option Nat} {i j : Nat} {x' y' : TagState} {weight : Nat}
    (h : Twin weight position x y) (htime : y'.virtualTime = x'.virtualTime)
    (hcanonical : Canonical weight x'.virtualTime x'.schedule)
    (hcanonical' : Canonical weight y'.virtualTime y'.schedule)
    (hx : x'.schedule.queue.map PendingRequest.unfinished =
      (x.schedule.queue.eraseIdx i).map PendingRequest.unfinished)
    (hy : y'.schedule.queue.map PendingRequest.unfinished =
      (y.schedule.queue.eraseIdx j).map PendingRequest.unfinished)
    (hbaseline : x.schedule.queue.eraseIdx i ≠ [] → y.schedule.queue.eraseIdx j ≠ [] →
      ∀ r ∈ others position x.schedule.queue, max x'.schedule.lastServedFinishTag r.wfqArrivalTag =
        max y'.schedule.lastServedFinishTag r.wfqArrivalTag)
    (herase : others position' (x.schedule.queue.eraseIdx i) =
      (others position x.schedule.queue).eraseIdx j)
    (hpresent : ∀ p, position' = some p → p < (x.schedule.queue.eraseIdx i).length) :
    Twin weight position' x' y' := by
  have hqueues : (y.schedule.queue.eraseIdx j).map PendingRequest.unfinished =
      (others position' (x.schedule.queue.eraseIdx i)).map PendingRequest.unfinished := by
    rw [herase, ← List.eraseIdx_map, ← List.eraseIdx_map, h.requests]
  refine ⟨htime, hcanonical, hcanonical', ?_, ?_, ?_⟩
  · rw [hy, hqueues, others_map, others_map, hx]
  · intro r hr
    have hmem : r.unfinished ∈ (others position' (x.schedule.queue.eraseIdx i)).map
        PendingRequest.unfinished := by
      rw [others_map, ← hx, ← others_map]
      exact List.mem_map_of_mem hr
    have hyne : y.schedule.queue.eraseIdx j ≠ [] := by
      intro hnil
      rw [← hqueues, hnil] at hmem
      simp at hmem
    obtain ⟨r', hr', hsame⟩ := List.mem_map.mp hmem
    rw [← arrival_unfinished hsame]
    refine hbaseline (ne_nil_of_others hr') hyne r' ?_
    rw [herase] at hr'
    exact List.mem_of_mem_eraseIdx hr'
  · intro p hp
    have hlength := congrArg List.length hx
    rw [List.length_map, List.length_map] at hlength
    rw [hlength]
    exact hpresent p hp

/-- One of the other requests is served in both, at the same price. -/
theorem Twin.serve {position' : Option Nat} {i j : Nat} {r r' : PendingRequest}
    (h : Twin weight.toNat position x y) (hx : x.schedule.queue[i]? = some r)
    (hy : y.schedule.queue[j]? = some r') (hsame : r'.unfinished = r.unfinished)
    (hr : r ∈ others position x.schedule.queue)
    (herase : others position' (x.schedule.queue.eraseIdx i) =
      (others position x.schedule.queue).eraseIdx j)
    (hpresent : ∀ p, position' = some p → p < (x.schedule.queue.eraseIdx i).length) :
    Twin weight.toNat position' (x.apply weight burst (.serve i)) (y.apply weight burst (.serve j)) := by
  obtain ⟨htime, hqueue, hserved⟩ := apply_serve weight burst h.canonical hx
  obtain ⟨htime', hqueue', hserved'⟩ := apply_serve weight burst h.canonical' hy
  have hprice : pricedFrom weight.toNat y.schedule.lastServedFinishTag r' =
      pricedFrom weight.toNat x.schedule.lastServedFinishTag r :=
    (pricedFrom_unfinished hsame).trans (pricedFrom_congr (h.baseline r hr).symm)
  refine h.removed ?_ (h.canonical.apply (by simp)) (h.canonical'.apply (by simp)) hqueue hqueue' ?_ herase
    hpresent
  · rw [htime, htime', hprice, h.time]
  · intro hne hne' r'' _
    rw [hserved hne, hserved' hne', hprice]

/-- One of the other requests leaves both unserved. -/
theorem Twin.cancel {position' : Option Nat} {i j : Nat} {r r' : PendingRequest}
    (h : Twin weight.toNat position x y) (hx : x.schedule.queue[i]? = some r)
    (hy : y.schedule.queue[j]? = some r')
    (herase : others position' (x.schedule.queue.eraseIdx i) =
      (others position x.schedule.queue).eraseIdx j)
    (hpresent : ∀ p, position' = some p → p < (x.schedule.queue.eraseIdx i).length) :
    Twin weight.toNat position' (x.apply weight burst (.cancel i)) (y.apply weight burst (.cancel j)) := by
  obtain ⟨htime, hqueue, hserved⟩ := apply_cancel weight burst hx
  obtain ⟨htime', hqueue', hserved'⟩ := apply_cancel weight burst hy
  refine h.removed ?_ (h.canonical.apply (by simp)) (h.canonical'.apply (by simp)) hqueue hqueue' ?_ herase
    hpresent
  · rw [htime, htime', h.time]
  · intro hne hne' r'' hr''
    rw [hserved hne, hserved' hne']
    exact h.baseline r'' hr''

/-- The struck request leaves the first unserved. -/
theorem Twin.struck {p : Nat} (h : Twin weight.toNat (some p) x y) :
    Twin weight.toNat none (x.apply weight burst (.cancel p)) y := by
  have hr := List.getElem?_eq_getElem (h.present p rfl)
  obtain ⟨htime, hqueue, hserved⟩ := apply_cancel weight burst hr
  refine ⟨htime ▸ h.time, h.canonical.apply (by simp), h.canonical', ?_, ?_, ?_⟩
  · rw [h.requests]
    exact hqueue.symm
  · intro r' hr'
    have hmem : r'.unfinished ∈ (x.schedule.queue.eraseIdx p).map PendingRequest.unfinished := by
      rw [← hqueue]
      exact List.mem_map_of_mem hr'
    obtain ⟨r'', hr'', hsame⟩ := List.mem_map.mp hmem
    rw [hserved (List.ne_nil_of_mem hr''), ← arrival_unfinished hsame]
    exact h.baseline r'' hr''
  · intro p' hp'
    simp at hp'

/-- Once the queue is idle the struck request has left no trace. -/
theorem Twin.clear (h : Twin weight.toNat position x y) :
    Twin weight.toNat none (x.apply weight burst .clear) (y.apply weight burst .clear) := by
  refine ⟨h.time, Canonical.idle h.canonical.fits, Canonical.idle h.canonical'.fits, rfl, ?_, ?_⟩
  · intro r hr
    simp [others, TagState.apply, ClassSchedule.idle] at hr
  · intro p hp
    simp at hp

/-! ## Places in the queue -/

theorem getElem?_eraseIdx_shift {α : Type} (q : List α) {p i : Nat} (hne : i ≠ p) :
    (q.eraseIdx p)[if i < p then i else i - 1]? = q[i]? := by
  rw [List.getElem?_eraseIdx]
  by_cases hlt : i < p
  · simp [hlt]
  · rw [if_neg hlt, if_neg (by omega), Nat.sub_add_cancel (by omega)]

/-- Taking out two places in either order. -/
theorem eraseIdx_shift {α : Type} (q : List α) {p i : Nat} (hne : i ≠ p) :
    (q.eraseIdx i).eraseIdx (if i < p then p - 1 else p) =
      (q.eraseIdx p).eraseIdx (if i < p then i else i - 1) := by
  refine List.ext_getElem? fun n => ?_
  simp only [List.getElem?_eraseIdx]
  by_cases hlt : i < p
  · simp only [hlt, if_true]
    split_ifs <;> first | rfl | omega
  · simp only [hlt, if_false]
    split_ifs <;> first | rfl | omega

/-! ## Whole histories -/

theorem replay_cons (weight burst : UInt32) (x : TagState) (op : TagOp) (ops : List TagOp) :
    x.replay weight burst (op :: ops) = (x.apply weight burst op).replay weight burst ops := rfl

/-- A request of the first replay, found in the second. -/
theorem Twin.find {weight j : Nat} {r : PendingRequest} (h : Twin weight position x y)
    (hr : (others position x.schedule.queue)[j]? = some r) :
    ∃ r', y.schedule.queue[j]? = some r' ∧ r'.unfinished = r.unfinished := by
  have hmap : (y.schedule.queue.map PendingRequest.unfinished)[j]? = some r.unfinished := by
    rw [h.requests, List.getElem?_map, hr]
    rfl
  rw [List.getElem?_map, Option.map_eq_some_iff] at hmap
  exact hmap

theorem Twin.find_none {weight j : Nat} (h : Twin weight position x y)
    (hr : (others position x.schedule.queue)[j]? = none) : y.schedule.queue[j]? = none := by
  have hmap : (y.schedule.queue.map PendingRequest.unfinished)[j]? = none := by
    rw [h.requests, List.getElem?_map, hr]
    rfl
  rwa [List.getElem?_map, Option.map_eq_none_iff] at hmap

/-- The operations that follow keep the replays together once the struck request is gone. -/
theorem Twin.replay {ops : List TagOp} (h : Twin weight.toNat none x y)
    (hops : ∀ virtualTime, .elsewhere virtualTime ∈ ops → virtualTime ≤ u128Max) :
    Twin weight.toNat none (x.replay weight burst ops) (y.replay weight burst ops) := by
  induction ops generalizing x y with
  | nil => exact h
  | cons op rest ih =>
    have hrest : ∀ virtualTime, .elsewhere virtualTime ∈ rest → virtualTime ≤ u128Max := by
      intro virtualTime hmem
      exact hops virtualTime (List.mem_cons_of_mem _ hmem)
    rw [replay_cons, replay_cons]
    refine ih ?_ hrest
    cases op with
    | elsewhere virtualTime => exact h.elsewhere (hops virtualTime List.mem_cons_self)
    | arrive r => exact h.arrive r
    | clear => exact h.clear
    | serve i =>
      cases hr : x.schedule.queue[i]? with
      | none =>
        rw [(apply_none hr).1, (apply_none (h.find_none hr)).1]
        exact h
      | some r =>
        obtain ⟨r', hr', hsame⟩ := h.find hr
        exact h.serve hr hr' hsame (List.mem_of_getElem? hr) rfl (by simp)
    | cancel i =>
      cases hr : x.schedule.queue[i]? with
      | none =>
        rw [(apply_none hr).2, (apply_none (h.find_none hr)).2]
        exact h
      | some r =>
        obtain ⟨r', hr', _⟩ := h.find hr
        exact h.cancel hr hr' rfl (by simp)

/-- Where the struck request stands after another one left the queue from place `i`. -/
def placeAfter (p i : Nat) : Nat := if i < p then p - 1 else p

/-- The place of a request in the queue without the one at `p`. -/
def placeWithout (p i : Nat) : Nat := if i < p then i else i - 1

theorem placeAfter_lt {q : List PendingRequest} {p i : Nat} (hp : p < q.length) (hi : i < q.length)
    (hne : i ≠ p) : placeAfter p i < (q.eraseIdx i).length := by
  rw [List.length_eraseIdx_of_lt hi]
  unfold placeAfter
  split <;> omega

/-- Serving another request keeps the twins apart by the struck one only. -/
theorem Twin.serve_other {p i : Nat} (h : Twin weight.toNat (some p) x y) (hne : i ≠ p) :
    Twin weight.toNat (some (placeAfter p i)) (x.apply weight burst (.serve i))
      (y.apply weight burst (.serve (placeWithout p i))) := by
  have hplace : (others (some p) x.schedule.queue)[placeWithout p i]? = x.schedule.queue[i]? :=
    getElem?_eraseIdx_shift _ hne
  cases hr : x.schedule.queue[i]? with
  | none =>
    have hstays : placeAfter p i = p := by
      have := h.present p rfl
      have := List.getElem?_eq_none_iff.mp hr
      exact if_neg (by omega)
    rw [(apply_none hr).1, (apply_none (h.find_none (hplace.trans hr))).1, hstays]
    exact h
  | some r =>
    obtain ⟨r', hr', hsame⟩ := h.find (hplace.trans hr)
    refine h.serve hr hr' hsame (List.mem_of_getElem? (hplace.trans hr)) (eraseIdx_shift _ hne) ?_
    intro p' hp'
    obtain rfl := Option.some.inj hp'
    exact placeAfter_lt (h.present p rfl) (List.getElem?_eq_some_iff.mp hr).1 hne

/-- Cancelling another request keeps the twins apart by the struck one only. -/
theorem Twin.cancel_other {p i : Nat} (h : Twin weight.toNat (some p) x y) (hne : i ≠ p) :
    Twin weight.toNat (some (placeAfter p i)) (x.apply weight burst (.cancel i))
      (y.apply weight burst (.cancel (placeWithout p i))) := by
  have hplace : (others (some p) x.schedule.queue)[placeWithout p i]? = x.schedule.queue[i]? :=
    getElem?_eraseIdx_shift _ hne
  cases hr : x.schedule.queue[i]? with
  | none =>
    have hstays : placeAfter p i = p := by
      have := h.present p rfl
      have := List.getElem?_eq_none_iff.mp hr
      exact if_neg (by omega)
    rw [(apply_none hr).2, (apply_none (h.find_none (hplace.trans hr))).2, hstays]
    exact h
  | some r =>
    obtain ⟨r', hr', _⟩ := h.find (hplace.trans hr)
    refine h.cancel hr hr' (eraseIdx_shift _ hne) ?_
    intro p' hp'
    obtain rfl := Option.some.inj hp'
    exact placeAfter_lt (h.present p rfl) (List.getElem?_eq_some_iff.mp hr).1 hne

/-- Skipping past the service of another request shifts its index. -/
theorem skip_serve {p i : Nat} (hne : i ≠ p) (rest : List TagOp) : skip p (.serve i :: rest) =
    (skip (placeAfter p i) rest).map (.serve (placeWithout p i) :: ·) := by
  unfold placeAfter placeWithout
  rw [skip, if_neg hne]
  split <;> rfl

/-- Skipping past the cancellation of another request shifts its index. -/
theorem skip_cancel {p i : Nat} (hne : i ≠ p) (rest : List TagOp) : skip p (.cancel i :: rest) =
    (skip (placeAfter p i) rest).map (.cancel (placeWithout p i) :: ·) := by
  unfold placeAfter placeWithout
  rw [skip, if_neg hne]
  split <;> rfl

/-- Striking a request out of the operations that follow its arrival. The induction is on the
operations, the place of the request moves with them. -/
theorem Twin.skip {ops ops' : List TagOp} {p : Nat} (h : Twin weight.toNat (some p) x y)
    (hskip : skip p ops = some ops')
    (hops : ∀ virtualTime, .elsewhere virtualTime ∈ ops → virtualTime ≤ u128Max) :
    Twin weight.toNat none (x.replay weight burst ops) (y.replay weight burst ops') := by
  induction ops generalizing x y p ops' with
  | nil => simp [Taskmesh.skip] at hskip
  | cons op rest ih =>
    have hrest : ∀ virtualTime, .elsewhere virtualTime ∈ rest → virtualTime ≤ u128Max := by
      intro virtualTime hmem
      exact hops virtualTime (List.mem_cons_of_mem _ hmem)
    cases op with
    | elsewhere virtualTime =>
      obtain ⟨rest', hrest', rfl⟩ := Option.map_eq_some_iff.mp hskip
      rw [replay_cons, replay_cons]
      exact ih (h.elsewhere (hops virtualTime List.mem_cons_self)) hrest' hrest
    | arrive r =>
      obtain ⟨rest', hrest', rfl⟩ := Option.map_eq_some_iff.mp hskip
      rw [replay_cons, replay_cons]
      exact ih (h.arrive r) hrest' hrest
    | clear =>
      obtain rfl := Option.some.inj hskip
      exact h.clear.replay hrest
    | serve i =>
      by_cases hne : i = p
      · simp [Taskmesh.skip, hne] at hskip
      · rw [skip_serve hne] at hskip
        obtain ⟨rest', hrest', rfl⟩ := Option.map_eq_some_iff.mp hskip
        rw [replay_cons, replay_cons]
        exact ih (h.serve_other hne) hrest' hrest
    | cancel i =>
      by_cases hne : i = p
      · subst hne
        simp only [Taskmesh.skip, if_true, Option.some.injEq] at hskip
        subst hskip
        exact h.struck.replay hrest
      · rw [skip_cancel hne] at hskip
        obtain ⟨rest', hrest', rfl⟩ := Option.map_eq_some_iff.mp hskip
        rw [replay_cons, replay_cons]
        exact ih (h.cancel_other hne) hrest' hrest

/-- A history keeps the tags canonical as long as virtual time stays a `u128`. -/
theorem Canonical.replay {ops : List TagOp} (h : Canonical weight.toNat x.virtualTime x.schedule)
    (hops : ∀ virtualTime, .elsewhere virtualTime ∈ ops → virtualTime ≤ u128Max) :
    Canonical weight.toNat (x.replay weight burst ops).virtualTime (x.replay weight burst ops).schedule := by
  induction ops generalizing x with
  | nil => exact h
  | cons op rest ih =>
    rw [replay_cons]
    refine ih (h.apply ?_) ?_
    · rintro virtualTime rfl
      exact hops virtualTime List.mem_cons_self
    · intro virtualTime hmem
      exact hops virtualTime (List.mem_cons_of_mem _ hmem)

end TwinRuns

/-- The tags of a class are those of the history in which a request that left unserved was never
queued. -/
theorem struck_history {tr : List (GovernedState × ScheduleEvent)} (h : ScheduleTrace g {} tr s)
    (hfits : ∀ x ∈ tr, TagsFit g.policy x) (hknown : g.policy.classPolicy c = some policy)
    (hfair : policy.fairness = .weightedFairQueue weight burst) {before after after' : List TagOp}
    {r : PendingRequest} (hhistory : historyOf c tr s = before ++ .arrive r :: after)
    (hskip : skip (TagState.start.replay weight burst before).schedule.queue.length after = some after') :
    (TagState.start.replay weight burst (before ++ after')).schedule.queue = (s.cls c).queue ∧
      (TagState.start.replay weight burst (before ++ after')).virtualTime = s.virtualTime := by
  obtain ⟨hstate, hbounded⟩ := replay_historyOf h hfits hknown hfair
  rw [hhistory] at hstate hbounded
  have hbefore : ∀ virtualTime, .elsewhere virtualTime ∈ before → virtualTime ≤ u128Max := by
    intro virtualTime hmem
    exact hbounded virtualTime (List.mem_append_left _ hmem)
  have hafter : ∀ virtualTime, .elsewhere virtualTime ∈ after → virtualTime ≤ u128Max := by
    intro virtualTime hmem
    exact hbounded virtualTime (List.mem_append_right _ (List.mem_cons_of_mem _ hmem))
  have hstart : Canonical weight.toNat TagState.start.virtualTime TagState.start.schedule :=
    Canonical.idle (Nat.zero_le _)
  have htwin : Twin weight.toNat none (TagState.start.replay weight burst (before ++ .arrive r :: after))
      (TagState.start.replay weight burst (before ++ after')) := by
    rw [replay_append, replay_append, replay_cons]
    exact (Twin.extra burst (hstart.replay hbefore) r).skip hskip hafter
  rw [← hstate] at htwin
  exact ⟨htwin.queue_eq, htwin.time⟩

end Taskmesh
