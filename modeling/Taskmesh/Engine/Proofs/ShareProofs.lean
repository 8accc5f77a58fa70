import Taskmesh.Engine.Proofs.WeightedFairProofs

/-!
# Weighted-fair shares

While a weighted-fair class always has a runnable head, each of its services moves the tag of its head up
by one increment, and that tag stays within one increment of virtual time. Two such classes are therefore
served in proportion to their weights, up to one increment of each.
-/

namespace Taskmesh

open Std MachineInt GovernedState

variable {g : Governor} {s s' t : GovernedState} {c : TaskClass} {policy : ClassPolicy}
  {weight burst : UInt32} {tr : List (GovernedState × ScheduleEvent)}

/-! ## Contending classes -/

/-- The tag of the first request of a class. -/
def headTag (s : GovernedState) (c : TaskClass) : Nat :=
  ((s.cls c).queue.head?.map PendingRequest.finishTag).getD 0

/-- Whether a move is a dispatch of the class. -/
def dispatches (c : TaskClass) : GovernedState × ScheduleEvent → Nat
  | (_, .dispatched selection) => if selection.taskClass = c then 1 else 0
  | _ => 0

/-- How often the class is dispatched along a trace. -/
def dispatchTotal (c : TaskClass) (tr : List (GovernedState × ScheduleEvent)) : Nat :=
  (tr.map (dispatches c)).sum

theorem dispatchTotal_snoc (c : TaskClass) (tr : List (GovernedState × ScheduleEvent))
    (x : GovernedState × ScheduleEvent) :
    dispatchTotal c (tr ++ [x]) = dispatchTotal c tr + dispatches c x := by
  simp [dispatchTotal]

/-- The first request of the class could run now. -/
def HeadRunnable (g : Governor) (c : TaskClass) (policy : ClassPolicy) (s : GovernedState) : Prop :=
  ∃ head rest, (s.cls c).queue = head :: rest ∧
    isRunnableCandidate s g.policy policy.maxInflight.toNat (s.cls c) head = true

/-- The class has requests throughout, the first of which is runnable at every selection, and loses none
of them unserved. -/
structure Contends (g : Governor) (c : TaskClass) (policy : ClassPolicy)
    (tr : List (GovernedState × ScheduleEvent)) (t : GovernedState) : Prop where
  busy : ∀ x ∈ tr, (x.1.cls c).queue ≠ []
  busy_last : (t.cls c).queue ≠ []
  runnable : ∀ x ∈ tr, ∀ selection, x.2 = .dispatched selection → HeadRunnable g c policy x.1
  served : ∀ x ∈ tr, x.2 ≠ .emptied c ∧ ∀ index, x.2 ≠ .dropped c index

/-- A primary class that shares by weight. -/
structure SharesByWeight (g : Governor) (c : TaskClass) (policy : ClassPolicy) (weight burst : UInt32) :
    Prop where
  known : g.policy.classPolicy c = some policy
  fair : policy.fairness = .weightedFairQueue weight burst
  primary : policy.bestEffort = false

/-! ## One move -/

theorem headTag_cons {head : PendingRequest} {rest : List PendingRequest}
    (h : (s.cls c).queue = head :: rest) : headTag s c = head.finishTag := by
  simp [headTag, h]

theorem headTag_of_queue (h : (s'.cls c).queue = (s.cls c).queue) : headTag s' c = headTag s c := by
  unfold headTag
  rw [h]

/-- The tag of a head is at most one increment ahead of virtual time. -/
theorem WeightedFairTags.headTag_le (h : WeightedFairTags g s c policy weight)
    (hbusy : (s.cls c).queue ≠ []) :
    headTag s c ≤ s.virtualTime + wfqIncrement (resolveCost policy).cpuUnits weight.toNat := by
  obtain ⟨head, rest, hqueue⟩ := List.exists_cons_of_ne_nil hbusy
  rw [headTag_cons hqueue]
  have htag := h.exact 0 head (by rw [hqueue]; rfl)
  have hserved := h.served
  have harrived := h.arrived head (by rw [hqueue]; exact List.mem_cons_self)
  simp only [previousTag] at htag
  omega

/-- A runnable primary head keeps every other tier out. -/
theorem HeadRunnable.tier (h : HeadRunnable g c policy s) (hshares : SharesByWeight g c policy weight burst) :
    ∃ k ∈ contendedTier (runnableCandidates s g.policy), k.taskClass = c ∧ k.queueIndex = 0 ∧
      k.headFinishTag = headTag s c ∧ k.fairness = policy.fairness := by
  obtain ⟨head, rest, hqueue, hrun⟩ := h
  obtain ⟨k, hmem, hclass, hindex, htag, hfair, hbest⟩ := candidate_of_head hshares.known hqueue hrun
  refine ⟨k, ?_, hclass, hindex, ?_, hfair⟩
  · have hprimary : k.bestEffort = false := by rw [hbest, hshares.primary]
    have hany : ((runnableCandidates s g.policy).any fun c => !c.bestEffort) = true :=
      List.any_eq_true.mpr ⟨k, hmem, by simp [hprimary]⟩
    unfold contendedTier
    rw [List.mem_filter]
    refine ⟨hmem, ?_⟩
    simp [hany, hprimary]
  · rw [htag, headTag_cons hqueue]

/-- While the head of a weighted-fair class is runnable, every dispatch moves virtual time up to its tag,
which is no later than that of the head. -/
theorem HeadRunnable.serves (h : HeadRunnable g c policy s) (hshares : SharesByWeight g c policy weight burst)
    {first candidate : Candidate} {rest : List Candidate} {policy' : ClassPolicy} {head : PendingRequest}
    (hserves : Serves g s s' first rest candidate policy' head) :
    s'.virtualTime = max s.virtualTime candidate.headFinishTag ∧
      candidate.headFinishTag ≤ headTag s c := by
  obtain ⟨k, htier, hclass, hindex, htag, hfair⟩ := h.tier hshares
  have hpicked : candidate ∈ contendedTier (runnableCandidates s g.policy) := by
    rw [hserves.selects.tier]
    exact hserves.selects.picked
  have hkind : policy'.fairness.kind = .weightedFairQueue := by
    rw [← hserves.driven.fairness, tier_kind hpicked htier, hfair, hshares.fair]
    rfl
  rcases hserves.weighted with ⟨_, htime, hleast⟩ | ⟨hother, _⟩
  · refine ⟨htime, ?_⟩
    rw [← htag]
    exact hleast k htier
  · exact absurd hkind hother

/-- The runnable head of a class is the request it would be served. -/
theorem HeadRunnable.index_zero (h : HeadRunnable g c policy s) {candidate : Candidate}
    {head : PendingRequest} (hcandidate : IsCandidate s g.policy candidate policy head)
    (hclass : candidate.taskClass = c) : candidate.queueIndex = 0 := by
  subst hclass
  obtain ⟨head', rest, hqueue, hrun⟩ := h
  have hfirst := hcandidate.first
  rw [hqueue, List.findIdx?_cons, hrun] at hfirst
  exact (Option.some.inj hfirst).symm

/-- The service of the head brings up a head one increment later. -/
theorem headTag_served (htags : WeightedFairTags g s c policy weight)
    {head : PendingRequest} {rest : List PendingRequest} (hqueue : (s.cls c).queue = head :: rest)
    (hahead : s.virtualTime ≤ headTag s c) (hqueue' : (s'.cls c).queue = rest) (hbusy : rest ≠ []) :
    headTag s' c = headTag s c + wfqIncrement (resolveCost policy).cpuUnits weight.toNat := by
  obtain ⟨second, rest', rfl⟩ := List.exists_cons_of_ne_nil hbusy
  rw [headTag_cons hqueue] at hahead
  rw [headTag_cons hqueue', headTag_cons hqueue]
  have htag := htags.exact 1 second (by rw [hqueue]; rfl)
  have harrived := htags.arrived second (by rw [hqueue]; simp)
  simp only [previousTag, hqueue, List.getElem?_cons_zero, Option.map_some, Option.getD_some] at htag
  omega

/-- The service of a head takes it out of the queue and leaves the rest as it is. -/
theorem queue_credited_head (fairness : FairnessPolicy) (virtualTime tag : Nat) (c : ClassSchedule) :
    (c.credited fairness virtualTime 0 tag).queue = c.queue := by
  unfold ClassSchedule.credited
  split
  · rename_i hempty
    rw [List.isEmpty_iff.mp hempty]
    rfl
  · rfl

/-- What one move does to the head of a contending class. -/
theorem contends_step {event : ScheduleEvent} (hmove : ScheduleMove g s event s')
    (hshares : SharesByWeight g c policy weight burst) (htags : WeightedFairTags g s c policy weight)
    (hfits : TagsFit g.policy (s, event)) (hbusy : (s.cls c).queue ≠ []) (hbusy' : (s'.cls c).queue ≠ [])
    (hrunnable : ∀ selection, event = .dispatched selection → HeadRunnable g c policy s)
    (hserved : event ≠ .emptied c ∧ ∀ index, event ≠ .dropped c index)
    (hahead : s.virtualTime ≤ headTag s c) :
    s'.virtualTime ≤ headTag s' c ∧ headTag s' c = headTag s c +
      dispatches c (s, event) * wfqIncrement (resolveCost policy).cpuUnits weight.toNat := by
  cases hmove.class_cases c with
  | kept same time apart still =>
    have hqueue : (s'.cls c).queue = (s.cls c).queue := congrArg ClassSchedule.queue same
    have hnone : dispatches c (s, event) = 0 := by
      cases event with
      | dispatched selection => exact absurd rfl (still selection)
      | _ => rfl
    rw [headTag_of_queue hqueue, hnone, time]
    exact ⟨hahead, by omega⟩
  | shifted other rebased time known fair overflows =>
    exact absurd (enqueue_fits known fair hfits) (Nat.not_le.mpr overflows)
  | @arrived policy' tagged r known arrives =>
    obtain rfl : policy' = policy := Option.some.inj (known.symm.trans hshares.known)
    obtain ⟨htime, _, hjoined⟩ := arrives.joined hshares.fair (enqueue_fits known hshares.fair hfits)
    obtain ⟨head, rest, hqueue⟩ := List.exists_cons_of_ne_nil hbusy
    have hsame : headTag s' c = headTag s c := by
      have hqueue' : (s'.cls c).queue = (s.cls c).queue ++ _ := congrArg ClassSchedule.queue hjoined
      rw [hqueue, List.cons_append] at hqueue'
      rw [headTag_cons hqueue, headTag_cons hqueue']
    rw [hsame, htime]
    exact ⟨hahead, by simp [dispatches]⟩
  | @passed first candidate rest policy' head serves other =>
    obtain ⟨htime, hle⟩ := (hrunnable _ rfl).serves hshares serves
    have hqueue : (s'.cls c).queue = (s.cls c).queue := congrArg ClassSchedule.queue (serves.others c other)
    rw [headTag_of_queue hqueue, htime]
    refine ⟨max_le hahead hle, ?_⟩
    simp [dispatches, Candidate.dispatched, Ne.symm other]
  | @served first candidate rest policy' head serves own =>
    have hhead := hrunnable _ rfl
    obtain ⟨htime, hle⟩ := hhead.serves hshares serves
    subst own
    obtain rfl : policy' = policy := Option.some.inj (serves.driven.known.symm.trans hshares.known)
    have hindex := hhead.index_zero serves.driven rfl
    obtain ⟨first', rest', hqueue, _⟩ := hhead
    have hleft : (s'.cls candidate.taskClass).queue = rest' := by
      have hown := congrArg ClassSchedule.queue serves.own
      rw [hindex, queue_credited_head] at hown
      have hdequeued : (s'.cls candidate.taskClass).queue = (s.cls candidate.taskClass).queue.eraseIdx 0 := hown
      rw [hdequeued, hqueue]
      rfl
    have hnext := headTag_served htags hqueue hahead hleft (hleft ▸ hbusy')
    refine ⟨?_, ?_⟩
    · rw [hnext, htime]
      have := max_le hahead hle
      omega
    · rw [hnext]
      simp [dispatches, Candidate.dispatched]
  | dropped known found left time => exact absurd rfl (hserved.2 _)
  | emptied left time => exact absurd rfl hserved.1

/-! ## Whole runs -/

theorem Contends.busy_first (h : Contends g c policy tr t) (hrun : ScheduleTrace g s tr t) :
    (s.cls c).queue ≠ [] := by
  rcases hrun.start with rfl | ⟨event, hmem⟩
  · exact h.busy_last
  · exact h.busy (s, event) hmem

/-- Along a run the head of a contending class is paid for by its dispatches, and never behind virtual
time. -/
theorem contends_paid {past : List (GovernedState × ScheduleEvent)} (hpast : ScheduleTrace g {} past s)
    (hrun : ScheduleTrace g s tr t) (hfits : ∀ x ∈ past ++ tr, TagsFit g.policy x)
    (hshares : SharesByWeight g c policy weight burst) (hcontends : Contends g c policy tr t)
    (hahead : s.virtualTime ≤ headTag s c) :
    t.virtualTime ≤ headTag t c ∧ headTag t c = headTag s c +
      dispatchTotal c tr * wfqIncrement (resolveCost policy).cpuUnits weight.toNat := by
  induction hrun with
  | nil => exact ⟨hahead, by simp [dispatchTotal]⟩
  | @snoc t u tr event hbefore hmove ih =>
    have hlast : (t, event) ∈ tr ++ [(t, event)] := List.mem_append_right _ (List.mem_singleton_self _)
    have hearlier : ∀ x ∈ past ++ tr, TagsFit g.policy x := by
      intro x hx
      rw [← List.append_assoc] at hfits
      exact hfits x (List.mem_append_left _ hx)
    have hbusy := hcontends.busy (t, event) hlast
    have hcontends' : Contends g c policy tr t :=
      ⟨fun x hx => hcontends.busy x (List.mem_append_left _ hx), hbusy,
        fun x hx => hcontends.runnable x (List.mem_append_left _ hx),
        fun x hx => hcontends.served x (List.mem_append_left _ hx)⟩
    have htags := weightedFairTags_of_trace (hpast.append hbefore) hearlier hshares.known hshares.fair
    obtain ⟨hahead', htotal⟩ := ih hearlier hcontends'
    obtain ⟨hahead'', hstep⟩ := contends_step hmove hshares htags (hfits _ (List.mem_append_right _ hlast))
      hbusy hcontends.busy_last (hcontends.runnable (t, event) hlast) (hcontends.served (t, event) hlast)
      hahead'
    refine ⟨hahead'', ?_⟩
    rw [hstep, htotal, dispatchTotal_snoc, Nat.add_mul]
    omega

/-- The account of a contending class: its dispatches cover the progress of virtual time, up to one
increment. -/
theorem contends_account {past : List (GovernedState × ScheduleEvent)} (hpast : ScheduleTrace g {} past s)
    (hrun : ScheduleTrace g s tr t) (hfits : ∀ x ∈ past ++ tr, TagsFit g.policy x)
    (hshares : SharesByWeight g c policy weight burst) (hcontends : Contends g c policy tr t)
    (hahead : s.virtualTime ≤ headTag s c) {inc : Nat}
    (hinc : inc = wfqIncrement (resolveCost policy).cpuUnits weight.toNat) :
    (t.virtualTime ≤ headTag t c ∧ headTag t c ≤ t.virtualTime + inc) ∧
      s.virtualTime + dispatchTotal c tr * inc ≤ t.virtualTime + inc ∧
      t.virtualTime ≤ s.virtualTime + dispatchTotal c tr * inc + inc := by
  subst hinc
  obtain ⟨hlow, hpaid⟩ := contends_paid hpast hrun hfits hshares hcontends hahead
  have hstart := (weightedFairTags_of_trace hpast (fun x hx => hfits x (List.mem_append_left _ hx))
    hshares.known hshares.fair).headTag_le (hcontends.busy_first hrun)
  have hend := (weightedFairTags_of_trace (hpast.append hrun) hfits hshares.known
    hshares.fair).headTag_le hcontends.busy_last
  refine ⟨⟨hlow, hend⟩, ?_, ?_⟩
  · omega
  · omega

/-- Two classes that contend throughout a run that overflows nowhere are served in proportion to their
weights, up to one increment of each, and their heads stay within one increment of virtual time. -/
theorem wfq_proportional_service (g : Governor) :
    (∀ past s tr t, ScheduleTrace g {} past s → ScheduleTrace g s tr t →
      (∀ x ∈ past ++ tr, TagsFit g.policy x) →
      ∀ i j policy policy' weight weight' burst burst', SharesByWeight g i policy weight burst →
        SharesByWeight g j policy' weight' burst' → Contends g i policy tr t → Contends g j policy' tr t →
        s.virtualTime ≤ headTag s i → s.virtualTime ≤ headTag s j →
        let inc := wfqIncrement (resolveCost policy).cpuUnits weight.toNat
        let inc' := wfqIncrement (resolveCost policy').cpuUnits weight'.toNat
        |(dispatchTotal i tr * inc : Int) - dispatchTotal j tr * inc'| ≤ inc + inc' ∧
          (t.virtualTime ≤ headTag t i ∧ headTag t i ≤ t.virtualTime + inc) ∧
          t.virtualTime ≤ headTag t j ∧ headTag t j ≤ t.virtualTime + inc') ∧
    ∀ σ : g.System, g.Reachable σ → ∃ past, ScheduleTrace g {} past σ.state := by
  refine ⟨?_, fun σ h => reachable_trace h⟩
  intro past s tr t hpast hrun hfits i j policy policy' weight weight' burst burst' hi hj hcontends hcontends'
    hahead hahead'
  show |(dispatchTotal i tr * (wfqIncrement _ _ : Nat) : Int) - dispatchTotal j tr * (wfqIncrement _ _ : Nat)| ≤
    _ ∧ _
  obtain ⟨hhead, hleast, hmost⟩ := contends_account hpast hrun hfits hi hcontends hahead rfl
  obtain ⟨hhead', hleast', hmost'⟩ := contends_account hpast hrun hfits hj hcontends' hahead' rfl
  refine ⟨?_, hhead, hhead'⟩
  rw [abs_le]
  zify at hleast hmost hleast' hmost'
  refine ⟨?_, ?_⟩
  · linarith
  · linarith

namespace FairSample

/-- The state after one more task of the lighter class was queued. -/
def lighter (s : GovernedState) (n : Nat) : GovernedState :=
  enqueuedAt s (classPolicy (.weightedFairQueue 1 0)) ⟨"b"⟩ ⟨task "b" "y", .empty⟩ none ⟨⟨7, n⟩, ⟨7, n⟩, n⟩ .inflight

def third : GovernedState := lighter second 3

/-- Two tasks of each class are queued. -/
def crowd : GovernedState := lighter third 4

def past : List (GovernedState × ScheduleEvent) :=
  [({}, .enqueued ⟨"a"⟩), (first, .enqueued ⟨"a"⟩), (second, .enqueued ⟨"b"⟩), (third, .enqueued ⟨"b"⟩)]

def service : List (GovernedState × ScheduleEvent) := [(crowd, .dispatched ⟨⟨"a"⟩, 0, 2 ^ 63⟩)]

def served : GovernedState := (governor.promoteStep crowd.commitWatermarkMs crowd).1

theorem past_trace : ScheduleTrace governor {} past crowd := by
  have hheavy : ∀ s n, ScheduleMove governor s (.enqueued ⟨"a"⟩) (queued s n) := by
    intro s n
    exact ScheduleMove.enqueued (by decide +kernel) (by decide)
  have hlight : ∀ s n, ScheduleMove governor s (.enqueued ⟨"b"⟩) (lighter s n) := by
    intro s n
    exact ScheduleMove.enqueued (by decide +kernel) (by decide)
  exact Traces.Trace.snoc (Traces.Trace.snoc (Traces.Trace.snoc (Traces.Trace.single (hheavy {} 1))
    (hheavy first 2)) (hlight second 3)) (hlight third 4)

theorem service_trace : ScheduleTrace governor crowd service served := by
  exact Traces.Trace.single (ScheduleMove.of_select (by decide +kernel) (by decide +kernel))

theorem service_fits : ∀ x ∈ past ++ service, TagsFit governor.policy x := by
  have hfits : ((past ++ service).all fun x => (tagSums governor.policy x).all fun sum =>
      decide (sum ≤ u128Max)) = true := by decide +kernel
  intro x hx sum hsum
  simpa using List.all_eq_true.mp (List.all_eq_true.mp hfits x hx) sum hsum

/-- Both classes still have a request after the service. -/
theorem service_contends (c : TaskClass) (policy : ClassPolicy)
    (hrun : ((crowd.cls c).queue.head?.any (isRunnableCandidate crowd governor.policy
      policy.maxInflight.toNat (crowd.cls c))) = true) (hleft : (served.cls c).queue.length ≠ 0) :
    Contends governor c policy service served := by
  have hhead : HeadRunnable governor c policy crowd := by
    cases hqueue : (crowd.cls c).queue with
    | nil => simp [hqueue] at hrun
    | cons head rest => exact ⟨head, rest, hqueue, by simpa [hqueue] using hrun⟩
  have hone : ∀ x ∈ service, x = (crowd, .dispatched ⟨⟨"a"⟩, 0, 2 ^ 63⟩) := by
    intro x hx
    exact List.mem_singleton.mp hx
  refine ⟨?_, ?_, ?_, ?_⟩
  · intro x hx
    obtain ⟨head, rest, hqueue, _⟩ := hhead
    rw [hone x hx, hqueue]
    exact List.cons_ne_nil head rest
  · intro hnil
    exact hleft (by rw [hnil]; rfl)
  · intro x hx _ _
    rw [hone x hx]
    exact hhead
  · intro x hx
    rw [hone x hx]
    exact ⟨by simp, by simp⟩

end FairSample

/-- In the sample one task of the heavier class is served, and each class has its head within one increment
of virtual time. -/
theorem sample_shares :
    |(dispatchTotal ⟨"a"⟩ FairSample.service * wfqIncrement 1 2 : Int) -
      dispatchTotal ⟨"b"⟩ FairSample.service * wfqIncrement 1 1| ≤ wfqIncrement 1 2 + wfqIncrement 1 1 ∧
    headTag FairSample.served ⟨"a"⟩ ≤ FairSample.served.virtualTime + wfqIncrement 1 2 ∧
    headTag FairSample.served ⟨"b"⟩ ≤ FairSample.served.virtualTime + wfqIncrement 1 1 := by
  obtain ⟨hshare, ⟨_, hheavy⟩, _, hlight⟩ := (wfq_proportional_service FairSample.governor).1 FairSample.past
    FairSample.crowd FairSample.service FairSample.served FairSample.past_trace FairSample.service_trace
    FairSample.service_fits ⟨"a"⟩ ⟨"b"⟩ (FairSample.classPolicy (.weightedFairQueue 2 0))
    (FairSample.classPolicy (.weightedFairQueue 1 0)) 2 1 0 0 ⟨by decide +kernel, rfl, rfl⟩
    ⟨by decide +kernel, rfl, rfl⟩ (FairSample.service_contends _ _ (by decide +kernel) (by decide +kernel))
    (FairSample.service_contends _ _ (by decide +kernel) (by decide +kernel)) (by decide +kernel)
    (by decide +kernel)
  exact ⟨hshare, hheavy, hlight⟩

end Taskmesh
