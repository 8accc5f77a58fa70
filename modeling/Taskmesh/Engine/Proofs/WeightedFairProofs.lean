import Taskmesh.Engine.Proofs.TagHistoryProofs

/-!
# Weighted-fair queueing

The tags of a weighted-fair class are canonical in every run that overflows nowhere, so that the
service of a head, which rebuilds nothing, and the tag of an arrival, which looks at one number only,
are those of a full rebuild.
-/

namespace Taskmesh

open Std MachineInt GovernedState

variable {g : Governor} {s s' : GovernedState} {c : TaskClass} {policy : ClassPolicy} {weight burst : UInt32}

/-! ## What the tags of a class are -/

/-- Exact sums along the queue, behind the service of its class and within virtual time; what the next
request and a request behind the head will be tagged; and that a rebuild would change nothing. -/
structure WeightedFairTags (g : Governor) (s : GovernedState) (c : TaskClass) (policy : ClassPolicy)
    (weight : UInt32) : Prop where
  exact : ∀ (i : Nat) (r : PendingRequest), (s.cls c).queue[i]? = some r →
    r.finishTag = max (previousTag (s.cls c).lastServedFinishTag (s.cls c).queue i) r.wfqArrivalTag +
      wfqIncrement (resolveCost policy).cpuUnits weight.toNat
  served : (s.cls c).lastServedFinishTag ≤ s.virtualTime
  arrivals : (s.cls c).queue.Pairwise fun r r' => r.wfqArrivalTag ≤ r'.wfqArrivalTag
  arrived : ∀ r ∈ (s.cls c).queue, r.wfqArrivalTag ≤ s.virtualTime
  next : ∀ (s' : GovernedState) (last : PendingRequest), ScheduleMove g s (.enqueued c) s' →
    TagsFit g.policy (s, .enqueued c) → (s.cls c).queue.getLast? = some last →
    ∃ r, (s'.cls c).queue.getLast? = some r ∧ r.wfqArrivalTag = s.virtualTime ∧
      r.finishTag = max last.finishTag s.virtualTime +
        wfqIncrement (resolveCost policy).cpuUnits weight.toNat
  rebuild : (rebuildWfqQueue weight.toNat s.virtualTime (s.cls c)).queue = (s.cls c).queue
  overtaking : ∀ candidate ∈ runnableCandidates s g.policy, candidate.taskClass = c →
    candidate.queueIndex ≠ 0 →
    ((repriceQueue weight.toNat (s.cls c).lastServedFinishTag
      ((s.cls c).queue.drop candidate.queueIndex)).1.head?.map PendingRequest.finishTag) =
        some candidate.headFinishTag

theorem repriceQueue_singleton (weight cursor : Nat) (r : PendingRequest) :
    repriceQueue weight cursor [r] =
      ([{ r with finishTag := pricedFrom weight cursor r }], pricedFrom weight cursor r) := rfl

/-- The cursor a rebuild ends with is the tag of the last request. -/
theorem Canonical.last_tag {weight virtualTime : Nat} {c : ClassSchedule} {last : PendingRequest}
    (h : Canonical weight virtualTime c) (hlast : c.queue.getLast? = some last) :
    (repriceQueue weight c.lastServedFinishTag c.queue).2 = last.finishTag := by
  obtain ⟨front, hqueue⟩ := List.getLast?_eq_some_iff.mp hlast
  have htags := h.tags
  rw [hqueue, repriceQueue_append, repriceQueue_singleton] at htags ⊢
  generalize pricedFrom weight _ last = tag at htags ⊢
  have hends := (List.append_inj' htags (by simp)).2
  rw [List.cons.injEq] at hends
  exact congrArg PendingRequest.finishTag hends.1

/-- The tag of an arrival behind others. -/
theorem Arrives.tag_eq {tagged : GovernedState} {r : PendingRequest}
    (h : Arrives s s' c policy tagged r) (hfair : policy.fairness = .weightedFairQueue weight burst)
    (hfits : max (s.cls c).lastFinishTag s.virtualTime +
      wfqIncrement (resolveCost policy).cpuUnits weight.toNat ≤ u128Max) :
    r.wfqArrivalTag = s.virtualTime ∧ r.finishTag = max (s.cls c).lastFinishTag s.virtualTime +
      wfqIncrement (resolveCost policy).cpuUnits weight.toNat := by
  have htagging := h.tagging
  generalize r.finishTag = tag at htagging ⊢
  generalize r.wfqArrivalTag = arrival at htagging ⊢
  cases htagging with
  | untagged plain => exact absurd hfair (plain weight burst)
  | exact fair sum fits =>
    obtain ⟨rfl, _⟩ := FairnessPolicy.weightedFairQueue.inj (fair.symm.trans hfair)
    exact ⟨rfl, sum⟩
  | rebased fair sum overflows =>
    obtain ⟨rfl, _⟩ := FairnessPolicy.weightedFairQueue.inj (fair.symm.trans hfair)
    exact absurd hfits (Nat.not_le.mpr overflows)

theorem last_enqueuedAt (s : GovernedState) (policy : ClassPolicy) (c : TaskClass) (request : AdmissionRequest)
    (waker : Option Waker) (ids : Ids) (blockedOn : CapacityBlock) :
    ∃ r, ((enqueuedAt s policy c request waker ids blockedOn).cls c).queue.getLast? = some r := by
  obtain ⟨tagged, r, harrives⟩ := arrives_enqueuedAt s policy c request waker ids blockedOn
  refine ⟨r, ?_⟩
  show ((enqueuedAt s policy c request waker ids blockedOn).cls c).schedule.queue.getLast? = some r
  rw [harrives.own]
  exact List.getLast?_concat

theorem weightedFairTags (hinv : TagInv g s) (hpriced : Priced g s)
    (hknown : g.policy.classPolicy c = some policy)
    (hfair : policy.fairness = .weightedFairQueue weight burst) : WeightedFairTags g s c policy weight := by
  have hcanonical := hinv.canonical c policy weight burst hknown hfair
  have hunclipped := hinv.unclipped c policy weight burst hknown hfair
  refine ⟨?_, hcanonical.served, hcanonical.arrivals, hcanonical.arrived, ?_, hcanonical.tags, ?_⟩
  · intro i r hr
    have htag := exact_of_fixed hcanonical.tags hunclipped i r hr
    rwa [hpriced c policy hknown r (List.mem_of_getElem? hr)] at htag
  · intro s' last hmove hfits hlast
    have hsum := enqueue_fits hknown hfair hfits
    cases hmove.class_cases c with
    | kept same time apart still => exact absurd rfl apart
    | shifted other rebased time known fair overflows => exact absurd rfl other
    | @arrived policy' tagged r known arrives =>
      obtain rfl : policy' = policy := Option.some.inj (known.symm.trans hknown)
      obtain ⟨harrival, htag⟩ := arrives.tag_eq hfair hsum
      refine ⟨r, (arrives.joined hfair hsum).2.1, harrival, ?_⟩
      rw [htag]
      congr 1
      exact hcanonical.next.trans (by rw [hcanonical.last_tag hlast])
  · intro candidate hmem hclass hindex
    subst hclass
    obtain ⟨policy', head, hcandidate⟩ := isCandidate_of_mem hmem
    obtain rfl : policy' = policy := Option.some.inj (hcandidate.known.symm.trans hknown)
    obtain ⟨hlt, hhead⟩ := List.getElem?_eq_some_iff.mp hcandidate.queued
    rw [List.drop_eq_getElem_cons hlt, hhead, repriceQueue_cons, List.head?_cons, hcandidate.tag, hfair]
    simp only [serviceTag, if_neg hindex, Option.map_some]
    rfl

theorem weightedFairTags_of_trace {tr : List (GovernedState × ScheduleEvent)} (h : ScheduleTrace g {} tr s)
    (hfits : ∀ x ∈ tr, TagsFit g.policy x) (hknown : g.policy.classPolicy c = some policy)
    (hfair : policy.fairness = .weightedFairQueue weight burst) : WeightedFairTags g s c policy weight := by
  have hpriced : Priced g s := h.invariant (fun _ _ _ h hmove => h.step hmove) (Priced.init g)
  exact weightedFairTags (TagInv.of_trace h hfits) hpriced hknown hfair

/-- In every state of a run that overflows nowhere the tags of a weighted-fair class are canonical, and
those of the history in which a request that left unserved was never queued. -/
theorem wfq_tags_canonical (g : Governor) :
    (∀ tr s, ScheduleTrace g {} tr s → (∀ x ∈ tr, TagsFit g.policy x) →
      ∀ c policy weight burst, g.policy.classPolicy c = some policy →
        policy.fairness = .weightedFairQueue weight burst →
        WeightedFairTags g s c policy weight ∧
        ∀ before r after after', historyOf c tr s = before ++ .arrive r :: after →
          skip (TagState.start.replay weight burst before).schedule.queue.length after = some after' →
          (TagState.start.replay weight burst (before ++ after')).schedule.queue = (s.cls c).queue ∧
            (TagState.start.replay weight burst (before ++ after')).virtualTime = s.virtualTime) ∧
    ∀ σ : g.System, g.Reachable σ → ∃ tr, ScheduleTrace g {} tr σ.state := by
  refine ⟨?_, fun σ h => reachable_trace h⟩
  intro tr s htrace hfits c policy weight burst hknown hfair
  refine ⟨weightedFairTags_of_trace htrace hfits hknown hfair, ?_⟩
  intro before r after after' hhistory hskip
  exact struck_history htrace hfits hknown hfair hhistory hskip

namespace FairSample

/-- The state after one more task of the heavier class was queued. -/
def queued (s : GovernedState) (n : Nat) : GovernedState :=
  enqueuedAt s (classPolicy (.weightedFairQueue 2 0)) ⟨"a"⟩ ⟨task "a" "x", .empty⟩ none ⟨⟨7, n⟩, ⟨7, n⟩, n⟩ .inflight

def first : GovernedState := queued {} 1

def second : GovernedState := queued first 2

/-- The first of the two left unserved. -/
def cancelled : GovernedState :=
  match (second.cls ⟨"a"⟩).queue with
  | r :: _ =>
    onUnservedRemoved (second.removedPending ⟨"a"⟩ 0 r) ⟨"a"⟩ (classPolicy (.weightedFairQueue 2 0))
  | [] => second

def cancelling : List (GovernedState × ScheduleEvent) :=
  [({}, .enqueued ⟨"a"⟩), (first, .enqueued ⟨"a"⟩), (second, .dropped ⟨"a"⟩ 0)]

theorem cancelling_trace : ScheduleTrace governor {} cancelling cancelled := by
  have hknown : governor.policy.classPolicy ⟨"a"⟩ = some (classPolicy (.weightedFairQueue 2 0)) := by
    decide +kernel
  have hqueued : ∀ s n, ScheduleMove governor s (.enqueued ⟨"a"⟩) (queued s n) := by
    intro s n
    exact ScheduleMove.enqueued hknown (by decide)
  have hdropped : ScheduleMove governor second (.dropped ⟨"a"⟩ 0) cancelled := by
    unfold cancelled
    cases hqueue : (second.cls ⟨"a"⟩).queue with
    | nil =>
      have hlength : (second.cls ⟨"a"⟩).queue.length = 2 := by decide +kernel
      simp [hqueue] at hlength
    | cons r rest =>
      exact ScheduleMove.dropped hknown (by rw [hqueue]; rfl) (SameSchedule.refl _) (Ages.of_permits rfl rfl)
  exact Traces.Trace.snoc (Traces.Trace.snoc (Traces.Trace.single (hqueued {} 1)) (hqueued first 2)) hdropped

theorem cancelling_fits : ∀ x ∈ cancelling, TagsFit governor.policy x := by
  have hfits : (cancelling.all fun x => (tagSums governor.policy x).all fun sum => decide (sum ≤ u128Max)) =
      true := by decide +kernel
  intro x hx sum hsum
  simpa using List.all_eq_true.mp (List.all_eq_true.mp hfits x hx) sum hsum

end FairSample

/-- In the sample the request that is left has the tag it would have had alone. -/
theorem sample_tags : ∃ r, (TagState.start.replay 2 0 [.arrive r]).schedule.queue =
      (FairSample.cancelled.cls ⟨"a"⟩).queue ∧
    WeightedFairTags FairSample.governor FairSample.cancelled ⟨"a"⟩
      (FairSample.classPolicy (.weightedFairQueue 2 0)) 2 := by
  have hlast : ∀ s n, ∃ r, ((FairSample.queued s n).cls ⟨"a"⟩).queue.getLast? = some r := by
    intro s n
    exact last_enqueuedAt s _ _ _ _ _ _
  obtain ⟨r, hr⟩ := hlast {} 1
  obtain ⟨r', hr'⟩ := hlast FairSample.first 2
  have hhistory : historyOf ⟨"a"⟩ FairSample.cancelling FairSample.cancelled =
      [] ++ .arrive r.untagged :: [.arrive r'.untagged, .cancel 0] := by
    have hfirst : (FairSample.first.cls ⟨"a"⟩).queue.getLast? = some r := hr
    have hsecond : (FairSample.second.cls ⟨"a"⟩).queue.getLast? = some r' := hr'
    simp [historyOf, FairSample.cancelling, opsOf, hfirst, hsecond]
  obtain ⟨htags, hstruck⟩ := (wfq_tags_canonical FairSample.governor).1 FairSample.cancelling
    FairSample.cancelled FairSample.cancelling_trace FairSample.cancelling_fits ⟨"a"⟩
    (FairSample.classPolicy (.weightedFairQueue 2 0)) 2 0 (by decide +kernel) rfl
  exact ⟨r'.untagged, (hstruck [] r.untagged _ [.arrive r'.untagged] hhistory rfl).1, htags⟩

end Taskmesh
