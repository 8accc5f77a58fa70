import Taskmesh.Engine.Proofs.PanicProofs
import Taskmesh.Engine.Proofs.DeficitProofs

/-!
# Assessment and scheduling do not panic

The running totals of an ancestor walk are totals over live permits. The scheduler's unchecked
arithmetic is bounded by the costs of its heads, which are `u32` amounts, and by the number of
classes; a walked ring credits its winner with what its head costs.
-/

namespace Taskmesh

open Std MachineInt SetIndex QueueFamily ExtTreeMap Faults RingWalk

variable {g : Governor} {s s' : GovernedState} {policies : PolicySet} {n : Nat} {c : TaskClass}

/-- Every request waiting in a class costs a `u32` amount. -/
def SmallCosts (s : GovernedState) (c : TaskClass) : Prop :=
  ∀ r ∈ (s.cls c).queue, r.cost.cpuUnits ≤ u32Max

/-- Whatever waits in a class was priced by a class policy. -/
theorem SmallCosts.of_waiting (hq : QueueInv g s) (h : ∀ r ∈ s'.waiting c, r ∈ s.waiting c) : SmallCosts s' c := by
  intro r hr
  have hwaiting : r.untagged ∈ s'.waiting c := List.mem_map_of_mem hr
  obtain ⟨policy, hfits⟩ := hq.fits c r.untagged (h _ hwaiting)
  have hcost : r.cost = resolveCost policy := hfits.cost
  rw [hcost]
  exact (resolveCost_le policy).1

theorem QueueInv.smallCosts (hq : QueueInv g s) (c : TaskClass) : SmallCosts s c := SmallCosts.of_waiting hq fun _ hr => hr

/-- A policy whose classes fit an in-memory map: their number is below `isize::MAX`. -/
def PolicySet.FewClasses (policies : PolicySet) : Prop := policies.classes.size < 2 ^ 63

/-- There are at most as many candidates as classes. -/
theorem length_candidates_le (s : GovernedState) (policies : PolicySet) :
    (runnableCandidates s policies).length ≤ policies.classes.size := by
  have hnodup := (ascending_runnableCandidates s policies).nodup
  have hsub : (runnableCandidates s policies).map Candidate.taskClass ⊆ policies.classes.keys := by
    intro c hc
    obtain ⟨candidate, hmem, rfl⟩ := List.mem_map.mp hc
    obtain ⟨policy, head, hcandidate⟩ := isCandidate_of_mem hmem
    rw [ExtTreeMap.mem_keys, ExtTreeMap.mem_iff_isSome_getElem?]
    exact Option.isSome_iff_exists.mpr ⟨policy, hcandidate.known⟩
  have hle := (List.subperm_of_subset hnodup hsub).length_le
  rwa [List.length_map, ExtTreeMap.length_keys] at hle

/-! ## The ancestor walk -/

theorem length_awaitedChain (s : GovernedState) (fuel : Nat) (visited : List PermitId) (id : PermitId) :
    (awaitedChain s fuel visited id).length ≤ fuel := by
  induction fuel generalizing visited id with
  | zero => exact Nat.le_refl _
  | succ fuel ih =>
    unfold awaitedChain
    split
    · exact Nat.zero_le _
    · split
      · exact Nat.zero_le _
      · rw [List.length_cons]
        split
        · split
          · exact Nat.succ_le_succ (ih _ _)
          · simp
        · simp

/-- Every record of the walk is live. -/
theorem mem_awaitedChain {fuel : Nat} {visited : List PermitId} {id : PermitId} {record : PermitRecord}
    (h : record ∈ awaitedChain s fuel visited id) : ∃ p : PermitId, s.permits[p]? = some record := by
  induction fuel generalizing visited id with
  | zero => simp [awaitedChain] at h
  | succ fuel ih =>
    unfold awaitedChain at h
    split at h
    · simp at h
    · split at h
      · simp at h
      · rename_i found hfound
        rcases List.mem_cons.mp h with rfl | hrest
        · exact ⟨id, hfound⟩
        · split at hrest
          · split at hrest
            · exact ih hrest
            · simp at hrest
          · simp at hrest

namespace Panicky

/-- A total over an ancestor walk fits `u128` when every term is a `u32`. -/
theorem walked_sum_ok (hs : Sound g n s) (parent : PermitId) {f : PermitRecord → Nat}
    (hf : ∀ (p : PermitId) record, s.permits[p]? = some record → f record ≤ u32Max) :
    sum128 ((waitChain s parent).map f) = .ok ((waitChain s parent).map f).sum := by
  have hlength := length_awaitedChain s (s.permits.size + 1) [] parent
  have hbound := List.sum_le_card_nsmul ((waitChain s parent).map f) u32Max (by
    intro x hx
    obtain ⟨record, hrecord, rfl⟩ := List.mem_map.mp hx
    obtain ⟨p, found⟩ := mem_awaitedChain hrecord
    exact hf p record found)
  rw [List.length_map, smul_eq_mul] at hbound
  have hfew := hs.few
  have hmul : (waitChain s parent).length * u32Max ≤ 2 ^ 32 * u32Max :=
    Nat.mul_le_mul_right _ (by unfold waitChain; omega)
  refine sum128_ok (Nat.le_trans hbound (Nat.le_trans hmul ?_))
  simp only [u32Max, u128Max]
  omega

/-- The counters of a waiting chain stay within the live permits, so walking it never overflows. -/
theorem walkChain_ok (hs : Sound g n s) (parent : PermitId) (c : TaskClass) (pools : List CapabilityId) :
    walkChain (waitChain s parent) c pools = .ok () := by
  have hone : ∀ p : Prop, ∀ [Decidable p], (if p then 1 else 0) ≤ u32Max := by
    intro p _
    simp only [u32Max]
    split <;> omega
  have hpools : checkEach (fun id => do
      let _ ← sum128 ((waitChain s parent).map fun record => if id ∈ record.capabilities.ids then 1 else 0))
      pools = .ok () := by
    refine checkEach_ok fun id _ => ?_
    rw [walked_sum_ok hs parent fun _ _ _ => hone _]
    rfl
  unfold walkChain
  rw [walked_sum_ok hs parent fun _ _ _ => hone _, ok_bind, walked_sum_ok hs parent, ok_bind,
    walked_sum_ok hs parent, ok_bind]
  · exact hpools
  · intro p record found
    exact (hs.units p record found).effective
  · intro p record found
    obtain ⟨policy, hfits⟩ := hs.inv.permits p record found
    have hcpu : record.ledger.cpuUnits = (resolveCost policy).cpuUnits := hfits.cpu
    rw [hcpu]
    exact (resolveCost_le policy).1

/-- In a sound state the assessment of a scope panics nowhere: every sum it forms is bounded by live work.
-/
theorem assessScope_ok (hs : Sound g n s) (policies : PolicySet) (q : ScopeAssessment) :
    assessScope s policies q = .ok (Taskmesh.assessScope s policies q) := by
  have hwalk : walkParents s policies q = .ok () := by
    unfold walkParents
    simp only
    split
    · split
      · exact walkChain_ok hs _ _ _
      · rfl
    · rfl
  unfold assessScope
  rw [hwalk]
  rfl

theorem assessPending_ok (hs : Sound g n s) (policies : PolicySet) (r : PendingRequest)
    (maxInflight : Nat) (queuedBehind : Bool) :
    assessPending s policies r maxInflight queuedBehind =
      .ok (Taskmesh.assessPending s policies r maxInflight queuedBehind) := assessScope_ok hs policies _

/-! ## Weighted-fair increments -/

/-- A `u32` cost scaled by the weight base fits the `u128` the increment is computed in. -/
theorem wfqIncrement_ok {cost : Nat} (hcost : cost ≤ u32Max) (weight : Nat) :
    wfqIncrement cost weight = .ok (Taskmesh.wfqIncrement cost weight) := by
  have hscaled : max cost 1 * wfqScale ≤ u128Max := by
    simp only [u32Max, u128Max, wfqScale] at *
    omega
  unfold wfqIncrement
  rw [mulIn_ok hscaled, ok_bind, divBy_ok (by omega)]
  rfl

theorem priceCost_ok (fairness : FairnessPolicy) {cost : Nat} (hcost : cost ≤ u32Max) :
    priceCost fairness cost = .ok () := by
  cases fairness with
  | weightedFairQueue weight burst =>
    show (do let _ ← wfqIncrement cost weight.toNat) = _
    rw [wfqIncrement_ok hcost]
    rfl
  | fifo => rfl
  | deficitRoundRobin quantum => rfl
  | deadlineAware slackMs => rfl
  | bestEffortScavenger => rfl

/-- Pricing a queue panics nowhere, because every queued cost is a `u32`. -/
theorem priceQueue_ok (fairness : FairnessPolicy) (h : SmallCosts s c) :
    priceQueue fairness (s.cls c).queue = .ok () :=
  checkEach_ok fun r hr => priceCost_ok fairness (h r hr)

theorem enqueueTags_ok (s : GovernedState) (c : TaskClass) (policy : ClassPolicy) {cost : Nat}
    (hcost : cost ≤ u32Max) (enqueuedAtMs : Nat) :
    enqueueTags s c policy cost enqueuedAtMs = .ok (Taskmesh.enqueueTags s c policy cost enqueuedAtMs) := by
  unfold enqueueTags
  rw [priceCost_ok _ hcost]
  rfl

theorem onUnservedRemoved_ok (policy : ClassPolicy) (h : SmallCosts s c) :
    onUnservedRemoved s c policy = .ok (Taskmesh.onUnservedRemoved s c policy) := by
  unfold onUnservedRemoved
  rw [priceQueue_ok _ h]
  rfl

theorem onRequestServed_ok (policy : ClassPolicy) (h : SmallCosts s c) (queueIndex serviceFinishTag : Nat) :
    onRequestServed s c policy queueIndex serviceFinishTag =
      .ok (Taskmesh.onRequestServed s c policy queueIndex serviceFinishTag) := by
  unfold onRequestServed
  split
  · rw [priceQueue_ok _ h]
    rfl
  · rfl

/-! ## Candidates -/

theorem isRunnableCandidate_ok (hs : Sound g n s) (policies : PolicySet) (maxInflight : Nat)
    (cs : ClassState) (r : PendingRequest) :
    isRunnableCandidate s policies maxInflight cs r =
      .ok (Taskmesh.isRunnableCandidate s policies maxInflight cs r) := by
  unfold isRunnableCandidate Taskmesh.isRunnableCandidate
  cases cs.hasQueuedPredecessor r with
  | true => rfl
  | false =>
    simp only [Bool.false_eq_true, if_false, Bool.not_false, Bool.true_and]
    rw [assessPending_ok hs]
    rfl

/-- Finding the candidate of a class panics nowhere in a sound state. -/
theorem classCandidate_ok (hs : Sound g n s) (policies : PolicySet) (c : TaskClass) :
    classCandidate s policies c (s.cls c) = .ok (Taskmesh.classCandidate s policies c (s.cls c)) := by
  cases hpolicy : policies.classPolicy c with
  | none =>
    unfold classCandidate Taskmesh.classCandidate
    rw [hpolicy]
  | some policy =>
    have hfind := findIndex_ok (ε := Panic) (l := (s.cls c).queue) fun r _ =>
      isRunnableCandidate_ok hs policies policy.maxInflight.toNat (s.cls c) r
    cases hindex : (s.cls c).queue.findIdx?
        (Taskmesh.isRunnableCandidate s policies policy.maxInflight.toNat (s.cls c)) with
    | none =>
      unfold classCandidate Taskmesh.classCandidate
      simp only [hpolicy, hfind, hindex, ok_bind]
      rfl
    | some index =>
      rw [hindex] at hfind
      cases hhead : (s.cls c).queue[index]? with
      | none =>
        unfold classCandidate Taskmesh.classCandidate
        simp only [hpolicy, hfind, hindex, hhead, ok_bind]
        rfl
      | some head =>
        have hprice : priceCandidate policy.fairness index head = .ok () := by
          unfold priceCandidate
          split
          · rfl
          · exact priceCost_ok _ (hs.inv.queues.smallCosts c head (List.mem_of_getElem? hhead))
        unfold classCandidate
        simp only [hpolicy, hfind, hhead, hprice, ok_bind]
        rfl

/-- Collecting the candidates panics nowhere, class by class. -/
theorem runnableCandidates_ok (hs : Sound g n s) (policies : PolicySet) :
    runnableCandidates s policies = .ok (Taskmesh.runnableCandidates s policies) := by
  refine collect_ok fun entry hentry => ?_
  have hcs : s.classes[entry.1]? = some entry.2 := ExtTreeMap.mem_toList.mp hentry
  have hcls : s.cls entry.1 = entry.2 := by simp [GovernedState.cls, hcs]
  rw [← hcls]
  exact classCandidate_ok hs policies entry.1

theorem hasRunnable_ok (hs : Sound g n s) (policies : PolicySet) :
    hasRunnable s policies = .ok (Taskmesh.hasRunnable s policies) := by
  unfold hasRunnable
  rw [runnableCandidates_ok hs]
  rfl

/-! ## Deficit round robin -/

/-- A pool the scheduler may walk: few slots, each with a quantum and a `u32` head. -/
structure PoolFits (pool : List Candidate) : Prop where
  few : pool.length < 2 ^ 63
  quanta : ∀ c ∈ pool, 0 < drrQuantum c.fairness
  costs : ∀ c ∈ pool, c.headCostCpu ≤ u32Max
  ascending : Ascending pool

/-- The contended tier has at most one candidate for each class, hence fewer than `2 ^ 63`. -/
theorem poolFits_contendedTier (hq : QueueInv g s) (hclasses : g.policy.FewClasses) :
    PoolFits (contendedTier (Taskmesh.runnableCandidates s g.policy)) where
  few := by
    have hle : (contendedTier (Taskmesh.runnableCandidates s g.policy)).length ≤
        (Taskmesh.runnableCandidates s g.policy).length := List.length_filter_le _ _
    have hcandidates := length_candidates_le s g.policy
    unfold PolicySet.FewClasses at hclasses
    omega
  quanta c hc := quanta_pos g s (contendedTier_subset hc)
  costs c hc := by
    obtain ⟨policy, head, hcandidate⟩ := isCandidate_of_mem (contendedTier_subset hc)
    rw [hcandidate.cost]
    exact hq.smallCosts _ head (List.mem_of_getElem? hcandidate.queued)
  ascending := ascending_contendedTier s g.policy

section Ring

variable {pool : List Candidate} (hpool : PoolFits pool)

/-- A visit needed to pay for a head costs at most one unit each. -/
theorem visitsNeeded_le {cost deficit quantum : Nat} (hquantum : 0 < quantum) (hless : deficit < cost) :
    1 ≤ (cost - deficit + quantum - 1) / quantum ∧ (cost - deficit + quantum - 1) / quantum ≤ cost := by
  constructor
  · rw [Nat.le_div_iff_mul_le hquantum]
    omega
  · refine Nat.le_trans ?_ (Nat.sub_le cost deficit)
    rw [Nat.div_le_iff_le_mul_add_pred hquantum]
    have hmul : cost - deficit ≤ quantum * (cost - deficit) := Nat.le_mul_of_pos_left _ hquantum
    omega

include hpool

/-- One visit of the ring is planned without a panic, and its position stays below the bound `creditVisit`
needs. -/
theorem planVisit_ok {start index : Nat} {candidate : Candidate} (hstart : start < pool.length)
    (hindex : pool[index]? = some candidate) :
    planVisit s pool.length start (candidate, index) = .ok (plannedVisit s pool.length start index candidate) ∧
      (plannedVisit s pool.length start index candidate).visitPos < 2 ^ 96 := by
  have hmem := List.mem_of_getElem? hindex
  have hlt : index < pool.length := (List.getElem?_eq_some_iff.mp hindex).1
  have hfew := hpool.few
  have hquantum := hpool.quanta candidate hmem
  have hcost : max candidate.headCostCpu 1 ≤ u32Max := by
    have := hpool.costs candidate hmem
    simp only [u32Max] at *
    omega
  have hoffset : (index + pool.length - start) % pool.length < pool.length := Nat.mod_lt _ (by omega)
  -- However many visits are needed, their position fits.
  have hfits : ∀ needed, needed ≤ u32Max → (needed - 1) * pool.length ≤ u32Max * 2 ^ 63 :=
    fun needed hle => Nat.mul_le_mul (by omega) (by omega)
  have hplaced : ∀ needed, 1 ≤ needed → needed ≤ u32Max → ∀ visit : Nat → PlannedVisit, (do
      let skipped ← subOf .arithmetic needed 1
      let laps ← mulIn .arithmetic u128Max skipped pool.length
      let visitPos ← add128 ((index + pool.length - start) % pool.length) laps
      return visit visitPos : Panicky PlannedVisit) =
        .ok (visit ((index + pool.length - start) % pool.length + (needed - 1) * pool.length)) := by
    intro needed hone hle visit
    have hlaps := hfits needed hle
    rw [subOf_ok hone, ok_bind, mulIn_ok, ok_bind, add128_ok, ok_bind]
    · rfl
    · simp only [u32Max, u128Max] at *
      omega
    · simp only [u32Max, u128Max] at *
      omega
  unfold planVisit
  rw [add64_ok (by simp only [u64Max]; omega), ok_bind, subOf_ok (by omega), ok_bind, remBy_ok (by omega), ok_bind]
  by_cases hpaid : (s.cls candidate.taskClass).deficit ≥ max candidate.headCostCpu 1
  · have hone : 1 ≤ u32Max := by simp only [u32Max]; omega
    have hpos : plannedVisit s pool.length start index candidate =
        ⟨candidate.taskClass, drrQuantum candidate.fairness, max candidate.headCostCpu 1,
          (index + pool.length - start) % pool.length,
          (index + pool.length - start) % pool.length + (1 - 1) * pool.length⟩ := by
      have hneeded : Slot.needed ⟨candidate.taskClass, drrQuantum candidate.fairness,
          max candidate.headCostCpu 1⟩ (s.deficits candidate.taskClass) = 1 := if_pos hpaid
      unfold plannedVisit position
      rw [hneeded]
      rfl
    simp only [if_pos hpaid]
    rw [ok_bind, hplaced 1 (Nat.le_refl 1) hone, hpos]
    refine ⟨rfl, ?_⟩
    simp only
    omega
  · obtain ⟨hone, hle⟩ := visitsNeeded_le hquantum (Nat.lt_of_not_ge hpaid)
    have hlaps := hfits _ (Nat.le_trans hle hcost)
    have hpos : plannedVisit s pool.length start index candidate =
        ⟨candidate.taskClass, drrQuantum candidate.fairness, max candidate.headCostCpu 1,
          (index + pool.length - start) % pool.length,
          (index + pool.length - start) % pool.length +
            ((max candidate.headCostCpu 1 - (s.cls candidate.taskClass).deficit +
              drrQuantum candidate.fairness - 1) / drrQuantum candidate.fairness - 1) * pool.length⟩ := by
      have hneeded : Slot.needed ⟨candidate.taskClass, drrQuantum candidate.fairness,
          max candidate.headCostCpu 1⟩ (s.deficits candidate.taskClass) =
          (max candidate.headCostCpu 1 - (s.cls candidate.taskClass).deficit +
            drrQuantum candidate.fairness - 1) / drrQuantum candidate.fairness := if_neg hpaid
      unfold plannedVisit position
      rw [hneeded]
      rfl
    simp only [if_neg hpaid]
    rw [subOf_ok (by omega), ok_bind, divCeilBy_ok hquantum, ok_bind, hplaced _ hone (Nat.le_trans hle hcost),
      hpos]
    refine ⟨rfl, ?_⟩
    simp only [u32Max] at *
    omega

/-- Planning the visits of a whole round panics nowhere. -/
theorem planVisits_ok {start : Nat} (hstart : start < pool.length) :
    planVisits s pool start = .ok (Taskmesh.planVisits s pool start) := by
  refine mapEach_ok fun entry hentry => ?_
  obtain ⟨candidate, index⟩ := entry
  exact (planVisit_ok hpool hstart (List.mem_zipIdx_iff_getElem?.mp hentry)).1

theorem visitPos_lt {start : Nat} (hstart : start < pool.length) {v : PlannedVisit}
    (hv : v ∈ Taskmesh.planVisits s pool start) : v.visitPos < 2 ^ 96 := by
  obtain ⟨index, candidate, hindex, rfl⟩ := mem_planVisits_iff.mp hv
  exact (planVisit_ok hpool hstart hindex).2

omit hpool in
/-- Crediting a visit panics nowhere: the rounds and quanta it multiplies are small. -/
theorem creditVisit_ok {ringSize winningPos : Nat} (hsize : 0 < ringSize) (hpos : winningPos < 2 ^ 96)
    (s : GovernedState) (v : PlannedVisit) :
    creditVisit ringSize winningPos s v = .ok (Taskmesh.creditVisit ringSize winningPos s v) := by
  unfold creditVisit
  by_cases hmissed : v.offset > winningPos
  · rw [if_pos hmissed]
    unfold Taskmesh.creditVisit
    rw [if_pos hmissed]
    rfl
  · have hdiv : (winningPos - v.offset) / ringSize ≤ winningPos - v.offset := Nat.div_le_self _ _
    rw [if_neg hmissed, subOf_ok (by omega), ok_bind, divBy_ok hsize, ok_bind, add128_ok]
    · rfl
    · simp only [u128Max]
      omega

/-- The winner of a walk can pay for its head with what the walk credited. -/
theorem winner_affords {start : Nat} {first : PlannedVisit} {rest : List PlannedVisit}
    (hstart : start < pool.length) (hplan : Taskmesh.planVisits s pool start = first :: rest) (visits : Nat) :
    (earliestVisit first rest).cost ≤
      (((first :: rest).foldl (Taskmesh.creditVisit pool.length (earliestVisit first rest).visitPos)
        { s with drrRingVisits := visits }).cls (earliestVisit first rest).taskClass).deficit := by
  obtain ⟨winner, candidate, hwinner, hvisit, _⟩ := earliest_of_plan hplan
  have hmem := List.mem_of_getElem? hwinner
  have hquantum := hpool.quanta candidate hmem
  have hcost : max candidate.headCostCpu 1 ≤ u32Max := by
    have := hpool.costs candidate hmem
    simp only [u32Max] at *
    omega
  have hnodup : ((first :: rest).map PlannedVisit.taskClass).Nodup := by
    rw [← hplan, planVisits_classes]
    exact hpool.ascending.nodup
  have hcredited := (deficits_creditVisits pool.length (earliestVisit first rest).visitPos (first :: rest)
    { s with drrRingVisits := visits } hnodup).1 _ (earliestVisit_mem first rest)
  show (earliestVisit first rest).cost ≤ GovernedState.deficits _ (earliestVisit first rest).taskClass
  rw [hcredited, hvisit]
  -- The winning position is the offset of the slot and whole laps: as many credits as were planned.
  have hlap : offset pool.length start winner ≤ (plannedVisit s pool.length start winner candidate).visitPos :=
    Nat.le_add_right _ _
  rw [creditedDeficit_reached hlap]
  let slot : Slot TaskClass := ⟨candidate.taskClass, drrQuantum candidate.fairness, max candidate.headCostCpu 1⟩
  have hlaps : ((plannedVisit s pool.length start winner candidate).visitPos - offset pool.length start winner) /
      pool.length = slot.needed (s.deficits candidate.taskClass) - 1 := by
    show (offset pool.length start winner + (slot.needed (s.deficits candidate.taskClass) - 1) * pool.length -
      offset pool.length start winner) / pool.length = _
    rw [Nat.add_sub_cancel_left, Nat.mul_div_cancel _ (by omega)]
  have hneeded : slot.needed (s.deficits candidate.taskClass) ≤
      slot.needed (s.deficits candidate.taskClass) - 1 + 1 := by omega
  have hcovers : max candidate.headCostCpu 1 ≤ s.deficits candidate.taskClass +
      (slot.needed (s.deficits candidate.taskClass) - 1 + 1) * drrQuantum candidate.fairness :=
    (Slot.needed_le_iff hquantum (s.deficits candidate.taskClass) _).mp hneeded
  rw [hlaps]
  show max candidate.headCostCpu 1 ≤ saturatingAdd u128Max (s.deficits candidate.taskClass) _
  unfold saturatingAdd
  simp only [u32Max, u128Max] at *
  omega

/-- Deficit round robin panics nowhere on a pool that fits. -/
theorem drrSelect_ok (s : GovernedState) (hne : pool ≠ []) :
    drrSelect s pool = .ok (Taskmesh.drrSelect s pool) := by
  unfold drrSelect Taskmesh.drrSelect
  cases hserves : drrCursorServes s pool with
  | some c =>
    have hpaid : max c.headCostCpu 1 ≤ (s.cls c.taskClass).deficit := (drrCursorServes_eq_some hserves).2.2
    have hspend : spendDeficit s c.taskClass (max c.headCostCpu 1) =
        .ok (Taskmesh.spendDeficit s c.taskClass (max c.headCostCpu 1)) := by
      unfold spendDeficit
      rw [subOf_ok hpaid]
      rfl
    simp only
    rw [hspend]
    rfl
  | none =>
    have hstart := drrStart_lt s hne
    simp only
    rw [planVisits_ok hpool hstart, ok_bind]
    cases hplan : Taskmesh.planVisits s pool (drrStart s pool) with
    | nil => rfl
    | cons first rest =>
      have hpos : (earliestVisit first rest).visitPos < 2 ^ 96 :=
        visitPos_lt hpool hstart (hplan ▸ earliestVisit_mem first rest)
      have haffords := winner_affords hpool hstart hplan (saturatingAdd u64Max s.drrRingVisits pool.length)
      have hcredits : ∀ start, foldEach (creditVisit pool.length (earliestVisit first rest).visitPos) start
          (first :: rest) = .ok ((first :: rest).foldl
            (Taskmesh.creditVisit pool.length (earliestVisit first rest).visitPos) start) := by
        intro start
        refine foldEach_ok (I := fun _ => True) trivial fun s v _ _ => ⟨?_, trivial⟩
        exact creditVisit_ok (List.length_pos_iff.mpr hne) hpos s v
      simp only
      rw [hcredits, ok_bind, ensure_ok haffords]
      rfl

end Ring

/-! ## Selection -/

/-- Every discipline chooses its class without a panic. -/
theorem chooseClass_ok (s : GovernedState) {first : Candidate} {rest : List Candidate}
    (hpool : PoolFits (first :: rest)) :
    chooseClass s first (first :: rest) = .ok (dispatchChoice s first rest) := by
  unfold chooseClass dispatchChoice
  cases first.fairness with
  | fifo => rfl
  | bestEffortScavenger => rfl
  | weightedFairQueue weight burst => rfl
  | deadlineAware slackMs => rfl
  | deficitRoundRobin quantum => exact drrSelect_ok hpool s (List.cons_ne_nil first rest)

/-- A selection is the choice of its tier, answered with the candidate of the chosen class. -/
theorem select_eq_choice {first : Candidate} {rest : List Candidate}
    (htier : contendedTier (Taskmesh.runnableCandidates s policies) = first :: rest) :
    Taskmesh.select s policies = ((dispatchChoice s first rest).1,
      (dispatchChoice s first rest).2.bind (selectionOf (Taskmesh.runnableCandidates s policies))) := by
  have hnone : Taskmesh.runnableCandidates s policies ≠ [] := by
    intro hnil
    rw [contendedTier_eq_nil.mpr hnil] at htier
    simp at htier
  obtain ⟨_, picked, hpicked, hchoice⟩ := dispatchChoice_spec s first rest
  cases hfind : (Taskmesh.runnableCandidates s policies).find? fun d => decide (d.taskClass = picked.taskClass) with
  | none =>
    have hmem : picked ∈ Taskmesh.runnableCandidates s policies := contendedTier_subset (htier ▸ hpicked)
    exact absurd (List.find?_eq_none.mp hfind picked hmem) (by simp)
  | some candidate =>
    rw [select_eq htier hchoice hfind, hchoice, Option.bind_some]
    unfold selectionOf
    rw [hfind]
    rfl

/-- Selection as a whole panics nowhere in a sound state with fewer than `2 ^ 63` classes. -/
theorem select_ok (hs : Sound g n s) (hclasses : g.policy.FewClasses) :
    select s g.policy = .ok (Taskmesh.select s g.policy) := by
  have hfits := poolFits_contendedTier hs.inv.queues hclasses
  unfold select
  rw [runnableCandidates_ok hs, ok_bind]
  cases htier : contendedTier (Taskmesh.runnableCandidates s g.policy) with
  | nil =>
    rw [select_nil (contendedTier_eq_nil.mp htier)]
    rfl
  | cons first rest =>
    rw [htier] at hfits
    simp only
    rw [chooseClass_ok s hfits, ok_bind, select_eq_choice htier]
    rfl

/-! ## Retry hints -/

theorem applyFairness_ok {base : Nat} (hbase : base ≤ 2 ^ 40) (fairness : FairnessPolicy) :
    applyFairness base fairness = .ok (Taskmesh.applyFairness base fairness) := by
  have hadds : ∀ extra, extra ≤ 2 ^ 62 → add64 base extra = .ok (wrappingAdd u64Max base extra) := by
    intro extra hextra
    have hfits : base + extra ≤ u64Max := by
      simp only [u64Max]
      omega
    rw [add64_ok hfits, wrappingAdd_of_le hfits]
  cases fairness with
  | fifo => rfl
  | weightedFairQueue weight burst => rfl
  | deficitRoundRobin quantum =>
    have hquantum := quantum.toNat_lt
    exact hadds _ (by omega)
  | deadlineAware slackMs =>
    have hslack := slackMs.toNat_lt
    exact hadds _ (by omega)
  | bestEffortScavenger => exact hadds 200 (by omega)

/-- The retry hint is computed without a panic for any `u32` queue depth and load. -/
theorem retryAfter_ok (retry : RetryAfterPolicy) (fairness : FairnessPolicy) {queueDepth inflight : Nat}
    (hdepth : queueDepth ≤ u32Max) (hinflight : inflight ≤ u32Max) :
    retryAfter retry fairness queueDepth inflight =
      .ok (Taskmesh.retryAfter retry fairness queueDepth inflight) := by
  cases retry with
  | none => rfl
  | fixedMs value => rfl
  | adaptive =>
    have hfits : queueDepth * 10 ≤ u64Max ∧ inflight * 5 ≤ u64Max ∧ 50 + queueDepth * 10 ≤ u64Max ∧
        50 + queueDepth * 10 + inflight * 5 ≤ u64Max ∧ 50 + queueDepth * 10 + inflight * 5 ≤ 2 ^ 40 := by
      simp only [u32Max, u64Max] at *
      omega
    obtain ⟨hqueue, hlive, hqueued, htotal, hsmall⟩ := hfits
    show (do
      let queueStep ← mulIn Panic.arithmetic u64Max queueDepth 10
      let inflightStep ← mulIn Panic.arithmetic u64Max inflight 5
      let queued ← add64 50 queueStep
      let contention ← add64 queued inflightStep
      let hint ← applyFairness contention fairness
      return some hint) = _
    rw [mulIn_ok hqueue, ok_bind, mulIn_ok hlive, ok_bind, add64_ok hqueued, ok_bind, add64_ok htotal, ok_bind,
      applyFairness_ok hsmall]
    rfl

end Panicky

end Taskmesh
