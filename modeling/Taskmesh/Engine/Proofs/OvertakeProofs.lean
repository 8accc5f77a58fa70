import Taskmesh.Engine.Proofs.ContinuationProofs

/-!
# Newcomers and the queue of their class

A newcomer that is admitted directly found room in every dimension. A queued request of its class has
the same cost, so what keeps the first request of another domain waiting can only be a pool. Between
two promotion passes nothing may keep it waiting at all: then the newcomer overtakes it.
-/

namespace Taskmesh

open Std MachineInt Governor

variable {g : Governor} {s : GovernedState} {σ σ' : g.System} {c : TaskClass} {r : PendingRequest}

/-- The request is queued in the class and nothing of its domain arrived earlier. -/
def FirstInLine (s : GovernedState) (c : TaskClass) (r : PendingRequest) : Prop :=
  r ∈ (s.cls c).queue ∧ ∀ r' ∈ (s.cls c).queue, r'.capabilities.intersects r.capabilities = true →
    ¬ r'.queueOrder < r.queueOrder

/-- A pool the request needs has no free slot. -/
def WaitsForPool (g : Governor) (s : GovernedState) (r : PendingRequest) : Prop :=
  ∃ id ∈ r.capabilities.ids, poolBlocked s g.policy id = true

/-- A request that waits for a pool is not runnable. -/
theorem RunnableCandidate.not_waitsForPool (h : RunnableCandidate g s c r) : ¬ WaitsForPool g s r := by
  rintro ⟨id, hid, hblocked⟩
  obtain ⟨policy, _, hrun⟩ := h.runnable
  obtain ⟨_, hpools, _⟩ := BlockerSet.isEmpty_iff.mp (assessScope_runnable hrun).1
  exact List.filter_eq_nil_iff.mp hpools id hid hblocked

/-- Where a newcomer of the class fits, the first request of a domain is kept waiting by a pool, or it
is runnable. -/
theorem RunnableCandidate.of_room (hinv : QueueInv g s) {policy : ClassPolicy}
    {capabilities : CapabilityRequirementSet} (hpolicy : g.policy.classPolicy c = some policy)
    (hroom : (blockersFor s g.policy c policy.maxInflight.toNat (resolveCost policy)
      capabilities).isEmpty = true)
    (hfirst : FirstInLine s c r) (hpool : ¬ WaitsForPool g s r) : RunnableCandidate g s c r := by
  obtain ⟨policy', hfits⟩ := hinv.fits c r.untagged (List.mem_map_of_mem hfirst.1)
  obtain rfl : policy = policy' := Option.some.inj (hpolicy.symm.trans hfits.known)
  obtain ⟨hinflight, _, hcpu, hmemory, _, hfault⟩ := BlockerSet.isEmpty_iff.mp hroom
  have hcost : r.cost = resolveCost policy := hfits.cost
  have hclass : r.taskClass = c := hfits.taskClass
  have hsound : s.accountingFault.isSome = false := by
    simp only [blockersFor, Bool.or_eq_false_iff] at hfault
    exact hfault.1
  have hregistered : (r.capabilities.ids.any fun id => (g.policy.capabilityRecord id).isNone) = false := by
    rw [List.any_eq_false]
    intro id hid
    have hmem := hfits.registered id hid
    rw [ExtTreeMap.mem_iff_isSome_getElem?] at hmem
    simp [PolicySet.capabilityRecord, Option.isSome_iff_ne_none.mp hmem]
  have hfree : (blockersFor s g.policy r.taskClass policy.maxInflight.toNat r.cost
      r.capabilities).isEmpty = true := by
    rw [hclass, hcost]
    refine BlockerSet.isEmpty_iff.mpr ⟨hinflight, ?_, hcpu, hmemory, rfl, ?_⟩
    · refine List.filter_eq_nil_iff.mpr fun id hid hblocked => hpool ⟨id, hid, hblocked⟩
    · simp only [blockersFor, Bool.or_eq_false_iff]
      exact ⟨hsound, hregistered⟩
  have hcandidate : isRunnableCandidate s g.policy policy.maxInflight.toNat (s.cls c) r = true :=
    isRunnableCandidate_iff.mpr ⟨(hinv.predecessor_iff c r).mpr hfirst.2, hfree⟩
  simp only [isRunnableCandidate, Bool.and_eq_true, decide_eq_true_eq] at hcandidate
  exact ⟨hfirst.1, hfirst.2, policy, hpolicy, hcandidate.2⟩

/-- A direct admission overtakes no runnable request of its class exactly when no continuation is owed
or every first request in line waits for a pool that is full. -/
theorem newcomer_overtakes_nothing_iff (g : Governor) (σ σ' : g.System) (i : Nat) (ids : Ids)
    (p : PermitId) (h : g.Reachable σ) (hstep : g.step σ (.enter i) = some (σ', .decided ids (.admitted p))) :
    ∃ record, σ'.state.permits[p]? = some record ∧
      ((∀ r, ¬ RunnableCandidate g σ.state record.taskClass r) ↔
        σ.state.promotionPending = false ∨
          ∀ r, FirstInLine σ.state record.taskClass r → WaitsForPool g σ.state r) := by
  have hinv := SysInv.of_reachable h
  obtain ⟨intake, sampledMs, ids', decision, _, hevent, hentered⟩ := hinv.step_entered hstep
  obtain ⟨rfl, rfl⟩ : ids = ids' ∧ AdmissionDecision.admitted p = decision := by simpa using hevent
  generalize hs' : σ'.state = s' at hentered
  cases hentered with
  | @granted policy c accepted runnable =>
    have hfree := (assessScope_runnable runnable).1
    refine ⟨(directGrant (σ.state.commitTime sampledMs) policy c intake.request ids _).record,
      ExtTreeMap.getElem?_insert_self, ?_⟩
    show (∀ r, ¬ RunnableCandidate g σ.state c r) ↔ _ ∨ ∀ r, FirstInLine σ.state c r → _
    constructor
    · intro hnone
      refine Or.inr fun r hfirst => ?_
      by_contra hpool
      exact hnone r (RunnableCandidate.of_room hinv.state.queues accepted.known hfree hfirst hpool)
    · rintro (hpending | hpools) r hrun
      · have hrunnable := (PromotionInv.of_reachable h).flagged
          (hinv.state.queues.hasRunnable_iff.mpr ⟨c, r, hrun⟩)
        rw [hpending] at hrunnable
        simp at hrunnable
      · exact hrun.not_waitsForPool (hpools r ⟨hrun.queued, hrun.first⟩)

/-! ## A newcomer that overtakes -/

namespace Overtake

def classPolicy : ClassPolicy :=
  { ClassPolicy.new with maxInflight := 8, maxQueueDepth := 8, overflowPolicy := .queueWithinDepth }

/-- Two classes without budgets, and one slot for large stacks. -/
def policy : PolicySet :=
  (PolicySet.new ⟨0, 0, 0, 0, ⟨0⟩⟩
    (((∅ : BTreeMap TaskClass ClassPolicy).insert ⟨"parent"⟩ classPolicy).insert ⟨"work"⟩
      classPolicy) 1).declareCapability "large_stack" (.bounded 1 (by decide))

def governor : Governor := ⟨7, policy, by decide +kernel⟩

def largeStack : CapabilityId := ⟨"large_stack", 1⟩
def blocking : CapabilityId := ⟨"blocking", 1⟩

def task (c operation root : String) (scope : TaskScope) : TaskSpec where
  taskClass := ⟨c⟩
  operation := operation
  rootOperationId := root
  source := ⟨"sample"⟩
  reason := .explicitMapping
  scope := scope
  stackSizeBytes := none
  stages := [⟨⟨c⟩, ⟨"run"⟩, .asyncIo, false, none⟩]

def pools (ids : List CapabilityId) : CapabilityRequirementSet :=
  (CapabilityRequirementSet.fromResolved (ids.map .registered)).toOption.getD .empty

/-- The calls that submit a plan with the pools it needs: one, if the plan is valid. -/
def submit (spec : TaskSpec) (ids : List CapabilityId) : List AdmitCall :=
  if h : validateTaskSpec spec = .ok () then [.admitValidatedRequirements ⟨spec, h⟩ (pools ids) none]
  else []

/-- `g` takes the only large stack. Two children of `p`, which does not run yet, wait for it; `r` waits
behind them for a free pool. Then `p` starts, and both children wait for their own ancestor: a pass
ends one of them at its first scan and one at its last, and owes a continuation for `r`. -/
def calls : List AdmitCall :=
  submit (task "parent" "g" "g" .root) [largeStack] ++
  submit (task "work" "c1" "g" (.child "p" ⟨"s1"⟩ true)) [blocking, largeStack] ++
  submit (task "work" "c2" "g" (.child "p" ⟨"s2"⟩ true)) [blocking, largeStack] ++
  submit (task "work" "r" "r" .root) [blocking] ++
  submit (task "parent" "p" "g" (.child "g" ⟨"s0"⟩ true)) []

/-- The newcomer reaches the lock before the continuation does. -/
def newcomer : List Action :=
  (submit (task "work" "n" "n" .root) []).flatMap fun entry =>
    [.call entry 0, .allocate 1, .allocate 1, .allocate 1]

def gap : governor.System :=
  (Runs.replay governor.step governor.init
    (calls.flatMap Sample.admission ++ [.reapLeaks 0 0] ++ newcomer)).getD governor.init

theorem gap_reachable : governor.Reachable gap := Runs.reachable_replay governor.init _

def newcomerIds : Ids := ⟨⟨7, 6⟩, ⟨7, 6⟩, 6⟩

theorem gap_admits : ∃ σ', governor.step gap (.enter 1) =
    some (σ', .decided newcomerIds (.admitted ⟨7, 6⟩)) ∧
      σ'.state.permits[(⟨7, 6⟩ : PermitId)]?.map PermitRecord.taskClass = some ⟨"work"⟩ := by
  have hstep : (governor.step gap (.enter 1)).map (fun next => (next.2,
      next.1.state.permits[(⟨7, 6⟩ : PermitId)]?.map PermitRecord.taskClass)) =
      some (.decided newcomerIds (.admitted ⟨7, 6⟩), some ⟨"work"⟩) := by decide +kernel
  obtain ⟨⟨σ', e⟩, hnext, heq⟩ := Option.map_eq_some_iff.mp hstep
  simp only [Prod.mk.injEq] at heq
  exact ⟨σ', by rw [hnext, heq.1], heq.2⟩

theorem gap_runnable : ∃ r, RunnableCandidate governor gap.state ⟨"work"⟩ r := by
  have hany : ((gap.state.cls ⟨"work"⟩).queue.any
      (isRunnableCandidate gap.state governor.policy 8 (gap.state.cls ⟨"work"⟩))) = true := by
    decide +kernel
  have hpolicy : governor.policy.classPolicy ⟨"work"⟩ = some classPolicy := by decide +kernel
  obtain ⟨r, hr, hrun⟩ := List.any_eq_true.mp hany
  simp only [isRunnableCandidate, Bool.and_eq_true, Bool.not_eq_true', decide_eq_true_eq] at hrun
  have hinv := (SysInv.of_reachable gap_reachable).state.queues
  exact ⟨r, hr, (hinv.predecessor_iff _ r).mp hrun.1, classPolicy, hpolicy, hrun.2⟩

end Overtake

/-- A newcomer can be admitted while a runnable request of its class is queued. -/
theorem newcomer_overtakes : ¬ ∀ (g : Governor) (σ σ' : g.System) (i : Nat) (ids : Ids) (p : PermitId)
    (record : PermitRecord), g.Reachable σ → g.step σ (.enter i) = some (σ', .decided ids (.admitted p)) →
      σ'.state.permits[p]? = some record → ∀ r, ¬ RunnableCandidate g σ.state record.taskClass r := by
  intro hall
  obtain ⟨σ', hstep, hclass⟩ := Overtake.gap_admits
  obtain ⟨record, hrecord, hwork⟩ := Option.map_eq_some_iff.mp hclass
  obtain ⟨r, hrun⟩ := Overtake.gap_runnable
  rw [← hwork] at hrun
  exact hall Overtake.governor Overtake.gap σ' 1 _ _ record Overtake.gap_reachable hstep hrecord r hrun

/-- In the gap a continuation is owed, and the request that is overtaken waits for no pool. -/
theorem overtake_gap : Overtake.gap.state.promotionPending = true ∧
    ∃ r, FirstInLine Overtake.gap.state ⟨"work"⟩ r ∧ ¬ WaitsForPool Overtake.governor Overtake.gap.state r := by
  obtain ⟨σ', hstep, hclass⟩ := Overtake.gap_admits
  obtain ⟨record, hrecord, hiff⟩ := newcomer_overtakes_nothing_iff Overtake.governor Overtake.gap σ' 1 _ _
    Overtake.gap_reachable hstep
  have hwork : record.taskClass = ⟨"work"⟩ := by simpa [hrecord] using hclass
  rw [hwork] at hiff
  obtain ⟨r, hrun⟩ := Overtake.gap_runnable
  obtain ⟨hpending, hpools⟩ := not_or.mp fun hholds => hiff.mpr hholds r hrun
  push Not at hpools
  exact ⟨by simpa using hpending, hpools⟩

end Taskmesh
