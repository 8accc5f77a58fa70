import Taskmesh.Engine.Proofs.ArrivalProofs
import Taskmesh.Engine.Proofs.RoundProofs

/-!
# Tags behind virtual time at a rebase

A rebase subtracts virtual time from every tag, and a tag behind it ends up at zero: the distances among the
tags of classes that could not run are lost. A run in which one class is served until its next tag overflows
leaves the requests of two other classes at zero, and these are then served in the order they arrived.
-/

namespace Taskmesh

open Std MachineInt QueueFamily ExtTreeMap Governor

/-! ## The governor -/

namespace Rebase

/-- A class of weight one that queues whatever blocks it. -/
def classPolicy (maxInflight cpuUnits memoryUnits : UInt32) : ClassPolicy :=
  { ClassPolicy.new with
    maxInflight := maxInflight
    maxQueueDepth := 4
    permitCost := ⟨cpuUnits, memoryUnits⟩
    fairness := .weightedFairQueue 1 0
    overflowPolicy := .queueWithinDepth
    memoryOvercommitPolicy := .queue }

def heavy : TaskClass := ⟨"heavy"⟩
def double : TaskClass := ⟨"double"⟩
def single : TaskClass := ⟨"single"⟩
def holder : TaskClass := ⟨"holder"⟩

def heavyPolicy : ClassPolicy := classPolicy 1 4294967295 0
def doublePolicy : ClassPolicy := classPolicy 3 2 1
def singlePolicy : ClassPolicy := classPolicy 3 1 1

/-- Two units of memory, which the holder takes, and no other budget. -/
def policy : PolicySet :=
  PolicySet.new ⟨0, 2, 0, 0, ⟨0⟩⟩
    (((((∅ : BTreeMap TaskClass ClassPolicy).insert heavy heavyPolicy).insert double doublePolicy).insert
      single singlePolicy).insert holder (classPolicy 1 1 2)) 1

def governor : Governor := ⟨7, policy, by decide +kernel⟩

/-- A root task of a class. -/
def task (c : TaskClass) (operation : String) : TaskSpec where
  taskClass := c
  operation := operation
  rootOperationId := operation
  source := ⟨"sample"⟩
  reason := .explicitMapping
  scope := .root
  stackSizeBytes := none
  stages := [⟨c, ⟨"run"⟩, .asyncIo, false, none⟩]

/-- The admissions of the first tasks. -/
def startActions : List Action :=
  [task holder "hold", task double "d1", task double "d2", task double "d3", task single "s1",
    task heavy "a"].flatMap fun spec => Sample.admission (.admitSpec spec)

/-- The holder runs; three tasks of one class and one of another wait for its memory; and the first heavy task
runs. -/
def start : governor.System := (Runs.replay governor.step governor.init startActions).getD governor.init

theorem start_reachable : governor.Reachable start := Runs.reachable_replay governor.init startActions

/-- The first tasks overflow nothing. -/
theorem start_fitted : Fitted governor start.state := by
  have hfresh : Arriving governor 0 governor.init.state := by
    refine ⟨⟨[], Traces.Trace.nil _, by simp⟩, rfl, fun c => ?_⟩
    simp [Governor.init, GovernedState.cls, default]
  have hsome : (Runs.replay governor.step governor.init startActions).isSome = true := by decide +kernel
  obtain ⟨σ, hσ⟩ := Option.isSome_iff_exists.mp hsome
  have hstart : start = σ := by
    unfold start
    rw [hσ]
    rfl
  rw [hstart]
  refine (hfresh.replay (Runs.Reachable.refl _) (by decide) (fun a ha => ?_) hσ).fitted
  obtain ⟨spec, _, hspec⟩ := List.mem_flatMap.mp ha
  exact ⟨_, hspec⟩

/-! ## The heavy tasks -/

theorem valid_task (n : Nat) : validateTaskSpec (task heavy (Relay.operationOf n)) = .ok () := by
  unfold Relay.operationOf
  split <;> decide +kernel

/-- What the admission of the `n`-th heavy task hands to the lock. -/
def intake (n : Nat) : Intake governor.policy where
  request := ⟨task heavy (Relay.operationOf n), CapabilityRequirementSet.empty⟩
  waker := none
  valid := valid_task n
  registered := registeredWith_empty _

theorem preflight_task (n : Nat) :
    preflight governor.policy (.admitSpec (task heavy (Relay.operationOf n))) = .ok (intake n) :=
  preflight_admitSpec (valid_task n) rfl (registeredWith_empty _)

theorem known_heavy : governor.policy.classPolicy heavy = some heavyPolicy := by decide +kernel
theorem known_double : governor.policy.classPolicy double = some doublePolicy := by decide +kernel
theorem known_single : governor.policy.classPolicy single = some singlePolicy := by decide +kernel

/-- What virtual time moves by when a heavy task is served. -/
def increment : Nat := wfqIncrement 4294967295 1

/-! ## The start -/

/-- What waits in the other classes, but for its tags. -/
structure Waits (c : TaskClass) (r : PendingRequest) : Prop where
  taskClass : c = double ∨ c = single
  memory : r.cost.memoryUnits = 1
  root : r.scope = .root
  operation : ∀ n, r.operation ≠ Relay.operationOf n

/-- What waits at the start, with tags of one increment at most. -/
theorem start_queued {c : TaskClass} {r : PendingRequest} (hr : r ∈ (start.state.cls c).queue) :
    Waits c r ∧ r.finishTag ≤ increment := by
  have hall : (start.state.classes.toList.all fun entry => entry.2.queue.all fun r =>
      decide ((entry.1 = double ∨ entry.1 = single) ∧ r.cost.memoryUnits = 1 ∧ r.scope = .root ∧
        r.operation ≠ "a" ∧ r.operation ≠ "b" ∧ r.finishTag ≤ increment)) = true := by decide +kernel
  cases hcs : start.state.classes[c]? with
  | none => simp [GovernedState.cls, hcs, default] at hr
  | some cs =>
    have hcls : start.state.cls c = cs := by simp [GovernedState.cls, hcs]
    rw [hcls] at hr
    have hentry := List.all_eq_true.mp hall (c, cs) (ExtTreeMap.mem_toList.mpr hcs)
    obtain ⟨hclass, hmemory, hroot, ha, hb, htag⟩ := of_decide_eq_true (List.all_eq_true.mp hentry r hr)
    refine ⟨⟨hclass, hmemory, hroot, fun n => ?_⟩, htag⟩
    unfold Relay.operationOf
    split
    · exact ha
    · exact hb

theorem start_waits {c : TaskClass} {r : PendingRequest} (hr : r ∈ (start.state.cls c).queue) : Waits c r :=
  (start_queued hr).1

/-! ## The heavy class is served again and again -/

/-- What the loop reads of a permit. -/
structure IsPermit (c : TaskClass) (operation : String) (memory : Nat) (record : PermitRecord) : Prop where
  taskClass : record.taskClass = c
  operation : record.operation = operation
  memory : record.ledger.effectiveUnits = memory
  lease : record.leaseNonce = none

/-- The permits live while the `n`-th heavy task runs. -/
structure Holds (n : Nat) (s : GovernedState) : Prop where
  holder : ∃ record, s.permits[(⟨7, 1⟩ : PermitId)]? = some record ∧ IsPermit holder "hold" 2 record
  runs : ∃ record, s.permits[(⟨7, n + 6⟩ : PermitId)]? = some record ∧
    IsPermit heavy (Relay.operationOf n) 0 record
  only : ∀ p ∈ s.permits, p = ⟨7, 1⟩ ∨ p = ⟨7, n + 6⟩
  memory : s.memoryUnitsHeld = 2
  load : s.inflight heavy = 1
  double : s.inflight double = 0
  single : s.inflight single = 0

/-- The heavy class was served `n` times since the start, its queue is empty, and the others wait as they did. -/
structure Spinning (n : Nat) (σ : governor.System) : Prop where
  reached : governor.Reachable σ
  fitted : Fitted governor σ.state
  threads : σ.threads = []
  isOpen : σ.state.admissionClosed = false
  sound : σ.state.accountingFault = none
  owes : σ.state.promotionPending = false
  permit : σ.nextPermit = n + 7
  ticket : σ.nextTicket = n + 7
  seq : σ.nextSeq = n + 7
  holds : Holds n σ.state
  queue : (σ.state.cls heavy).queue = []
  rested : (σ.state.cls heavy).lastFinishTag = σ.state.virtualTime
  others : ∀ c, c ≠ heavy → (σ.state.cls c).queue = (start.state.cls c).queue
  time : σ.state.virtualTime = n * increment

variable {n : Nat} {σ : governor.System}

/-- The flags, the counters and the totals at the start. -/
theorem start_facts : (start.threads.length = 0 ∧ start.state.admissionClosed = false ∧
      start.state.accountingFault = none ∧ start.state.promotionPending = false) ∧
    (start.nextPermit = 7 ∧ start.nextTicket = 7 ∧ start.nextSeq = 7) ∧
    (start.state.memoryUnitsHeld = 2 ∧ start.state.inflight heavy = 1 ∧ start.state.inflight double = 0 ∧
      start.state.inflight single = 0) ∧
    (start.state.cls heavy).queue.length = 0 ∧
    (start.state.cls heavy).lastFinishTag = start.state.virtualTime ∧ start.state.virtualTime = 0 := by
  decide +kernel

theorem start_spinning : Spinning 0 start where
  reached := start_reachable
  fitted := start_fitted
  threads := List.eq_nil_of_length_eq_zero start_facts.1.1
  isOpen := start_facts.1.2.1
  sound := start_facts.1.2.2.1
  owes := start_facts.1.2.2.2
  permit := start_facts.2.1.1
  ticket := start_facts.2.1.2.1
  seq := start_facts.2.1.2.2
  holds := by
    have hfound : ∀ (p : PermitId) c operation memory, (start.state.permits[p]?.any fun record =>
        decide (record.taskClass = c ∧ record.operation = operation ∧
          record.ledger.effectiveUnits = memory ∧ record.leaseNonce = none)) = true →
        ∃ record, start.state.permits[p]? = some record ∧ IsPermit c operation memory record := by
      intro p c operation memory h
      obtain ⟨record, hrecord, hfields⟩ := (Option.any_eq_true _ _).mp h
      obtain ⟨hclass, hoperation, hmemory, hlease⟩ := of_decide_eq_true hfields
      exact ⟨record, hrecord, hclass, hoperation, hmemory, hlease⟩
    have honly : (start.state.permits.toList.all fun entry =>
        decide (entry.1 = ⟨7, 1⟩ ∨ entry.1 = ⟨7, 6⟩)) = true := by decide +kernel
    obtain ⟨hmemory, hheavy, hdouble, hsingle⟩ := start_facts.2.2.1
    refine ⟨hfound _ _ _ _ (by decide +kernel), hfound _ _ _ _ (by decide +kernel), fun p hp => ?_,
      hmemory, hheavy, hdouble, hsingle⟩
    obtain ⟨record, hrecord⟩ := Option.isSome_iff_exists.mp (ExtTreeMap.mem_iff_isSome_getElem?.mp hp)
    exact of_decide_eq_true (List.all_eq_true.mp honly (p, record) (ExtTreeMap.mem_toList.mpr hrecord))
  queue := List.eq_nil_of_length_eq_zero start_facts.2.2.2.1
  rested := start_facts.2.2.2.2.1
  others c hc := rfl
  time := start_facts.2.2.2.2.2.trans (Nat.zero_mul increment).symm

/-- The name of the next heavy task is free. -/
theorem Spinning.identity (h : Spinning n σ) :
    σ.state.hasOperationIdentity (Relay.operationOf (n + 1)) (Relay.operationOf (n + 1)) = false := by
  have ho := (SysInv.of_reachable h.reached).state.occupancy
  unfold GovernedState.hasOperationIdentity
  rw [Bool.or_eq_false_iff]
  constructor
  · rw [Option.isSome_eq_false_iff, Option.isNone_iff_eq_none]
    by_contra hsome
    obtain ⟨p, hp⟩ := Option.ne_none_iff_exists'.mp hsome
    obtain ⟨record, found, hlabel⟩ := (ho.operations _ _ p).mp hp
    have hname : record.operation = Relay.operationOf (n + 1) := by
      simpa [identityLabel] using congrArg (Option.map Prod.snd) hlabel
    rcases h.holds.only p (by rw [ExtTreeMap.mem_iff_isSome_getElem?, found]; rfl) with rfl | rfl
    · obtain ⟨record', found', hholder⟩ := h.holds.holder
      obtain rfl := Option.some.inj (found.symm.trans found')
      have hhold : Relay.operationOf (n + 1) ≠ "hold" := by
        unfold Relay.operationOf
        split <;> decide
      exact hhold (hname.symm.trans hholder.operation)
    · obtain ⟨record', found', hruns⟩ := h.holds.runs
      obtain rfl := Option.some.inj (found.symm.trans found')
      exact Relay.operationOf_succ n (hname.symm.trans hruns.operation)
  · by_contra hsome
    rw [Bool.not_eq_false, any_contains_iff, ho.queuedOperations] at hsome
    obtain ⟨c, r, hr, hlabel⟩ := hsome
    obtain ⟨r', hr', rfl⟩ := List.mem_map.mp hr
    have hname : r'.operation = Relay.operationOf (n + 1) := by
      simpa [identityLabel] using congrArg (Option.map Prod.snd) hlabel
    by_cases hc : c = heavy
    · subst hc
      rw [h.queue] at hr'
      simp at hr'
    · have hwaits := start_waits (c := c) (r := r') (by rw [← h.others c hc]; exact hr')
      exact hwaits.operation _ hname

/-- The next heavy task waits behind the `n`-th. -/
structure Full (n : Nat) (σ : governor.System) (r : PendingRequest) : Prop where
  reached : governor.Reachable σ
  threads : σ.threads = []
  isOpen : σ.state.admissionClosed = false
  sound : σ.state.accountingFault = none
  owes : σ.state.promotionPending = false
  permit : σ.nextPermit = n + 8
  ticket : σ.nextTicket = n + 8
  seq : σ.nextSeq = n + 8
  holds : Holds n σ.state
  queue : (σ.state.cls heavy).queue = [r]
  operation : r.operation = Relay.operationOf (n + 1)
  permitId : r.permitId = ⟨7, n + 7⟩
  scope : r.scope = .root

theorem Spinning.queues (h : Spinning n σ) (hn : n < 2 ^ 34) :
    ∃ σ' tagged r, Full n σ' r ∧ Arrives (σ.state.commitTime 0) σ'.state heavy heavyPolicy tagged r ∧
      ScheduleMove governor (σ.state.commitTime 0) (.enqueued heavy) σ'.state := by
  have hinv := SysInv.of_reachable h.reached
  obtain ⟨hstart, _⟩ := hinv.committed 0
  let s := σ.state.commitTime 0
  have hleft : CountersLeft σ := by
    have hpermit := h.permit
    have hticket := h.ticket
    have hseq := h.seq
    refine ⟨?_, ?_, ?_⟩ <;> simp only [u64Max] <;> omega
  have hempty : s.waiting heavy = [] := List.map_eq_nil_iff.mpr h.queue
  obtain ⟨blockers, hblocked, hprimary⟩ := assessIntake_of_full (g := governor) (s := s) (c := heavy)
    heavyPolicy (intake (n + 1)).request rfl (not_queuedBehind hstart.queues hempty h.owes _)
    (Nat.le_of_eq h.holds.load.symm) h.sound (registeredWith_empty _)
  have hroom : s.queued heavy < heavyPolicy.maxQueueDepth.toNat := by
    have hlen : (s.cls heavy).queue = [] := h.queue
    show min (s.cls heavy).queue.length u32Max < 4
    rw [hlen]
    decide
  have hadmits : admitRequest s governor.policy s.commitWatermarkMs (intake (n + 1)).request none (nextIds σ) {} =
      ⟨enqueuedAt s heavyPolicy heavy (intake (n + 1)).request none (nextIds σ) .inflight, {},
        .queued (nextIds σ).ticket⟩ := by
    rw [enqueuedAt_eq]
    exact admitRequest_of_full (g := governor) (s := s) (intake (n + 1)).request h.isOpen known_heavy (by decide)
      h.identity rfl hblocked hprimary rfl hroom s.commitWatermarkMs none (nextIds σ) {}
  obtain ⟨tagged, r, hqueued⟩ := enqueues_enqueuedAt s heavyPolicy heavy (intake (n + 1)).request none
    (nextIds σ) .inflight
  have hmove : ScheduleMove governor s (.enqueued heavy)
      (enqueuedAt s heavyPolicy heavy (intake (n + 1)).request none (nextIds σ) .inflight) :=
    .enqueued known_heavy (by decide)
  obtain ⟨after, hafter⟩ : ∃ after, after = enqueuedAt s heavyPolicy heavy (intake (n + 1)).request none
    (nextIds σ) .inflight := ⟨_, rfl⟩
  rw [← hafter] at hqueued hadmits hmove
  have hreached := decided_alone h.reached h.threads hleft (preflight_task (n + 1)) hadmits
  have hpermits : after.permits = σ.state.permits := hqueued.ledger.permits
  have hinflight : ∀ c, after.inflight c = σ.state.inflight c := fun c => hqueued.ledger.inflight_eq c
  have hqueue : (after.cls heavy).queue = [r] := by
    have hempty : (tagged.cls heavy).queue = [] := by
      have hkept := hqueued.arrives.tagging.own_class.1
      rw [show (s.cls heavy).queue = [] from h.queue] at hkept
      simpa using hkept
    have hown : (after.cls heavy).queue = (tagged.cls heavy).queue ++ [r] :=
      congrArg ClassSchedule.queue hqueued.arrives.own
    rw [hown, hempty]
    rfl
  refine ⟨_, tagged, r, ⟨hreached, h.threads, hqueued.flags.closed.trans h.isOpen,
    hqueued.flags.fault.trans h.sound, hqueued.flags.pending.trans h.owes, congrArg (· + 1) h.permit,
    congrArg (· + 1) h.ticket, congrArg (· + 1) h.seq, ⟨?_, ?_, ?_, ?_, ?_, ?_, ?_⟩, hqueue, hqueued.operation,
    hqueued.permitId.trans (congrArg (PermitId.mk 7) h.permit), hqueued.scope⟩, hqueued.arrives, hmove⟩
  · rw [hpermits]
    exact h.holds.holder
  · rw [hpermits]
    exact h.holds.runs
  · rw [hpermits]
    exact h.holds.only
  · exact hqueued.ledger.memory.trans h.holds.memory
  · exact (hinflight heavy).trans h.holds.load
  · exact (hinflight double).trans h.holds.double
  · exact (hinflight single).trans h.holds.single

/-! ## Who can run -/

section Room

variable {s s' : GovernedState} {c : TaskClass} {limits : ClassPolicy} {r : PendingRequest}

/-- While the memory is held, no request that needs some can run. -/
theorem blocked_by_memory (hheld : s.memoryUnitsHeld = 2) (hcost : r.cost.memoryUnits = 1) (maxInflight : Nat)
    (cs : ClassState) : isRunnableCandidate s governor.policy maxInflight cs r = false := by
  by_contra hrun
  obtain ⟨_, hempty⟩ := isRunnableCandidate_iff.mp (Bool.not_eq_false _ ▸ hrun)
  obtain ⟨_, _, _, hmemory, _, _⟩ := BlockerSet.isEmpty_iff.mp hempty
  have hover : overBudget governor.policy.resources.maxMemoryUnits.toNat s.memoryUnitsHeld r.cost.memoryUnits =
    false := hmemory
  have hfits : s.memoryUnitsHeld + r.cost.memoryUnits ≤ 2 := overBudget_eq_false hover (by decide)
  omega

/-- While its class is full, no request can run. -/
theorem blocked_by_load (hclass : r.taskClass = c) {maxInflight : Nat} (hload : maxInflight ≤ s.inflight c)
    (cs : ClassState) : isRunnableCandidate s governor.policy maxInflight cs r = false := by
  by_contra hrun
  obtain ⟨_, hempty⟩ := isRunnableCandidate_iff.mp (Bool.not_eq_false _ ▸ hrun)
  obtain ⟨hinflight, _⟩ := BlockerSet.isEmpty_iff.mp hempty
  rw [hclass] at hinflight
  exact absurd hload (of_decide_eq_false hinflight)

/-- No pool of the governor has a limit. -/
theorem unlimited (s : GovernedState) (id : CapabilityId) : poolBlocked s governor.policy id = false := by
  have hall : (governor.policy.capabilities.toList.all fun entry =>
      decide (entry.2.capacity.limit.toNat = 0)) = true := by decide +kernel
  unfold poolBlocked PolicySet.capabilityRecord
  cases hrecord : governor.policy.capabilities[id]? with
  | none => rfl
  | some record =>
    have hlimit := of_decide_eq_true (List.all_eq_true.mp hall (id, record) (ExtTreeMap.mem_toList.mpr hrecord))
    simp [hlimit]

/-- Where its class and the memory have room, the head of a queue can run. -/
theorem head_runs (hinv : QueueInv governor s) (hsound : s.accountingFault = none)
    (hknown : governor.policy.classPolicy c = some limits) {rest : List PendingRequest}
    (hqueue : (s.cls c).queue = r :: rest) (hload : s.inflight c < limits.maxInflight.toNat)
    (hmemory : s.memoryUnitsHeld + (resolveCost limits).memoryUnits ≤ 2) :
    RunnableCandidate governor s c r ∧
      isRunnableCandidate s governor.policy limits.maxInflight.toNat (s.cls c) r = true := by
  have hroom : (blockersFor s governor.policy c limits.maxInflight.toNat (resolveCost limits)
      CapabilityRequirementSet.empty).isEmpty = true := by
    refine BlockerSet.isEmpty_iff.mpr ⟨decide_eq_false (Nat.not_le.mpr hload), rfl, rfl, ?_, rfl, ?_⟩
    · show overBudget 2 s.memoryUnitsHeld (resolveCost limits).memoryUnits = false
      unfold overBudget checkedAdd
      rw [if_pos (by simp only [u128Max]; omega)]
      simpa using hmemory
    · show (s.accountingFault.isSome || _) = false
      rw [hsound]
      rfl
  have hrun := RunnableCandidate.of_room hinv hknown hroom (hinv.head_firstInLine hqueue) (by
    rintro ⟨id, _, hblocked⟩
    rw [unlimited] at hblocked
    simp at hblocked)
  obtain ⟨policy', hpolicy, hassess⟩ := hrun.runnable
  obtain rfl : policy' = limits := Option.some.inj (hpolicy.symm.trans hknown)
  refine ⟨hrun, ?_⟩
  unfold isRunnableCandidate
  rw [(hinv.predecessor_iff c r).mpr hrun.first, hassess]
  rfl

variable (hwaits : ∀ c, c ≠ heavy → ∀ r ∈ (s.cls c).queue, Waits c r)

include hwaits

/-- While the memory is held, nothing but heavy tasks can run. -/
theorem heavy_alone (hheld : s.memoryUnitsHeld = 2) (hr : r ∈ (s.cls c).queue) {maxInflight : Nat}
    (hrun : isRunnableCandidate s governor.policy maxInflight (s.cls c) r = true) : c = heavy := by
  by_contra hc
  rw [blocked_by_memory hheld (hwaits c hc r hr).memory] at hrun
  simp at hrun

/-- While the memory is held and a heavy task runs, a pass has nothing to grant. -/
theorem round_over (hinv : QueueInv governor s) (hheld : s.memoryUnitsHeld = 2) (hload : 1 ≤ s.inflight heavy)
    (nowMs : Nat) : governor.promoteStep nowMs s = (s, none) := by
  rcases promoteStep_cases governor nowMs s with ⟨_, hover⟩ | ⟨_, _, c, limits, index, r, _, _, _, _, hpromotes⟩
  · exact hover
  · obtain rfl := heavy_alone hwaits hheld (List.mem_of_getElem? hpromotes.queued) hpromotes.runnable
    obtain rfl : limits = heavyPolicy := Option.some.inj (hpromotes.known.symm.trans known_heavy)
    obtain ⟨_, hfits⟩ := hinv.fits heavy r.untagged (mem_waiting_of_getElem hpromotes.queued)
    have hclass : r.taskClass = heavy := hfits.taskClass
    have hblocked : isRunnableCandidate s governor.policy 1 (s.cls heavy) r = true := hpromotes.runnable
    rw [blocked_by_load hclass hload] at hblocked
    simp at hblocked

theorem noneAwaited_of_waits (hheavy : ∀ r ∈ (s.cls heavy).queue, r.scope = .root) : NoneAwaited s := by
  intro c r hr
  by_cases hc : c = heavy
  · subst hc
    rw [hheavy r hr]
    rfl
  · rw [(hwaits c hc r hr).root]
    rfl

/-- The round that serves the only heavy task that waits. -/
structure HeavyServed (s granted : GovernedState) (nowMs : Nat) (r : PendingRequest) : Prop where
  selects : (select s governor.policy).2 = some ⟨heavy, 0, r.finishTag⟩
  fits : TagsFit governor.policy (s, .dispatched ⟨heavy, 0, r.finishTag⟩)
  round : ∃ grant head chosen served, governor.promoteStep nowMs s = (granted, some grant) ∧
    Promotes governor nowMs s granted grant heavy heavyPolicy 0 r head chosen served
  time : granted.virtualTime = max s.virtualTime r.finishTag
  queue : (granted.cls heavy).queue = []
  rested : (granted.cls heavy).lastFinishTag = granted.virtualTime
  others : ∀ k, k ≠ heavy → (granted.cls k).queue = (s.cls k).queue

theorem heavy_served (hinv : QueueInv governor s) (hsound : s.accountingFault = none)
    (hheld : s.memoryUnitsHeld = 2) (hload : s.inflight heavy = 0) (hqueue : (s.cls heavy).queue = [r])
    (nowMs : Nat) : ∃ granted, HeavyServed s granted nowMs r := by
  have hruns := (head_runs hinv hsound known_heavy hqueue (by rw [hload]; decide) (by rw [hheld]; decide)).1
  rcases promoteStep_cases governor nowMs s with ⟨hnone, _⟩ | ⟨granted, grant, _, _, _, _, _, _, _, hround, _⟩
  · rw [hinv.hasRunnable_iff.mpr ⟨heavy, r, hruns⟩] at hnone
    simp at hnone
  · obtain ⟨first, rest, candidate, limits, r', head, chosen, served, hserves, hpromotes, hselect⟩ :=
      round_promotes hround
    have hclass : candidate.taskClass = heavy :=
      heavy_alone hwaits hheld (List.mem_of_getElem? hserves.driven.queued) hserves.driven.runnable
    have hheads : ∀ candidate ∈ runnableCandidates s governor.policy, candidate.queueIndex = 0 := by
      intro rival hmem
      obtain ⟨_, _, hrival⟩ := isCandidate_of_mem hmem
      have halone := heavy_alone hwaits hheld (List.mem_of_getElem? hrival.queued) hrival.runnable
      have hqueued := hrival.queued
      rw [halone, hqueue] at hqueued
      simpa [List.getElem?_singleton] using (List.getElem?_eq_some_iff.mp hqueued).1
    have hown := hserves.own
    have htag := hserves.driven.tag
    have hothers := hserves.others
    have hknown := hserves.driven.known
    have hqueued := hserves.driven.queued
    rw [hclass] at hpromotes hown htag hothers hknown hqueued
    obtain rfl : limits = heavyPolicy := Option.some.inj (hknown.symm.trans known_heavy)
    rw [hqueue] at hqueued
    obtain ⟨hindex, rfl⟩ : candidate.queueIndex = 0 ∧ r = r' := by simpa [List.getElem?_singleton] using hqueued
    rw [hindex] at hpromotes hown htag
    rw [hclass, hindex, htag] at hselect
    have hidle : (granted.cls heavy).schedule = ClassSchedule.idle granted.virtualTime := by
      rw [hown]
      unfold ClassSchedule.credited ClassSchedule.dequeued
      rw [show (s.cls heavy).schedule.queue = [r] from hqueue]
      rfl
    refine ⟨granted, hselect, fits_of_heads hheads rfl, ⟨grant, head, chosen, served, hround, hpromotes⟩, ?_,
      congrArg ClassSchedule.queue hidle, congrArg ClassSchedule.lastFinishTag hidle,
      fun k hk => congrArg ClassSchedule.queue (hothers k hk)⟩
    rcases hserves.weighted with ⟨_, htime, _⟩ | ⟨hkind, _⟩
    · rw [htime, htag]
      rfl
    · exact absurd rfl hkind

end Room

/-! ## One more service -/

theorem increment_eq : increment = 4294967295 * 18446744073709551616 := by decide +kernel

/-- The tag of the next heavy task, as long as it fits. -/
theorem Spinning.tagged (h : Spinning n σ) (hn : n ≤ 2 ^ 32) {σ' : governor.System} {tagged : GovernedState}
    {r : PendingRequest} (harrives : Arrives (σ.state.commitTime 0) σ'.state heavy heavyPolicy tagged r) :
    TagsFit governor.policy (σ.state.commitTime 0, .enqueued heavy) ∧
      r.finishTag = (n + 1) * increment ∧ σ'.state.virtualTime = n * increment ∧
      ∀ c, c ≠ heavy → (σ'.state.cls c).queue = (start.state.cls c).queue := by
  have hlast : ((σ.state.commitTime 0).cls heavy).lastFinishTag = n * increment := h.rested.trans h.time
  have htime : (σ.state.commitTime 0).virtualTime = n * increment := h.time
  have hfits : max ((σ.state.commitTime 0).cls heavy).lastFinishTag (σ.state.commitTime 0).virtualTime +
      increment ≤ u128Max := by
    rw [hlast, htime, Nat.max_self, increment_eq]
    simp only [u128Max]
    omega
  have htag := (harrives.tag_eq rfl hfits).2
  have hjoined := (harrives.joined rfl hfits).1
  rw [hlast, htime, Nat.max_self] at htag
  refine ⟨?_, ?_, hjoined.trans htime, fun c hc => ?_⟩
  · intro sum hsum
    simp only [tagSums, known_heavy, weightOf_eq known_heavy rfl, List.mem_singleton] at hsum
    rw [hsum]
    exact hfits
  · rw [htag, Nat.add_mul, Nat.one_mul]
    rfl
  · rw [← h.others c hc]
    have hkept : (σ'.state.cls c).queue = (tagged.cls c).queue := congrArg ClassSchedule.queue (harrives.others c hc)
    rcases harrives.tagging.other_class hc with ⟨hsame, _⟩ | ⟨_, _, weight, burst, hfair, hoverflows⟩
    · rw [hkept, hsame]
      rfl
    · obtain ⟨rfl, _⟩ := FairnessPolicy.weightedFairQueue.inj hfair
      exact absurd hfits (Nat.not_le.mpr hoverflows)

/-- The heavy task that runs ends, and the one behind it is served. -/
theorem Spinning.next (h : Spinning n σ) (hn : n ≤ 2 ^ 32) : ∃ σ', Spinning (n + 1) σ' := by
  obtain ⟨σ₁, tagged, r, hfull, harrives, hqueued⟩ := h.queues (by omega)
  obtain ⟨hfits, htag, htime, hothers⟩ := h.tagged hn harrives
  obtain ⟨record, found, hruns⟩ := hfull.holds.runs
  obtain ⟨freed, hreleased⟩ := released_alone ⟨7, n + 6⟩ record hfull.reached hfull.threads found hruns.lease
  have hfrees := hreleased.frees found
  have hheld : freed.memoryUnitsHeld = 2 := by
    rw [hfrees.memory, hruns.memory, hfull.holds.memory]
  have hload : freed.inflight heavy = 0 := by
    rw [hfrees.inflight, hfull.holds.load, if_pos hruns.taskClass]
  have hqueue : (freed.cls heavy).queue = [r] := (hfrees.schedule.queue_eq heavy).trans hfull.queue
  have hwait : ∀ c, c ≠ heavy → (freed.cls c).queue = (start.state.cls c).queue := fun c hc =>
    (hfrees.schedule.queue_eq c).trans (hothers c hc)
  have hwaits : ∀ c, c ≠ heavy → ∀ r ∈ (freed.cls c).queue, Waits c r := by
    intro c hc r hr
    rw [hwait c hc] at hr
    exact start_waits hr
  obtain ⟨granted, hserved⟩ := heavy_served hwaits hreleased.inv.queues (hfrees.flags.fault.trans hfull.sound) hheld
    hload hqueue (σ₁.state.commitTime 0).commitWatermarkMs
  obtain ⟨grant, head, chosen, served, hround, hpromotes⟩ := hserved.round
  have hmove : Move governor Caller.nobody .growing freed granted := Move.promoted _ hround
  have hinv := hmove.queueInv hreleased.inv.queues
  obtain ⟨hmemory, hinflight⟩ := hpromotes.loads
  have hcost : r.cost.memoryUnits = 0 := by
    obtain ⟨limits, hfits⟩ := hreleased.inv.queues.fits heavy r.untagged (mem_waiting_of_getElem hpromotes.queued)
    obtain rfl : limits = heavyPolicy := Option.some.inj (hfits.known.symm.trans known_heavy)
    exact congrArg ResolvedCost.memoryUnits hfits.cost
  have hheld' : granted.memoryUnitsHeld = 2 := by rw [hmemory, hcost, hheld]
  have hload' : granted.inflight heavy = 1 := by
    rw [hinflight heavy, if_pos rfl, hload]
    rfl
  have hwait' : ∀ c, c ≠ heavy → (granted.cls c).queue = (start.state.cls c).queue := fun c hc =>
    (hserved.others c hc).trans (hwait c hc)
  have hwaits' : ∀ c, c ≠ heavy → ∀ r ∈ (granted.cls c).queue, Waits c r := by
    intro c hc r hr
    rw [hwait' c hc] at hr
    exact start_waits hr
  have hover := round_over hwaits' hinv hheld' (Nat.le_of_eq hload'.symm) (σ₁.state.commitTime 0).commitWatermarkMs
  have hnone : NoneAwaited freed := noneAwaited_of_waits hwaits fun r' hr' => by
    rw [hqueue, List.mem_singleton] at hr'
    rw [hr']
    exact hfull.scope
  obtain ⟨_, hreached⟩ := hreleased.passes [grant] granted hnone (by simp [promotionBudget])
    (.grant hround (.done hover))
  have hid : head.permitId = ⟨7, n + 7⟩ := (congrArg PendingRequest.permitId hpromotes.same).trans hfull.permitId
  have hpermits : granted.permits = (σ₁.state.permits.erase ⟨7, n + 6⟩).insert ⟨7, n + 7⟩ grant.record := by
    rw [hpromotes.permits, hid, hfrees.permits]
  have hapart : ∀ k, k ≠ heavy → granted.inflight k = σ₁.state.inflight k := by
    intro k hk
    rw [hinflight k, if_neg (Ne.symm hk), hfrees.inflight, hruns.taskClass, if_neg (Ne.symm hk)]
    rfl
  have hfitted : Fitted governor (granted.flagged false) := by
    obtain ⟨effects, hunwind⟩ := hreleased.unwinds
    have hfreed : ScheduleMove governor (σ₁.state.commitTime 0) .other freed := unwind_move hunwind
    have hticked : ∀ s, TagsFit governor.policy (s, .ticked) := fun s => by simp [TagsFit, tagSums]
    have hother : ∀ s, TagsFit governor.policy (s, .other) := fun s => by simp [TagsFit, tagSums]
    rw [← hfreed.watermark_eq (by simp)] at hround
    have harrived := (h.fitted.move (.ticked _ 0) (hticked _)).move hqueued hfits
    have hgranted := ((harrived.move (.ticked _ 0) (hticked _)).move hfreed (hother _)).move
      (.dispatched hserved.selects hround) hserved.fits
    exact hgranted.move (ScheduleMove.of_frame rfl rfl rfl rfl rfl) (hother _)
  refine ⟨{ σ₁ with state := granted.flagged false }, hreached, hfitted, hfull.threads, ?_, ?_, rfl, hfull.permit,
    hfull.ticket, hfull.seq, ⟨?_, ⟨grant.record, ?_, ?_⟩, fun q hq => ?_, hheld', hload', ?_, ?_⟩, hserved.queue,
    hserved.rested, hwait', ?_⟩
  · exact hpromotes.flags.closed.trans (hfrees.flags.closed.trans hfull.isOpen)
  · exact hpromotes.flags.fault.trans (hfrees.flags.fault.trans hfull.sound)
  · obtain ⟨hold, hfound, hholder⟩ := hfull.holds.holder
    refine ⟨hold, ?_, hholder⟩
    show granted.permits[_]? = _
    rw [hpermits, ExtTreeMap.getElem?_insert, if_neg (by simp), ExtTreeMap.getElem?_erase, if_neg (by simp)]
    exact hfound
  · show granted.permits[_]? = _
    rw [hpermits]
    exact ExtTreeMap.getElem?_insert_self
  · rw [hpromotes.grants]
    have hlast := hpromotes.same
    refine ⟨rfl, (congrArg PendingRequest.operation hlast).trans hfull.operation, ?_, rfl⟩
    exact (congrArg (fun r : PendingRequest => r.cost.memoryUnits) hlast).trans hcost
  · have hmem : q ∈ granted.permits := hq
    rw [hpermits, ExtTreeMap.mem_insert, ExtTreeMap.mem_erase] at hmem
    rcases hmem with heq | ⟨hne, hold⟩
    · exact Or.inr (LawfulEqOrd.eq_of_compare heq).symm
    · rcases hfull.holds.only q hold with rfl | rfl
      · exact Or.inl rfl
      · simp at hne
  · exact (hapart double (by decide)).trans hfull.holds.double
  · exact (hapart single (by decide)).trans hfull.holds.single
  · show granted.virtualTime = _
    rw [hserved.time, htag, hfrees.schedule.time, htime]
    exact Nat.max_eq_right (Nat.mul_le_mul_right _ (Nat.le_succ n))

theorem exists_spinning (n : Nat) (hn : n ≤ 2 ^ 32 + 1) : ∃ σ, Spinning n σ := by
  induction n with
  | zero => exact ⟨start, start_spinning⟩
  | succ n ih =>
    obtain ⟨σ, hσ⟩ := ih (by omega)
    exact hσ.next (by omega)

/-! ## The rebase -/

/-- A request that waited through a rebase by `origin`. -/
def rebased (origin : Nat) (r : PendingRequest) : PendingRequest :=
  { r with finishTag := r.finishTag - origin, wfqArrivalTag := r.wfqArrivalTag - origin }

/-- After `2^32 + 1` services the tag of the next heavy task overflows, and virtual time starts again. -/
theorem Spinning.rebases (h : Spinning (2 ^ 32 + 1) σ) {σ' : governor.System} {tagged : GovernedState}
    {r : PendingRequest} (harrives : Arrives (σ.state.commitTime 0) σ'.state heavy heavyPolicy tagged r) :
    σ'.state.virtualTime = 0 ∧ ∀ c, c ≠ heavy → (σ'.state.cls c).queue =
      (start.state.cls c).queue.map (rebased ((2 ^ 32 + 1) * increment)) := by
  have hlast : ((σ.state.commitTime 0).cls heavy).lastFinishTag = (2 ^ 32 + 1) * increment := h.rested.trans h.time
  have htime : (σ.state.commitTime 0).virtualTime = (2 ^ 32 + 1) * increment := h.time
  have hoverflows : ¬ max ((σ.state.commitTime 0).cls heavy).lastFinishTag (σ.state.commitTime 0).virtualTime +
      increment ≤ u128Max := by
    rw [hlast, htime, Nat.max_self, increment_eq]
    decide
  have htagging := harrives.tagging
  have hrebased : tagged.virtualTime = 0 ∧ ∀ c, c ≠ heavy → tagged.cls c =
      rebaseClass (σ.state.commitTime 0).virtualTime ((σ.state.commitTime 0).cls c) := by
    generalize r.finishTag = tag at htagging
    generalize r.wfqArrivalTag = arrival at htagging
    cases htagging with
    | untagged plain => exact absurd rfl (plain 1 0)
    | exact fair sum fits =>
      obtain ⟨rfl, _⟩ := FairnessPolicy.weightedFairQueue.inj fair
      exact absurd (sum ▸ fits) hoverflows
    | rebased fair sum overflows =>
      refine ⟨rfl, fun c hc => ?_⟩
      rw [cls_recordFinishTag, if_neg (Ne.symm hc), cls_rebaseVirtualTime]
  refine ⟨harrives.time.trans hrebased.1, fun c hc => ?_⟩
  rw [← h.others c hc]
  have hkept : (σ'.state.cls c).queue = (tagged.cls c).queue := congrArg ClassSchedule.queue (harrives.others c hc)
  rw [hkept, hrebased.2 c hc, htime]
  rfl

/-! ## The classes with lost tags -/

/-- The memory is free, a heavy task runs, and the requests of the other classes wait. `k` of them got a permit
so far. -/
structure Rivals (k : Nat) (queue : List PendingRequest) (last : PendingRequest) (s : GovernedState) : Prop where
  ordered : OrderedQueues governor s
  sound : s.accountingFault = none
  doubles : (s.cls double).queue = queue
  singles : (s.cls single).queue = [last]
  waits : ∀ c, c ≠ heavy → ∀ r ∈ (s.cls c).queue, Waits c r
  heavyRoot : ∀ r ∈ (s.cls heavy).queue, r.scope = .root
  memory : s.memoryUnitsHeld = k
  load : s.inflight heavy = 1
  doubleLoad : s.inflight double = k
  singleLoad : s.inflight single = 0

/-- All tags are zero, and the requests of one class arrived before that of the other. -/
structure Contest (k : Nat) (queue : List PendingRequest) (last : PendingRequest) (s : GovernedState) : Prop
    extends Rivals k queue last s where
  time : s.virtualTime = 0
  doubleTags : ∀ r ∈ queue, r.finishTag = 0 ∧ r.queueOrder < last.queueOrder
  singleTag : last.finishTag = 0

section Contest

variable {k : Nat} {rest : List PendingRequest} {next last : PendingRequest} {s : GovernedState}

theorem shares_double : SharesByWeight governor double doublePolicy 1 0 := ⟨known_double, rfl, rfl⟩
theorem shares_single : SharesByWeight governor single singlePolicy 1 0 := ⟨known_single, rfl, rfl⟩

/-- Both heads can run. -/
theorem Rivals.heads (h : Rivals k (next :: rest) last s) (hk : k < 2) :
    HeadRunnable governor double doublePolicy s ∧ HeadRunnable governor single singlePolicy s := by
  have hdouble := (head_runs h.ordered.queues h.sound known_double h.doubles
    (by rw [h.doubleLoad]; show k < 3; omega) (by rw [h.memory]; show k + 1 ≤ 2; omega)).2
  have hsingle := (head_runs h.ordered.queues h.sound known_single h.singles
    (by rw [h.singleLoad]; decide) (by rw [h.memory]; show k + 1 ≤ 2; omega)).2
  exact ⟨⟨next, rest, h.doubles, hdouble⟩, ⟨last, [], h.singles, hsingle⟩⟩

/-- Only these two classes have a candidate: its head. -/
theorem Rivals.candidate (h : Rivals k (next :: rest) last s) (hk : k < 2) {candidate : Candidate}
    {limits : ClassPolicy} {head : PendingRequest}
    (hcandidate : IsCandidate s governor.policy candidate limits head) :
    (candidate.taskClass = double ∧ limits = doublePolicy ∨ candidate.taskClass = single ∧ limits = singlePolicy) ∧
      candidate.queueIndex = 0 := by
  obtain ⟨hdouble, hsingle⟩ := h.heads hk
  have hmem := List.mem_of_getElem? hcandidate.queued
  have hknown := hcandidate.known
  by_cases hheavy : candidate.taskClass = heavy
  · rw [hheavy] at hknown
    obtain rfl : limits = heavyPolicy := Option.some.inj (hknown.symm.trans known_heavy)
    obtain ⟨_, hfits⟩ := h.ordered.queues.fits _ head.untagged (List.mem_map_of_mem hmem)
    have hclass : head.taskClass = heavy := hfits.taskClass.trans hheavy
    have hblocked : isRunnableCandidate s governor.policy 1 (s.cls candidate.taskClass) head = true :=
      hcandidate.runnable
    rw [blocked_by_load hclass (Nat.le_of_eq h.load.symm)] at hblocked
    simp at hblocked
  · rcases (h.waits _ hheavy head hmem).taskClass with hclass | hclass
    · rw [hclass] at hknown
      obtain rfl : limits = doublePolicy := Option.some.inj (hknown.symm.trans known_double)
      exact ⟨Or.inl ⟨hclass, rfl⟩, hdouble.index_zero hcandidate hclass⟩
    · rw [hclass] at hknown
      obtain rfl : limits = singlePolicy := Option.some.inj (hknown.symm.trans known_single)
      exact ⟨Or.inr ⟨hclass, rfl⟩, hsingle.index_zero hcandidate hclass⟩

/-- No selection overflows. -/
theorem Rivals.fits (h : Rivals k (next :: rest) last s) (hk : k < 2) (tag : Nat) :
    TagsFit governor.policy (s, .dispatched ⟨double, 0, tag⟩) := by
  refine fits_of_heads (fun candidate hmem => ?_) rfl
  obtain ⟨limits, head, hcandidate⟩ := isCandidate_of_mem hmem
  exact (h.candidate hk hcandidate).2

/-- The head with the earlier tag is selected, and of two equal tags the earlier arrival. -/
theorem Rivals.selected (h : Rivals k (next :: rest) last s) (hk : k < 2) {selection : Selection}
    (hselect : (select s governor.policy).2 = some selection) :
    selection = ⟨double, 0, next.finishTag⟩ ∧
        KeyLt (next.finishTag, next.queueOrder) (last.finishTag, last.queueOrder) ∨
      selection = ⟨single, 0, last.finishTag⟩ ∧
        KeyLt (last.finishTag, last.queueOrder) (next.finishTag, next.queueOrder) := by
  obtain ⟨hdouble, hsingle⟩ := h.heads hk
  obtain ⟨chosen, hchosen, hselection, _⟩ := h.ordered.spec.chosen _ hselect
  obtain ⟨limits, head, hcandidate⟩ := isCandidate_of_mem hchosen
  have hclass : selection.taskClass = chosen.taskClass := congrArg Selection.taskClass hselection
  rcases (h.candidate hk hcandidate).1 with ⟨hd, _⟩ | ⟨hs, _⟩
  · exact Or.inl (h.ordered.selected_before shares_double shares_single hdouble hsingle h.doubles h.singles hselect
      (hclass.trans hd) (by decide))
  · exact Or.inr (h.ordered.selected_before shares_single shares_double hsingle hdouble h.singles h.doubles hselect
      (hclass.trans hs) (by decide))

/-- The next round serves the class that has been served before. -/
theorem Contest.round (h : Contest k (next :: rest) last s) (hk : k < 2) (nowMs : Nat) :
    ∃ s' grant, governor.promoteStep nowMs s = (s', some grant) ∧
      (select s governor.policy).2 = some ⟨double, 0, 0⟩ ∧ Contest (k + 1) rest last s' := by
  obtain ⟨first, others, hqueue, hrun⟩ := (h.heads hk).1
  obtain ⟨rfl, rfl⟩ := List.cons.inj (h.doubles.symm.trans hqueue)
  have hruns := (head_runs h.ordered.queues h.sound known_double h.doubles
    (by rw [h.doubleLoad]; show k < 3; omega) (by rw [h.memory]; show k + 1 ≤ 2; omega)).1
  rcases promoteStep_cases governor nowMs s with ⟨hnone, _⟩ | ⟨s', grant, _, _, _, _, _, _, _, hround, _⟩
  · rw [h.ordered.queues.hasRunnable_iff.mpr ⟨double, next, hruns⟩] at hnone
    simp at hnone
  · obtain ⟨first, others, candidate, limits, r, head, chosen, served, hserves, hpromotes, hselect⟩ :=
      round_promotes hround
    obtain ⟨htagged, horder⟩ := h.doubleTags next List.mem_cons_self
    rcases h.selected hk hselect with ⟨hselection, _⟩ | ⟨_, hbefore⟩
    swap
    · -- Both tags are zero, and the other class arrived later.
      simp only [KeyLt, h.singleTag, htagged] at hbefore
      omega
    have hclass : candidate.taskClass = double := congrArg Selection.taskClass hselection
    have hindex : candidate.queueIndex = 0 := congrArg Selection.queueIndex hselection
    have hzero : candidate.headFinishTag = 0 := (congrArg Selection.serviceFinishTag hselection).trans htagged
    obtain rfl : limits = doublePolicy := by
      have hknown := hserves.driven.known
      rw [hclass] at hknown
      exact Option.some.inj (hknown.symm.trans known_double)
    have hown := hserves.own
    have hothers := hserves.others
    have hqueued := hserves.driven.queued
    rw [hclass, hindex] at hpromotes hown hqueued
    rw [hclass] at hothers
    rw [h.doubles] at hqueued
    obtain rfl := Option.some.inj hqueued
    have hmove : Move governor Caller.nobody .growing s s' := Move.promoted nowMs hround
    obtain ⟨hmemory, hinflight⟩ := hpromotes.loads
    have hdoubles : (s'.cls double).queue = rest := by
      have hleft := congrArg ClassSchedule.queue hown
      rw [queue_credited_head] at hleft
      have hdequeued : (s'.cls double).queue = (s.cls double).queue.eraseIdx 0 := hleft
      rw [hdequeued, h.doubles]
      rfl
    have hkept : ∀ c, c ≠ double → (s'.cls c).queue = (s.cls c).queue := fun c hc =>
      congrArg ClassSchedule.queue (hothers c hc)
    have hcost : next.cost.memoryUnits = 1 :=
      (h.waits double (by decide) next (h.doubles ▸ List.mem_cons_self)).memory
    refine ⟨s', grant, hround, ?_, ⟨h.ordered.move hmove, hpromotes.flags.fault.trans h.sound, hdoubles,
      (hkept single (by decide)).trans h.singles, fun c hc r hr => ?_, ?_, ?_, ?_, ?_, ?_⟩, ?_,
      fun r hr => h.doubleTags r (List.mem_cons_of_mem _ hr), h.singleTag⟩
    · rw [hselect, hclass, hindex, hzero]
    · by_cases hd : c = double
      · subst hd
        rw [hdoubles] at hr
        exact h.waits double hc r (h.doubles ▸ List.mem_cons_of_mem _ hr)
      · rw [hkept c hd] at hr
        exact h.waits c hc r hr
    · rw [hkept heavy (by decide)]
      exact h.heavyRoot
    · rw [hmemory, h.memory, hcost]
    · rw [hinflight heavy, if_neg (by decide)]
      exact h.load
    · rw [hinflight double, if_pos rfl, h.doubleLoad]
      show (k + 1) % (u32Max + 1) = k + 1
      exact Nat.mod_eq_of_lt (by simp only [u32Max]; omega)
    · rw [hinflight single, if_neg (by decide)]
      exact h.singleLoad
    · rcases hserves.weighted with ⟨_, htime, _⟩ | ⟨_, htime⟩
      · rw [htime, h.time, hzero]
        rfl
      · exact htime.trans h.time

end Contest

/-- The requests of the two classes at the start. -/
theorem start_queues : ∃ a b c d, (start.state.cls double).queue = [a, b, c] ∧
    (start.state.cls single).queue = [d] ∧ ∀ r ∈ [a, b, c], r.queueOrder < d.queueOrder := by
  obtain ⟨a, b, c, hdoubles⟩ := List.length_eq_three.mp
    (show (start.state.cls double).queue.length = 3 by decide +kernel)
  obtain ⟨d, hsingles⟩ := List.length_eq_one_iff.mp
    (show (start.state.cls single).queue.length = 1 by decide +kernel)
  have horders : ((start.state.cls double).queue.all fun r => (start.state.cls single).queue.all fun r' =>
      decide (r.queueOrder < r'.queueOrder)) = true := by decide +kernel
  refine ⟨a, b, c, d, hdoubles, hsingles, fun r hr => ?_⟩
  rw [hdoubles, hsingles] at horders
  exact of_decide_eq_true (List.all_eq_true.mp (List.all_eq_true.mp horders r hr) d (List.mem_singleton_self d))

theorem rebased_waits {c : TaskClass} {r : PendingRequest} {origin : Nat} (h : Waits c r) :
    Waits c (rebased origin r) :=
  ⟨h.taskClass, h.memory, h.root, h.operation⟩

/-- After the rebase the release of the holder starts the contest. -/
theorem Full.contest {r : PendingRequest} (h : Full n σ r) (htime : σ.state.virtualTime = 0) {origin : Nat}
    (horigin : increment ≤ origin)
    (hqueues : ∀ c, c ≠ heavy → (σ.state.cls c).queue = (start.state.cls c).queue.map (rebased origin)) :
    ∃ a b c last freed, ReleasedAlone governor σ ⟨7, 1⟩ freed ∧ SameSchedule σ.state freed ∧
      Contest 0 [a, b, c] last freed := by
  obtain ⟨a, b, c, d, hdoubles, hsingles, horders⟩ := start_queues
  obtain ⟨record, found, hholder⟩ := h.holds.holder
  obtain ⟨freed, hreleased⟩ := released_alone ⟨7, 1⟩ record h.reached h.threads found hholder.lease
  have hfrees := hreleased.frees found
  have hkept : ∀ k, k ≠ heavy → (freed.cls k).queue = (start.state.cls k).queue.map (rebased origin) :=
    fun k hk => (hfrees.schedule.queue_eq k).trans (hqueues k hk)
  have hzero : ∀ k, ∀ r ∈ (start.state.cls k).queue, (rebased origin r).finishTag = 0 := fun k r hr =>
    Nat.sub_eq_zero_of_le (Nat.le_trans (start_queued hr).2 horigin)
  have hload : ∀ k, holder ≠ k → freed.inflight k = σ.state.inflight k := by
    intro k hk
    rw [hfrees.inflight, hholder.taskClass, if_neg hk]
    rfl
  have hordered : OrderedQueues governor freed := by
    have hmove : Move governor Caller.nobody .shrinking σ.state (σ.state.commitTime 0) :=
      Move.rescheduled (rescheduled_commitTime _ _)
    exact hreleased.path.invariant (fun _ _ _ hm h => h.move hm) ((OrderedQueues.of_reachable h.reached).move hmove)
  refine ⟨rebased origin a, rebased origin b, rebased origin c, rebased origin d, freed, hreleased, hfrees.schedule,
    ⟨hordered, hfrees.flags.fault.trans h.sound, ?_, ?_, fun k hk r hr => ?_, fun r hr => ?_, ?_, ?_, ?_, ?_⟩,
    hfrees.schedule.time.trans htime, fun r hr => ?_, ?_⟩
  · rw [hkept double (by decide), hdoubles]
    rfl
  · rw [hkept single (by decide), hsingles]
    rfl
  · rw [hkept k hk] at hr
    obtain ⟨r', hr', rfl⟩ := List.mem_map.mp hr
    exact rebased_waits (start_waits hr')
  · rw [hfrees.schedule.queue_eq, h.queue, List.mem_singleton] at hr
    rw [hr]
    exact h.scope
  · rw [hfrees.memory, hholder.memory, h.holds.memory]
  · exact (hload heavy (by decide)).trans h.holds.load
  · exact (hload double (by decide)).trans h.holds.double
  · exact (hload single (by decide)).trans h.holds.single
  · obtain ⟨r', hr', rfl⟩ := List.mem_map.mp (show r ∈ [a, b, c].map (rebased origin) from hr)
    exact ⟨hzero double r' (hdoubles ▸ hr'), horders r' hr'⟩
  · exact hzero single d (hsingles ▸ List.mem_singleton_self d)

/-- The states and the moves of the step that releases the holder: the pass serves the same class twice. -/
structure LastPass (σ σ' : governor.System) (freed s₁ s₂ : GovernedState) (a b c last : PendingRequest) : Prop where
  step : governor.step σ (.release ⟨7, 1⟩ 0) = some (σ', .released ⟨7, 1⟩ .released)
  schedule : SameSchedule σ.state freed
  first : Contest 0 [a, b, c] last freed
  second : Contest 1 [b, c] last s₁
  third : Contest 2 [c] last s₂
  state : σ'.state = s₂.flagged false
  ended : ScheduleMove governor (σ.state.commitTime 0) .other freed
  served : ScheduleMove governor freed (.dispatched ⟨double, 0, 0⟩) s₁
  again : ScheduleMove governor s₁ (.dispatched ⟨double, 0, 0⟩) s₂

theorem Full.lastPass {r : PendingRequest} (h : Full n σ r) (htime : σ.state.virtualTime = 0) {origin : Nat}
    (horigin : increment ≤ origin)
    (hqueues : ∀ c, c ≠ heavy → (σ.state.cls c).queue = (start.state.cls c).queue.map (rebased origin)) :
    ∃ σ' freed s₁ s₂ a b c last, LastPass σ σ' freed s₁ s₂ a b c last := by
  obtain ⟨a, b, c, last, freed, hreleased, hschedule, hfirst⟩ := h.contest htime horigin hqueues
  obtain ⟨s₁, grant₁, hround₁, hselect₁, hsecond⟩ :=
    hfirst.round (by decide) (σ.state.commitTime 0).commitWatermarkMs
  obtain ⟨s₂, grant₂, hround₂, hselect₂, hthird⟩ :=
    hsecond.round (by decide) (σ.state.commitTime 0).commitWatermarkMs
  have hover := round_over hthird.waits hthird.ordered.queues hthird.memory (Nat.le_of_eq hthird.load.symm)
    (σ.state.commitTime 0).commitWatermarkMs
  have hnone : NoneAwaited freed := noneAwaited_of_waits hfirst.waits hfirst.heavyRoot
  obtain ⟨⟨σ', hstep, hstate⟩, _⟩ := hreleased.passes [grant₁, grant₂] s₂ hnone (by simp [promotionBudget])
    (.grant hround₁ (.grant hround₂ (.done hover)))
  obtain ⟨effects, hunwind⟩ := hreleased.unwinds
  have hfreed : ScheduleMove governor (σ.state.commitTime 0) .other freed := unwind_move hunwind
  rw [← hfreed.watermark_eq (by simp)] at hround₁ hround₂
  have hserved := ScheduleMove.dispatched hselect₁ hround₁
  rw [← hserved.watermark_eq (by simp)] at hround₂
  exact ⟨σ', freed, s₁, s₂, a, b, c, last, hstep, hschedule, hfirst, hsecond, hthird, hstate, hfreed, hserved,
    ScheduleMove.dispatched hselect₂ hround₂⟩

section LastPass

variable {σ' : governor.System} {freed s₁ s₂ : GovernedState} {a b c last : PendingRequest}

/-- The moves of the last pass. -/
def lastMoves (σ : governor.System) (freed s₁ s₂ : GovernedState) : List (GovernedState × ScheduleEvent) :=
  [(σ.state, .ticked), (σ.state.commitTime 0, .other), (freed, .dispatched ⟨double, 0, 0⟩),
    (s₁, .dispatched ⟨double, 0, 0⟩), (s₂, .other)]

theorem LastPass.trace (h : LastPass σ σ' freed s₁ s₂ a b c last) :
    ScheduleTrace governor σ.state (lastMoves σ freed s₁ s₂) σ'.state := by
  have hticked : ScheduleMove governor σ.state .ticked (σ.state.commitTime 0) := .ticked _ 0
  have hflagged : ScheduleMove governor s₂ .other σ'.state := by
    rw [h.state]
    exact ScheduleMove.of_frame rfl rfl rfl rfl rfl
  exact ((((Traces.Trace.single hticked).snoc h.ended).snoc h.served).snoc h.again).snoc hflagged

theorem LastPass.fits (h : LastPass σ σ' freed s₁ s₂ a b c last) :
    ∀ x ∈ lastMoves σ freed s₁ s₂, TagsFit governor.policy x := by
  intro x hx
  simp only [lastMoves, List.mem_cons, List.not_mem_nil, or_false] at hx
  rcases hx with rfl | rfl | rfl | rfl | rfl
  · simp [TagsFit, tagSums]
  · simp [TagsFit, tagSums]
  · exact h.first.fits (by decide) 0
  · exact h.second.fits (by decide) 0
  · simp [TagsFit, tagSums]

/-- A class contends in the last pass if it has requests in every state, and its head can run in the two where
one is selected. -/
theorem LastPass.contends (h : LastPass σ σ' freed s₁ s₂ a b c last) {k : TaskClass} {limits : ClassPolicy}
    (hfreed : HeadRunnable governor k limits freed) (hserved : HeadRunnable governor k limits s₁)
    (hleft : (s₂.cls k).queue ≠ []) : Contends governor k limits (lastMoves σ freed s₁ s₂) σ'.state := by
  have hbusy : ∀ {s}, HeadRunnable governor k limits s → (s.cls k).queue ≠ [] := by
    rintro s ⟨head, rest, hqueue, _⟩
    rw [hqueue]
    exact List.cons_ne_nil head rest
  have hstart : (σ.state.cls k).queue ≠ [] := by
    rw [← h.schedule.queue_eq k]
    exact hbusy hfreed
  refine ⟨fun x hx => ?_, ?_, fun x hx selection hselection => ?_, fun x hx => ?_⟩
  · simp only [lastMoves, List.mem_cons, List.not_mem_nil, or_false] at hx
    rcases hx with rfl | rfl | rfl | rfl | rfl
    · exact hstart
    · exact hstart
    · exact hbusy hfreed
    · exact hbusy hserved
    · exact hleft
  · rw [h.state]
    exact hleft
  · simp only [lastMoves, List.mem_cons, List.not_mem_nil, or_false] at hx
    rcases hx with rfl | rfl | rfl | rfl | rfl
    · simp at hselection
    · simp at hselection
    · exact hfreed
    · exact hserved
    · simp at hselection
  · simp only [lastMoves, List.mem_cons, List.not_mem_nil, or_false] at hx
    rcases hx with rfl | rfl | rfl | rfl | rfl <;> simp

end LastPass

end Rebase

/-- In a reachable state after a rebase two classes of weight one contend, of costs two and one, with their
heads not behind virtual time. A release then serves the first of them twice and the other one not at all, with
no overflow: twice its increment exceeds the sum of both. -/
theorem rebase_loses_shares : ∃ (σ σ' : Rebase.governor.System) (e : Event)
    (tr : List (GovernedState × ScheduleEvent)), Rebase.governor.Reachable σ ∧
    Rebase.governor.step σ (.release ⟨7, 1⟩ 0) = some (σ', e) ∧
    ScheduleTrace Rebase.governor σ.state tr σ'.state ∧ (∀ x ∈ tr, TagsFit Rebase.governor.policy x) ∧
    SharesByWeight Rebase.governor Rebase.double Rebase.doublePolicy 1 0 ∧
    SharesByWeight Rebase.governor Rebase.single Rebase.singlePolicy 1 0 ∧
    Contends Rebase.governor Rebase.double Rebase.doublePolicy tr σ'.state ∧
    Contends Rebase.governor Rebase.single Rebase.singlePolicy tr σ'.state ∧
    σ.state.virtualTime ≤ headTag σ.state Rebase.double ∧ σ.state.virtualTime ≤ headTag σ.state Rebase.single ∧
    ¬ |(dispatchTotal Rebase.double tr * wfqIncrement (resolveCost Rebase.doublePolicy).cpuUnits 1 : Int) -
        dispatchTotal Rebase.single tr * wfqIncrement (resolveCost Rebase.singlePolicy).cpuUnits 1| ≤
      wfqIncrement (resolveCost Rebase.doublePolicy).cpuUnits 1 +
        wfqIncrement (resolveCost Rebase.singlePolicy).cpuUnits 1 := by
  obtain ⟨σ₀, hspinning⟩ := Rebase.exists_spinning (2 ^ 32 + 1) (Nat.le_refl _)
  obtain ⟨σ, tagged, r, hfull, harrives, _⟩ := hspinning.queues (by decide)
  obtain ⟨htime, hqueues⟩ := hspinning.rebases harrives
  obtain ⟨σ', freed, s₁, s₂, a, b, c, last, hpass⟩ :=
    hfull.lastPass htime (Nat.le_mul_of_pos_left _ (by decide)) hqueues
  obtain ⟨hdouble, hsingle⟩ := hpass.first.heads (by decide)
  obtain ⟨hdouble', hsingle'⟩ := hpass.second.heads (by decide)
  have hleft : (s₂.cls Rebase.double).queue ≠ [] := by simp [hpass.third.doubles]
  have hleft' : (s₂.cls Rebase.single).queue ≠ [] := by simp [hpass.third.singles]
  refine ⟨σ, σ', _, Rebase.lastMoves σ freed s₁ s₂, hfull.reached, hpass.step, hpass.trace, hpass.fits,
    Rebase.shares_double, Rebase.shares_single, hpass.contends hdouble hdouble' hleft,
    hpass.contends hsingle hsingle' hleft', ?_, ?_, ?_⟩
  · rw [htime]
    exact Nat.zero_le _
  · rw [htime]
    exact Nat.zero_le _
  · have hserved : dispatchTotal Rebase.double (Rebase.lastMoves σ freed s₁ s₂) = 2 := rfl
    have hunserved : dispatchTotal Rebase.single (Rebase.lastMoves σ freed s₁ s₂) = 0 := by
      simp [dispatchTotal, Rebase.lastMoves, dispatches, Rebase.double, Rebase.single]
    rw [hserved, hunserved]
    decide +kernel

end Taskmesh
