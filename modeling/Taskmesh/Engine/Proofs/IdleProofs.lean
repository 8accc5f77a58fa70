import Taskmesh.Engine.Proofs.IdentityProofs
import Taskmesh.Engine.Proofs.OvertakeProofs
import Taskmesh.Engine.Proofs.ValidationProofs

/-!
# An idle governor

With no permit live every total is back at zero, and validation has made sure that the cost of a class
fits into the empty budgets. The first request of a queue would then be runnable, so nothing is queued
unless a continuation is owed, and a root task of an enabled class is admitted at once.
-/

namespace Taskmesh

open Std MachineInt ExtTreeMap Governor

variable {g : Governor} {s : GovernedState} {σ σ' : g.System} {c : TaskClass} {policy : ClassPolicy}

/-! ## Every total is zero -/

/-- No permit is live. -/
def Idle (s : GovernedState) : Prop := ∀ p, p ∉ s.permits

/-- An idle engine has no live permit. -/
theorem Idle.permits (h : Idle s) : s.permits = ∅ := by
  ext p record
  have hnone : s.permits[p]? = none := ExtTreeMap.getElem?_eq_none (h p)
  simp [hnone]

/-- An idle engine has no class in flight. -/
theorem Idle.inflight (h : Idle s) (hinv : StateInv g s) (c : TaskClass) : s.inflight c = 0 := by
  have hbooks := (hinv.books.classes c).inflight
  rw [h.permits] at hbooks
  exact hbooks.trans (sumBy_empty _)

/-- An idle engine holds no CPU units. -/
theorem Idle.cpu (h : Idle s) (hinv : StateInv g s) : s.cpuUnitsHeld = 0 := by
  rw [hinv.books.cpu, h.permits]
  exact sumBy_empty _

/-- An idle engine holds no memory units. -/
theorem Idle.memory (h : Idle s) (hinv : StateInv g s) : s.memoryUnitsHeld = 0 := by
  rw [hinv.books.memory, h.permits]
  exact sumBy_empty _

/-- No pool is full: an empty pool with a limit has a free slot. -/
theorem Idle.poolBlocked (h : Idle s) (hinv : StateInv g s) (id : CapabilityId) :
    poolBlocked s g.policy id = false := by
  cases hrecord : g.policy.capabilityRecord id with
  | none => simp [Taskmesh.poolBlocked, hrecord]
  | some record =>
    by_cases hlimit : record.capacity.limit.toNat = 0
    · simp [Taskmesh.poolBlocked, hrecord, hlimit]
    · have hpool : PoolLimit g id record.capacity.limit.toNat := ⟨hlimit, record, hrecord, rfl⟩
      have hempty : s.inUse id = 0 := by
        rw [(hinv.capacity.pools id _ hpool).1.inUse, h.permits]
        simp [occupants, heldBy]
      rw [poolBlocked_of_limit hpool, hempty]
      simpa using hlimit

/-- Nothing is over budget while nothing is held, as long as the cost itself fits. -/
theorem overBudget_empty {budget cost : Nat} (h : budget ≠ 0 → cost ≤ budget) (hbudget : budget ≤ u128Max) :
    overBudget budget 0 cost = false := by
  unfold overBudget checkedAdd
  by_cases hzero : budget = 0
  · simp [hzero]
  · have hle := h hzero
    rw [Nat.zero_add, if_pos (by omega)]
    simp [hzero, hle]

theorem toNat_le_u128 (n : UInt32) : n.toNat ≤ u128Max := by
  have := n.toNat_lt
  simp only [u128Max]
  omega

/-- A request of an enabled class finds room in every dimension of an idle governor. -/
theorem Idle.room (h : Idle s) (hinv : StateInv g s) (hfault : s.accountingFault = none)
    (hpolicy : g.policy.classPolicy c = some policy) (henabled : policy.isDisabled = false)
    {capabilities : CapabilityRequirementSet} (hregistered : RegisteredWith g.policy capabilities) :
    (blockersFor s g.policy c policy.maxInflight.toNat (resolveCost policy) capabilities).isEmpty = true := by
  obtain ⟨hcpu, hmemory⟩ := class_cost_le g hpolicy
  refine BlockerSet.isEmpty_iff.mpr ⟨?_, ?_, ?_, ?_, rfl, ?_⟩
  · simp only [blockersFor, h.inflight hinv, ge_iff_le, Nat.le_zero_eq, decide_eq_false_iff_not]
    simpa [ClassPolicy.isDisabled, ← UInt32.toNat_inj] using henabled
  · exact List.filter_eq_nil_iff.mpr fun id _ => by simp [h.poolBlocked hinv id]
  · simp only [blockersFor, h.cpu hinv]
    exact overBudget_empty hcpu (toNat_le_u128 _)
  · simp only [blockersFor, h.memory hinv]
    exact overBudget_empty hmemory (toNat_le_u128 _)
  · simp only [blockersFor, hfault, Option.isSome_none, Bool.false_or, List.any_eq_false]
    intro id hid
    have hmem := hregistered id hid
    rw [ExtTreeMap.mem_iff_isSome_getElem?] at hmem
    simp [PolicySet.capabilityRecord, Option.isSome_iff_ne_none.mp hmem]

/-! ## Nothing waits -/

/-- The oldest request of a queue is first in line. -/
theorem QueueInv.head_firstInLine (hinv : QueueInv g s) {r : PendingRequest} {rest : List PendingRequest}
    (hqueue : (s.cls c).queue = r :: rest) : FirstInLine s c r := by
  have hsorted := (hinv.indexed c).sorted
  simp only [ClassState.queueHalf, hqueue, List.map_cons, List.pairwise_cons] at hsorted
  refine ⟨by simp [hqueue], fun r' hr' _ hlt => ?_⟩
  rw [hqueue] at hr'
  rcases List.mem_cons.mp hr' with rfl | hr'
  · exact absurd hlt (Nat.lt_irrefl _)
  · have hafter : r.queueOrder < r'.queueOrder := hsorted.1 r'.untagged (List.mem_map_of_mem hr')
    omega

/-- The head of a queue can run in an idle governor. -/
theorem Idle.runnable (h : Idle s) (hinv : StateInv g s) (hfault : s.accountingFault = none)
    {r : PendingRequest} {rest : List PendingRequest} (hqueue : (s.cls c).queue = r :: rest) :
    RunnableCandidate g s c r := by
  have hfirst := hinv.queues.head_firstInLine hqueue
  obtain ⟨policy, hfits⟩ := hinv.queues.fits c r.untagged (List.mem_map_of_mem hfirst.1)
  have hroom := h.room hinv hfault hfits.known hfits.enabled hfits.registered
  refine RunnableCandidate.of_room hinv.queues hfits.known hroom hfirst ?_
  rintro ⟨id, _, hblocked⟩
  rw [h.poolBlocked hinv] at hblocked
  simp at hblocked

/-- Nothing is queued in an idle governor that owes no continuation. -/
theorem Idle.queue_empty (h : g.Reachable σ) (hidle : Idle σ.state) (hfault : σ.state.accountingFault = none)
    (howed : σ.state.promotionPending = false) (c : TaskClass) : (σ.state.cls c).queue = [] := by
  have hinv := (SysInv.of_reachable h).state
  cases hqueue : (σ.state.cls c).queue with
  | nil => rfl
  | cons r rest =>
    have hrun := hidle.runnable hinv hfault hqueue
    have hflag := (PromotionInv.of_reachable h).flagged (hinv.queues.hasRunnable_iff.mpr ⟨c, r, hrun⟩)
    rw [howed] at hflag
    simp at hflag

/-! ## A root task is admitted -/

/-- Nothing is live, nothing is queued and nothing is owed; admission is open and the books are sound. -/
structure Vacant (s : GovernedState) : Prop where
  idle : Idle s
  empty : ∀ c, (s.cls c).queue = []
  isOpen : s.admissionClosed = false
  sound : s.accountingFault = none
  settled : s.promotionPending = false

theorem Vacant.commitTime (h : Vacant s) (sampledMs : Nat) : Vacant (s.commitTime sampledMs) :=
  ⟨h.idle, h.empty, h.isOpen, h.sound, h.settled⟩

theorem Vacant.waiting (h : Vacant s) (c : TaskClass) : s.waiting c = [] := by
  simp [GovernedState.waiting, ClassState.queueHalf, h.empty c]

/-- No identity is taken. -/
theorem Vacant.identity (h : Vacant s) (hinv : StateInv g s) (root operation : String) :
    s.hasOperationIdentity root operation = false := by
  unfold GovernedState.hasOperationIdentity
  rw [Bool.or_eq_false_iff]
  constructor
  · rw [Option.isSome_eq_false_iff, Option.isNone_iff_eq_none]
    by_contra hsome
    obtain ⟨p, hp⟩ := Option.ne_none_iff_exists'.mp hsome
    obtain ⟨record, hrecord, _⟩ := (hinv.occupancy.operations root operation p).mp hp
    rw [h.idle.permits] at hrecord
    simp at hrecord
  · by_contra hsome
    rw [Bool.not_eq_false, any_contains_iff, hinv.occupancy.queuedOperations] at hsome
    obtain ⟨c, r, hr, _⟩ := hsome
    rw [h.waiting c] at hr
    simp at hr

/-- With nothing queued in its class and nothing owed, a newcomer is behind nobody. -/
theorem not_queuedBehind (hinv : QueueInv g s) (hempty : s.waiting c = [])
    (hsettled : s.promotionPending = false) (capabilities : CapabilityRequirementSet) :
    queuedBehind s policy c capabilities = false := by
  have hdomain : (s.classes[c]?.any fun cs => cs.hasQueuedDomain capabilities) = false := by
    cases hcs : s.classes[c]? with
    | none => rfl
    | some cs =>
      have hcls : s.cls c = cs := by simp [GovernedState.cls, hcs]
      by_contra hsome
      have hqueued : (s.cls c).hasQueuedDomain capabilities = true := by simpa [hcls] using hsome
      obtain ⟨r, hr, _⟩ := (hinv.hasQueuedDomain_iff c capabilities).mp hqueued
      rw [hempty] at hr
      simp at hr
  unfold queuedBehind
  simp [hdomain, hsettled]

/-- A request that passes the checks and finds room is granted at once. -/
theorem admitRequest_of_runnable (request : AdmissionRequest) (hopen : s.admissionClosed = false)
    (hpolicy : g.policy.classPolicy request.spec.taskClass = some policy)
    (henabled : policy.isDisabled = false)
    (hidentity : s.hasOperationIdentity request.spec.rootOperationId request.spec.operation = false)
    (hrecursive : isRecursive s request.spec = false)
    (hrunnable : assessIntake s g.policy policy request.spec.taskClass request = .runnable)
    (nowMs : Nat) (waker : Option Waker) (ids : Ids) (effects : TransitionEffects) :
    admitRequest s g.policy nowMs request waker ids effects =
      ⟨s.grant (directGrant s policy request.spec.taskClass request ids nowMs), effects.pushRetire waker,
        .admitted ids.permitId⟩ := by
  unfold admitRequest admitClass admitClassWith
  simp only [hopen, hpolicy, henabled, hidentity, hrecursive, hrunnable, admitBlock,
    Bool.false_eq_true, if_false]

/-- A root task that finds its class full is blocked by that first, as long as the books are sound. -/
theorem assessIntake_of_full (policy : ClassPolicy) (request : AdmissionRequest) (hroot : request.spec.scope = .root)
    (hbehind : queuedBehind s policy c request.capabilities = false)
    (hfull : policy.maxInflight.toNat ≤ s.inflight c) (hfault : s.accountingFault = none)
    (hregistered : RegisteredWith g.policy request.capabilities) :
    ∃ blockers, assessIntake s g.policy policy c request = .reversiblyBlocked blockers ∧
      blockers.primary = .inflight := by
  let blockers : BlockerSet :=
    { blockersFor s g.policy c policy.maxInflight.toNat (resolveCost policy) request.capabilities with
      queuedBehind := false }
  have hinflight : blockers.classInflight = true := decide_eq_true hfull
  have hsound : blockers.accountingFault = false := by
    show (s.accountingFault.isSome || _) = false
    simp only [hfault, Option.isSome_none, Bool.false_or, List.any_eq_false]
    intro id hid
    have hmem := hregistered id hid
    rw [ExtTreeMap.mem_iff_isSome_getElem?] at hmem
    simp [PolicySet.capabilityRecord, Option.isSome_iff_ne_none.mp hmem]
  have hne : blockers.isEmpty = false := by
    unfold BlockerSet.isEmpty
    rw [hinflight]
    rfl
  refine ⟨blockers, ?_, ?_⟩
  · unfold assessIntake assess assessScope cycleWitness
    rw [hbehind, hroot]
    show (if blockers.isEmpty then _ else _) = _
    rw [hne]
    rfl
  · unfold BlockerSet.primary
    rw [hsound, hinflight]
    rfl

/-- A request that passes the checks and finds its class full waits, if its policy queues and has room. -/
theorem admitRequest_of_full (request : AdmissionRequest) {blockers : BlockerSet}
    (hopen : s.admissionClosed = false) (hpolicy : g.policy.classPolicy request.spec.taskClass = some policy)
    (henabled : policy.isDisabled = false)
    (hidentity : s.hasOperationIdentity request.spec.rootOperationId request.spec.operation = false)
    (hrecursive : isRecursive s request.spec = false)
    (hblocked : assessIntake s g.policy policy request.spec.taskClass request = .reversiblyBlocked blockers)
    (hfull : blockers.primary = .inflight) (hqueueable : policy.overflowPolicy.isQueueable = true)
    (hroom : s.queued request.spec.taskClass < policy.maxQueueDepth.toNat) (nowMs : Nat) (waker : Option Waker)
    (ids : Ids) (effects : TransitionEffects) :
    admitRequest s g.policy nowMs request waker ids effects =
      ⟨(enqueueTags s request.spec.taskClass policy (resolveCost policy).cpuUnits nowMs).1.commitPending
          (pendingRequest s policy request.spec.taskClass request waker ids nowMs .inflight
            (enqueueTags s request.spec.taskClass policy (resolveCost policy).cpuUnits nowMs).2),
        effects, .queued ids.ticket⟩ := by
  have hdepth : ¬ s.queued request.spec.taskClass ≥ policy.maxQueueDepth.toNat := Nat.not_le.mpr hroom
  unfold admitRequest admitClass admitClassWith
  simp only [hopen, hpolicy, henabled, hidentity, hrecursive, hblocked, hfull, admitBlock, hqueueable,
    enqueueOrFull, hdepth, Bool.false_eq_true, if_false, if_true]

/-- A vacant governor admits every root task of an enabled class. -/
theorem Vacant.admits (h : Vacant s) (hinv : StateInv g s) (intake : Intake g.policy)
    (hroot : intake.request.spec.scope = .root)
    (hpolicy : g.policy.classPolicy intake.request.spec.taskClass = some policy)
    (henabled : policy.isDisabled = false) (nowMs : Nat) (ids : Ids) (effects : TransitionEffects) :
    (admitRequest s g.policy nowMs intake.request intake.waker ids effects).decision = .admitted ids.permitId := by
  have hroom := h.idle.room hinv h.sound hpolicy henabled
    intake.registered
  have hrunnable : assessIntake s g.policy policy intake.request.spec.taskClass intake.request =
      .runnable := by
    unfold assessIntake assess assessScope
    rw [not_queuedBehind hinv.queues (h.waiting _) h.settled]
    exact if_pos hroom
  have hrecursive : isRecursive s intake.request.spec = false := by simp [isRecursive, hroot]
  rw [admitRequest_of_runnable _ h.isOpen hpolicy henabled (h.identity hinv _ _) hrecursive hrunnable]

/-- An admission call that enters the lock of a vacant governor is admitted. -/
theorem Vacant.enter (h : g.Reachable σ) (hvacant : Vacant σ.state) {i : Nat} {intake : Intake g.policy}
    {sampledMs : Nat} {ids : Ids} (hthread : σ.threads[i]? = some (.admitting intake sampledMs ids))
    (hroot : intake.request.spec.scope = .root)
    (hpolicy : g.policy.classPolicy intake.request.spec.taskClass = some policy)
    (henabled : policy.isDisabled = false) :
    ∃ σ', g.step σ (.enter i) = some (σ', .decided ids (.admitted ids.permitId)) := by
  have hinv := SysInv.of_reachable h
  have hseq := Nat.lt_of_le_of_lt (terminalSeq_le_load _) hinv.terminalSeq_lt
  have hadmits := (hvacant.commitTime sampledMs).admits (stateInv_commitTime hinv.state sampledMs hseq)
    intake hroot hpolicy henabled (σ.state.commitTime sampledMs).commitWatermarkMs ids {}
  have hprepared : Governor.prepare σ (.enter i) = some (Governor.enter σ i intake sampledMs ids) := by
    simp only [Governor.prepare, hthread]
  have hstep := congrArg (Option.map fun p => (finish p, p.sec.outcome)) hprepared
  refine ⟨finish (Governor.enter σ i intake sampledMs ids), hstep.trans ?_⟩
  show some (_, Event.decided ids _) = _
  rw [hadmits]

/-! ## From the call to the lock -/

/-- The next value of every identity counter can still be taken. -/
structure CountersLeft (σ : g.System) : Prop where
  permit : σ.nextPermit < u64Max
  ticket : σ.nextTicket < u64Max
  seq : σ.nextSeq < u64Max

theorem takeSequence_of_lt {counter : Nat} (h : counter < u64Max) :
    takeSequence counter = some (counter, counter + 1) := by
  unfold takeSequence checkedAdd
  rw [if_pos (Nat.succ_le_of_lt h)]
  rfl

/-- What a call with a valid plan hands to the lock. -/
theorem preflight_admitSpec {spec : TaskSpec} (valid : validateTaskSpec spec = .ok ())
    {capabilities : CapabilityRequirementSet} (hdeclared : declaredRequirements g.policy spec = .ok capabilities)
    (registered : RegisteredWith g.policy capabilities) :
    preflight g.policy (.admitSpec spec) = .ok ⟨⟨spec, capabilities⟩, none, valid, registered⟩ := by
  show validatePlan g.policy spec (fun plan => declaredIntake g.policy plan none) = _
  unfold validatePlan
  rw [dif_pos valid]
  show declaredIntake g.policy ⟨spec, valid⟩ none = _
  unfold declaredIntake
  split
  · rename_i capabilities' heq
    rw [hdeclared] at heq
    obtain rfl := Except.ok.inj heq
    rfl
  · rename_i error heq
    rw [hdeclared] at heq
    simp at heq

/-- A call that passes the preflight opens a thread. -/
theorem step_call {entry : AdmitCall} {sampledMs : UInt64} {intake : Intake g.policy}
    (h : preflight g.policy entry = .ok intake) :
    g.step σ (.call entry sampledMs) = some
      ({ σ with threads := σ.threads ++ [.allocating intake sampledMs.toNat .nothing] }, .progressed) := by
  unfold Governor.step Governor.prepare Governor.call
  simp only [h]
  rfl

section Allocate

variable {i sampledMs : Nat} {intake : Intake g.policy}

/-- The first allocation of an intake takes the next permit number. -/
theorem step_takePermit (hthread : σ.threads[i]? = some (.allocating intake sampledMs .nothing))
    (hleft : σ.nextPermit < u64Max) :
    g.step σ (.allocate i) = some
      ({ σ with
          nextPermit := σ.nextPermit + 1
          threads := σ.threads.set i (.allocating intake sampledMs (.permit σ.nextPermit)) },
        .progressed) := by
  unfold Governor.step Governor.prepare
  simp only [hthread, Governor.allocate, takeSequence_of_lt hleft]
  rfl

/-- The second allocation takes the next ticket number. -/
theorem step_takeTicket {permit : Nat}
    (hthread : σ.threads[i]? = some (.allocating intake sampledMs (.permit permit)))
    (hleft : σ.nextTicket < u64Max) :
    g.step σ (.allocate i) = some
      ({ σ with
          nextTicket := σ.nextTicket + 1
          threads := σ.threads.set i (.allocating intake sampledMs (.ticket permit σ.nextTicket)) },
        .progressed) := by
  unfold Governor.step Governor.prepare
  simp only [hthread, Governor.allocate, takeSequence_of_lt hleft]
  rfl

/-- The third allocation takes the next sequence number. -/
theorem step_takeSeq {permit ticket : Nat}
    (hthread : σ.threads[i]? = some (.allocating intake sampledMs (.ticket permit ticket)))
    (hleft : σ.nextSeq < u64Max) :
    g.step σ (.allocate i) = some
      ({ σ with
          nextSeq := σ.nextSeq + 1
          threads := σ.threads.set i
            (.admitting intake sampledMs ⟨⟨g.authority, permit⟩, ⟨g.authority, ticket⟩, σ.nextSeq⟩) },
        .progressed) := by
  unfold Governor.step Governor.prepare
  simp only [hthread, Governor.allocate, takeSequence_of_lt hleft]
  rfl

end Allocate

/-- The identities the next call takes, if no other call comes between. -/
def nextIds (σ : g.System) : Ids :=
  ⟨⟨g.authority, σ.nextPermit⟩, ⟨g.authority, σ.nextTicket⟩, σ.nextSeq⟩

/-- The system when a call that no other one interrupted reaches the lock. -/
def atLock (σ : g.System) (intake : Intake g.policy) (sampledMs : Nat) : g.System :=
  { σ with
    nextPermit := σ.nextPermit + 1
    nextTicket := σ.nextTicket + 1
    nextSeq := σ.nextSeq + 1
    threads := σ.threads ++ [.admitting intake sampledMs (nextIds σ)] }

/-- A call that passes the checks takes its identities and reaches the lock. -/
theorem call_reaches_lock (hleft : CountersLeft σ) {entry : AdmitCall} (sampledMs : UInt64)
    {intake : Intake g.policy} (h : preflight g.policy entry = .ok intake) :
    Runs.replay g.step σ (.call entry sampledMs :: List.replicate 3 (.allocate σ.threads.length)) =
      some (atLock σ intake sampledMs.toNat) := by
  have hlast : ∀ th : Thread g.policy, (σ.threads ++ [th])[σ.threads.length]? = some th := by simp
  have hset : ∀ th new : Thread g.policy,
      (σ.threads ++ [th]).set σ.threads.length new = σ.threads ++ [new] := by simp
  -- The system after the call and after each of the first two identities.
  let σ₁ : g.System :=
    { σ with threads := σ.threads ++ [.allocating intake sampledMs.toNat .nothing] }
  let σ₂ : g.System :=
    { σ₁ with
      nextPermit := σ.nextPermit + 1
      threads := σ.threads ++ [.allocating intake sampledMs.toNat (.permit σ.nextPermit)] }
  let σ₃ : g.System :=
    { σ₂ with
      nextTicket := σ.nextTicket + 1
      threads := σ.threads ++ [.allocating intake sampledMs.toNat (.ticket σ.nextPermit σ.nextTicket)] }
  have hpermit : g.step σ₁ (.allocate σ.threads.length) = some (σ₂, .progressed) := by
    rw [step_takePermit (σ := σ₁) (hlast _) hleft.permit, hset]
  have hticket : g.step σ₂ (.allocate σ.threads.length) = some (σ₃, .progressed) := by
    rw [step_takeTicket (σ := σ₂) (hlast _) hleft.ticket, hset]
  have hseq : g.step σ₃ (.allocate σ.threads.length) =
      some (atLock σ intake sampledMs.toNat, .progressed) := by
    rw [step_takeSeq (σ := σ₃) (hlast _) hleft.seq, hset]
    rfl
  simp only [List.replicate, Runs.replay, step_call h]
  rw [hpermit]
  simp only
  rw [hticket]
  simp only
  rw [hseq]

/-- A call that no other one interrupts and that is decided under the lock. -/
theorem decided_alone (h : g.Reachable σ) (hthreads : σ.threads = []) (hleft : CountersLeft σ)
    {entry : AdmitCall} {intake : Intake g.policy} (hpre : preflight g.policy entry = .ok intake)
    {after : GovernedState} {effects : TransitionEffects} {decision : AdmissionDecision}
    (hdecides : admitRequest (σ.state.commitTime 0) g.policy (σ.state.commitTime 0).commitWatermarkMs
      intake.request intake.waker (nextIds σ) {} = ⟨after, effects, decision⟩) :
    g.Reachable
      { σ with
        state := after
        nextPermit := σ.nextPermit + 1
        nextTicket := σ.nextTicket + 1
        nextSeq := σ.nextSeq + 1 } := by
  obtain ⟨trace, hrun⟩ := Runs.run_of_replay (call_reaches_lock hleft (0 : UInt64) hpre)
  let decided : g.System :=
    { atLock σ intake 0 with
      state := after
      threads := [.settling decision effects 0] }
  have henter : g.step (atLock σ intake 0) (.enter 0) = some (decided, .decided (nextIds σ) decision) := by
    have hthread : (atLock σ intake 0).threads[0]? = some (.admitting intake 0 (nextIds σ)) := by
      simp [atLock, hthreads]
    have hset : (atLock σ intake 0).threads.set 0 (.settling decision effects 0) =
        [.settling decision effects 0] := by simp [atLock, hthreads]
    have hdecides' : admitRequest ((atLock σ intake 0).state.commitTime 0) g.policy
        ((atLock σ intake 0).state.commitTime 0).commitWatermarkMs intake.request intake.waker (nextIds σ) {} =
        ⟨after, effects, decision⟩ := hdecides
    simp only [Governor.step, Governor.prepare, hthread, Option.map_some, Governor.enter, hdecides', finish,
      commit, Bool.false_eq_true, if_false, hset]
    rfl
  have hsettle : g.step decided (.settle 0 false) =
      some ({ decided with threads := [] }, .answered (.ok decision)) := rfl
  have hdone := ((h.run hrun).next henter).next hsettle
  rw [show σ.threads = [] from hthreads]
  exact hdone

/-! ## Never stuck -/

/-- In every reachable state with no live permit, no fault and no continuation owed, nothing is queued;
and while admission is open and identities remain, a root task of an enabled class is admitted: by the
next lock section of any call that carries one, and by a new call that is not interrupted. -/
theorem idle_never_stuck (g : Governor) (σ : g.System) (h : g.Reachable σ) (hidle : Idle σ.state)
    (hfault : σ.state.accountingFault = none) (howed : σ.state.promotionPending = false) :
    (∀ c, (σ.state.cls c).queue = []) ∧
    (σ.state.admissionClosed = false →
      (∀ i intake sampledMs ids policy, σ.threads[i]? = some (.admitting intake sampledMs ids) →
        intake.request.spec.scope = .root →
        g.policy.classPolicy intake.request.spec.taskClass = some policy → policy.isDisabled = false →
        ∃ σ', g.step σ (.enter i) = some (σ', .decided ids (.admitted ids.permitId))) ∧
      (CountersLeft σ → ∀ entry sampledMs intake policy, preflight g.policy entry = .ok intake →
        intake.request.spec.scope = .root →
        g.policy.classPolicy intake.request.spec.taskClass = some policy → policy.isDisabled = false →
        ∃ σ₁ σ₂ ids, Runs.replay g.step σ
            (.call entry sampledMs :: List.replicate 3 (.allocate σ.threads.length)) = some σ₁ ∧
          g.step σ₁ (.enter σ.threads.length) = some (σ₂, .decided ids (.admitted ids.permitId)))) := by
  have hempty : ∀ c, (σ.state.cls c).queue = [] := hidle.queue_empty h hfault howed
  refine ⟨hempty, fun hopen => ?_⟩
  have hvacant : Vacant σ.state := ⟨hidle, hempty, hopen, hfault, howed⟩
  refine ⟨fun i intake sampledMs ids policy hthread hroot => hvacant.enter h hthread hroot,
    fun hleft entry sampledMs intake policy hpre hroot hpolicy henabled => ?_⟩
  have hreplay := call_reaches_lock hleft sampledMs hpre
  obtain ⟨trace, hrun⟩ := Runs.run_of_replay hreplay
  have hthread : (atLock σ intake sampledMs.toNat).threads[σ.threads.length]? =
      some (.admitting intake sampledMs.toNat (nextIds σ)) := by simp [atLock]
  have hvacant₁ : Vacant (atLock σ intake sampledMs.toNat).state := hvacant
  obtain ⟨σ₂, hstep⟩ := hvacant₁.enter (h.run hrun) hthread hroot hpolicy henabled
  exact ⟨_, σ₂, nextIds σ, hreplay, hstep⟩

namespace Sample

/-- Both tasks of the busy sample have run and returned their permits. -/
def finished : governor.System :=
  (Runs.replay governor.step busy
    [.releaseLeased ⟨⟨7, 1⟩, 1⟩ 5, .drain 0, .release ⟨7, 2⟩ 6, .drain 0]).getD busy

theorem finished_reachable : governor.Reachable finished := by
  obtain ⟨trace, hrun⟩ : Runs.Reachable governor.step busy finished :=
    Runs.reachable_replay busy _
  exact (Runs.Reachable.of_restrict busy_reachable).run hrun

theorem finished_idle : Idle finished.state := by
  have hsize : finished.state.permits.isEmpty = true := by decide +kernel
  intro p hp
  rw [ExtTreeMap.isEmpty_iff.mp hsize] at hp
  simp at hp

end Sample

/-- The sample is idle again after both tasks, and admits a third one. -/
theorem sample_never_stuck : Idle Sample.finished.state ∧
    (∀ c, (Sample.finished.state.cls c).queue = []) ∧
    ∃ σ₁ σ₂ ids, Runs.replay Sample.governor.step Sample.finished
        (.call (.admitSpec (Sample.task "c")) 7 :: List.replicate 3 (.allocate Sample.finished.threads.length)) =
          some σ₁ ∧
      Sample.governor.step σ₁ (.enter Sample.finished.threads.length) =
        some (σ₂, .decided ids (.admitted ids.permitId)) := by
  have hstuck := idle_never_stuck Sample.governor Sample.finished Sample.finished_reachable
    Sample.finished_idle (by decide +kernel) (by decide +kernel)
  have hpreflight : (match preflight Sample.governor.policy (.admitSpec (Sample.task "c")) with
      | .ok intake => decide (intake.request.spec = Sample.task "c")
      | .error _ => false) = true := by decide +kernel
  refine ⟨Sample.finished_idle, hstuck.1, ?_⟩
  split at hpreflight
  · rename_i intake hpre
    have hspec : intake.request.spec = Sample.task "c" := by simpa using hpreflight
    refine (hstuck.2 (by decide +kernel)).2 ⟨by decide +kernel, by decide +kernel, by decide +kernel⟩
      (.admitSpec (Sample.task "c")) 7 intake Sample.classPolicy hpre ?_ ?_ (by decide +kernel)
    · rw [hspec]
      rfl
    · rw [hspec]
      decide +kernel
  · simp at hpreflight

end Taskmesh
