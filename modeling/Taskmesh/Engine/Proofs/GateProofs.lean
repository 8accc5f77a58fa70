import Taskmesh.Engine.Proofs.ConservationProofs
import Taskmesh.Engine.Proofs.PromotionProofs

/-!
# The gates of the governor

Two flags are set once and never cleared: the closed gate and the accounting fault. After the close no
admission brings a new identity, so what is outstanding only shrinks, and a permit granted later is one
that a queued request had reserved.
-/

namespace Taskmesh

open Std MachineInt QueueFamily Governor

variable {g : Governor} {caller : Caller} {s s' : GovernedState} {σ σ' σ'' : g.System} {a : Action}
  {e : Event}

/-! ## What a move does to the gates -/

/-- A gate that is shut stays shut. -/
structure GatesKept (s s' : GovernedState) : Prop where
  closed : s.admissionClosed = true → s'.admissionClosed = true
  fault : ∀ what, s.accountingFault = some what → s'.accountingFault = some what

theorem GatesKept.of_same (closed : s'.admissionClosed = s.admissionClosed)
    (fault : s'.accountingFault = s.accountingFault) : GatesKept s s' :=
  ⟨fun h => closed.trans h, fun _ h => fault.trans h⟩

theorem GatesKept.of_flags (h : s.SameFlags s') : GatesKept s s' := .of_same h.closed h.fault

/-- Admission is closed, or the books are not trusted: either way nothing is admitted. -/
def Shut (s : GovernedState) : Prop := s.admissionClosed = true ∨ s.accountingFault ≠ none

/-- A gate that is shut stays shut. -/
theorem GatesKept.shut (h : GatesKept s s') (hshut : Shut s) : Shut s' := by
  rcases hshut with hclosed | hfault
  · exact Or.inl (h.closed hclosed)
  · obtain ⟨what, hwhat⟩ := Option.ne_none_iff_exists'.mp hfault
    right
    rw [h.fault what hwhat]
    simp

/-- The first fault is kept; a later one is not recorded over it. -/
theorem gatesKept_recordAccountingFault (s : GovernedState) (what : String) :
    GatesKept s (s.recordAccountingFault what) := by
  unfold GovernedState.recordAccountingFault
  split
  · rename_i hnone
    refine ⟨fun h => h, fun what' h => ?_⟩
    rw [h] at hnone
    simp at hnone
  · exact .of_same rfl rfl

theorem gatesKept_applyMemoryDelta (s : GovernedState) (c : TaskClass) (root : Option String)
    (delta : Int) : GatesKept s (s.applyMemoryDelta c root delta) := by
  unfold GovernedState.applyMemoryDelta
  split
  · exact .of_same rfl rfl
  · simp only
    split
    · have h := gatesKept_recordAccountingFault
        (s.adjustMemory c root (GovernedState.lowered delta.natAbs))
        "memory release exceeds the units a ledger holds"
      exact ⟨fun hc => h.closed hc, fun what hf => h.fault what hf⟩
    · exact .of_same rfl rfl

/-- A recharge can record a fault, but it opens nothing. -/
theorem gatesKept_rechargePermit (s : GovernedState) (p : PermitId) (record : PermitRecord)
    (ledger : PermitLedger) : GatesKept s (s.rechargePermit p record ledger) := by
  have h := gatesKept_applyMemoryDelta
    { s with permits := s.permits.insert p { record with ledger := ledger } } record.taskClass
    (if record.scope.isChild then some record.rootOperationId else none)
    (ledger.effectiveUnits - record.ledger.effectiveUnits : Int)
  exact ⟨fun hc => h.closed hc, fun what hf => h.fault what hf⟩

/-- The end of a permit touches no gate. -/
theorem sameFlags_unwind {p : PermitId} {reason : TerminalReason} {effects effects' : TransitionEffects}
    (h : s.unwind p reason effects = some (s', effects')) : s.SameFlags s' := by
  unfold GovernedState.unwind at h
  split at h
  · simp at h
  · simp only at h
    split at h <;>
    · simp only [Option.some.injEq, Prod.mk.injEq] at h
      rw [← h.1]
      exact ⟨rfl, rfl, rfl⟩

theorem sameFlags_vacateOf (s : GovernedState) (r : PendingRequest) : s.SameFlags (s.vacateOf r) := by
  unfold GovernedState.vacateOf
  split <;> exact ⟨rfl, rfl, rfl⟩

/-- A promotion touches no gate. -/
theorem Promotes.flags {nowMs : Nat} {grant : GrantRequest} {c : TaskClass} {policy : ClassPolicy}
    {index : Nat} {r head : PendingRequest} {chosen served : GovernedState}
    (h : Promotes g nowMs s s' grant c policy index r head chosen served) : s.SameFlags s' := by
  have hserved : chosen.SameFlags served :=
    ⟨h.serves.flags.fault, h.serves.flags.closed, h.serves.flags.pending⟩
  rw [h.result]
  exact (h.chose.flags.trans hserved).trans ⟨rfl, rfl, rfl⟩

/-- What a move does to the gates: nothing, or it closes admission, or it records a fault in a section
that changes the memory of a permit. -/
inductive GateEffect (caller : Caller) (s s' : GovernedState) : Prop
  | same (closed : s'.admissionClosed = s.admissionClosed) (fault : s'.accountingFault = s.accountingFault)
  | closed (result : s' = s.closeAdmission)
  | faulted (what : String) (allowed : ∃ p, caller.memory p) (result : s' = s.recordAccountingFault what)
  | recharged {p : PermitId} {record : PermitRecord} {ledger : PermitLedger} (allowed : caller.memory p)
      (result : s' = s.rechargePermit p record ledger)

theorem GateEffect.of_flags (h : s.SameFlags s') : GateEffect caller s s' := .same h.closed h.fault

/-- Only closing admission and recording a fault move a gate. -/
theorem Move.gateEffect {trend : Trend} (h : Move g caller trend s s') : GateEffect caller s s' := by
  cases h with
  | rescheduled h => exact .of_flags h.flags
  | flagged _ pending => exact .same rfl rfl
  | closed => exact .closed rfl
  | faulted _ what allowed => exact .faulted what allowed rfl
  | admitted nowMs allowed accepted runnable => exact .same rfl rfl
  | enqueued waker nowMs tags allowed accepted blocked room hres sound =>
    exact .of_flags (hres.flags.trans (commitPending_frame _ _).2)
  | promoted nowMs h =>
    obtain ⟨c, policy, index, r, head, chosen, served, hpromotes⟩ := promoteStep_some h
    exact .of_flags hpromotes.flags
  | @cycled _ c index witness r held h found first =>
    have hflags := (rescheduled_unserved g (s.removedPending c index r) c).flags
    exact .same hflags.closed hflags.fault
  | @cancelled _ c index r ticket h found same owner =>
    have hflags := sameFlags_vacateOf ((s.removedPending c index r).removeTicket ticket) r
    exact .same hflags.closed hflags.fault
  | lost h missing owner => exact .same rfl rfl
  | @faultedHead _ c r found =>
    have hflags := sameFlags_vacateOf (s.removedPending c 0 r) r
    exact .same hflags.closed hflags.fault
  | unwound found ends h => exact .of_flags (sameFlags_unwind h)
  | claimBegun nowMs h found owner => exact .same rfl rfl
  | transferred nowMs h found owner => exact .same rfl rfl
  | @detached _ ticket p record h found leased =>
    unfold Governor.detachTicket
    rw [found]
    exact .same rfl rfl
  | expired h gone => exact .same rfl rfl
  | orphaned h gone owner => exact .same rfl rfl
  | forgot _ ticket owner => exact .same rfl rfl
  | advanced nonces found later => exact .same rfl rfl
  | recharged allowed found change => exact .recharged allowed rfl

theorem GateEffect.kept (h : GateEffect caller s s') : GatesKept s s' := by
  cases h with
  | same closed fault => exact .of_same closed fault
  | closed result => exact result ▸ ⟨fun _ => rfl, fun _ h => h⟩
  | faulted what allowed result => exact result ▸ gatesKept_recordAccountingFault s what
  | recharged allowed result => exact result ▸ gatesKept_rechargePermit s _ _ _

/-- No move opens a gate. -/
theorem Move.gatesKept {trend : Trend} (h : Move g caller trend s s') : GatesKept s s' := h.gateEffect.kept

/-- Only a section that changes the memory of a permit can record a fault. -/
theorem Move.fault_eq {trend : Trend} (h : Move g caller trend s s') (hmemory : ∀ p, ¬ caller.memory p) :
    s'.accountingFault = s.accountingFault := by
  cases h.gateEffect with
  | same closed fault => exact fault
  | closed result => exact result ▸ rfl
  | faulted what allowed result =>
    obtain ⟨p, hp⟩ := allowed
    exact absurd hp (hmemory p)
  | recharged allowed result => exact absurd allowed (hmemory _)

/-- No step opens a gate. -/
theorem SysInv.step_gatesKept (hinv : SysInv σ) (h : g.step σ a = some (σ', e)) :
    GatesKept σ.state σ'.state := by
  refine hinv.step_rule h (P := GatesKept σ.state) (fun trend s s' hm _ _ hkept => ?_)
    ⟨fun h => h, fun _ h => h⟩
  exact ⟨fun h => hm.gatesKept.closed (hkept.closed h),
    fun what h => hm.gatesKept.fault what (hkept.fault what h)⟩

/-! ## Outstanding permits -/

/-- A queued request reserved the permit identity. -/
def Reserved (s : GovernedState) (p : PermitId) : Prop := ∃ c, ∃ r ∈ (s.cls c).queue, r.permitId = p

/-- The permit identity is reserved by a queued request, or the permit is live. -/
def Outstanding (s : GovernedState) (p : PermitId) : Prop := Reserved s p ∨ p ∈ s.permits

/-- How many requests of a class run or wait, as a snapshot shows them. -/
def classLoad (s : GovernedState) (c : TaskClass) : Nat := s.inflight c + (s.cls c).queue.length

/-- A reserved permit is that of a waiting request. -/
theorem reserved_iff_waiting {p : PermitId} : Reserved s p ↔ ∃ c, ∃ r ∈ s.waiting c, r.permitId = p := by
  unfold Reserved GovernedState.waiting ClassState.queueHalf
  simp

/-- The load of a class is what it runs and what it queues. -/
theorem classLoad_eq (s : GovernedState) (c : TaskClass) :
    classLoad s c = s.inflight c + (s.waiting c).length := by
  simp [classLoad, GovernedState.waiting, ClassState.queueHalf]

/-- No new identity became outstanding, and no class carries more. -/
structure Narrowed (s s' : GovernedState) : Prop where
  reserved : ∀ p, Reserved s' p → Reserved s p
  live : ∀ p, p ∈ s'.permits → p ∈ s.permits ∨ Reserved s p
  load : ∀ c, classLoad s' c ≤ classLoad s c

theorem Narrowed.refl (s : GovernedState) : Narrowed s s :=
  ⟨fun _ h => h, fun _ h => Or.inl h, fun _ => Nat.le_refl _⟩

/-- Narrowing twice narrows. -/
theorem Narrowed.trans {s'' : GovernedState} (h : Narrowed s s') (h' : Narrowed s' s'') :
    Narrowed s s'' where
  reserved p hp := h.reserved p (h'.reserved p hp)
  live p hp := (h'.live p hp).elim (h.live p) fun hr => Or.inr (h.reserved p hr)
  load c := Nat.le_trans (h'.load c) (h.load c)

/-- What is outstanding after was outstanding before. -/
theorem Narrowed.outstanding (h : Narrowed s s') {p : PermitId} (hp : Outstanding s' p) :
    Outstanding s p := by
  rcases hp with hp | hp
  · exact Or.inl (h.reserved p hp)
  · exact (h.live p hp).symm

/-- Where nobody new waits or runs, the load can only fall. -/
theorem narrowed_of_waiting (hwaiting : s'.waiting = s.waiting) (hlive : ∀ p, p ∈ s'.permits → p ∈ s.permits)
    (hload : ∀ c, s'.inflight c ≤ s.inflight c) : Narrowed s s' where
  reserved p hp := by rwa [reserved_iff_waiting, ← hwaiting, ← reserved_iff_waiting]
  live p hp := Or.inl (hlive p hp)
  load c := by
    rw [classLoad_eq, classLoad_eq, hwaiting]
    exact Nat.add_le_add_right (hload c) _

theorem mem_insert_live {p q : PermitId} {record record' : PermitRecord}
    (found : s.permits[p]? = some record) (h : q ∈ s.permits.insert p record') : q ∈ s.permits := by
  rw [ExtTreeMap.mem_insert] at h
  rcases h with heq | h
  · obtain rfl := LawfulEqOrd.eq_of_compare heq
    rw [ExtTreeMap.mem_iff_isSome_getElem?, found]
    rfl
  · exact h

/-- A grant adds one permit to its class at most. -/
theorem inflight_grant_le (s : GovernedState) (grant : GrantRequest) (c : TaskClass) :
    (s.grant grant).inflight c ≤ s.inflight c + if c = grant.taskClass then 1 else 0 := by
  unfold GovernedState.inflight
  rw [GovernedState.cls_grant]
  split
  · rename_i hc
    subst hc
    show wrappingAdd u32Max _ 1 ≤ _
    simp only [if_true]
    exact Nat.mod_le _ _
  · exact Nat.le_add_right _ _

/-- With a gate shut, a move brings no new identity. -/
theorem Effect.narrowed (h : Effect g caller s s') (hshut : Shut s) : Narrowed s s' := by
  cases h with
  | kept queues ledger guards =>
    exact narrowed_of_waiting (funext queues.waiting_eq) (fun p hp => by rwa [ledger.permits] at hp)
      fun c => Nat.le_of_eq (ledger.inflight_eq c)
  | queued waker nowMs tags allowed accepted pushed identities ledger guards sound =>
    rcases hshut with hclosed | hfault
    · rw [accepted.isOpen] at hclosed
      simp at hclosed
    · exact absurd sound hfault
  | @dropped c index r removed identities ledger guards =>
    refine ⟨fun p hp => ?_, fun p hp => Or.inl (by rwa [ledger.permits] at hp), fun c' => ?_⟩
    · obtain ⟨c', r', hr', hp⟩ := reserved_iff_waiting.mp hp
      exact reserved_iff_waiting.mpr ⟨c', r', removed.mem_of_mem hr', hp⟩
    · rw [classLoad_eq, classLoad_eq, ledger.inflight_eq]
      have hlength := removed.length_eq c'
      omega
  | admitted nowMs allowed accepted fits result =>
    rcases hshut with hclosed | hfault
    · rw [accepted.isOpen] at hclosed
      simp at hclosed
    · exact absurd fits.room.2.2.2.2 hfault
  | @promoted policy c index head base nowMs fits removed identities ledger guards result =>
    subst result
    have hwaiting : (base.grant (promotedGrant base c head nowMs)).waiting = base.waiting :=
      funext (GovernedState.sameQueues_grant _ _).waiting_eq
    refine ⟨fun p hp => ?_, fun p hp => ?_, fun c' => ?_⟩
    · rw [reserved_iff_waiting, hwaiting] at hp
      obtain ⟨c', r', hr', hp⟩ := hp
      exact reserved_iff_waiting.mpr ⟨c', r', removed.mem_of_mem hr', hp⟩
    · have hp' : p ∈ base.permits.insert head.permitId (promotedGrant base c head nowMs).record := hp
      rw [ExtTreeMap.mem_insert, ledger.permits] at hp'
      rcases hp' with heq | hp'
      · obtain rfl := LawfulEqOrd.eq_of_compare heq
        exact Or.inr (reserved_iff_waiting.mpr ⟨c, _, removed.mem, rfl⟩)
      · exact Or.inl hp'
    · have hgrant := inflight_grant_le base (promotedGrant base c head nowMs) c'
      have hlength := removed.length_eq c'
      rw [classLoad_eq, classLoad_eq, hwaiting]
      rw [ledger.inflight_eq] at hgrant
      have hclass : (promotedGrant base c head nowMs).taskClass = c := rfl
      rw [hclass] at hgrant
      omega
  | @ended p record found ends queues ledger guards =>
    refine narrowed_of_waiting (funext queues.waiting_eq) (fun q hq => ?_) fun c => ?_
    · have hq' : q ∈ s.permits.erase p := by rwa [ledger.permits] at hq
      exact ExtTreeMap.mem_of_mem_erase hq'
    · rw [ledger.inflight_eq]
      exact (uncharged_discharge s p record).inflight c
  | touched found similar queues ledger guards =>
    refine narrowed_of_waiting (funext queues.waiting_eq) (fun q hq => ?_) fun c => ?_
    · rw [ledger.permits] at hq
      exact mem_insert_live found hq
    · exact Nat.le_of_eq (ledger.inflight_eq c)
  | @advanced p record phase nonces found later result =>
    subst result
    refine narrowed_of_waiting (funext (GovernedState.sameQueues_advancedTo s _ _ _ _).waiting_eq)
      (fun q hq => mem_insert_live found hq) fun c => ?_
    exact (uncharged_advancedTo s _ _ _ _).inflight c
  | @recharged p record ledger allowed found change result =>
    subst result
    refine narrowed_of_waiting (funext (sameQueues_rechargePermit s _ _ _).waiting_eq) (fun q hq => ?_)
      fun c => ?_
    · rw [(memoryOnly_rechargePermit s p record ledger).permits] at hq
      exact mem_insert_live found hq
    · exact (uncharged_rechargePermit s p record ledger).inflight c

/-- Behind a shut gate every step narrows. -/
theorem SysInv.step_narrowed (hinv : SysInv σ) (hshut : Shut σ.state)
    (h : g.step σ a = some (σ', e)) : Narrowed σ.state σ'.state := by
  refine (hinv.step_rule h (P := fun s => Shut s ∧ Narrowed σ.state s) ?_ ⟨hshut, Narrowed.refl _⟩).2
  rintro trend s s' hm hinv₁ _ ⟨hshut₁, hn⟩
  exact ⟨hm.gatesKept.shut hshut₁, hn.trans ((hm.effect hinv₁.queues).narrowed hshut₁)⟩

/-! ## Answers after the close -/

/-- A submission that does not pass the checks before the lock is refused. -/
theorem preflight_error {policies : PolicySet} {entry : AdmitCall} {answer : AdmitAnswer}
    (h : preflight policies entry = .error answer) :
    answer = .ok (.rejected .malformedTask) ∨ ∃ error, answer = .error error := by
  have hplan : ∀ (spec : TaskSpec) (next : ValidatedTaskPlan → Preflight policies),
      (∀ plan answer, next plan = .error answer → ∃ error, answer = .error error) →
      validatePlan policies spec next = .error answer →
      answer = .ok (.rejected .malformedTask) ∨ ∃ error, answer = .error error := by
    intro spec next hnext heq
    unfold validatePlan at heq
    split at heq
    · exact Or.inr (hnext _ _ heq)
    · exact Or.inl (Except.error.inj heq).symm
  have hdeclared : ∀ (waker : Option Waker) (plan : ValidatedTaskPlan) (answer : AdmitAnswer),
      declaredIntake policies plan waker = .error answer → ∃ error, answer = .error error := by
    intro waker plan answer heq
    unfold declaredIntake at heq
    split at heq
    · simp at heq
    · exact ⟨_, (Except.error.inj heq).symm⟩
  cases entry with
  | admitSpec spec => exact hplan spec _ (hdeclared none) h
  | admitValidated plan => exact Or.inr (hdeclared none plan answer h)
  | admitWaitable spec waker => exact hplan spec _ (hdeclared (some waker)) h
  | admitResolved spec capability waker =>
    simp only [preflight] at h
    split at h
    · exact Or.inr ⟨_, (Except.error.inj h).symm⟩
    · refine hplan spec _ (fun plan answer heq => ?_) h
      unfold resolvedIntake at heq
      split at heq
      · simp at heq
      · exact ⟨_, (Except.error.inj heq).symm⟩
  | admitValidatedRequirements plan requirements waker =>
    simp only [preflight] at h
    split at h
    · exact Or.inr ⟨_, (Except.error.inj h).symm⟩
    · simp at h

/-- How an admission call is answered once the gate is closed. `before` are the calls in progress at
the close, `σ` the system the answer is given in. -/
inductive ClosedAnswer (before : List (Thread g.policy)) (σ : g.System) : Action → AdmitAnswer → Prop
  | unfit {entry : AdmitCall} {sampledMs : UInt64} {answer : AdmitAnswer}
      (unfit : preflight g.policy entry = .error answer)
      (refused : answer = .ok (.rejected .malformedTask) ∨ ∃ error, answer = .error error) :
      ClosedAnswer before σ (.call entry sampledMs) answer
  | exhausted {i : Nat}
      (exhausted : takeSequence σ.nextPermit = none ∨ takeSequence σ.nextTicket = none ∨
        takeSequence σ.nextSeq = none) :
      ClosedAnswer before σ (.allocate i) (.ok (.rejected .identityExhausted))
  | closed {i : Nat} {panicked : Bool} :
      ClosedAnswer before σ (.settle i panicked) (.ok (.rejected .runtimeUnavailable))
  | decidedBefore {i : Nat} {panicked : Bool} {decision : AdmissionDecision} {effects : TransitionEffects}
      {sampledMs : Nat} (settling : Thread.settling decision effects sampledMs ∈ before) :
      ClosedAnswer before σ (.settle i panicked) (.ok decision)

/-- Behind a closed gate an admission is refused before it looks at anything. -/
theorem admit_closed {policies : PolicySet} {nowMs : Nat} {request : AdmissionRequest}
    {waker : Option Waker} {ids : Ids} {effects : TransitionEffects} (hclosed : s.admissionClosed = true) :
    (admitRequest s policies nowMs request waker ids effects).decision = .rejected .runtimeUnavailable := by
  unfold admitRequest
  rw [if_pos hclosed]
  rfl

/-- The call that enters is decided by `admit`. -/
theorem enter_threads {i : Nat} (h : g.step σ (.enter i) = some (σ', e)) :
    ∃ (intake : Intake g.policy) (sampledMs : Nat) (ids : Ids) (effects : TransitionEffects),
      let s := σ.state.commitTime sampledMs
      let decision := (admitRequest s g.policy s.commitWatermarkMs intake.request intake.waker ids {}).decision
      e = .decided ids decision ∧ σ'.threads = σ.threads.set i (.settling decision effects sampledMs) := by
  obtain ⟨p, hp, rfl, rfl⟩ := step_eq_some h
  simp only [Governor.prepare] at hp
  split at hp
  · rename_i intake sampledMs ids hthread
    obtain rfl := Option.some.inj hp
    exact ⟨intake, sampledMs, ids, _, rfl, rfl⟩
  · simp at hp

/-- A call decided after the close is refused. -/
theorem closed_settling (hclosed : σ.state.admissionClosed = true) (h : g.step σ a = some (σ', e))
    {decision : AdmissionDecision} {effects : TransitionEffects} {sampledMs : Nat}
    (hmem : Thread.settling decision effects sampledMs ∈ σ'.threads) :
    Thread.settling decision effects sampledMs ∈ σ.threads ∨ decision = .rejected .runtimeUnavailable := by
  by_cases henter : ∃ i, a = .enter i
  · obtain ⟨i, rfl⟩ := henter
    obtain ⟨intake, sampledMs', ids, effects', _, hthreads⟩ := enter_threads h
    rw [hthreads] at hmem
    refine (List.mem_or_eq_of_mem_set hmem).imp_right fun heq => ?_
    rw [(Thread.settling.inj heq).1]
    exact admit_closed hclosed
  · obtain ⟨p, old, new, rest, hp, rfl, hthreads⟩ := step_threads h
    left
    rcases List.mem_append.mp (hthreads.after.mem_iff.mp hmem) with hnew | hrest
    · obtain rfl : new = some (.settling decision effects sampledMs) := by
        rwa [Option.mem_toList] at hnew
      cases hthreads.turn with
      | entered i => exact absurd ⟨i, rfl⟩ henter
      | settled other decision' effects' sampledMs' drains => simp at drains
      | claimed other ticket p effects' sampledMs' drains => simp at drains
      | drained i effects' sampledMs' turn drains => simp at drains
    · exact hthreads.before.mem_iff.mpr (List.mem_append_right _ hrest)

/-- Where the answer of an admission call comes from. -/
theorem step_answered {answer : AdmitAnswer} (h : g.step σ a = some (σ', .answered answer))
    (before : List (Thread g.policy)) :
    ClosedAnswer before σ a answer ∨
      ∃ i panicked decision effects sampledMs, a = .settle i panicked ∧ answer = .ok decision ∧
        Thread.settling decision effects sampledMs ∈ σ.threads := by
  obtain ⟨p, hp, _, hevent⟩ := step_eq_some h
  cases a with
  | call entry sampledMs =>
    simp only [Governor.prepare, Option.some.injEq] at hp
    subst hp
    unfold Governor.call at hevent
    split at hevent
    · rename_i answer' hpre
      obtain rfl : answer = answer' := Event.answered.inj hevent
      exact Or.inl (.unfit hpre (preflight_error hpre))
    · simp [unlocked] at hevent
  | allocate i =>
    simp only [Governor.prepare] at hp
    split at hp
    · rename_i intake sampledMs taken hthread
      obtain rfl := Option.some.inj hp
      unfold Governor.allocate at hevent
      left
      split at hevent <;> simp only at hevent <;> split at hevent
      · rename_i hnone
        obtain rfl := Event.answered.inj hevent
        exact .exhausted (Or.inl hnone)
      · simp [unlocked] at hevent
      · rename_i hnone
        obtain rfl := Event.answered.inj hevent
        exact .exhausted (Or.inr (Or.inl hnone))
      · simp [unlocked] at hevent
      · rename_i hnone
        obtain rfl := Event.answered.inj hevent
        exact .exhausted (Or.inr (Or.inr hnone))
      · simp [unlocked] at hevent
    · simp at hp
  | enter i =>
    obtain ⟨intake, sampledMs, ids, effects, heq, _⟩ := enter_threads h
    simp at heq
  | settle i panicked =>
    simp only [Governor.prepare] at hp
    split at hp
    · rename_i decision effects sampledMs hthread
      split at hp
      · simp at hp
      · obtain rfl := Option.some.inj hp
        right
        unfold Governor.settle at hevent
        split at hevent
        · exact ⟨i, _, decision, effects, sampledMs, rfl, Event.answered.inj hevent,
            List.mem_of_getElem? hthread⟩
        · simp [locked] at hevent
        · simp [unlocked] at hevent
    · simp at hp
  | claim ticket sampledMs =>
    simp only [Governor.prepare, Option.some.injEq] at hp
    subst hp
    simp only [startClaim] at hevent
    split at hevent <;> simp at hevent
  | finishClaim i panicked =>
    simp only [Governor.prepare] at hp
    split at hp
    · split at hp
      · simp at hp
      · obtain rfl := Option.some.inj hp
        unfold Governor.endClaim at hevent
        split at hevent <;> simp [locked] at hevent
    · simp at hp
  | advancePhase permitId phase =>
    simp only [Governor.prepare, Option.some.injEq] at hp
    subst hp
    simp [advance] at hevent
  | drain i =>
    simp only [Governor.prepare] at hp
    split at hp
    · obtain rfl := Option.some.inj hp
      unfold Governor.drain at hevent
      split at hevent <;> simp [locked, unlocked] at hevent
    · simp at hp
  | closeAdmission | mintElsewhere =>
    simp only [Governor.prepare, Option.some.injEq] at hp
    subst hp
    simp [unlocked] at hevent
  | abandon | release | releaseLeased | reapLeaks =>
    simp only [Governor.prepare, Option.some.injEq] at hp
    subst hp
    simp [operation, locked] at hevent
  | reconcileMemory | releaseStageMemory =>
    simp only [Governor.prepare, Option.some.injEq] at hp
    subst hp
    simp [operationUnless, operation, locked] at hevent

/-! ## The close is final -/

/-- What holds from the close on, of the state at the close and a later one. -/
structure AfterClose (σ σ' : g.System) : Prop where
  inv : SysInv σ'
  closed : σ'.state.admissionClosed = true
  narrowed : Narrowed σ.state σ'.state
  settling : ∀ decision effects sampledMs, Thread.settling decision effects sampledMs ∈ σ'.threads →
    Thread.settling decision effects sampledMs ∈ σ.threads ∨ decision = .rejected .runtimeUnavailable

/-- One more step after the close. -/
theorem AfterClose.step (h : AfterClose σ σ') (hstep : g.step σ' a = some (σ'', e)) : AfterClose σ σ'' where
  inv := h.inv.step hstep
  closed := (h.inv.step_gatesKept hstep).closed h.closed
  narrowed := h.narrowed.trans (h.inv.step_narrowed (Or.inl h.closed) hstep)
  settling decision effects sampledMs hmem :=
    (closed_settling h.closed hstep hmem).elim (h.settling decision effects sampledMs) Or.inr

/-- Every run from a closed state stays closed, refuses, and narrows. -/
theorem AfterClose.run {trace : List (Action × Event)} (hinv : SysInv σ)
    (hclosed : σ.state.admissionClosed = true) (hrun : Runs.Run g.step σ trace σ') : AfterClose σ σ' :=
  hrun.invariant (P := AfterClose σ) (fun _ _ _ _ hafter hstep => hafter.step hstep)
    ⟨hinv, hclosed, Narrowed.refl _, fun _ _ _ hmem => Or.inl hmem⟩

/-- After the close, in every continuation: the gate stays closed, the outstanding permit identities
only shrink and no class carries more than the snapshot at the close, every admission is refused, and
a permit that is granted is one a request already queued at the close had reserved. -/
theorem close_is_final (g : Governor) (σ₀ σ σ' : g.System) (e : Event) (trace : List (Action × Event))
    (h : g.Reachable σ₀) (hclose : g.step σ₀ .closeAdmission = some (σ, e))
    (hrun : Runs.Run g.step σ trace σ') :
    σ'.state.admissionClosed = true ∧
    (∀ p, Outstanding σ'.state p → Outstanding σ.state p) ∧
    (∀ c, classLoad σ'.state c ≤ classLoad σ.state c) ∧
    ∀ a σ'' e', g.step σ' a = some (σ'', e') →
      (∀ i, a = .enter i → ∃ ids, e' = .decided ids (.rejected .runtimeUnavailable)) ∧
      (∀ answer, e' = .answered answer → ClosedAnswer σ.threads σ' a answer) ∧
      ∀ p, p ∈ σ''.state.permits → p ∉ σ'.state.permits → Reserved σ.state p := by
  have hclosed : σ.state.admissionClosed = true := by
    obtain ⟨p, hp, rfl, _⟩ := step_eq_some hclose
    simp only [Governor.prepare, Option.some.injEq] at hp
    subst hp
    rfl
  have hafter := AfterClose.run (SysInv.of_reachable (h.next hclose)) hclosed hrun
  refine ⟨hafter.closed, fun p => hafter.narrowed.outstanding, hafter.narrowed.load,
    fun a σ'' e' hstep => ⟨?_, ?_, ?_⟩⟩
  · rintro i rfl
    obtain ⟨intake, sampledMs, ids, effects, heq, _⟩ := enter_threads hstep
    refine ⟨ids, heq.trans (congrArg (Event.decided ids) ?_)⟩
    exact admit_closed (s := σ'.state.commitTime sampledMs) hafter.closed
  · rintro answer rfl
    rcases step_answered hstep σ.threads with hanswer | ⟨i, panicked, decision, effects, sampledMs, rfl, rfl, hmem⟩
    · exact hanswer
    · rcases hafter.settling decision effects sampledMs hmem with hbefore | rfl
      · exact .decidedBefore hbefore
      · exact .closed
  · intro p hlive hnot
    have hnarrowed := hafter.inv.step_narrowed (Or.inl hafter.closed) hstep
    exact hafter.narrowed.reserved p ((hnarrowed.live p hlive).resolve_left hnot)

/-- In the sample, closed while one task runs and one waits, the end of the first grants the second the
permit it had reserved. -/
theorem sample_close : ∃ σ σ' e e', Sample.governor.step Sample.busy .closeAdmission = some (σ, e) ∧
    Sample.governor.step σ (.releaseLeased ⟨⟨7, 1⟩, 1⟩ 5) = some (σ', e') ∧
    (⟨7, 2⟩ : PermitId) ∈ σ'.state.permits ∧ Reserved σ.state ⟨7, 2⟩ := by
  have hruns : ((Sample.governor.step Sample.busy .closeAdmission).any fun closed =>
      !closed.1.state.permits.contains ⟨7, 2⟩ &&
        (Sample.governor.step closed.1 (.releaseLeased ⟨⟨7, 1⟩, 1⟩ 5)).any fun next =>
          next.1.state.permits.contains ⟨7, 2⟩) = true := by decide +kernel
  obtain ⟨⟨σ, e⟩, hclose, hrest⟩ := (Option.any_eq_true _ _).mp hruns
  simp only [Bool.and_eq_true, Bool.not_eq_true'] at hrest
  obtain ⟨⟨σ', e'⟩, hstep, hlive⟩ := (Option.any_eq_true _ _).mp hrest.2
  have hlive' : (⟨7, 2⟩ : PermitId) ∈ σ'.state.permits := ExtTreeMap.contains_iff_mem.mp hlive
  have hnot : (⟨7, 2⟩ : PermitId) ∉ σ.state.permits := by
    rw [← ExtTreeMap.contains_iff_mem, hrest.1]
    simp
  have hfinal := close_is_final Sample.governor Sample.busy σ σ e []
    (Runs.Reachable.of_restrict Sample.busy_reachable) hclose (Runs.Run.nil σ)
  exact ⟨σ, σ', e, e', hclose, hstep, hlive', (hfinal.2.2.2 _ σ' e' hstep).2.2 _ hlive' hnot⟩

end Taskmesh
