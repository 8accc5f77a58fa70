import Taskmesh.Engine.Proofs.GateProofs
import Taskmesh.Engine.Proofs.TicketLifeProofs

/-!
# The accounting fault

A reading that the unit domain cannot hold is the only thing that records an accounting fault: the
books are exact, so no total ever holds less than a permit returns, and registered requirements are
always representable. From the fault on nothing is granted, nothing is queued, and every ticket that was
queued keeps its answer until its own claim or abandon.
-/

namespace Taskmesh

open Std MachineInt ExtTreeMap TicketBook Governor

variable {g : Governor} {caller : Caller} {s s' : GovernedState} {σ σ' σ'' : g.System} {a : Action}
  {e : Event} {p : PermitId} {record : PermitRecord}

/-! ## No total underflows -/

/-- The root whose total a permit's memory is attributed to. -/
def chargedRoot (record : PermitRecord) : Option String :=
  if record.scope.isChild then some record.rootOperationId else none

/-- A child's charge is part of its root's. -/
theorem le_heldByChildren (found : s.permits[p]? = some record) (hchild : record.scope.isChild = true)
    (f : PermitRecord → Nat) : f record ≤ heldByChildren s.permits record.rootOperationId f := by
  rw [heldByChildren_erase found]
  simp [isChildOf, hchild]

/-- What is part of a total can be taken from it. -/
theorem checkedSub_isNone {held units : Nat} (h : units ≤ held) : (checkedSub held units).isNone = false := by
  simp [checkedSub, h]

/-- Every total holds at least what a live permit may return. -/
theorem no_memoryUnderflow (hbooks : Books s) (hgauges : Gauges s) (found : s.permits[p]? = some record)
    {units : Nat} (hle : units ≤ record.ledger.effectiveUnits) :
    s.memoryUnderflow record.taskClass (chargedRoot record) units = false := by
  have hglobal : units ≤ s.memoryUnitsHeld := by
    have hsum : memoryOf record ≤ heldBy s.permits memoryOf := le_heldBy found memoryOf
    rw [hbooks.memory]
    exact Nat.le_trans hle hsum
  have hclass : ∀ cs, s.classes[record.taskClass]? = some cs → units ≤ cs.memoryUnitsHeld := by
    intro cs hcs
    have hcls : s.cls record.taskClass = cs := by simp [GovernedState.cls, hcs]
    have hsum : memoryOf record ≤ heldIn s.permits record.taskClass memoryOf := le_heldIn found memoryOf
    rw [← hcls, (hbooks.classes record.taskClass).memory]
    exact Nat.le_trans hle hsum
  have hroot : ∀ r, ((chargedRoot record).bind fun root => s.roots[root]?) = some r →
      units ≤ r.memoryUnits := by
    intro r hr
    unfold chargedRoot at hr
    split at hr
    · rename_i hchild
      have hstate : s.rootState record.rootOperationId = r := by
        simp only [Option.bind_some] at hr
        simp [GovernedState.rootState, hr]
      have hsum : memoryOf record ≤ heldByChildren s.permits record.rootOperationId memoryOf :=
        le_heldByChildren found hchild memoryOf
      rw [← hstate, (hgauges.roots _).memory]
      exact Nat.le_trans hle hsum
    · simp at hr
  unfold GovernedState.memoryUnderflow
  rw [checkedSub_isNone hglobal, Bool.false_or, Bool.or_eq_false_iff]
  constructor
  · cases hcs : s.classes[record.taskClass]? with
    | none => rfl
    | some cs => simp [checkedSub_isNone (hclass cs hcs)]
  · cases hr : (chargedRoot record).bind fun root => s.roots[root]? with
    | none => rfl
    | some r => simp [checkedSub_isNone (hroot r hr)]

/-- A new charge of a live permit records no fault. -/
theorem fault_rechargePermit (hbooks : Books s) (hgauges : Gauges s) (found : s.permits[p]? = some record)
    (ledger : PermitLedger) :
    (s.rechargePermit p record ledger).accountingFault = s.accountingFault := by
  have hdelta : ∀ delta : Int, delta.natAbs ≤ record.ledger.effectiveUnits ∨ delta ≥ 0 →
      (({ s with permits := s.permits.insert p { record with ledger := ledger } }).applyMemoryDelta
        record.taskClass (chargedRoot record) delta).accountingFault = s.accountingFault := by
    intro delta hdelta
    have hsame : GovernedState.memoryUnderflow
        { s with permits := s.permits.insert p { record with ledger := ledger } } record.taskClass
          (chargedRoot record) delta.natAbs =
        s.memoryUnderflow record.taskClass (chargedRoot record) delta.natAbs := rfl
    unfold GovernedState.applyMemoryDelta
    split
    · rfl
    · rename_i hneg
      simp only
      rw [hsame, no_memoryUnderflow hbooks hgauges found (hdelta.resolve_right hneg)]
      rfl
  refine hdelta (ledger.effectiveUnits - record.ledger.effectiveUnits : Int) ?_
  omega

/-! ## The queues are drained -/

/-- Some queued tickets were answered with the fault, and nothing else happened to permits or tickets. -/
structure FaultAnswered (s s' : GovernedState) : Prop where
  ledger : s.SameLedger s'
  seq : s'.terminalSeq = s.terminalSeq
  tickets : ∀ t : Ticket, s'.tickets[t]? = s.tickets[t]? ∨
    (∃ c, s.tickets[t]? = some (.queued c)) ∧ s'.tickets[t]? = some .faulted

theorem FaultAnswered.refl (s : GovernedState) : FaultAnswered s s :=
  ⟨.refl s, rfl, fun _ => Or.inl rfl⟩

/-- Answers given in two stretches are given. -/
theorem FaultAnswered.trans {s'' : GovernedState} (h : FaultAnswered s s') (h' : FaultAnswered s' s'') :
    FaultAnswered s s'' where
  ledger := h.ledger.trans h'.ledger
  seq := h'.seq.trans h.seq
  tickets t := by
    rcases h'.tickets t with heq | ⟨⟨c, hc⟩, hfaulted⟩
    · rw [heq]
      exact h.tickets t
    · rcases h.tickets t with heq | ⟨_, hfaulted'⟩
      · exact Or.inr ⟨⟨c, heq ▸ hc⟩, hfaulted⟩
      · rw [hfaulted'] at hc
        simp at hc

theorem faultAnswered_rescheduled (h : s.Rescheduled s') : FaultAnswered s s' where
  ledger := h.ledger
  seq := congrArg TicketBook.terminalSeq h.tickets
  tickets t := Or.inl (congrArg (fun b : TicketBook => b.tickets[t]?) h.tickets)

/-- Taking the head of a queue after a fault answers its waiter. -/
theorem faultAnswered_head (hinv : StateInv g s) {c : TaskClass} {r : PendingRequest}
    (found : (s.cls c).queue[0]? = some r) :
    FaultAnswered s (((s.removedPending c 0 r).vacateOf r).setTicket r.ticket .faulted) where
  ledger :=
    (GovernedState.sameLedger_removedPending s c 0 r).trans
      ((sameLedger_vacateOf (s.removedPending c 0 r) r).trans ⟨fun _ => rfl, rfl, rfl, rfl, rfl, rfl, rfl⟩)
  seq := congrArg TicketBook.terminalSeq (book_vacateOf (s.removedPending c 0 r) r)
  tickets t := by
    have hbook := book_vacateOf (s.removedPending c 0 r) r
    have hread : (((s.removedPending c 0 r).vacateOf r).setTicket r.ticket .faulted).tickets[t]? =
        if r.ticket = t then some .faulted else s.tickets[t]? := by
      have htickets : ((s.removedPending c 0 r).vacateOf r).tickets = s.tickets :=
        congrArg TicketBook.tickets hbook
      show (((s.removedPending c 0 r).vacateOf r).tickets.insert r.ticket .faulted)[t]? = _
      rw [htickets, ExtTreeMap.getElem?_insert]
      simp
    rw [hread]
    split
    · rename_i hsame
      subst hsame
      exact Or.inr ⟨⟨c, hinv.tickets.ticket_of_entry found⟩, rfl⟩
    · exact Or.inl rfl

/-- Emptying a queue after a fault answers everyone in it. -/
theorem faultQueue_answered (c : TaskClass) (rounds : Nat) (s : GovernedState) (effects : TransitionEffects)
    (hinv : StateInv g s) (hseq : s.terminalSeq < u64Max) :
    StateInv g (faultQueue c rounds s effects).1 ∧ FaultAnswered s (faultQueue c rounds s effects).1 := by
  induction rounds generalizing s effects with
  | zero => exact ⟨hinv, .refl s⟩
  | succ rounds ih =>
    unfold Governor.faultQueue
    cases hremove : s.removePending c 0 with
    | none => exact ⟨hinv, .refl s⟩
    | some removed =>
      obtain ⟨s₁, r⟩ := removed
      obtain ⟨hr, rfl⟩ := GovernedState.removePending_spec hremove
      have hhead := faultAnswered_head hinv hr
      have hmove : Move g Caller.nobody .shrinking s _ := Move.faultedHead hr
      obtain ⟨hinv', hrest⟩ := ih (((s.removedPending c 0 r).vacateOf r).setTicket r.ticket .faulted)
        (effects.pushWake r.waker) (hmove.stateInv hinv hseq) (hhead.seq ▸ hseq)
      exact ⟨hinv', hhead.trans hrest⟩

/-- Emptying every queue answers everyone. -/
theorem faultClasses_answered (classes : List TaskClass) (acc : GovernedState × TransitionEffects)
    (hinv : StateInv g acc.1) (hseq : acc.1.terminalSeq < u64Max) :
    StateInv g (classes.foldl g.faultClass acc).1 ∧
      FaultAnswered acc.1 (classes.foldl g.faultClass acc).1 := by
  induction classes generalizing acc with
  | nil => exact ⟨hinv, .refl acc.1⟩
  | cons c rest ih =>
    obtain ⟨hqueue, hanswered⟩ :=
      faultQueue_answered c (acc.1.cls c).queue.length acc.1 acc.2 hinv hseq
    have hclass : StateInv g (g.faultClass acc c).1 ∧ FaultAnswered acc.1 (g.faultClass acc c).1 := by
      unfold Governor.faultClass
      simp only
      split
      · exact ⟨hqueue, hanswered⟩
      · have hres := rescheduled_unserved g (faultQueue c (acc.1.cls c).queue.length acc.1 acc.2).1 c
        have hmove : Move g Caller.nobody .shrinking _ _ := Move.rescheduled hres
        exact ⟨hmove.stateInv hqueue (hanswered.seq ▸ hseq),
          hanswered.trans (faultAnswered_rescheduled hres)⟩
    obtain ⟨hinv', hrest⟩ := ih (g.faultClass acc c) hclass.1 (hclass.2.seq ▸ hseq)
    exact ⟨hinv', hclass.2.trans hrest⟩

/-- What an accounting fault does: every queued ticket is answered, every other ticket and the whole
ledger stay as they were. -/
structure FailedStop (s s' : GovernedState) : Prop where
  stopped : Stopped s'
  ledger : s.SameLedger s'
  queued : ∀ (t : Ticket) c, s.tickets[t]? = some (.queued c) → s'.tickets[t]? = some .faulted
  others : ∀ t : Ticket, (∀ c, s.tickets[t]? ≠ some (.queued c)) → s'.tickets[t]? = s.tickets[t]?

/-- After the fault's own pass over the queues nobody waits, and nobody is without an answer. -/
theorem failedStop_terminalizeQueued (hinv : StateInv g s) (hseq : s.terminalSeq < u64Max)
    (effects : TransitionEffects) :
    FailedStop s (g.terminalizeQueuedForAccountingFault s effects).1 := by
  have hstopped := stopped_terminalizeQueued (g := g) s effects
  obtain ⟨hinv', hanswered⟩ := faultClasses_answered s.classes.keys (s, effects) hinv hseq
  refine ⟨hstopped, hanswered.ledger.trans ⟨fun _ => rfl, rfl, rfl, rfl, rfl, rfl, rfl⟩, fun t c ht => ?_, fun t ht => ?_⟩
  · rcases hanswered.tickets t with heq | ⟨_, hfaulted⟩
    · -- A ticket still queued would have an entry in a queue that is empty.
      obtain ⟨r, hr, _⟩ := (hinv'.tickets.queued t c).mp (heq.trans ht)
      have hempty : (s.classes.keys.foldl g.faultClass (s, effects)).1.waiting c = [] := hstopped.empty c
      rw [hempty] at hr
      simp at hr
    · exact hfaulted
  · rcases hanswered.tickets t with heq | ⟨⟨c, hc⟩, _⟩
    · exact heq
    · exact absurd hc (ht c)

/-! ## The step that faults -/

/-- A promotion pass records no fault. -/
theorem fault_promote (s : GovernedState) (nowMs : Nat) :
    (g.promote s nowMs).1.accountingFault = s.accountingFault := by
  have hmoves : Moves g Caller.nobody .growing s (g.promote s nowMs).1 := promote_moves g s nowMs
  generalize (g.promote s nowMs).1 = s' at hmoves
  induction hmoves with
  | refl => rfl
  | tail _ hm ih => exact (hm.fault_eq fun _ h => h).trans ih

/-- Nor does the end of a section. -/
theorem fault_commit {α : Type} (sec : Governor.Section α) (nowMs : Nat) :
    (g.commit sec nowMs).1.accountingFault = sec.state.accountingFault := by
  unfold Governor.commit
  split
  · exact fault_promote sec.state nowMs
  · rfl

/-- The text a failed conversion records. -/
def conversionFault : String := "measured memory exceeds the unit domain"

/-- The state a public operation of one section leaves, whether or not it returns early. -/
theorem state_operationUnless {α : Type} (sampledMs : Nat)
    (section_ : GovernedState → Nat → Governor.Section α) (event : α → Event) (early : α → Bool) :
    (finish (operationUnless σ sampledMs section_ event early)).state =
      (g.commit (section_ (σ.state.commitTime sampledMs) (σ.state.commitTime sampledMs).commitWatermarkMs)
        (σ.state.commitTime sampledMs).commitWatermarkMs).1 := rfl

theorem Gauges.commitTime (h : Gauges s) (sampledMs : Nat) : Gauges (s.commitTime sampledMs) :=
  ⟨h.pools, fun root => (h.roots root).same rfl rfl⟩

/-- A reconcile records a fault only when it answers `ConversionFailed`. -/
theorem reconcileMemory_faults (hbooks : Books s) (hgauges : Gauges s) (p : PermitId) (measuredBytes : Nat)
    (epoch : Option Nat) (nowMs : Nat) :
    (g.reconcileMemory s p measuredBytes epoch nowMs).state.accountingFault = s.accountingFault ∨
      ∃ error, g.reconcileMemory s p measuredBytes epoch nowMs =
        ⟨(g.terminalizeQueuedForAccountingFault (s.recordAccountingFault conversionFault) {}).1,
          (g.terminalizeQueuedForAccountingFault (s.recordAccountingFault conversionFault) {}).2,
          .conversionFailed error, false⟩ := by
  rcases reconcileMemory_cases g s p measuredBytes epoch nowMs with ⟨outcome, heq, _⟩ | ⟨error, heq⟩ |
    ⟨record, ledger, found, hchange, heq, _⟩
  · rw [heq]
    exact Or.inl rfl
  · exact Or.inr ⟨error, heq⟩
  · rw [heq]
    exact Or.inl (fault_rechargePermit hbooks hgauges found ledger)

/-- A stage release records no fault. -/
theorem fault_releaseStage (hbooks : Books s) (hgauges : Gauges s) (p : PermitId) (freedUnits : Nat)
    (sequence : Option Nat) (nowMs : Nat) :
    (g.releaseStage s p freedUnits sequence nowMs).state.accountingFault = s.accountingFault := by
  unfold Governor.releaseStage
  split
  · rfl
  · split
    · rfl
    · rename_i policy _
      rcases releaseStageMemory_cases s p freedUnits policy.memoryReleasePolicy sequence nowMs with
        heq | ⟨record, ledger, found, hchange, _, heq, _⟩
      · simp only [heq]
      · simp only [heq]
        exact fault_rechargePermit hbooks hgauges found ledger

/-- A step faults only as a reconcile that answers `ConversionFailed`. -/
theorem step_faults (hinv : SysInv σ) (hgauges : Gauges σ.state) (h : g.step σ a = some (σ', e))
    (hsound : σ.state.accountingFault = none) (hfault : σ'.state.accountingFault ≠ none) :
    ∃ p measuredBytes epoch sampledMs error,
      a = .reconcileMemory p measuredBytes epoch sampledMs ∧
      e = .reconciled p (.conversionFailed error) ∧
      σ'.state = (g.terminalizeQueuedForAccountingFault
        ((σ.state.commitTime sampledMs.toNat).recordAccountingFault conversionFault) {}).1 := by
  have hbooks : ∀ sampledMs, Books (σ.state.commitTime sampledMs) := fun sampledMs =>
    hinv.state.books.same (rescheduled_commitTime _ sampledMs).ledger
  by_cases hmemory : ∃ p, (callerOf σ a).memory p
  · obtain ⟨p, ⟨measuredBytes, epoch, sampledMs, rfl⟩ | ⟨freedUnits, sequence, sampledMs, rfl⟩⟩ := hmemory
    · obtain ⟨prepared, hprepared, rfl, rfl⟩ := step_eq_some h
      simp only [Governor.prepare, Option.some.injEq] at hprepared
      subst hprepared
      rw [state_operationUnless, fault_commit] at hfault
      rcases reconcileMemory_faults (hbooks sampledMs.toNat) (hgauges.commitTime sampledMs.toNat) p
        measuredBytes.toNat (epoch.map UInt64.toNat)
        (σ.state.commitTime sampledMs.toNat).commitWatermarkMs with hsame | ⟨error, heq⟩
      · exact absurd (hsame.trans hsound) hfault
      · refine ⟨p, measuredBytes, epoch, sampledMs, error, rfl, ?_, ?_⟩
        · exact congrArg (fun sec => Event.reconciled p sec.outcome) heq
        · rw [state_operationUnless, heq]
          rfl
    · obtain ⟨prepared, hprepared, rfl, rfl⟩ := step_eq_some h
      simp only [Governor.prepare, Option.some.injEq] at hprepared
      subst hprepared
      rw [state_operationUnless, fault_commit,
        fault_releaseStage (hbooks sampledMs.toNat) (hgauges.commitTime sampledMs.toNat)] at hfault
      exact absurd hsound hfault
  · -- A section that changes no permit's memory cannot record a fault.
    refine absurd ?_ hfault
    refine hinv.step_rule h (P := fun s => s.accountingFault = none) (fun _ _ _ hm _ _ hnone => ?_) hsound
    rw [hm.fault_eq fun p hp => hmemory ⟨p, hp⟩]
    exact hnone

/-! ## After the fault -/

/-- Nothing waits and nothing can come to wait. -/
structure Halted (g : Governor) (s : GovernedState) : Prop where
  queues : QueueInv g s
  fault : s.accountingFault ≠ none
  empty : ∀ c, s.waiting c = []

/-- In a halted state no permit is promised. -/
theorem Halted.not_reserved (h : Halted g s) (p : PermitId) : ¬ Reserved s p := by
  intro hreserved
  obtain ⟨c, r, hr, _⟩ := reserved_iff_waiting.mp hreserved
  rw [h.empty c] at hr
  simp at hr

/-- No move revives a halted state. -/
theorem Halted.move {trend : Trend} (h : Halted g s) (hm : Move g caller trend s s') : Halted g s' where
  queues := hm.queueInv h.queues
  fault := by
    obtain ⟨what, hwhat⟩ := Option.ne_none_iff_exists'.mp h.fault
    rw [hm.gatesKept.fault what hwhat]
    simp
  empty c := by
    have hnarrowed := (hm.effect h.queues).narrowed (Or.inr h.fault)
    rw [List.eq_nil_iff_forall_not_mem]
    intro r hr
    exact h.not_reserved r.permitId
      (hnarrowed.reserved _ (reserved_iff_waiting.mpr ⟨c, r, hr, rfl⟩))

theorem Halted.commitTime (h : Halted g s) (sampledMs : Nat) : Halted g (s.commitTime sampledMs) :=
  h.move (Move.rescheduled (rescheduled_commitTime s sampledMs) : Move g Caller.nobody .shrinking _ _)

theorem Halted.queue_empty (h : Halted g s) (c : TaskClass) : (s.cls c).queue = [] :=
  List.map_eq_nil_iff.mp (h.empty c)

/-- A stopped state with a fault is halted. -/
theorem Stopped.halted (h : Stopped s) (hinv : StateInv g s) (hfault : s.accountingFault ≠ none) :
    Halted g s := ⟨hinv.queues, hfault, h.empty⟩

/-- No section revives a halted state. -/
theorem SysInv.prepare_halted (hinv : SysInv σ) (hhalted : Halted g σ.state) {prepared : g.Prepared}
    (h : Governor.prepare σ a = some prepared) : Halted g prepared.sec.state :=
  (prepare_path hinv.ready h).invariant (P := Halted g) (fun _ _ _ hm hhalted => hhalted.move hm) hhalted

/-- Once stopped by a fault, the governor stays stopped. -/
theorem SysInv.step_stopped (hinv : SysInv σ) (hfault : σ.state.accountingFault ≠ none)
    (hstopped : Stopped σ.state) (h : g.step σ a = some (σ', e)) : Stopped σ'.state := by
  have hhalted := hstopped.halted hinv.state hfault
  have hafter : Halted g σ'.state :=
    hinv.step_rule h (P := Halted g) (fun _ _ _ hm _ _ hhalted => hhalted.move hm) hhalted
  refine ⟨hafter.empty, ?_⟩
  obtain ⟨prepared, hprepared, rfl, _⟩ := step_eq_some h
  cases hpass : prepared.sec.promotes with
  | true =>
    have hstate : (finish prepared).state = (g.promote prepared.sec.state prepared.nowMs).1 := by
      unfold Governor.finish Governor.commit
      rw [hpass]
      rfl
    rw [hstate, promote_of_empty (hinv.prepare_halted hhalted hprepared).queue_empty]
  | false =>
    rcases hinv.step_unpromoted hprepared hpass with ⟨_, hsame⟩ | hstopped'
    · exact hsame.trans hstopped.pending
    · exact hstopped'.pending

/-- After a fault no permit is new. -/
theorem SysInv.step_permits (hinv : SysInv σ) (hfault : σ.state.accountingFault ≠ none)
    (hstopped : Stopped σ.state) (h : g.step σ a = some (σ', e)) (hp : p ∈ σ'.state.permits) :
    p ∈ σ.state.permits :=
  ((hinv.step_narrowed (Or.inr hfault) h).live p hp).resolve_right
    ((hstopped.halted hinv.state hfault).not_reserved p)

/-- A map whose keys all belong to another one is not larger. -/
theorem size_le_of_subset {permits permits' : BTreeMap PermitId PermitRecord}
    (h : ∀ p, p ∈ permits' → p ∈ permits) : permits'.size ≤ permits.size := by
  rw [← ExtTreeMap.length_keys, ← ExtTreeMap.length_keys (t := permits)]
  refine (List.subperm_of_subset ExtTreeMap.nodup_keys fun p hp => ?_).length_le
  exact ExtTreeMap.mem_keys.mpr (h p (ExtTreeMap.mem_keys.mp hp))

/-- A move of a halted state adds to no weight of its permits. -/
theorem Halted.shares {trend : Trend} (h : Halted g s) (hm : Move g caller trend s s') (hinv : StateInv g s)
    {f : PermitRecord → Nat} (hf : Shared f) : heldBy s'.permits f ≤ heldBy s.permits f := by
  have hnarrowed := (hm.effect hinv.queues).narrowed (Or.inr h.fault)
  have hsize : s'.permits.size ≤ s.permits.size :=
    size_le_of_subset fun p hp => (hnarrowed.live p hp).resolve_right (h.not_reserved p)
  rcases (hm.effect hinv.queues).load hinv.occupancy hf with heq | ⟨hlt, _⟩ | ⟨_, hle⟩
  · exact Nat.le_of_eq heq
  · omega
  · exact hle

/-- Nor does a step after the fault. -/
theorem SysInv.step_shares (hinv : SysInv σ) (hfault : σ.state.accountingFault ≠ none) (hstopped : Stopped σ.state)
    (h : g.step σ a = some (σ', e)) {f : PermitRecord → Nat} (hf : Shared f) :
    heldBy σ'.state.permits f ≤ heldBy σ.state.permits f := by
  refine (hinv.step_rule h (P := fun s => Halted g s ∧ heldBy s.permits f ≤ heldBy σ.state.permits f) ?_
    ⟨hstopped.halted hinv.state hfault, Nat.le_refl _⟩).2
  rintro trend s s' hm hinv₁ _ ⟨hhalted, hle⟩
  exact ⟨hhalted.move hm, Nat.le_trans (hhalted.shares hm hinv₁ hf) hle⟩

/-- A faulted ticket keeps its answer until its own claim or abandon. -/
theorem SysInv.step_faulted (hinv : SysInv σ) (h : g.step σ a = some (σ', e)) {t : Ticket}
    (ht : σ.state.tickets[t]? = some .faulted) (hclaim : ∀ sampledMs, a ≠ .claim t sampledMs)
    (habandon : ∀ sampledMs, a ≠ .abandon t sampledMs) : σ'.state.tickets[t]? = some .faulted := by
  have howner : ¬ (callerOf σ a).tickets t := by
    rintro (⟨sampledMs, rfl⟩ | ⟨sampledMs, rfl⟩ | ⟨i, panicked, p, effects, sampledMs, rfl, hthread⟩)
    · exact hclaim sampledMs rfl
    · exact habandon sampledMs rfl
    · -- A claim in progress never finds its ticket faulted.
      have hfinds := (hinv.claims t p effects sampledMs (List.mem_of_getElem? hthread)).2
      rw [ht] at hfinds
      simp [ClaimFinds, isTerminal] at hfinds
  refine hinv.step_ticket h (Q := fun state => state = some .faulted) (fun old new hlife hold => ?_)
    (fun old hterminal hold => ?_) ht
  · subst hold
    cases hlife with
    | ended reason held => simp at held
    | forgotten final owner => exact absurd owner howner
  · subst hold
    simp [isTerminal] at hterminal

/-! ## Claims and releases after the fault -/

/-- The first section of a claim takes a granted ticket. -/
theorem SysInv.step_claim_granted (hinv : SysInv σ) {t : Ticket}
    (ht : σ.state.tickets[t]? = some (.granted p)) (sampledMs : UInt64) :
    ∃ σ₁ effects record, g.step σ (.claim t sampledMs) = some (σ₁, .progressed) ∧
      σ₁.threads = σ.threads ++ [.claiming t p effects sampledMs.toNat] ∧
      σ₁.state.tickets[t]? = some (.claiming p) ∧ σ₁.state.permits[p]? = some record := by
  obtain ⟨record, found, _⟩ := (hinv.state.tickets.held t p).mp (Or.inl ht)
  let s := σ.state.commitTime sampledMs.toNat
  let begun := { s with
    permits := s.permits.insert p (claimedRecord record s.commitWatermarkMs) }.setTicket t (.claiming p)
  let effects := ({} : TransitionEffects).pushRetire record.claimWaker
  have hbegin : beginClaim s t s.commitWatermarkMs = (begun, effects, .claiming p) := by
    have ht' : s.tickets[t]? = some (.granted p) := ht
    have hfound' : s.permits[p]? = some record := found
    unfold Governor.beginClaim
    simp only [ht', hfound']
    rfl
  refine ⟨{ σ with
      state := begun
      threads := σ.threads ++ [.claiming t p effects sampledMs.toNat] }, effects,
    claimedRecord record s.commitWatermarkMs, ?_, rfl, ?_, ?_⟩
  · simp only [Governor.step, Governor.prepare, Option.map_some, startClaim]
    rw [show beginClaim (σ.state.commitTime sampledMs.toNat) t _ = _ from hbegin]
    rfl
  · show (s.tickets.insert t (.claiming p))[t]? = _
    simp
  · show (s.permits.insert p _)[p]? = _
    simp

/-- The second section of a claim hands over a live permit. -/
theorem step_finishClaim_ready {i : Nat} {t : Ticket} {effects : TransitionEffects} {sampledMs : Nat}
    (hthread : σ.threads[i]? = some (.claiming t p effects sampledMs))
    (ht : σ.state.tickets[t]? = some (.claiming p)) (found : σ.state.permits[p]? = some record) :
    ∃ σ', g.step σ (.finishClaim i false) = some (σ', .claimed t (.ready p)) := by
  have ht' : (σ.state.commitTime sampledMs).tickets[t]? = some (.claiming p) := ht
  have hfound' : (σ.state.commitTime sampledMs).permits[p]? = some record := found
  have hprepared : Governor.prepare σ (.finishClaim i false) =
      some (endClaim σ i t p sampledMs false) := by
    simp [Governor.prepare, hthread]
  have hevent : (endClaim σ i t p sampledMs false).sec.outcome = .claimed t (.ready p) := by
    simp [endClaim, locked, finishClaim, ht', hfound']
  refine ⟨finish (endClaim σ i t p sampledMs false), ?_⟩
  unfold Governor.step
  rw [hprepared, Option.map_some, hevent]

/-- A granted ticket can be claimed. -/
theorem SysInv.granted_claimable (hinv : SysInv σ) {t : Ticket}
    (ht : σ.state.tickets[t]? = some (.granted p)) (sampledMs : UInt64) :
    ∃ σ₁ σ₂, g.step σ (.claim t sampledMs) = some (σ₁, .progressed) ∧
      g.step σ₁ (.finishClaim σ.threads.length false) = some (σ₂, .claimed t (.ready p)) := by
  obtain ⟨σ₁, effects, record, hclaim, hthreads, hticket, hlive⟩ := hinv.step_claim_granted ht sampledMs
  have hthread : σ₁.threads[σ.threads.length]? = some (.claiming t p effects sampledMs.toNat) := by
    rw [hthreads]
    simp
  obtain ⟨σ₂, hfinish⟩ := step_finishClaim_ready hthread hticket hlive
  exact ⟨σ₁, σ₂, hclaim, hfinish⟩

/-- The action asks for the release of the permit. -/
def ReleaseOf (p : PermitId) (a : Action) : Prop :=
  (∃ sampledMs, a = .release p sampledMs) ∨
    ∃ token sampledMs, a = .releaseLeased token sampledMs ∧ token.permitId = p

/-- A release that succeeds ends its permit. -/
theorem releaseWithProof_released {proof : Option Nat}
    (h : (releaseWithProof s p proof).outcome = .released) :
    ∃ record, s.permits[p]? = some record ∧ (releaseWithProof s p proof).state.permits = s.permits.erase p := by
  unfold Governor.releaseWithProof at h ⊢
  rcases releaseWithProofReason_cases s p proof .released {} with ⟨_, heq⟩ | ⟨record, _, _, heq⟩ |
    ⟨record, s', effects', found, _, hunwind, heq⟩
  · rw [heq] at h
    simp at h
  · rw [heq] at h
    simp at h
  · rw [heq]
    exact ⟨record, found, permits_unwind hunwind⟩

/-- A release of a halted governor removes its permit and nothing else. -/
theorem SysInv.step_released (hinv : SysInv σ) (hhalted : Halted g σ.state) (ha : ReleaseOf p a)
    (h : g.step σ a = some (σ', .released p .released)) :
    ∃ record, σ.state.permits[p]? = some record ∧ σ'.state.permits = σ.state.permits.erase p := by
  obtain ⟨prepared, hprepared, rfl, hevent⟩ := step_eq_some h
  have hsec := hinv.prepare_halted hhalted hprepared
  have hpermits : (finish prepared).state.permits = prepared.sec.state.permits := by
    unfold Governor.finish Governor.commit
    rw [promote_of_empty hsec.queue_empty]
    split <;> rfl
  rw [hpermits]
  rcases ha with ⟨sampledMs, rfl⟩ | ⟨token, sampledMs, rfl, rfl⟩ <;>
  · simp only [Governor.prepare, Option.some.injEq] at hprepared
    subst hprepared
    exact releaseWithProof_released (Event.released.inj hevent).2.symm

/-- A release returned exactly the charges of its permit. -/
structure ChargesReturned (s s' : GovernedState) (p : PermitId) (record : PermitRecord) : Prop where
  found : s.permits[p]? = some record
  gone : s'.permits = s.permits.erase p
  cpu : s.cpuUnitsHeld = record.ledger.cpuUnits + s'.cpuUnitsHeld
  memory : s.memoryUnitsHeld = record.ledger.effectiveUnits + s'.memoryUnitsHeld
  inflight : ∀ c, s.inflight c = (if record.taskClass = c then 1 else 0) + s'.inflight c
  classCpu : ∀ c, (s.cls c).cpuUnitsHeld =
    (if record.taskClass = c then record.ledger.cpuUnits else 0) + (s'.cls c).cpuUnitsHeld
  classMemory : ∀ c, (s.cls c).memoryUnitsHeld =
    (if record.taskClass = c then record.ledger.effectiveUnits else 0) + (s'.cls c).memoryUnitsHeld
  pools : ∀ id, s.inUse id = (if id ∈ record.capabilities.ids then 1 else 0) + s'.inUse id

/-- Where every total is the sum over the live permits, removing one returns its charges. -/
theorem Conserved.returned (h : Conserved s) (h' : Conserved s') (found : s.permits[p]? = some record)
    (gone : s'.permits = s.permits.erase p) : ChargesReturned s s' p record where
  found := found
  gone := gone
  cpu := by
    rw [h.cpu, h'.cpu, gone]
    exact heldBy_erase found cpuOf
  memory := by
    rw [h.memory, h'.memory, gone]
    exact heldBy_erase found memoryOf
  inflight c := by
    show (s.cls c).inflight = _ + (s'.cls c).inflight
    rw [(h.classes c).inflight, (h'.classes c).inflight, gone]
    exact heldIn_erase found c _
  classCpu c := by
    rw [(h.classes c).cpu, (h'.classes c).cpu, gone]
    exact heldIn_erase found c cpuOf
  classMemory c := by
    rw [(h.classes c).memory, (h'.classes c).memory, gone]
    exact heldIn_erase found c memoryOf
  pools id := by
    rw [PoolExact.inUse (h.pools id), PoolExact.inUse (h'.pools id), gone]
    exact heldBy_erase found _

/-! ## Every run -/

/-- A fault finds the governor stopped, as long as few permits share a root operation or a pool. -/
theorem stopped_of_fault (h : g.ReachableFewSharing σ) (hfault : σ.state.accountingFault ≠ none) :
    Stopped σ.state := by
  have hall : g.ReachableFewSharing σ ∧ (σ.state.accountingFault ≠ none → Stopped σ.state) := by
    refine Runs.Reachable.invariant
      (P := fun σ : g.System => g.ReachableFewSharing σ ∧ (σ.state.accountingFault ≠ none → Stopped σ.state)) h
      ⟨Runs.Reachable.refl _, fun hfault => absurd rfl hfault⟩ ?_
    rintro σ a σ' e ⟨hreach, hstop⟩ hstep
    refine ⟨hreach.next hstep, fun hfault' => ?_⟩
    have hinv := SysInv.of_reachable (Runs.Reachable.of_restrict hreach)
    have hstep' := (Runs.restrict_eq_some.mp hstep).1
    cases hbefore : σ.state.accountingFault with
    | none =>
      obtain ⟨p, measuredBytes, epoch, sampledMs, error, _, _, hstate⟩ :=
        step_faults hinv (Gauges.of_reachable hreach) hstep' hbefore hfault'
      rw [hstate]
      exact stopped_terminalizeQueued _ _
    | some what =>
      have hbefore' : σ.state.accountingFault ≠ none := by simp [hbefore]
      exact hinv.step_stopped hbefore' (hstop hbefore') hstep'
  exact hall.2 hfault

/-- Neither of the other two places that record a fault is reached: no live permit can return more than
a total holds, and no admissible request is blocked by a fault that is not recorded. -/
structure OtherSitesUnreached (g : Governor) (s : GovernedState) : Prop where
  ledger : ∀ (p : PermitId) record, s.permits[p]? = some record →
    ∀ units ≤ record.ledger.effectiveUnits,
      s.memoryUnderflow record.taskClass (chargedRoot record) units = false
  intake : s.accountingFault = none → ∀ (intake : Intake g.policy) c policy blockers,
    assessIntake s g.policy policy c intake.request = .reversiblyBlocked blockers →
      blockers.primary ≠ .accountingFault

theorem primary_accountingFault {blockers : BlockerSet} (h : blockers.primary = .accountingFault) :
    blockers.accountingFault = true := by
  unfold BlockerSet.primary at h
  split at h
  · assumption
  · split at h
    · simp at h
    · split at h
      · simp at h
      · split at h
        · simp at h
        · split at h
          · simp at h
          · split at h <;> simp at h

/-- The other places that could record a fault are not reached from exact books. -/
theorem otherSitesUnreached (hbooks : Books s) (hgauges : Gauges s) : OtherSitesUnreached g s where
  ledger p record found units hle := no_memoryUnderflow hbooks hgauges found hle
  intake hnone intake c policy blockers hblocked hprimary := by
    have hsame := recordAccountingFault_of_registered intake.registered hblocked
      (primary_accountingFault hprimary) conversionFault
    have hset : (s.recordAccountingFault conversionFault).accountingFault = some conversionFault := by
      simp [GovernedState.recordAccountingFault, hnone]
    rw [hsame, hnone] at hset
    simp at hset

/-- What one step from a sound state to a faulted one is, and what it leaves to later states. -/
structure FaultStep (σ : g.System) (a : Action) (σ' : g.System) (e : Event) : Prop where
  reconciled : ∃ p measuredBytes epoch sampledMs error,
    a = .reconcileMemory p measuredBytes epoch sampledMs ∧ e = .reconciled p (.conversionFailed error)
  ledger : σ.state.SameLedger σ'.state
  granted : ∀ (t : Ticket) p, σ.state.tickets[t]? = some (.granted p) →
    σ'.state.tickets[t]? = some (.granted p)
  queued : ∀ (t : Ticket) c, σ.state.tickets[t]? = some (.queued c) → ∀ trace σ'',
    Runs.Run g.step σ' trace σ'' →
      (∀ l ∈ trace, ∀ sampledMs, l.1 ≠ .claim t sampledMs ∧ l.1 ≠ .abandon t sampledMs) →
      ticketStatus σ''.state t = .terminal .accountingFault

/-- What the step that records the fault does to everyone who waits. -/
theorem faultStep (hinv : SysInv σ) (hgauges : Gauges σ.state) (h : g.step σ a = some (σ', e))
    (hsound : σ.state.accountingFault = none) (hfault : σ'.state.accountingFault ≠ none) :
    FaultStep σ a σ' e := by
  obtain ⟨p, measuredBytes, epoch, sampledMs, error, ha, he, hstate⟩ :=
    step_faults hinv hgauges h hsound hfault
  have hseq : σ.state.terminalSeq < u64Max := Nat.lt_of_le_of_lt (terminalSeq_le_load _) hinv.terminalSeq_lt
  have hcommit := stateInv_commitTime hinv.state sampledMs.toNat hseq
  have hrecorded : (σ.state.commitTime sampledMs.toNat).recordAccountingFault conversionFault =
      { σ.state.commitTime sampledMs.toNat with accountingFault := some conversionFault } := by
    have hnone : (σ.state.commitTime sampledMs.toNat).accountingFault = none := hsound
    simp [GovernedState.recordAccountingFault, hnone]
  have hmove : Move g ⟨fun _ _ => False, fun _ => False, fun _ => True, fun _ => False⟩ .shrinking _ _ :=
    Move.faulted (σ.state.commitTime sampledMs.toNat) conversionFault ⟨p, trivial⟩
  have hstop := failedStop_terminalizeQueued (hmove.stateInv hcommit hseq)
    (by rw [hrecorded]; exact hseq) {}
  rw [← hstate, hrecorded] at hstop
  refine ⟨⟨p, measuredBytes, epoch, sampledMs, error, ha, he⟩, ?_, fun t p ht => ?_,
    fun t c ht trace σ'' hrun hothers => ?_⟩
  · have hledger : σ.state.SameLedger
        { σ.state.commitTime sampledMs.toNat with accountingFault := some conversionFault } :=
      ⟨fun _ => rfl, rfl, rfl, rfl, rfl, rfl, rfl⟩
    exact hledger.trans hstop.ledger
  · refine (hstop.others t fun c hc => ?_).trans ht
    have hqueued : σ.state.tickets[t]? = some (.queued c) := hc
    rw [ht] at hqueued
    simp at hqueued
  · have hfaulted : σ''.state.tickets[t]? = some .faulted :=
      hrun.invariant_of (I := SysInv) (P := fun σ : g.System => σ.state.tickets[t]? = some .faulted)
        (Q := fun l => ∀ sampledMs, l.1 ≠ .claim t sampledMs ∧ l.1 ≠ .abandon t sampledMs)
        (fun _ _ _ _ hinv hstep => hinv.step hstep)
        (fun _ _ _ _ hinv ht hown hstep =>
          hinv.step_faulted hstep ht (fun ms => (hown ms).1) fun ms => (hown ms).2)
        hothers (hinv.step h) (hstop.queued t c ht)
    simp [ticketStatus, hfaulted]

/-- What holds from a fault on, of a state with the fault and a later one. -/
structure AfterFault (σ : g.System) (what : String) (σ' : g.System) : Prop where
  fault : σ'.state.accountingFault = some what
  granted : ∀ p, p ∈ σ'.state.permits → p ∈ σ.state.permits
  empty : ∀ c, (σ'.state.cls c).queue = []
  pending : σ'.state.promotionPending = false
  claimable : ∀ (t : Ticket) p sampledMs, σ'.state.tickets[t]? = some (.granted p) →
    ∃ σ₁ σ₂, g.step σ' (.claim t sampledMs) = some (σ₁, .progressed) ∧
      g.step σ₁ (.finishClaim σ'.threads.length false) = some (σ₂, .claimed t (.ready p))
  conserved : Conserved σ'.state
  released : ∀ p a σ'', ReleaseOf p a → g.step σ' a = some (σ'', .released p .released) →
    ∃ record, ChargesReturned σ'.state σ''.state p record

/-- A step after a fault still has few permits that share anything. -/
theorem Governor.ReachableFewSharing.step_faulted (h : g.ReachableFewSharing σ)
    (hfault : σ.state.accountingFault ≠ none) (hstep : g.step σ a = some (σ', e)) : g.ReachableFewSharing σ' := by
  have hinv := SysInv.of_reachable (Runs.Reachable.of_restrict h)
  have hfew := h.few.of_le fun f hf => hinv.step_shares hfault (stopped_of_fault h hfault) hstep hf
  exact h.next (Runs.restrict_eq_some.mpr ⟨hstep, fewSharing_iff.mpr hfew⟩)

/-- What holds along every run after the fault. -/
theorem afterFault (h : g.ReachableFewSharing σ) {what : String} (hfault : σ.state.accountingFault = some what)
    {trace : List (Action × Event)} (hrun : Runs.Run g.step σ trace σ') : AfterFault σ what σ' := by
  have hall : g.ReachableFewSharing σ' ∧ σ'.state.accountingFault = some what ∧
      ∀ p, p ∈ σ'.state.permits → p ∈ σ.state.permits := by
    refine hrun.invariant (P := fun σ' : g.System => g.ReachableFewSharing σ' ∧
      σ'.state.accountingFault = some what ∧ ∀ p, p ∈ σ'.state.permits → p ∈ σ.state.permits) ?_
      ⟨h, hfault, fun _ hp => hp⟩
    rintro σ₁ a σ₂ e ⟨hreach, hwhat, hsub⟩ hstep
    have hinv := SysInv.of_reachable (Runs.Reachable.of_restrict hreach)
    have hne : σ₁.state.accountingFault ≠ none := by simp [hwhat]
    exact ⟨hreach.step_faulted hne hstep, (hinv.step_gatesKept hstep).fault what hwhat,
      fun p hp => hsub p (hinv.step_permits hne (stopped_of_fault hreach hne) hstep hp)⟩
  obtain ⟨hreach, hwhat, hsub⟩ := hall
  have hinv := SysInv.of_reachable (Runs.Reachable.of_restrict hreach)
  have hne : σ'.state.accountingFault ≠ none := by simp [hwhat]
  have hstopped := stopped_of_fault hreach hne
  have hconserved := reachable_conservation hreach
  refine ⟨hwhat, hsub, (hstopped.halted hinv.state hne).queue_empty, hstopped.pending,
    fun t p sampledMs ht => hinv.granted_claimable ht sampledMs, hconserved,
    fun p a σ'' ha hstep => ?_⟩
  obtain ⟨record, found, gone⟩ := hinv.step_released (hstopped.halted hinv.state hne) ha hstep
  exact ⟨record, hconserved.returned
    (reachable_conservation (hreach.step_faulted hne hstep)) found gone⟩

/-- Accounting faults fail stop, in every state reached with fewer than `2^32` live children for each root
operation and occupants of each pool: only a reconcile that answers `ConversionFailed` records one, and
changes no ledger; from then on nothing is granted or queued, queued tickets keep their answer, granted ones
can be claimed, and releases return their charges. -/
theorem fault_fails_stop (g : Governor) (σ : g.System) (h : g.ReachableFewSharing σ) :
    OtherSitesUnreached g σ.state ∧
    (∀ a σ' e, g.step σ a = some (σ', e) → σ.state.accountingFault = none →
      σ'.state.accountingFault ≠ none → FaultStep σ a σ' e) ∧
    ∀ what, σ.state.accountingFault = some what → ∀ trace σ', Runs.Run g.step σ trace σ' →
      AfterFault σ what σ' := by
  have hinv := SysInv.of_reachable (Runs.Reachable.of_restrict h)
  have hgauges := Gauges.of_reachable h
  exact ⟨otherSitesUnreached hinv.state.books hgauges,
    fun a σ' e hstep hsound hfault => faultStep hinv hgauges hstep hsound hfault,
    fun what hwhat trace σ' hrun => afterFault h hwhat hrun⟩

namespace Metered

/-- The sample class, charged by measured bytes, one unit a byte. -/
def policy : PolicySet :=
  PolicySet.new ⟨4, 8, 0, 0, ⟨1⟩⟩
    ((∅ : BTreeMap TaskClass ClassPolicy).insert ⟨"work"⟩
      { Sample.classPolicy with memoryPermitMode := .measured }) 1

def governor : Governor := ⟨7, policy, by decide +kernel⟩

/-- One task runs and another one waits behind it. -/
def busy : governor.System :=
  (Runs.replay (Runs.restrict governor.fewLive governor.step) governor.init
    (Sample.admission (.admitSpec (Sample.task "a")) ++ Sample.admission (.admitSpec (Sample.task "b")) ++
      [.advancePhase ⟨7, 1⟩ .running])).getD governor.init

theorem busy_reachable : governor.ReachableFewLive busy :=
  Runs.reachable_replay governor.init _

end Metered

/-- In the sample, a reading of `2^40` bytes for the running task answers the waiting one. -/
theorem metered_fails_stop :
    ∃ σ' e, Metered.governor.step Metered.busy (.reconcileMemory ⟨7, 1⟩ 1099511627776 none 5) = some (σ', e) ∧
      FaultStep Metered.busy (.reconcileMemory ⟨7, 1⟩ 1099511627776 none 5) σ' e ∧
      ticketStatus σ'.state ⟨7, 2⟩ = .terminal .accountingFault := by
  have hruns : ((Metered.governor.step Metered.busy (.reconcileMemory ⟨7, 1⟩ 1099511627776 none 5)).any
      fun next => next.1.state.accountingFault.isSome) = true := by decide +kernel
  have hqueued : Metered.busy.state.tickets[(⟨7, 2⟩ : Ticket)]? = some (.queued ⟨"work"⟩) := by
    decide +kernel
  obtain ⟨⟨σ', e⟩, hstep, hfault⟩ := (Option.any_eq_true _ _).mp hruns
  have hstop := (fault_fails_stop Metered.governor Metered.busy Metered.busy_reachable.sharing).2.1 _ σ' e hstep
    (by decide +kernel) (Option.isSome_iff_ne_none.mp hfault)
  exact ⟨σ', e, hstep, hstop, hstop.queued ⟨7, 2⟩ ⟨"work"⟩ hqueued [] σ' (Runs.Run.nil σ') (by simp)⟩

end Taskmesh
