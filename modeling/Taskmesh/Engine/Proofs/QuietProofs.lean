import Taskmesh.Engine.Proofs.SystemInvariantProofs

/-!
# Sections without a promotion pass

A section that ends without a promotion pass must not make a queued request runnable. Apart from an
admission, such a section leaves the queues and all holdings as they are, or it stops the queues for
good: an accounting fault empties every one of them.
-/

namespace Taskmesh

open Std MachineInt SetIndex QueueFamily

variable {g : Governor} {s s' s'' : GovernedState}

/-- What a permit holds, without its custody, its claim and its last activity. -/
def PermitRecord.holding (record : PermitRecord) : PermitRecord :=
  { record with
    phase := .dispatchReserved
    leaseNonce := none
    pendingTicket := none
    claimWaker := none
    ledger := { record.ledger with lastTouchedMs := 0 } }

/-- The same permits hold the same. -/
structure SameHoldings (s s' : GovernedState) : Prop where
  permits : ∀ p : PermitId,
    s'.permits[p]?.map PermitRecord.holding = s.permits[p]?.map PermitRecord.holding
  size : s'.permits.size = s.permits.size
  inflight : ∀ c, s'.inflight c = s.inflight c
  pools : s'.capabilityInUse = s.capabilityInUse
  cpu : s'.cpuUnitsHeld = s.cpuUnitsHeld
  memory : s'.memoryUnitsHeld = s.memoryUnitsHeld
  operations : s'.operationPermits = s.operationPermits

/-- Neither the queues nor what they wait for changed. -/
structure Quiet (s s' : GovernedState) : Prop where
  queues : s.SameQueues s'
  holdings : SameHoldings s s'
  fault : s'.accountingFault = s.accountingFault
  pending : s'.promotionPending = s.promotionPending

/-- Nothing waits, and nothing is owed. -/
structure Stopped (s : GovernedState) : Prop where
  empty : ∀ c, s.waiting c = []
  pending : s.promotionPending = false

theorem SameHoldings.refl (s : GovernedState) : SameHoldings s s :=
  ⟨fun _ => rfl, rfl, fun _ => rfl, rfl, rfl, rfl, rfl⟩

theorem SameHoldings.trans (h : SameHoldings s s') (h' : SameHoldings s' s'') : SameHoldings s s'' :=
  ⟨fun p => (h'.permits p).trans (h.permits p), h'.size.trans h.size,
    fun c => (h'.inflight c).trans (h.inflight c), h'.pools.trans h.pools, h'.cpu.trans h.cpu,
    h'.memory.trans h.memory, h'.operations.trans h.operations⟩

theorem Quiet.refl (s : GovernedState) : Quiet s s :=
  ⟨GovernedState.SameQueues.refl s, SameHoldings.refl s, rfl, rfl⟩

theorem Quiet.trans (h : Quiet s s') (h' : Quiet s' s'') : Quiet s s'' :=
  ⟨h.queues.trans h'.queues, h.holdings.trans h'.holdings, h'.fault.trans h.fault,
    h'.pending.trans h.pending⟩

/-- Rewriting the tags of the scheduler changes nothing a runnability check reads. -/
theorem quiet_of_rescheduled (h : s.Rescheduled s') : Quiet s s' := by
  refine ⟨h.queues, ⟨fun p => ?_, ?_, h.ledger.inflight_eq, h.ledger.pools, h.ledger.cpu,
    h.ledger.memory, h.ledger.operations⟩, h.flags.fault, h.flags.pending⟩
  · rw [h.ledger.permits]
  · rw [h.ledger.permits]

theorem quiet_setTicket (s : GovernedState) (ticket : Ticket) (state : TicketState) :
    Quiet s (s.setTicket ticket state) :=
  ⟨⟨fun _ => rfl, rfl, rfl⟩, ⟨fun _ => rfl, rfl, fun _ => rfl, rfl, rfl, rfl, rfl⟩, rfl, rfl⟩

theorem quiet_removeTicket (s : GovernedState) (ticket : Ticket) : Quiet s (s.removeTicket ticket) :=
  ⟨⟨fun _ => rfl, rfl, rfl⟩, ⟨fun _ => rfl, rfl, fun _ => rfl, rfl, rfl, rfl, rfl⟩, rfl, rfl⟩

/-- Bookkeeping of identities and answers is quiet. -/
theorem quiet_withBook (s : GovernedState) (b : TicketBook) : Quiet s (s.withBook b) :=
  ⟨⟨fun _ => rfl, rfl, rfl⟩, ⟨fun _ => rfl, rfl, fun _ => rfl, rfl, rfl, rfl, rfl⟩, rfl, rfl⟩

theorem quiet_closeAdmission (s : GovernedState) : Quiet s s.closeAdmission :=
  ⟨⟨fun _ => rfl, rfl, rfl⟩, ⟨fun _ => rfl, rfl, fun _ => rfl, rfl, rfl, rfl, rfl⟩, rfl, rfl⟩

/-- Replacing a record by one with the same holding leaves every holding as it was. -/
theorem holding_insert {permits : BTreeMap PermitId PermitRecord} {p : PermitId}
    {record record' : PermitRecord} (found : permits[p]? = some record)
    (same : record'.holding = record.holding) (q : PermitId) :
    (permits.insert p record')[q]?.map PermitRecord.holding = permits[q]?.map PermitRecord.holding := by
  rw [ExtTreeMap.getElem?_insert]
  by_cases hq : p = q
  · subst hq
    simp [found, same]
  · simp [hq]

/-- A record that still holds the same was written. -/
theorem quiet_replaced {p : PermitId} {record : PermitRecord} (found : s.permits[p]? = some record)
    (record' : PermitRecord) (same : record'.holding = record.holding) :
    Quiet s { s with permits := s.permits.insert p record' } :=
  ⟨⟨fun _ => rfl, rfl, rfl⟩,
    ⟨holding_insert found same, size_insert_live found record', fun _ => rfl, rfl, rfl, rfl, rfl⟩,
    rfl, rfl⟩

theorem inflight_advanceClass (previous phase : ExecutionPhase) (cs : ClassState) :
    (GovernedState.advanceClass previous phase cs).inflight = cs.inflight := by
  unfold GovernedState.advanceClass
  cases previous <;> cases phase <;> rfl

/-- A phase change moves no charge, so it is quiet. -/
theorem quiet_advancedTo {p : PermitId} {record : PermitRecord} (found : s.permits[p]? = some record)
    (phase : ExecutionPhase) (nonces : Nat) : Quiet s (s.advancedTo p record phase nonces) := by
  refine ⟨GovernedState.sameQueues_advancedTo s p record phase nonces,
    ⟨holding_insert found rfl, size_insert_live found _, fun c => ?_, rfl, rfl, rfl, rfl⟩, rfl, rfl⟩
  unfold GovernedState.inflight
  rw [GovernedState.cls_advancedTo]
  split
  · exact inflight_advanceClass _ _ _
  · rfl

/-! ## The sections of a claim -/

/-- Beginning a claim frees nothing. -/
theorem quiet_beginClaim (s : GovernedState) (ticket : Ticket) (nowMs : Nat) :
    Quiet s (Governor.beginClaim s ticket nowMs).1 := by
  unfold Governor.beginClaim
  split
  · split
    · exact Quiet.refl s
    · rename_i record found
      exact (quiet_replaced found (Governor.claimedRecord record nowMs) rfl).trans
        (quiet_setTicket _ ticket _)
  · exact Quiet.refl s
  · exact Quiet.refl s
  · exact quiet_withBook s _
  · exact quiet_withBook s _
  · exact Quiet.refl s

/-- Finishing a claim frees nothing. -/
theorem quiet_finishClaim (s : GovernedState) (ticket : Ticket) (nowMs : Nat) :
    Quiet s (Governor.finishClaim s ticket nowMs).1 := by
  unfold Governor.finishClaim
  split
  · split
    · exact quiet_withBook s _
    · rename_i record found
      exact (quiet_replaced found (Governor.transferredRecord record nowMs) rfl).trans
        (quiet_removeTicket _ ticket)
  · exact quiet_withBook s _
  · exact quiet_withBook s _
  · exact Quiet.refl s
  · exact Quiet.refl s
  · exact Quiet.refl s

/-- Detaching a ticket from its permit frees nothing. -/
theorem quiet_detachTicket (s : GovernedState) (p : PermitId) (ticket : Ticket) :
    Quiet s (Governor.detachTicket s p ticket) := by
  unfold Governor.detachTicket
  split
  · rename_i record found
    exact (quiet_replaced found { record with pendingTicket := none } rfl).trans
      (quiet_withBook _ _)
  · exact quiet_withBook s _

/-- A release that does not release changes nothing. -/
theorem releaseWithProofReason_refused {s' : GovernedState} {p : PermitId} {proof : Option Nat}
    {reason : TerminalReason} {effects effects' : TransitionEffects} {outcome : ReleaseOutcome}
    (h : s.releaseWithProofReason p proof reason effects = (s', effects', outcome))
    (hne : outcome ≠ .released) : s' = s := by
  rcases releaseWithProofReason_cases s p proof reason effects with ⟨_, heq⟩ | ⟨_, _, _, heq⟩ |
    ⟨_, _, _, _, _, _, heq⟩
  · rw [heq] at h
    exact (congrArg Prod.fst h).symm
  · rw [heq] at h
    exact (congrArg Prod.fst h).symm
  · rw [heq] at h
    simp only [Prod.mk.injEq] at h
    exact absurd h.2.2.symm hne

/-- A compensated claim that asks for no promotion pass has freed nothing. -/
theorem quiet_compensateClaim {ticket : Ticket} {p : PermitId}
    (h : (Governor.compensateClaim s ticket p).promotes = false) :
    Quiet s (Governor.compensateClaim s ticket p).state := by
  unfold Governor.compensateClaim at h ⊢
  split at h
  · split at h
    · simp at h
    · rename_i heq
      rw [releaseWithProofReason_refused heq (by simp)]
      exact quiet_detachTicket s p ticket
    · rename_i heq
      rw [releaseWithProofReason_refused heq (by simp)]
      exact quiet_withBook s _
  · exact Quiet.refl s

/-! ## Abandon and release -/

/-- An abandoned grant that asks for no promotion pass has freed nothing. -/
theorem quiet_abandonGranted {ticket : Ticket} {p : PermitId}
    (h : (Governor.abandonGranted s ticket p).promotes = false) :
    Quiet s (Governor.abandonGranted s ticket p).state := by
  unfold Governor.abandonGranted at h ⊢
  split at h
  · simp at h
  · rename_i heq
    rw [releaseWithProofReason_refused heq (by simp)]
    exact Quiet.refl s
  · rename_i heq
    rw [releaseWithProofReason_refused heq (by simp)]
    exact quiet_removeTicket s ticket

/-- An abandon that asks for no promotion pass has freed nothing. -/
theorem quiet_abandon {ticket : Ticket} (h : (g.abandon s ticket).promotes = false) :
    Quiet s (g.abandon s ticket).state := by
  unfold Governor.abandon at h ⊢
  split at h
  · exact quiet_abandonGranted h
  · exact quiet_abandonGranted h
  · simp at h
  · exact quiet_withBook s _
  · exact quiet_withBook s _
  · exact Quiet.refl s

/-- A release that asks for no promotion pass has freed nothing. -/
theorem quiet_releaseWithProof {p : PermitId} {proof : Option Nat}
    (h : (Governor.releaseWithProof s p proof).promotes = false) :
    Quiet s (Governor.releaseWithProof s p proof).state := by
  unfold Governor.releaseWithProof at h ⊢
  cases heq : s.releaseWithProofReason p proof .released {} with
  | mk s' rest =>
    obtain ⟨effects, outcome⟩ := rest
    rw [heq] at h
    obtain rfl := releaseWithProofReason_refused heq (by simpa using h)
    exact Quiet.refl s'

/-! ## Memory -/

/-- The fault drain removes the head of its own queue, once for each round, and touches no other queue. -/
theorem waiting_faultQueue (c : TaskClass) (rounds : Nat) (s : GovernedState) (effects : TransitionEffects) :
    (Governor.faultQueue c rounds s effects).1.waiting c = (s.waiting c).drop rounds ∧
      ∀ c', c' ≠ c → (Governor.faultQueue c rounds s effects).1.waiting c' = s.waiting c' := by
  induction rounds generalizing s effects with
  | zero => exact ⟨rfl, fun _ _ => rfl⟩
  | succ rounds ih =>
    unfold Governor.faultQueue
    cases hremove : s.removePending c 0 with
    | none =>
      have hnil : s.waiting c = [] := by
        cases hq : (s.cls c).queue with
        | nil => simp [GovernedState.waiting, ClassState.queueHalf, hq]
        | cons r rest =>
          have hhead : (s.cls c).queue[0]? = some r := by simp [hq]
          rw [GovernedState.removePending_of_getElem hhead] at hremove
          simp at hremove
      exact ⟨by simp [hnil], fun _ _ => rfl⟩
    | some removed =>
      obtain ⟨s₁, r⟩ := removed
      obtain ⟨hr, rfl⟩ := GovernedState.removePending_spec hremove
      have hremoved := GovernedState.removed_removedPending hr
      have hsame : (s.removedPending c 0 r).SameQueues
          (((s.removedPending c 0 r).vacateOf r).setTicket r.ticket .faulted) :=
        (sameQueues_vacateOf (s.removedPending c 0 r) r).trans ⟨fun _ => rfl, rfl, rfl⟩
      obtain ⟨hc, hother⟩ := ih (((s.removedPending c 0 r).vacateOf r).setTicket r.ticket .faulted)
        (effects.pushWake r.waker)
      refine ⟨hc.trans ?_, fun c' hne => (hother c' hne).trans ?_⟩
      · rw [hsame.waiting_eq, hremoved.rest]
        cases s.waiting c with
        | nil => simp
        | cons r rest => simp
      · rw [hsame.waiting_eq, hremoved.other c' hne]

/-- One class of the fault drain ends with its queue empty and leaves the others alone. -/
theorem waiting_faultClass (acc : GovernedState × TransitionEffects) (c : TaskClass) :
    (g.faultClass acc c).1.waiting c = [] ∧
      ∀ c', c' ≠ c → (g.faultClass acc c).1.waiting c' = acc.1.waiting c' := by
  have hlen : (acc.1.cls c).queue.length = (acc.1.waiting c).length := by
    simp [GovernedState.waiting, ClassState.queueHalf]
  obtain ⟨hc, hother⟩ := waiting_faultQueue c (acc.1.cls c).queue.length acc.1 acc.2
  rw [hlen, List.drop_length, ← hlen] at hc
  unfold Governor.faultClass
  simp only
  split
  · exact ⟨hc, hother⟩
  · have hsame := (rescheduled_unserved g
      (Governor.faultQueue c (acc.1.cls c).queue.length acc.1 acc.2).1 c).queues
    exact ⟨(hsame.waiting_eq c).trans hc, fun c' hne => (hsame.waiting_eq c').trans (hother c' hne)⟩

/-- After the fault drain every listed class waits for nothing; the induction carries the classes already
emptied. -/
theorem waiting_faultClasses (classes : List TaskClass) (acc : GovernedState × TransitionEffects)
    (c : TaskClass) (h : c ∈ classes ∨ acc.1.waiting c = []) :
    (classes.foldl g.faultClass acc).1.waiting c = [] := by
  induction classes generalizing acc with
  | nil => simpa using h
  | cons c' rest ih =>
    rw [List.foldl_cons]
    refine ih _ ?_
    obtain ⟨hc, hother⟩ := waiting_faultClass (g := g) acc c'
    by_cases hcc : c = c'
    · subst hcc
      exact Or.inr hc
    · rcases h with hmem | hnil
      · exact Or.inl ((List.mem_cons.mp hmem).resolve_left hcc)
      · exact Or.inr ((hother c hcc).trans hnil)

/-- An accounting fault empties every queue. -/
theorem stopped_terminalizeQueued (s : GovernedState) (effects : TransitionEffects) :
    Stopped (g.terminalizeQueuedForAccountingFault s effects).1 := by
  refine ⟨fun c => ?_, rfl⟩
  refine waiting_faultClasses s.classes.keys (s, effects) c ?_
  cases hcs : s.classes[c]? with
  | none => exact Or.inr (by simp [GovernedState.waiting, GovernedState.cls, hcs, ClassState.queueHalf, default])
  | some cs =>
    refine Or.inl (ExtTreeMap.mem_keys.mpr ?_)
    rw [ExtTreeMap.mem_iff_isSome_getElem?, hcs]
    rfl

/-- A memory report that asks for no promotion pass has freed nothing, or has stopped the engine. -/
theorem quiet_reconcileMemory {p : PermitId} {measuredBytes : Nat} {epoch : Option Nat} {nowMs : Nat}
    (h : (g.reconcileMemory s p measuredBytes epoch nowMs).promotes = false) :
    Quiet s (g.reconcileMemory s p measuredBytes epoch nowMs).state ∨
      Stopped (g.reconcileMemory s p measuredBytes epoch nowMs).state := by
  rcases reconcileMemory_cases g s p measuredBytes epoch nowMs with ⟨outcome, heq, _⟩ | ⟨error, heq⟩ |
    ⟨record, ledger, _, _, heq, _⟩
  · rw [heq]
    exact Or.inl (Quiet.refl s)
  · rw [heq]
    exact Or.inr (stopped_terminalizeQueued _ {})
  · rw [heq] at h
    simp at h

/-- A stage release that asks for no promotion pass has freed nothing. -/
theorem quiet_releaseStage {p : PermitId} {freedUnits : Nat} {sequence : Option Nat} {nowMs : Nat}
    (h : (g.releaseStage s p freedUnits sequence nowMs).promotes = false) :
    Quiet s (g.releaseStage s p freedUnits sequence nowMs).state := by
  unfold Governor.releaseStage at h ⊢
  split at h
  · exact Quiet.refl s
  · split at h
    · exact Quiet.refl s
    · simp at h

/-! ## Every step -/

theorem quiet_commitTime (s : GovernedState) (sampledMs : Nat) : Quiet s (s.commitTime sampledMs) :=
  quiet_of_rescheduled (rescheduled_commitTime s sampledMs)

/-- A section that ends without a promotion pass, other than an admission. -/
theorem prepare_quiet {σ : g.System} {a : Action} {p : g.Prepared} (h : Governor.prepare σ a = some p)
    (hpass : p.sec.promotes = false) (hother : ∀ i, a ≠ .enter i) :
    Quiet σ.state p.sec.state ∨ Stopped p.sec.state := by
  have htime := fun sampledMs => quiet_commitTime σ.state sampledMs
  cases a with
  | call entry sampledMs =>
    simp only [Governor.prepare, Option.some.injEq] at h
    subst h
    unfold Governor.call
    split <;> exact Or.inl (Quiet.refl _)
  | allocate i =>
    simp only [Governor.prepare] at h
    split at h
    · rename_i intake sampledMs taken _
      obtain rfl := Option.some.inj h
      have hstate : (Governor.allocate σ i intake sampledMs taken).sec.state = σ.state := by
        unfold Governor.allocate
        cases taken <;> simp only <;> split <;> rfl
      rw [hstate]
      exact Or.inl (Quiet.refl _)
    · simp at h
  | enter i => exact absurd rfl (hother i)
  | settle i panicked =>
    simp only [Governor.prepare] at h
    split at h
    · split at h
      · simp at h
      · obtain rfl := Option.some.inj h
        unfold Governor.settle at hpass ⊢
        split at hpass
        · exact Or.inl (Quiet.refl _)
        · exact Or.inl ((htime _).trans (quiet_releaseWithProof hpass))
        · exact Or.inl (Quiet.refl _)
    · simp at h
  | claim ticket sampledMs =>
    simp only [Governor.prepare, Option.some.injEq] at h
    subst h
    exact Or.inl ((htime _).trans (quiet_beginClaim _ _ _))
  | finishClaim i panicked =>
    simp only [Governor.prepare] at h
    split at h
    · split at h
      · simp at h
      · obtain rfl := Option.some.inj h
        cases panicked with
        | true => exact Or.inl ((htime _).trans (quiet_compensateClaim hpass))
        | false => exact Or.inl ((htime _).trans (quiet_finishClaim _ _ _))
    · simp at h
  | abandon ticket sampledMs =>
    simp only [Governor.prepare, Option.some.injEq] at h
    subst h
    exact Or.inl ((htime _).trans (quiet_abandon hpass))
  | release permitId sampledMs =>
    simp only [Governor.prepare, Option.some.injEq] at h
    subst h
    exact Or.inl ((htime _).trans (quiet_releaseWithProof hpass))
  | releaseLeased token sampledMs =>
    simp only [Governor.prepare, Option.some.injEq] at h
    subst h
    exact Or.inl ((htime _).trans (quiet_releaseWithProof hpass))
  | advancePhase permitId phase =>
    simp only [Governor.prepare, Option.some.injEq] at h
    subst h
    unfold Governor.advance
    rcases GovernedState.advancePhase_cases σ.state permitId phase σ.leaseNonces with
      ⟨refusal, heq⟩ | ⟨record, found, _, hstate, _⟩
    · rw [heq]
      exact Or.inl (Quiet.refl _)
    · simp only [hstate]
      exact Or.inl (quiet_advancedTo found phase _)
  | reconcileMemory permitId measuredBytes epoch sampledMs =>
    simp only [Governor.prepare, Option.some.injEq] at h
    subst h
    exact (quiet_reconcileMemory hpass).imp_left (htime _).trans
  | releaseStageMemory permitId freedUnits sequence sampledMs =>
    simp only [Governor.prepare, Option.some.injEq] at h
    subst h
    exact Or.inl ((htime _).trans (quiet_releaseStage hpass))
  | reapLeaks staleAfterMs sampledMs =>
    simp only [Governor.prepare, Option.some.injEq] at h
    subst h
    simp [Governor.operation, Governor.locked, Governor.reapLeaksWith] at hpass
  | closeAdmission =>
    simp only [Governor.prepare, Option.some.injEq] at h
    subst h
    exact Or.inl (quiet_closeAdmission _)
  | drain i =>
    simp only [Governor.prepare] at h
    split at h
    · rename_i effects sampledMs _
      obtain rfl := Option.some.inj h
      unfold Governor.drain at hpass ⊢
      cases hmore : effects.moreRunnable with
      | true => simp [hmore, Governor.locked] at hpass
      | false => exact Or.inl (Quiet.refl _)
    · simp at h
  | mintElsewhere =>
    simp only [Governor.prepare, Option.some.injEq] at h
    subst h
    exact Or.inl (Quiet.refl _)

end Taskmesh
