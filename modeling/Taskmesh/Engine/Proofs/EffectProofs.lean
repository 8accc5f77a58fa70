import Taskmesh.Engine.Proofs.QueueInvariantProofs

/-!
# What a move does to the requests and permits

A request waits in one queue or holds one permit. A move queues a request, drops one, turns one into
a permit, ends a permit, or changes one record in place; everything else leaves both books alone.
The ledger, the identity indexes and the recursion guard are then invariants of these few effects.
-/

namespace Taskmesh

open Std MachineInt SetIndex QueueFamily

/-- What the checks and the capacity resolver guarantee of a grant. -/
structure GrantFits (g : Governor) (s : GovernedState) (grant : GrantRequest) (policy : ClassPolicy) :
    Prop where
  known : g.policy.classPolicy grant.taskClass = some policy
  enabled : policy.isDisabled = false
  cost : grant.cost = resolveCost policy
  reserved : grant.reservedUnits = (resolveCost policy).memoryUnits
  registered : RegisteredWith g.policy grant.capabilities
  free : (blockersFor s g.policy grant.taskClass policy.maxInflight.toNat grant.cost
    grant.capabilities).isEmpty = true

/-- A record changed in place, in nothing that is charged: its claim state and its last activity. -/
structure Touched (record record' : PermitRecord) : Prop where
  ticket : record'.pendingTicket = record.pendingTicket ∨ record'.pendingTicket = none
  rest : ∃ waker touchedMs, record' =
    { record with
      pendingTicket := record'.pendingTicket
      claimWaker := waker
      ledger := { record.ledger with lastTouchedMs := touchedMs } }

/-- What a move does to the requests and permits. -/
inductive Effect (g : Governor) (caller : Caller) (s s' : GovernedState) : Prop
  | kept (queues : s.SameQueues s') (ledger : s.SameLedger s')
      (guards : s'.activeRecursion = s.activeRecursion)
  | queued {policy : ClassPolicy} {c : TaskClass} {request : AdmissionRequest} {ids : Ids}
      {blockers : BlockerSet} (waker : Option Waker) (nowMs : Nat) (tags : Nat × Nat × Nat)
      (allowed : caller.ids ids) (accepted : Accepted g s policy c request ids)
      (pushed : Pushed s.waiting s'.waiting c
        (queuedEntry s policy c request waker ids nowMs blockers.primary tags))
      (identities : s'.queuedOperationIdentities =
        insertMember s.queuedOperationIdentities request.spec.rootOperationId request.spec.operation)
      (ledger : s.SameLedger s')
      (guards : s'.activeRecursion =
        if request.spec.scope.isChild then
          insertMember s.activeRecursion request.spec.rootOperationId (targetStage request.spec)
        else s.activeRecursion)
      (sound : s.accountingFault = none)
  | dropped {c : TaskClass} {index : Nat} {r : PendingRequest}
      (removed : Removed s.waiting s'.waiting c index r)
      (identities : s'.queuedOperationIdentities =
        removeMember s.queuedOperationIdentities r.rootOperationId r.operation)
      (ledger : s.SameLedger s')
      (guards : s'.activeRecursion =
        if r.scope.isChild then removeMember s.activeRecursion r.rootOperationId r.targetStage
        else s.activeRecursion)
  | admitted {policy : ClassPolicy} {c : TaskClass} {request : AdmissionRequest} {ids : Ids}
      (nowMs : Nat) (allowed : caller.ids ids) (accepted : Accepted g s policy c request ids)
      (fits : GrantFits g s (directGrant s policy c request ids nowMs) policy)
      (result : s' = s.grant (directGrant s policy c request ids nowMs))
  | promoted {policy : ClassPolicy} {c : TaskClass} {index : Nat} {head : PendingRequest}
      {base : GovernedState} (nowMs : Nat)
      (fits : GrantFits g s (Governor.promotedGrant base c head nowMs) policy)
      (removed : Removed s.waiting base.waiting c index head.untagged)
      (identities : base.queuedOperationIdentities =
        removeMember s.queuedOperationIdentities head.rootOperationId head.operation)
      (ledger : s.SameLedger base) (guards : base.activeRecursion = s.activeRecursion)
      (result : s' = base.grant (Governor.promotedGrant base c head nowMs))
  | ended {p : PermitId} {record : PermitRecord} (found : s.permits[p]? = some record)
      (ends : record.phase = .dispatchReserved ∨ caller.custody p record.leaseNonce)
      (queues : s.SameQueues s') (ledger : (s.discharge p record).SameLedger s')
      (guards : s'.activeRecursion = (s.discharge p record).activeRecursion)
  | touched {p : PermitId} {record record' : PermitRecord} (found : s.permits[p]? = some record)
      (similar : Touched record record') (queues : s.SameQueues s')
      (ledger : GovernedState.SameLedger { s with permits := s.permits.insert p record' } s')
      (guards : s'.activeRecursion = s.activeRecursion)
  | advanced {p : PermitId} {record : PermitRecord} {phase : ExecutionPhase} (nonces : Nat)
      (found : s.permits[p]? = some record) (later : record.phase.rank < phase.rank)
      (result : s' = s.advancedTo p record phase nonces)
  | recharged {p : PermitId} {record : PermitRecord} {ledger : PermitLedger}
      (allowed : caller.memory p) (found : s.permits[p]? = some record)
      (change : LedgerChange record.ledger ledger) (result : s' = s.rechargePermit p record ledger)

variable {g : Governor} {caller : Caller} {s s' s'' : GovernedState}

/-! ## Grants fit -/

/-- A request assessed runnable is blocked by no dimension. -/
theorem assessScope_runnable {policies : PolicySet} {q : ScopeAssessment}
    (h : assessScope s policies q = .runnable) :
    (blockersFor s policies q.taskClass q.maxInflight q.cost q.capabilities).isEmpty = true ∧
      q.queuedBehind = false := by
  unfold assessScope at h
  simp only at h
  split at h
  · rename_i hempty
    simp only [BlockerSet.isEmpty, Bool.and_eq_true, Bool.not_eq_true'] at hempty ⊢
    exact ⟨⟨⟨⟨⟨⟨hempty.1.1.1.1.1, hempty.1.1.1.1.2⟩, hempty.1.1.1.2⟩, hempty.1.1.2⟩, rfl⟩, hempty.2⟩,
      hempty.1.2⟩
  · split at h <;> simp at h

/-- A request the intake grants at once fits its class. -/
theorem Accepted.grantFits {policy : ClassPolicy} {c : TaskClass} {request : AdmissionRequest}
    {ids : Ids} (accepted : Accepted g s policy c request ids)
    (runnable : assessIntake s g.policy policy c request = .runnable) (nowMs : Nat) :
    GrantFits g s (directGrant s policy c request ids nowMs) policy :=
  ⟨accepted.known, accepted.enabled, rfl, rfl, accepted.registered, (assessScope_runnable runnable).1⟩

theorem mem_waiting_of_getElem {c : TaskClass} {index : Nat} {r : PendingRequest}
    (h : (s.cls c).queue[index]? = some r) : r.untagged ∈ s.waiting c :=
  List.mem_map_of_mem (List.mem_of_getElem? h)

/-- A request a pass grants fits its class. -/
theorem Promotes.grantFits {nowMs : Nat} {grant : GrantRequest} {c : TaskClass} {policy : ClassPolicy}
    {index : Nat} {r head : PendingRequest} {chosen served : GovernedState}
    (h : Promotes g nowMs s s' grant c policy index r head chosen served) (hinv : QueueInv g s) :
    GrantFits g s grant policy := by
  obtain ⟨policy', hfits⟩ := hinv.fits c r.untagged (mem_waiting_of_getElem h.queued)
  obtain rfl : policy = policy' := by
    have := h.known.symm.trans hfits.known
    simpa using this
  have hrunnable : assessPending s g.policy r policy.maxInflight.toNat false = .runnable := by
    have := h.runnable
    simp only [isRunnableCandidate, Bool.and_eq_true, decide_eq_true_eq] at this
    exact this.2
  have hfree := (assessScope_runnable hrunnable).1
  have hclass : r.taskClass = c := hfits.taskClass
  have hcost : head.cost = r.cost := (congrArg PendingRequest.cost h.same :)
  have hcaps : head.capabilities = r.capabilities := (congrArg PendingRequest.capabilities h.same :)
  have hresolved : r.cost = resolveCost policy := hfits.cost
  rw [h.grants]
  refine ⟨h.known, hfits.enabled, hcost.trans hresolved, ?_, ?_, ?_⟩
  · show head.cost.memoryUnits = _
    rw [hcost, hresolved]
  · show RegisteredWith g.policy head.capabilities
    rw [hcaps]
    exact hfits.registered
  · show (blockersFor s g.policy c policy.maxInflight.toNat head.cost head.capabilities).isEmpty = true
    rw [hcost, hcaps, ← hclass]
    exact hfree

/-! ## The effect of each move -/

theorem guards_vacateOf (s : GovernedState) (r : PendingRequest) :
    (s.vacateOf r).activeRecursion =
      if r.scope.isChild then removeMember s.activeRecursion r.rootOperationId r.targetStage
      else s.activeRecursion := by
  unfold GovernedState.vacateOf
  split <;> rfl

theorem sameLedger_vacateOf (s : GovernedState) (r : PendingRequest) : s.SameLedger (s.vacateOf r) := by
  unfold GovernedState.vacateOf
  split
  · exact ⟨fun _ => rfl, rfl, rfl, rfl, rfl, rfl, rfl⟩
  · exact GovernedState.SameLedger.refl s

/-- A transition that writes only tickets. -/
theorem effect_tickets {book : TicketBook} : Effect g caller s (s.withBook book) :=
  .kept ⟨fun _ => rfl, rfl, rfl⟩ ⟨fun _ => rfl, rfl, rfl, rfl, rfl, rfl, rfl⟩ rfl

/-- Recording a fault is an effect of the engine on its own. -/
theorem effect_recordAccountingFault (what : String) :
    Effect g caller s (s.recordAccountingFault what) := by
  unfold GovernedState.recordAccountingFault
  split
  · exact .kept ⟨fun _ => rfl, rfl, rfl⟩ ⟨fun _ => rfl, rfl, rfl, rfl, rfl, rfl, rfl⟩ rfl
  · exact .kept (.refl s) (.refl s) rfl

/-- A request that leaves its queue for good. -/
theorem effect_dropped {c : TaskClass} {index : Nat} {r : PendingRequest}
    (found : (s.cls c).queue[index]? = some r)
    (queues : (s.removedPending c index r).SameQueues s')
    (ledger : (s.removedPending c index r).SameLedger s')
    (guards : s'.activeRecursion =
      if r.scope.isChild then removeMember s.activeRecursion r.rootOperationId r.targetStage
      else s.activeRecursion) : Effect g caller s s' := by
  have hremoved := GovernedState.removed_removedPending found
  have hw : s'.waiting = (s.removedPending c index r).waiting := funext queues.waiting_eq
  rw [← hw] at hremoved
  exact .dropped hremoved queues.identities
    ((GovernedState.sameLedger_removedPending s c index r).trans ledger) guards

/-- The scan terminalizes awaited children only. -/
theorem findCycle_awaited {c : TaskClass} {index : Nat} {witness : CycleWitness} {r : PendingRequest}
    (h : g.findCycle s = some (c, index, witness)) (found : (s.cls c).queue[index]? = some r) :
    r.scope.isAwaitedChild = true := by
  obtain ⟨policy, r', _, hr', _, hassess⟩ := findCycle_spec h
  obtain rfl : r = r' := by
    rw [found] at hr'
    simpa using hr'
  have hwitness := assessScope_cycle hassess
  unfold cycleWitness at hwitness
  split at hwitness
  · rename_i hscope
    have hscope' : r.scope = _ := hscope
    rw [hscope']
    rfl
  · simp at hwitness

theorem TaskScope.isChild_of_awaited {scope : TaskScope} (h : scope.isAwaitedChild = true) :
    scope.isChild = true := by
  cases scope with
  | root => simp [TaskScope.isAwaitedChild] at h
  | child => rfl

/-- Unwinding a permit is an effect of whoever has custody of it. -/
theorem effect_unwind {p : PermitId} {record : PermitRecord} {reason : TerminalReason}
    {effects effects' : TransitionEffects} (found : s.permits[p]? = some record)
    (ends : record.phase = .dispatchReserved ∨ caller.custody p record.leaseNonce)
    (h : s.unwind p reason effects = some (s', effects')) : Effect g caller s s' := by
  have hqueues := sameQueues_unwind h
  unfold GovernedState.unwind at h
  rw [found] at h
  simp only at h
  split at h
  · simp only [Option.some.injEq, Prod.mk.injEq] at h
    rw [← h.1] at hqueues ⊢
    exact .ended found ends hqueues ⟨fun _ => rfl, rfl, rfl, rfl, rfl, rfl, rfl⟩ rfl
  · simp only [Option.some.injEq, Prod.mk.injEq] at h
    rw [← h.1] at hqueues ⊢
    exact .ended found ends hqueues (.refl _) rfl

/-- Detaching a ticket is an effect on the record it points at. -/
theorem effect_detachTicket {p : PermitId} {record : PermitRecord} (ticket : Ticket)
    (found : s.permits[p]? = some record) : Effect g caller s (Governor.detachTicket s p ticket) := by
  have heq : Governor.detachTicket s p ticket =
      GovernedState.recordTerminalTicket
        { s with permits := s.permits.insert p { record with pendingTicket := none } } ticket
        .claimDeliveryFailed := by
    unfold Governor.detachTicket
    rw [found]
  rw [heq]
  exact .touched found ⟨Or.inr rfl, record.claimWaker, record.ledger.lastTouchedMs, rfl⟩
    ⟨fun _ => rfl, rfl, rfl⟩ ⟨fun _ => rfl, rfl, rfl, rfl, rfl, rfl, rfl⟩ rfl

section Promotes

variable {nowMs : Nat} {grant : GrantRequest} {c : TaskClass} {policy : ClassPolicy} {index : Nat}
  {r head : PendingRequest} {chosen served : GovernedState}

/-- The promoted request leaves its queue. -/
theorem Promotes.removed (h : Promotes g nowMs s s' grant c policy index r head chosen served) :
    Removed s.waiting (served.removeTicket head.ticket).waiting c index head.untagged := by
  have hchosen : chosen.waiting = s.waiting := funext h.chose.queues.waiting_eq
  have hserved : (served.removeTicket head.ticket).waiting = (chosen.removedPending c index head).waiting :=
    funext fun c' => h.serves.queues.waiting_eq c'
  have hremoved := GovernedState.removed_removedPending h.found
  rw [hchosen] at hremoved
  rwa [hserved]

theorem Promotes.ledger (h : Promotes g nowMs s s' grant c policy index r head chosen served) :
    s.SameLedger (served.removeTicket head.ticket) := by
  have hlast : served.SameLedger (served.removeTicket head.ticket) :=
    ⟨fun _ => rfl, rfl, rfl, rfl, rfl, rfl, rfl⟩
  exact h.chose.ledger.trans ((GovernedState.sameLedger_removedPending _ c index head).trans
    (h.serves.ledger.trans hlast))

theorem Promotes.waiting_eq (h : Promotes g nowMs s s' grant c policy index r head chosen served) :
    s'.waiting = (served.removeTicket head.ticket).waiting := by
  rw [h.result]
  exact funext (GovernedState.sameQueues_grant _ _).waiting_eq

/-- A promotion adds the one permit it grants. -/
theorem Promotes.permits (h : Promotes g nowMs s s' grant c policy index r head chosen served) :
    s'.permits = s.permits.insert head.permitId grant.record := by
  rw [h.result, ← h.ledger.permits, h.grants]
  rfl

/-- The ticket of a promoted request names its permit. -/
theorem Promotes.book (h : Promotes g nowMs s s' grant c policy index r head chosen served) :
    s'.book = { s.book with tickets := s.tickets.insert head.ticket (.granted head.permitId) } := by
  have hbook : served.book = s.book := h.serves.tickets.trans h.chose.tickets
  have htickets : served.tickets = s.tickets := congrArg TicketBook.tickets hbook
  have hresult : s'.book =
      { served.book with
        tickets := (served.tickets.erase head.ticket).insert head.ticket (.granted head.permitId) } := by
    rw [h.result, h.grants]
    rfl
  rw [hresult, htickets, hbook, ExtTreeMap.erase_insert_self]

end Promotes

/-- A promotion is one effect of the engine. -/
theorem Promotes.effect {nowMs : Nat} {grant : GrantRequest} {c : TaskClass} {policy : ClassPolicy}
    {index : Nat} {r head : PendingRequest} {chosen served : GovernedState}
    (h : Promotes g nowMs s s' grant c policy index r head chosen served) (hinv : QueueInv g s) :
    Effect g caller s s' := by
  have hfits := h.grantFits hinv
  rw [h.grants] at hfits
  refine .promoted nowMs hfits h.removed ?_ h.ledger ?_ (h.grants ▸ h.result)
  · have hids : (served.removeTicket head.ticket).queuedOperationIdentities =
        removeMember chosen.queuedOperationIdentities head.rootOperationId head.operation :=
      h.serves.queues.identities
    rw [hids, h.chose.queues.identities]
  · exact h.serves.guards.trans h.chose.guards

/-- A committed request is at the back of its queue. -/
theorem pushed_commitPending {tagged : GovernedState} (hres : s.Rescheduled tagged) {policy : ClassPolicy}
    {c : TaskClass} {request : AdmissionRequest} {waker : Option Waker} {ids : Ids} {nowMs : Nat}
    {block : CapacityBlock} {tags : Nat × Nat × Nat} :
    Pushed s.waiting
      (tagged.commitPending (pendingRequest s policy c request waker ids nowMs block tags)).waiting c
      (queuedEntry s policy c request waker ids nowMs block tags) := by
  have hpushed := GovernedState.pushed_enqueue tagged
    (pendingRequest s policy c request waker ids nowMs block tags)
  have hwaiting : (tagged.commitPending
      (pendingRequest s policy c request waker ids nowMs block tags)).waiting =
        (tagged.enqueue (pendingRequest s policy c request waker ids nowMs block tags)).waiting := by
    funext c'
    unfold GovernedState.commitPending
    simp only
    split <;> rfl
  have htagged : tagged.waiting = s.waiting := funext hres.queues.waiting_eq
  have harrived : queuedEntry s policy c request waker ids nowMs block tags =
      (tagged.arrived (pendingRequest s policy c request waker ids nowMs block tags)).untagged := by
    unfold queuedEntry GovernedState.arrived
    rw [hres.queues.order]
  rw [hwaiting, ← htagged, harrived]
  exact hpushed

/-- What each move does to the requests and permits. -/
theorem Move.effect {trend : Trend} (h : Move g caller trend s s') (hinv : QueueInv g s) :
    Effect g caller s s' := by
  cases h with
  | rescheduled h => exact .kept h.queues h.ledger h.guards
  | flagged _ pending =>
    exact .kept ⟨fun _ => rfl, rfl, rfl⟩ ⟨fun _ => rfl, rfl, rfl, rfl, rfl, rfl, rfl⟩ rfl
  | closed => exact .kept ⟨fun _ => rfl, rfl, rfl⟩ ⟨fun _ => rfl, rfl, rfl, rfl, rfl, rfl, rfl⟩ rfl
  | faulted _ what allowed => exact effect_recordAccountingFault what
  | admitted nowMs allowed accepted runnable =>
    exact .admitted nowMs allowed accepted (accepted.grantFits runnable nowMs) rfl
  | @enqueued _ tagged policy c request ids blockers waker nowMs tags allowed accepted blocked room hres
      sound =>
    have hpending : ∀ r : PendingRequest, (tagged.commitPending r).queuedOperationIdentities =
        (tagged.enqueue r).queuedOperationIdentities ∧
        (tagged.enqueue r).SameLedger (tagged.commitPending r) ∧
        (tagged.commitPending r).activeRecursion =
          if r.scope.isChild then insertMember tagged.activeRecursion r.rootOperationId r.targetStage
          else tagged.activeRecursion := by
      intro r
      unfold GovernedState.commitPending
      simp only
      split
      · exact ⟨rfl, ⟨fun _ => rfl, rfl, rfl, rfl, rfl, rfl, rfl⟩, rfl⟩
      · exact ⟨rfl, ⟨fun _ => rfl, rfl, rfl, rfl, rfl, rfl, rfl⟩, rfl⟩
    obtain ⟨hids, hledger, hguards⟩ :=
      hpending (pendingRequest s policy c request waker ids nowMs blockers.primary tags)
    refine .queued waker nowMs tags allowed accepted (pushed_commitPending hres) ?_ ?_ ?_
      (assessScope_sound blocked sound)
    · rw [hids, ← hres.queues.identities]
      rfl
    · exact hres.ledger.trans ((GovernedState.sameLedger_enqueue tagged _).trans hledger)
    · rw [hguards, hres.guards]
      rfl
  | promoted nowMs h =>
    obtain ⟨c, policy, index, r, head, chosen, served, hpromotes⟩ := promoteStep_some h
    exact hpromotes.effect hinv
  | @cycled _ c index witness r held h found first =>
    have hchild := TaskScope.isChild_of_awaited (findCycle_awaited h found)
    have hres := rescheduled_unserved g (s.removedPending c index r) c
    refine effect_dropped found (sameQueues_terminalizeCycle g _ _ _ _) ?_ ?_
    · exact hres.ledger.trans ⟨fun _ => rfl, rfl, rfl, rfl, rfl, rfl, rfl⟩
    · rw [if_pos hchild]
      show removeMember (g.unserved (s.removedPending c index r) c).activeRecursion _ _ = _
      rw [hres.guards]
      rfl
  | @cancelled _ c index r ticket h found same owner =>
    refine effect_dropped found ?_ ?_ ?_
    · refine GovernedState.SameQueues.trans ?_ (sameQueues_vacateOf _ _)
      exact ⟨fun _ => rfl, rfl, rfl⟩
    · refine GovernedState.SameLedger.trans ?_ (sameLedger_vacateOf _ _)
      exact ⟨fun _ => rfl, rfl, rfl, rfl, rfl, rfl, rfl⟩
    · rw [guards_vacateOf]
      rfl
  | lost h missing owner =>
    exact .kept ⟨fun _ => rfl, rfl, rfl⟩ ⟨fun _ => rfl, rfl, rfl, rfl, rfl, rfl, rfl⟩ rfl
  | @faultedHead _ c r found =>
    refine effect_dropped found ?_ ?_ ?_
    · exact (sameQueues_vacateOf _ _).trans ⟨fun _ => rfl, rfl, rfl⟩
    · exact (sameLedger_vacateOf _ _).trans ⟨fun _ => rfl, rfl, rfl, rfl, rfl, rfl, rfl⟩
    · show ((s.removedPending c 0 r).vacateOf r).activeRecursion = _
      rw [guards_vacateOf]
      rfl
  | unwound found ends h => exact effect_unwind found ends h
  | @claimBegun _ ticket p record nowMs h found owner =>
    have hsimilar : Touched record (Governor.claimedRecord record nowMs) := ⟨Or.inl rfl, none, _, rfl⟩
    exact .touched found hsimilar ⟨fun _ => rfl, rfl, rfl⟩ ⟨fun _ => rfl, rfl, rfl, rfl, rfl, rfl, rfl⟩ rfl
  | @transferred _ ticket p record nowMs h found owner =>
    exact .touched found ⟨Or.inr rfl, _, _, rfl⟩ ⟨fun _ => rfl, rfl, rfl⟩
      ⟨fun _ => rfl, rfl, rfl, rfl, rfl, rfl, rfl⟩ rfl
  | detached h found leased => exact effect_detachTicket _ found
  | expired h gone => exact effect_tickets
  | orphaned h gone owner =>
    exact .kept ⟨fun _ => rfl, rfl, rfl⟩ ⟨fun _ => rfl, rfl, rfl, rfl, rfl, rfl, rfl⟩ rfl
  | forgot _ ticket owner => exact effect_tickets
  | advanced nonces found later => exact .advanced nonces found later rfl
  | recharged allowed found change => exact .recharged allowed found change rfl

/-! ## What a change of memory leaves alone -/

/-- Only memory totals moved, and the fault flag was possibly set. -/
structure MemoryOnly (s s' : GovernedState) : Prop where
  permits : s'.permits = s.permits
  cpu : s'.cpuUnitsHeld = s.cpuUnitsHeld
  pools : s'.capabilityInUse = s.capabilityInUse
  operations : s'.operationPermits = s.operationPermits
  guards : s'.activeRecursion = s.activeRecursion
  tickets : s'.book = s.book
  closed : s'.admissionClosed = s.admissionClosed
  pending : s'.promotionPending = s.promotionPending

theorem memoryOnly_recordAccountingFault (s : GovernedState) (what : String) :
    MemoryOnly s (s.recordAccountingFault what) := by
  unfold GovernedState.recordAccountingFault
  split <;> exact ⟨rfl, rfl, rfl, rfl, rfl, rfl, rfl, rfl⟩

/-- Applying a memory delta touches memory totals only. -/
theorem memoryOnly_applyMemoryDelta (s : GovernedState) (c : TaskClass) (root : Option String)
    (delta : Int) : MemoryOnly s (s.applyMemoryDelta c root delta) := by
  have hadjust : ∀ f, MemoryOnly s (s.adjustMemory c root f) :=
    fun f => ⟨rfl, rfl, rfl, rfl, rfl, rfl, rfl, rfl⟩
  unfold GovernedState.applyMemoryDelta
  split
  · exact hadjust _
  · have h := hadjust (GovernedState.lowered delta.natAbs)
    simp only
    split
    · have hf := memoryOnly_recordAccountingFault
        (s.adjustMemory c root (GovernedState.lowered delta.natAbs))
        "memory release exceeds the units a ledger holds"
      exact ⟨hf.permits.trans h.permits, hf.cpu.trans h.cpu, hf.pools.trans h.pools,
        hf.operations.trans h.operations, hf.guards.trans h.guards, hf.tickets.trans h.tickets,
        hf.closed.trans h.closed, hf.pending.trans h.pending⟩
    · exact h

/-- A recharge writes the permit's ledger, the memory totals and at most the fault flag. -/
theorem memoryOnly_rechargePermit (s : GovernedState) (p : PermitId) (record : PermitRecord)
    (ledger : PermitLedger) :
    MemoryOnly { s with permits := s.permits.insert p { record with ledger := ledger } }
      (s.rechargePermit p record ledger) := memoryOnly_applyMemoryDelta _ _ _ _

end Taskmesh
