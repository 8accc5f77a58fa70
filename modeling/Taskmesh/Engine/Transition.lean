import Taskmesh.Engine.State

/-!
# Governed state transitions

The transitions of `engine/state/transition.rs`: queue mutation, grant, phase advance, custody-fenced
release, unwinding, and the bounded record of terminal tickets. Every other feature of the engine
changes permits, queues and tickets only through these.
-/

namespace Taskmesh

open Std MachineInt SetIndex

/-- The record a grant stores. -/
def GrantRequest.record (r : GrantRequest) : PermitRecord where
  permitId := r.permitId
  taskClass := r.taskClass
  operation := r.operation
  rootOperationId := r.rootOperationId
  scope := r.scope
  parentPermitId := r.parentPermitId
  targetStage := r.targetStage
  provenance := r.provenance
  capabilities := r.capabilities
  phase := .dispatchReserved
  leaseNonce := none
  pendingTicket := r.pendingTicket
  claimWaker := r.claimWaker
  ledger :=
    { cpuUnits := r.cost.cpuUnits
      originalEstimateUnits := r.reservedUnits
      remainingReservationUnits := r.reservedUnits
      measuredBytes := 0
      measurementSequence := 0
      stageSequence := 0
      effectiveUnits := r.cost.memoryUnits
      leasedAtMs := r.nowMs
      lastTouchedMs := r.nowMs }

/-! ## Terminal tickets -/

/-- The ticket index together with the retention order of its terminal records. -/
structure TicketBook where
  tickets : BTreeMap Ticket TicketState
  terminalOrder : BTreeMap Nat Ticket
  terminalIndex : BTreeMap Ticket Nat
  terminalSeq : Nat

namespace TicketBook

def isTerminal : Option TicketState → Bool
  | some (.terminal _) => true
  | _ => false

def isFinal : Option TicketState → Bool
  | some (.terminal _) => true
  | some .faulted => true
  | _ => false

/-- Drop the record with the smallest retention sequence. -/
def evictOldest (b : TicketBook) : TicketBook :=
  match b.terminalOrder.toList.head? with
  | none => b
  | some (oldestSeq, oldest) =>
    { b with
      terminalOrder := b.terminalOrder.erase oldestSeq
      terminalIndex := b.terminalIndex.erase oldest
      tickets := if isTerminal b.tickets[oldest]? then b.tickets.erase oldest else b.tickets }

/-- The eviction loop; each round drops one record, so the number of records bounds it. -/
def evict : Nat → TicketBook → TicketBook
  | 0, b => b
  | fuel + 1, b => if b.terminalOrder.size > maxTerminalTickets then evict fuel b.evictOldest else b

/-- Record a terminal outcome, evicting the oldest retained outcome past the bound. -/
def recordTerminal (b : TicketBook) (ticket : Ticket) (reason : TerminalReason) : TicketBook :=
  let cleared :=
    match b.terminalIndex[ticket]? with
    | some previous => b.terminalOrder.erase previous
    | none => b.terminalOrder
  let recorded : TicketBook :=
    { tickets := b.tickets.insert ticket (.terminal reason)
      terminalOrder := cleared.insert b.terminalSeq ticket
      terminalIndex := (b.terminalIndex.erase ticket).insert ticket b.terminalSeq
      terminalSeq := wrappingAdd u64Max b.terminalSeq 1 }
  evict recorded.terminalOrder.size recorded

/-- Drop a retained terminal record once it has been observed. -/
def forgetTerminal (b : TicketBook) (ticket : Ticket) : TicketBook where
  tickets := if isFinal b.tickets[ticket]? then b.tickets.erase ticket else b.tickets
  terminalOrder :=
    match b.terminalIndex[ticket]? with
    | some seq => b.terminalOrder.erase seq
    | none => b.terminalOrder
  terminalIndex := b.terminalIndex.erase ticket
  terminalSeq := b.terminalSeq

end TicketBook

namespace GovernedState

def book (s : GovernedState) : TicketBook :=
  ⟨s.tickets, s.terminalOrder, s.terminalIndex, s.terminalSeq⟩

def withBook (s : GovernedState) (b : TicketBook) : GovernedState :=
  { s with
    tickets := b.tickets
    terminalOrder := b.terminalOrder
    terminalIndex := b.terminalIndex
    terminalSeq := b.terminalSeq }

def recordTerminalTicket (s : GovernedState) (ticket : Ticket) (reason : TerminalReason) :
    GovernedState :=
  s.withBook (s.book.recordTerminal ticket reason)

def forgetTerminalTicket (s : GovernedState) (ticket : Ticket) : GovernedState :=
  s.withBook (s.book.forgetTerminal ticket)

def setTicket (s : GovernedState) (ticket : Ticket) (state : TicketState) : GovernedState :=
  { s with tickets := s.tickets.insert ticket state }

def removeTicket (s : GovernedState) (ticket : Ticket) : GovernedState :=
  { s with tickets := s.tickets.erase ticket }

/-! ## Time, identity and lineage -/

/-- Clamp a clock sample to the monotonic commit watermark and advance it. -/
def commitTime (s : GovernedState) (sampledMs : Nat) : GovernedState :=
  { s with commitWatermarkMs := max sampledMs s.commitWatermarkMs }

def permitsForOperation (s : GovernedState) (rootOperationId operation : String) : Option PermitId :=
  s.operationPermits[rootOperationId]?.bind fun operations => operations.get rootOperationId operation

/-- Resolve the currently live parent generation named by a child scope. -/
def parentPermitForScope (s : GovernedState) (rootOperationId : String) : TaskScope → Option PermitId
  | .root => none
  | .child parentOperationId _ _ => s.permitsForOperation rootOperationId parentOperationId

def hasOperationIdentity (s : GovernedState) (rootOperationId operation : String) : Bool :=
  (s.permitsForOperation rootOperationId operation).isSome ||
    s.queuedOperationIdentities[rootOperationId]?.any fun operations => operations.contains operation

/-- Mark `(root, stage)` as occupied by a child (queued or granted). -/
def occupyRecursionGuard (s : GovernedState) (rootOperationId : String) (stage : TaskStage) :
    GovernedState :=
  { s with activeRecursion := insertMember s.activeRecursion rootOperationId stage }

/-- Release `(root, stage)`; the root's entry disappears with its last stage. -/
def vacateRecursionGuard (s : GovernedState) (rootOperationId : String) (stage : TaskStage) :
    GovernedState :=
  { s with activeRecursion := removeMember s.activeRecursion rootOperationId stage }

/-! ## Queue mutation -/

/-- Append a request to its class queue, assigning its arrival under the lock. -/
def enqueue (s : GovernedState) (r : PendingRequest) : GovernedState :=
  let order := s.nextQueueOrder + 1
  let r := { r with queueOrder := order }
  { s with
    nextQueueOrder := order
    queuedOperationIdentities :=
      insertMember s.queuedOperationIdentities r.rootOperationId r.operation
    classes :=
      s.classes.insert r.taskClass
        (let c := (s.cls r.taskClass).indexPending r
         { c with queue := c.queue ++ [r] }) }

/-- Remove the request at `index` from a class queue, with its index entries. -/
def removePending (s : GovernedState) (c : TaskClass) (index : Nat) :
    Option (GovernedState × PendingRequest) :=
  match s.classes[c]? with
  | none => none
  | some cstate =>
    match cstate.queue[index]? with
    | none => none
    | some r =>
      some
        ({ s with
            classes :=
              s.classes.insert c
                ({ cstate with queue := cstate.queue.eraseIdx index }.unindexPending r)
            queuedOperationIdentities :=
              removeMember s.queuedOperationIdentities r.rootOperationId r.operation },
          r)

/-! ## Grant -/

/-- The class half of a grant. -/
def chargeClass (cost : ResolvedCost) (c : ClassState) : ClassState :=
  { c with
    inflight := wrappingAdd u32Max c.inflight 1
    cpuUnitsHeld := c.cpuUnitsHeld + cost.cpuUnits
    memoryUnitsHeld := c.memoryUnitsHeld + cost.memoryUnits
    admittedTotal := c.admittedTotal + 1 }.enterPhase .dispatchReserved

/-- Charge one slot of every listed pool. -/
def occupyPools (ids : List CapabilityId) (m : BTreeMap CapabilityId Nat) : BTreeMap CapabilityId Nat :=
  ids.foldl (fun m id => m.insert id (saturatingAdd u32Max (m[id]?.getD 0) 1)) m

/-- The root half of a child's grant. -/
def attributeRoot (cost : ResolvedCost) (stage : TaskStage) (root : RootExecutionState) :
    RootExecutionState where
  childInflight := wrappingAdd u32Max root.childInflight 1
  cpuUnits := root.cpuUnits + cost.cpuUnits
  memoryUnits := root.memoryUnits + cost.memoryUnits
  activeStages := root.activeStages.insert stage

/-- Commit a granted permit: class, global and pool charges, the identity index, and, for a child,
the root attribution and the recursion guard. -/
def grant (s : GovernedState) (r : GrantRequest) : GovernedState :=
  { s with
    classes := s.classes.insert r.taskClass (chargeClass r.cost (s.cls r.taskClass))
    cpuUnitsHeld := s.cpuUnitsHeld + r.cost.cpuUnits
    memoryUnitsHeld := s.memoryUnitsHeld + r.cost.memoryUnits
    capabilityInUse := occupyPools r.capabilities.ids s.capabilityInUse
    operationPermits :=
      s.operationPermits.insert r.rootOperationId
        ((s.operationPermits[r.rootOperationId]?.getD {}).insert r.rootOperationId r.operation
          r.permitId)
    -- A root never occupies `(root, stage)` itself: its own first child targets that stage.
    roots :=
      if r.scope.isChild then
        s.roots.insert r.rootOperationId
          (attributeRoot r.cost r.targetStage (s.roots[r.rootOperationId]?.getD {}))
      else s.roots
    activeRecursion :=
      if r.scope.isChild then insertMember s.activeRecursion r.rootOperationId r.targetStage
      else s.activeRecursion
    tickets :=
      match r.pendingTicket with
      | some ticket => s.tickets.insert ticket (.granted r.permitId)
      | none => s.tickets
    permits := s.permits.insert r.permitId r.record }

/-! ## Phase advance -/

/-- The class half of a phase advance. -/
def advanceClass (previous phase : ExecutionPhase) (c : ClassState) : ClassState :=
  let c := (c.leavePhase previous).enterPhase phase
  if !previous.hasStarted && phase.hasStarted then { c with startedTotal := c.startedTotal + 1 } else c

/-- Advance a permit's ownership phase. The move out of `dispatchReserved` mints the permit's lease
from `nonces`, the process-wide counter, whose new value is returned. -/
def advancePhase (s : GovernedState) (permitId : PermitId) (phase : ExecutionPhase) (nonces : Nat) :
    GovernedState × AdvanceOutcome × Nat :=
  match s.permits[permitId]? with
  | none => (s, .refused .unknownPermit, nonces)
  | some record =>
    if phase.rank ≤ record.phase.rank then (s, .refused (.notLater record.phase), nonces)
    else
      let leased : PermitRecord :=
        { record with phase := phase, leaseNonce := some (record.leaseNonce.getD nonces) }
      let s : GovernedState :=
        { s with
          permits := s.permits.insert permitId leased
          classes :=
            s.classes.insert record.taskClass
              (advanceClass record.phase phase (s.cls record.taskClass)) }
      if record.leaseNonce.isNone then
        (s, .leased ⟨permitId, nonces⟩, wrappingAdd u64Max nonces 1)
      else (s, .advanced, nonces)

/-! ## Unwinding -/

/-- The class half of an unwind. -/
def dischargeClass (record : PermitRecord) (c : ClassState) : ClassState :=
  let c :=
    { c with
      inflight := c.inflight - 1
      cpuUnitsHeld := c.cpuUnitsHeld - record.ledger.cpuUnits
      memoryUnitsHeld := c.memoryUnitsHeld - record.ledger.effectiveUnits }.leavePhase record.phase
  { c with terminatedTotal := c.terminatedTotal + 1 }

/-- Return one slot of one pool; the entry disappears with its last slot. -/
def vacatePool (m : BTreeMap CapabilityId Nat) (id : CapabilityId) : BTreeMap CapabilityId Nat :=
  match m[id]? with
  | none => m
  | some slot => if slot - 1 = 0 then m.erase id else m.insert id (slot - 1)

def vacatePools (ids : List CapabilityId) (m : BTreeMap CapabilityId Nat) : BTreeMap CapabilityId Nat :=
  ids.foldl vacatePool m

/-- The root half of a child's unwind; the entry disappears with its last child. -/
def unattributeRoot (record : PermitRecord) (m : BTreeMap String RootExecutionState) :
    BTreeMap String RootExecutionState :=
  match m[record.rootOperationId]? with
  | none => m
  | some root =>
    let root : RootExecutionState :=
      { childInflight := root.childInflight - 1
        cpuUnits := root.cpuUnits - record.ledger.cpuUnits
        memoryUnits := root.memoryUnits - record.ledger.effectiveUnits
        activeStages := root.activeStages.erase record.targetStage }
    if root.childInflight = 0 then m.erase record.rootOperationId
    else m.insert record.rootOperationId root

/-- Remove a permit from the operation identity index. -/
def removeOperation (record : PermitRecord) (m : BTreeMap String RootOperationPermits) :
    BTreeMap String RootOperationPermits :=
  match m[record.rootOperationId]? with
  | none => m
  | some operations =>
    let operations := operations.remove record.rootOperationId record.operation
    if operations.isEmpty then m.erase record.rootOperationId
    else m.insert record.rootOperationId operations

/-- Return every charge of `record` and remove it. -/
def discharge (s : GovernedState) (permitId : PermitId) (record : PermitRecord) : GovernedState :=
  { s with
    permits := s.permits.erase permitId
    classes := s.classes.modify record.taskClass (dischargeClass record)
    cpuUnitsHeld := s.cpuUnitsHeld - record.ledger.cpuUnits
    memoryUnitsHeld := s.memoryUnitsHeld - record.ledger.effectiveUnits
    capabilityInUse := vacatePools record.capabilities.ids s.capabilityInUse
    operationPermits := removeOperation record s.operationPermits
    roots := if record.scope.isChild then unattributeRoot record s.roots else s.roots
    activeRecursion :=
      if record.scope.isChild then
        removeMember s.activeRecursion record.rootOperationId record.targetStage
      else s.activeRecursion }

/-- Unwind a permit fully, including the ticket that granted it. Host references the record still
owns leave through `effects`. -/
def unwind (s : GovernedState) (permitId : PermitId) (reason : TerminalReason)
    (effects : TransitionEffects) : Option (GovernedState × TransitionEffects) :=
  match s.permits[permitId]? with
  | none => none
  | some record =>
    let s := s.discharge permitId record
    match record.pendingTicket with
    -- A waiter is still owed an answer: record why, and notify it.
    | some ticket => some (s.recordTerminalTicket ticket reason, effects.pushWake record.claimWaker)
    -- Already claimed: nobody to tell, but the reference still has to be destroyed outside the lock.
    | none => some (s, effects.pushRetire record.claimWaker)

/-- Unwind a permit if, and only if, `proof` is its custody. -/
def releaseWithProofReason (s : GovernedState) (permitId : PermitId) (proof : Option Nat)
    (reason : TerminalReason) (effects : TransitionEffects) :
    GovernedState × TransitionEffects × ReleaseOutcome :=
  match s.permits[permitId]? with
  | none => (s, effects, .unknownPermit)
  | some record =>
    if record.leaseNonce ≠ proof then (s, effects, .heldByLease record.phase)
    else
      match s.unwind permitId reason effects with
      | some (s, effects) => (s, effects, .released)
      | none => (s, effects, .unknownPermit)

/-- Flag an unrepresentable accounting result; the condition is sticky. -/
def recordAccountingFault (s : GovernedState) (what : String) : GovernedState :=
  if s.accountingFault.isNone then { s with accountingFault := some what } else s

/-- Stop admitting. One-way, idempotent. -/
def closeAdmission (s : GovernedState) : GovernedState := { s with admissionClosed := true }

end GovernedState

end Taskmesh
