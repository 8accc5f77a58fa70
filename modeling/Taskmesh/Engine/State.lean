import Taskmesh.Engine.Shared

/-!
# The governed state

The mutable state behind the governor's mutex (`engine/state.rs`). Aggregates of the source type
`u128` and identities of type `u64` are naturals; the `u32` gauges are naturals whose updates say
whether they wrap or saturate.
-/

namespace Taskmesh

open Std MachineInt SetIndex

/-- How many ordinary terminal ticket outcomes are retained for late claimers. -/
def maxTerminalTickets : Nat := 4096

/-- Which limit, if any, blocks an admission. -/
inductive CapacityBlock where
  | ok | inflight | capability | cpu | memory | queuedBehind | accountingFault
  deriving DecidableEq

/-- A request waiting in a class queue for capacity. -/
structure PendingRequest where
  /-- Permit identity reserved at intake; promotion consumes this exact identity. -/
  permitId : PermitId
  ticket : Ticket
  seqNo : Nat
  /-- Physical queue arrival, assigned under the state lock. -/
  queueOrder : Nat
  taskClass : TaskClass
  requestKey : String
  operation : String
  rootOperationId : String
  scope : TaskScope
  /-- Exact live parent generation observed at enqueue. -/
  parentPermitId : Option PermitId
  targetStage : TaskStage
  provenance : Provenance
  cost : ResolvedCost
  /-- The pools this request must occupy to run, frozen at intake. -/
  capabilities : CapabilityRequirementSet
  enqueuedAtMs : Nat
  deadlineMs : Nat
  finishTag : Nat
  wfqArrivalTag : Nat
  blockedOn : CapacityBlock
  waker : Option Waker

/-- Per-class admission state and queue. -/
structure ClassState where
  inflight : Nat := 0
  queue : List PendingRequest := []
  /-- Arrival index for same-domain FIFO without rescanning queue prefixes. -/
  queuedByCapability : BTreeMap CapabilityId (BTreeSet Nat) := ∅
  queuedUngated : BTreeSet Nat := ∅
  queuedAwaitedChildren : BTreeSet Nat := ∅
  lastFinishTag : Nat := 0
  lastServedFinishTag : Nat := 0
  deficit : Nat := 0
  cpuUnitsHeld : Nat := 0
  memoryUnitsHeld : Nat := 0
  dispatchReserved : Nat := 0
  accepted : Nat := 0
  running : Nat := 0
  cleanupPending : Nat := 0
  admittedTotal : Nat := 0
  startedTotal : Nat := 0
  terminatedTotal : Nat := 0

instance : Inhabited ClassState := ⟨{}⟩

namespace ClassState

/-- Queue length clamped to `u32`. -/
def queued (c : ClassState) : Nat := min c.queue.length u32Max

def indexPending (c : ClassState) (r : PendingRequest) : ClassState :=
  let c :=
    if r.scope.isAwaitedChild then
      { c with queuedAwaitedChildren := c.queuedAwaitedChildren.insert r.seqNo }
    else c
  if r.capabilities.isEmpty then { c with queuedUngated := c.queuedUngated.insert r.queueOrder }
  else
    { c with
      queuedByCapability :=
        r.capabilities.ids.foldl (fun m id => insertMember m id r.queueOrder) c.queuedByCapability }

def unindexPending (c : ClassState) (r : PendingRequest) : ClassState :=
  let c :=
    if r.scope.isAwaitedChild then
      { c with queuedAwaitedChildren := c.queuedAwaitedChildren.erase r.seqNo }
    else c
  if r.capabilities.isEmpty then { c with queuedUngated := c.queuedUngated.erase r.queueOrder }
  else
    { c with
      queuedByCapability :=
        r.capabilities.ids.foldl (fun m id => removeMember m id r.queueOrder) c.queuedByCapability }

/-- The earliest arrival of a set is earlier than `order`. -/
def firstBefore (arrivals : BTreeSet Nat) (order : Nat) : Bool :=
  arrivals.toList.head?.any fun first => decide (first < order)

def hasQueuedPredecessor (c : ClassState) (r : PendingRequest) : Bool :=
  if r.capabilities.isEmpty then firstBefore c.queuedUngated r.queueOrder
  else r.capabilities.ids.any fun id => c.queuedByCapability[id]?.any (firstBefore · r.queueOrder)

def hasQueuedDomain (c : ClassState) (capabilities : CapabilityRequirementSet) : Bool :=
  if capabilities.isEmpty then !c.queuedUngated.isEmpty
  else capabilities.ids.any fun id => c.queuedByCapability[id]?.any fun arrivals => !arrivals.isEmpty

/-- The gauge of one phase. -/
def phaseSlot (c : ClassState) : ExecutionPhase → Nat
  | .dispatchReserved => c.dispatchReserved
  | .accepted => c.accepted
  | .running => c.running
  | .cleanupPending => c.cleanupPending

def setPhaseSlot (c : ClassState) (phase : ExecutionPhase) (value : Nat) : ClassState :=
  match phase with
  | .dispatchReserved => { c with dispatchReserved := value }
  | .accepted => { c with accepted := value }
  | .running => { c with running := value }
  | .cleanupPending => { c with cleanupPending := value }

def enterPhase (c : ClassState) (phase : ExecutionPhase) : ClassState :=
  c.setPhaseSlot phase (saturatingAdd u32Max (c.phaseSlot phase) 1)

def leavePhase (c : ClassState) (phase : ExecutionPhase) : ClassState :=
  c.setPhaseSlot phase (c.phaseSlot phase - 1)

end ClassState

/-- Memory/CPU ledger for one outstanding permit. -/
structure PermitLedger where
  cpuUnits : Nat
  /-- What the class policy reserved; never changes. -/
  originalEstimateUnits : Nat
  /-- The part of that estimate still held; never grows. -/
  remainingReservationUnits : Nat
  measuredBytes : Nat
  measurementSequence : Nat
  stageSequence : Nat
  /-- What the ledger currently charges. -/
  effectiveUnits : Nat
  leasedAtMs : Nat
  lastTouchedMs : Nat

/-- A granted permit and everything needed to unwind it on release. -/
structure PermitRecord where
  permitId : PermitId
  taskClass : TaskClass
  operation : String
  rootOperationId : String
  scope : TaskScope
  /-- Exact parent generation observed when this permit was granted. -/
  parentPermitId : Option PermitId
  targetStage : TaskStage
  provenance : Provenance
  capabilities : CapabilityRequirementSet
  phase : ExecutionPhase
  /-- The custody proof minted when the permit left `dispatchReserved`. -/
  leaseNonce : Option Nat
  /-- The queued ticket this permit was promoted for, until it is claimed. -/
  pendingTicket : Option Ticket
  claimWaker : Option Waker
  ledger : PermitLedger

/-- Aggregated accounting for one root operation and its children. -/
structure RootExecutionState where
  childInflight : Nat := 0
  cpuUnits : Nat := 0
  memoryUnits : Nat := 0
  activeStages : BTreeSet TaskStage := ∅

instance : Inhabited RootExecutionState := ⟨{}⟩

/-- Engine-owned reason a queued acquisition ended without custody transfer. -/
inductive TerminalReason where
  | reclaimed
  | released
  | abandoned
  | claimDeliveryFailed
  | irreversibleWaitCycle (heldByParent : HeldCapacity)
  | accountingFault
  deriving DecidableEq

/-- Lifecycle position of a ticket. -/
inductive TicketState where
  | queued (taskClass : TaskClass)
  | granted (permitId : PermitId)
  | claiming (permitId : PermitId)
  | terminal (reason : TerminalReason)
  | faulted
  deriving DecidableEq

/-- The result of claiming a ticket. -/
inductive ClaimOutcome where
  | ready (permitId : PermitId)
  | pending
  | terminal (reason : TerminalReason)
  | invalid
  deriving DecidableEq

/-- Result of abandoning a queued or promoted ticket. -/
inductive AbandonOutcome where
  | abandoned
  | terminalDiscarded
  | invalid
  | heldByLease (phase : ExecutionPhase)
  deriving DecidableEq

/-- The result of releasing a permit. -/
inductive ReleaseOutcome where
  | released
  | unknownPermit
  | heldByLease (phase : ExecutionPhase)
  deriving DecidableEq

/-- Proof of custody over a dispatched permit. -/
structure LeaseToken where
  permitId : PermitId
  nonce : Nat
  deriving DecidableEq

/-- Why a phase declaration did not advance a permit. -/
inductive AdvanceRefusal where
  | unknownPermit
  | notLater (current : ExecutionPhase)
  deriving DecidableEq

/-- The result of declaring an ownership phase for a live permit. -/
inductive AdvanceOutcome where
  | leased (token : LeaseToken)
  | advanced
  | refused (refusal : AdvanceRefusal)
  deriving DecidableEq

/-- Host-owned values a transition produced that must not be touched under the mutex. -/
structure TransitionEffects where
  wake : List Waker := []
  retire : List Waker := []
  /-- Runnable work remained when the promotion budget ran out. -/
  moreRunnable : Bool := false
  deriving DecidableEq

def TransitionEffects.absorb (effects other : TransitionEffects) : TransitionEffects where
  wake := effects.wake ++ other.wake
  retire := effects.retire ++ other.retire
  moreRunnable := effects.moreRunnable || other.moreRunnable

def TransitionEffects.pushWake (effects : TransitionEffects) (waker : Option Waker) :
    TransitionEffects :=
  { effects with wake := effects.wake ++ waker.toList }

def TransitionEffects.pushRetire (effects : TransitionEffects) (waker : Option Waker) :
    TransitionEffects :=
  { effects with retire := effects.retire ++ waker.toList }

/-- Everything one grant needs. -/
structure GrantRequest where
  permitId : PermitId
  taskClass : TaskClass
  operation : String
  rootOperationId : String
  scope : TaskScope
  parentPermitId : Option PermitId
  targetStage : TaskStage
  provenance : Provenance
  capabilities : CapabilityRequirementSet
  cost : ResolvedCost
  reservedUnits : Nat
  nowMs : Nat
  pendingTicket : Option Ticket
  claimWaker : Option Waker

/-- The permits of one root, by operation. The root operation is stored inline. -/
structure RootOperationPermits where
  root : Option PermitId := none
  descendants : BTreeMap String PermitId := ∅

namespace RootOperationPermits

def get (o : RootOperationPermits) (rootOperationId operation : String) : Option PermitId :=
  if operation = rootOperationId then o.root else o.descendants[operation]?

def insert (o : RootOperationPermits) (rootOperationId operation : String) (permitId : PermitId) :
    RootOperationPermits :=
  if operation = rootOperationId then { o with root := some permitId }
  else { o with descendants := o.descendants.insert operation permitId }

def remove (o : RootOperationPermits) (rootOperationId operation : String) : RootOperationPermits :=
  if operation = rootOperationId then { o with root := none }
  else { o with descendants := o.descendants.erase operation }

def isEmpty (o : RootOperationPermits) : Bool := o.root.isNone && o.descendants.isEmpty

end RootOperationPermits

/-- The full governed state. One instance lives behind the governor's mutex. -/
structure GovernedState where
  classes : BTreeMap TaskClass ClassState := ∅
  permits : BTreeMap PermitId PermitRecord := ∅
  operationPermits : BTreeMap String RootOperationPermits := ∅
  queuedOperationIdentities : BTreeMap String (BTreeSet String) := ∅
  nextQueueOrder : Nat := 0
  roots : BTreeMap String RootExecutionState := ∅
  /-- The `(root, stage)` pairs a child currently occupies, queued or granted. -/
  activeRecursion : BTreeMap String (BTreeSet TaskStage) := ∅
  tickets : BTreeMap Ticket TicketState := ∅
  /-- Retained terminal tickets in retention order, and the reverse index. -/
  terminalOrder : BTreeMap Nat Ticket := ∅
  terminalIndex : BTreeMap Ticket Nat := ∅
  terminalSeq : Nat := 0
  cpuUnitsHeld : Nat := 0
  memoryUnitsHeld : Nat := 0
  capabilityInUse : BTreeMap CapabilityId Nat := ∅
  virtualTime : Nat := 0
  drrCursor : Option TaskClass := none
  commitWatermarkMs : Nat := 0
  accountingFault : Option String := none
  admissionClosed : Bool := false
  promotionPending : Bool := false
  drrRingVisits : Nat := 0

namespace GovernedState

/-- The class state, read with the default of a class that was never touched. -/
def cls (s : GovernedState) (c : TaskClass) : ClassState := s.classes[c]?.getD default

/-- `class_mut`: update a class entry, creating it when absent. -/
def modifyClass (s : GovernedState) (c : TaskClass) (f : ClassState → ClassState) : GovernedState :=
  { s with classes := s.classes.insert c (f (s.cls c)) }

def inflight (s : GovernedState) (c : TaskClass) : Nat := (s.cls c).inflight

def queued (s : GovernedState) (c : TaskClass) : Nat := (s.cls c).queued

/-- Live occupancy of one pool. -/
def inUse (s : GovernedState) (id : CapabilityId) : Nat := s.capabilityInUse[id]?.getD 0

@[simp] theorem cls_modifyClass (s : GovernedState) (c c' : TaskClass) (f : ClassState → ClassState) :
    (s.modifyClass c f).cls c' = if c = c' then f (s.cls c) else s.cls c' := by
  simp only [cls, modifyClass, ExtTreeMap.getElem?_insert]
  by_cases h : c = c'
  · subst h; simp
  · simp [h]

end GovernedState

end Taskmesh
