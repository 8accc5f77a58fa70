import Taskmesh.Engine.Validation

/-!
# The governor

Every locked section of the governor's public operations (`engine/governor.rs`,
`engine/governor/memory_governance.rs`, `engine/governor/observation.rs`), as a function of the
governed state. Clock samples are taken before the lock and clamped to the watermark inside it; host
references leave a section through its effects.
-/

namespace Taskmesh

open Std MachineInt

/-- Permits granted in one promotion pass before the lock is released. -/
def promotionBudget : Nat := 64

/-- A governor exists only for a policy that passed validation. -/
structure Governor where
  authority : Nat
  policy : PolicySet
  valid : validatePolicy policy = .ok ()

namespace Governor

variable (g : Governor)

/-- Re-derive a class's tags after a request left its queue without service. A queued class belongs
to the policy; the source panics otherwise. -/
def unserved (s : GovernedState) (c : TaskClass) : GovernedState :=
  match g.policy.classPolicy c with
  | some policy => onUnservedRemoved s c policy
  | none => s

/-- Record the service of a selected request, under the same proviso. -/
def served (s : GovernedState) (selection : Selection) : GovernedState :=
  match g.policy.classPolicy selection.taskClass with
  | some policy =>
    onRequestServed s selection.taskClass policy selection.queueIndex selection.serviceFinishTag
  | none => s

/-! ## Wait cycles -/

/-- The first queued awaited child of a class whose wait only its ancestors could end. -/
def cycleIn (s : GovernedState) (c : TaskClass) (cs : ClassState) : Option (Nat × CycleWitness) :=
  if cs.queuedAwaitedChildren.isEmpty then none
  else
    match g.policy.classPolicy c with
    | none => none
    | some policy =>
      cs.queue.zipIdx.findSome? fun (r, index) =>
        if r.seqNo ∈ cs.queuedAwaitedChildren then
          match assessPending s g.policy r policy.maxInflight.toNat false with
          | .irreversibleWaitCycle witness => some (index, witness)
          | _ => none
        else none

def findCycle (s : GovernedState) : Option (TaskClass × Nat × CycleWitness) :=
  s.classes.toList.findSome? fun (c, cs) => (g.cycleIn s c cs).map fun (index, witness) => (c, index, witness)

/-- The result of one cycle scan. -/
structure CycleScan where
  state : GovernedState
  effects : TransitionEffects
  removed : Bool

/-- End the ticket of a queued request that can never run, and take it out of its queue. -/
def terminalizeCycle (s : GovernedState) (c : TaskClass) (r : PendingRequest) (held : HeldCapacity) :
    GovernedState :=
  ((g.unserved s c).vacateRecursionGuard r.rootOperationId r.targetStage).recordTerminalTicket r.ticket
    (.irreversibleWaitCycle held)

/-- Terminalize the first wait cycle, if there is one. -/
def terminalizeWaitCycle (s : GovernedState) (effects : TransitionEffects) : CycleScan :=
  match g.findCycle s with
  | none => ⟨s, effects, false⟩
  | some (c, index, witness) =>
    match s.removePending c index, witness.held with
    | some (removed, r), held :: _ =>
      ⟨g.terminalizeCycle removed c r held, effects.pushWake r.waker, true⟩
    -- The scan found the request in this queue, and a witness always names held capacity.
    | _, _ => ⟨s, effects, false⟩

/-! ## Promotion -/

/-- The grant of a promoted request: its identity and requirements are those frozen at intake. -/
def promotedGrant (s : GovernedState) (c : TaskClass) (head : PendingRequest) (nowMs : Nat) :
    GrantRequest where
  permitId := head.permitId
  taskClass := c
  operation := head.operation
  rootOperationId := head.rootOperationId
  scope := head.scope
  parentPermitId := head.parentPermitId <|> s.parentPermitForScope head.rootOperationId head.scope
  targetStage := head.targetStage
  provenance := head.provenance
  capabilities := head.capabilities
  cost := head.cost
  reservedUnits := head.cost.memoryUnits
  nowMs := nowMs
  pendingTicket := some head.ticket
  claimWaker := head.waker

/-- One round of the grant loop: the request it granted, if any. -/
def promoteStep (nowMs : Nat) (s : GovernedState) : GovernedState × Option GrantRequest :=
  match select s g.policy with
  | (s, none) => (s, none)
  | (s, some selection) =>
    match s.removePending selection.taskClass selection.queueIndex with
    | none => (s, none)
    | some (s, head) =>
      let s := (g.served s selection).removeTicket head.ticket
      let grant := promotedGrant s selection.taskClass head nowMs
      (s.grant grant, some grant)

/-- What the grant loop of a pass did: `changed` says whether the queues changed so far, `exhausted`
whether it ran out of slots rather than of work. -/
structure GrantPass where
  state : GovernedState
  effects : TransitionEffects
  changed : Bool
  exhausted : Bool

/-- The grant loop. -/
def promoteLoop (nowMs : Nat) : Nat → GovernedState → TransitionEffects → Bool → GrantPass
  | 0, s, effects, changed => ⟨s, effects, changed, true⟩
  | slots + 1, s, effects, changed =>
    match g.promoteStep nowMs s with
    | (s, none) => ⟨s, effects, changed, false⟩
    | (s, some grant) => promoteLoop nowMs slots s (effects.pushWake grant.claimWaker) true

/-- The first cycle scan of a pass and its grants. -/
def grantPass (s : GovernedState) (nowMs : Nat) : GrantPass :=
  let first := g.terminalizeWaitCycle s {}
  g.promoteLoop nowMs promotionBudget first.state first.effects first.removed

/-- One more scan when the pass changed the queues, never one per removal. -/
def lastScan (pass : GrantPass) : CycleScan :=
  if pass.changed then g.terminalizeWaitCycle pass.state pass.effects
  else ⟨pass.state, pass.effects, false⟩

/-- One promotion pass. It records whether a continuation is owed. -/
def promote (s : GovernedState) (nowMs : Nat) : GovernedState × TransitionEffects :=
  let pass := g.grantPass s nowMs
  let last := g.lastScan pass
  let more := last.removed || (pass.exhausted && hasRunnable last.state g.policy)
  ({ last.state with promotionPending := more }, { last.effects with moreRunnable := more })

/-! ## Locked sections -/

/-- A locked section up to its promotion pass, which is always its last action. -/
structure Section (α : Type) where
  state : GovernedState
  effects : TransitionEffects
  outcome : α
  promotes : Bool

/-- The state and effects a section leaves when the lock is released. -/
def commit {α : Type} (sec : Section α) (nowMs : Nat) : GovernedState × TransitionEffects :=
  if sec.promotes then
    let (s, pass) := g.promote sec.state nowMs
    (s, sec.effects.absorb pass)
  else (sec.state, sec.effects)

/-! ### Claim -/

/-- How the first locked section of a claim ends. -/
inductive ClaimStart where
  | answered (outcome : ClaimOutcome)
  | claiming (permitId : PermitId)
  deriving DecidableEq

/-- The record of a permit whose claim has begun: the claimant is alive and its waker is taken. -/
def claimedRecord (record : PermitRecord) (nowMs : Nat) : PermitRecord :=
  { record with
    claimWaker := none
    ledger := { record.ledger with lastTouchedMs := max record.ledger.lastTouchedMs nowMs } }

def beginClaim (s : GovernedState) (ticket : Ticket) (nowMs : Nat) :
    GovernedState × TransitionEffects × ClaimStart :=
  match s.tickets[ticket]? with
  | some (.granted permitId) =>
    match s.permits[permitId]? with
    | none => (s, {}, .answered (.terminal .released))
    | some record =>
      let s := { s with permits := s.permits.insert permitId (claimedRecord record nowMs) }
      (s.setTicket ticket (.claiming permitId), ({} : TransitionEffects).pushRetire record.claimWaker,
        .claiming permitId)
  | some (.queued _) => (s, {}, .answered .pending)
  | some (.claiming _) => (s, {}, .answered .pending)
  | some (.terminal reason) => (s.forgetTerminalTicket ticket, {}, .answered (.terminal reason))
  | some .faulted => (s.forgetTerminalTicket ticket, {}, .answered (.terminal .accountingFault))
  | none => (s, {}, .answered .invalid)

/-- The record of a permit whose custody was transferred to its claimant. -/
def transferredRecord (record : PermitRecord) (nowMs : Nat) : PermitRecord :=
  { record with
    pendingTicket := none
    ledger := { record.ledger with lastTouchedMs := max record.ledger.lastTouchedMs nowMs } }

/-- The second locked section of a claim. -/
def finishClaim (s : GovernedState) (ticket : Ticket) (nowMs : Nat) : GovernedState × ClaimOutcome :=
  match s.tickets[ticket]? with
  | some (.claiming permitId) =>
    match s.permits[permitId]? with
    | none => (s.recordTerminalTicket ticket .released, .terminal .released)
    | some record =>
      let s := { s with permits := s.permits.insert permitId (transferredRecord record nowMs) }
      (s.removeTicket ticket, .ready permitId)
  | some (.terminal reason) => (s.forgetTerminalTicket ticket, .terminal reason)
  | some .faulted => (s.forgetTerminalTicket ticket, .terminal .accountingFault)
  | some (.granted _) => (s, .pending)
  | some (.queued _) => (s, .pending)
  | none => (s, .invalid)

/-- The lifecycle state of a ticket, read without claiming it. -/
def ticketStatus (s : GovernedState) (ticket : Ticket) : ClaimOutcome :=
  match s.tickets[ticket]? with
  | some (.granted permitId) => .ready permitId
  | some (.queued _) => .pending
  | some (.claiming _) => .pending
  | some (.terminal reason) => .terminal reason
  | some .faulted => .terminal .accountingFault
  | none => .invalid

/-- Retire only the ticket of a failed claim: the worker keeps custody of the permit. -/
def detachTicket (s : GovernedState) (permitId : PermitId) (ticket : Ticket) : GovernedState :=
  let s :=
    match s.permits[permitId]? with
    | some record =>
      { s with permits := s.permits.insert permitId { record with pendingTicket := none } }
    | none => s
  s.recordTerminalTicket ticket .claimDeliveryFailed

/-- The compensation section of a claim whose host callback panicked. -/
def compensateClaim (s : GovernedState) (ticket : Ticket) (permitId : PermitId) : Section Unit :=
  match s.tickets[ticket]? with
  | some (.claiming _) =>
    match s.releaseWithProofReason permitId none .claimDeliveryFailed {} with
    | (s, effects, .released) => ⟨s, effects, (), true⟩
    | (s, effects, .heldByLease _) => ⟨detachTicket s permitId ticket, effects, (), false⟩
    | (s, effects, .unknownPermit) => ⟨s.recordTerminalTicket ticket .released, effects, (), false⟩
  | _ => ⟨s, {}, (), false⟩

/-! ### Abandon and release -/

/-- Take a queued request out of its queue for a waiter that gave up. -/
def cancelQueued (s : GovernedState) (c : TaskClass) (ticket : Ticket) :
    GovernedState × TransitionEffects :=
  match (s.cls c).queue.findIdx? fun r => r.ticket = ticket with
  | none => (s.removeTicket ticket, {})
  | some index =>
    match s.removePending c index with
    | none => (s.removeTicket ticket, {})
    | some (s, r) =>
      let s := s.removeTicket ticket
      let s := if r.scope.isChild then s.vacateRecursionGuard r.rootOperationId r.targetStage else s
      (s, ({} : TransitionEffects).pushRetire r.waker)

/-- Give up a promoted permit, unless a worker already leased it. -/
def abandonGranted (s : GovernedState) (ticket : Ticket) (permitId : PermitId) :
    Section AbandonOutcome :=
  match s.releaseWithProofReason permitId none .abandoned {} with
  -- The abandoning waiter asked; it does not need to be told, and it will not claim.
  | (s, effects, .released) => ⟨s.forgetTerminalTicket ticket, effects, .abandoned, true⟩
  | (s, effects, .heldByLease phase) => ⟨s, effects, .heldByLease phase, false⟩
  | (s, effects, .unknownPermit) => ⟨s.removeTicket ticket, effects, .invalid, false⟩

def abandon (s : GovernedState) (ticket : Ticket) : Section AbandonOutcome :=
  match s.tickets[ticket]? with
  | some (.granted permitId) => abandonGranted s ticket permitId
  | some (.claiming permitId) => abandonGranted s ticket permitId
  | some (.queued c) =>
    let (s, effects) := cancelQueued s c ticket
    ⟨g.unserved s c, effects, .abandoned, true⟩
  | some (.terminal _) => ⟨s.forgetTerminalTicket ticket, {}, .terminalDiscarded, false⟩
  | some .faulted => ⟨s.forgetTerminalTicket ticket, {}, .terminalDiscarded, false⟩
  | none => ⟨s, {}, .invalid, false⟩

/-- Release a permit by its custody: nothing for an undispatched permit, its nonce for a leased one. -/
def releaseWithProof (s : GovernedState) (permitId : PermitId) (proof : Option Nat) :
    Section ReleaseOutcome :=
  let (s, effects, outcome) := s.releaseWithProofReason permitId proof .released {}
  ⟨s, effects, outcome, decide (outcome = .released)⟩

/-! ### Memory -/

/-- Empty a class queue after an accounting fault; every waiter gets an exact answer. -/
def faultQueue (c : TaskClass) : Nat → GovernedState → TransitionEffects →
    GovernedState × TransitionEffects
  | 0, s, effects => (s, effects)
  | rounds + 1, s, effects =>
    match s.removePending c 0 with
    | none => (s, effects)
    | some (s, r) =>
      let s := if r.scope.isChild then s.vacateRecursionGuard r.rootOperationId r.targetStage else s
      faultQueue c rounds (s.setTicket r.ticket .faulted) (effects.pushWake r.waker)

/-- Empty one class queue and, if anything left it, re-derive its tags. -/
def faultClass (acc : GovernedState × TransitionEffects) (c : TaskClass) :
    GovernedState × TransitionEffects :=
  let length := (acc.1.cls c).queue.length
  let (s, effects) := faultQueue c length acc.1 acc.2
  if length = 0 then (s, effects) else (g.unserved s c, effects)

/-- Fail-stop every queue after an accounting fault. -/
def terminalizeQueuedForAccountingFault (s : GovernedState) (effects : TransitionEffects) :
    GovernedState × TransitionEffects :=
  let (s, effects) := s.classes.keys.foldl g.faultClass (s, effects)
  ({ s with promotionPending := false }, effects)

/-- The measurement sequence of a reading: the caller's epoch, or the next one. -/
def measurementSequence (epoch : Option Nat) (record : PermitRecord) : Except ReconcileOutcome Nat :=
  match epoch with
  | some epoch => .ok epoch
  | none =>
    match checkedAdd u64Max record.ledger.measurementSequence 1 with
    | some sequence => .ok sequence
    | none => .error (.epochExhausted record.ledger.measurementSequence)

def reconcileMemory (s : GovernedState) (permitId : PermitId) (measuredBytes : Nat)
    (epoch : Option Nat) (nowMs : Nat) : Section ReconcileOutcome :=
  match s.permits[permitId]? with
  | none => ⟨s, {}, .unknownPermit, false⟩
  | some record =>
    match g.policy.classPolicy record.taskClass with
    | none => ⟨s, {}, .unknownPermit, false⟩
    | some policy =>
      match measurementSequence epoch record with
      | .error outcome => ⟨s, {}, outcome, false⟩
      | .ok sequence =>
        match reconcile s permitId measuredBytes sequence policy.memoryPermitMode
            g.policy.resources.memoryUnitScale nowMs with
        | (s, .conversionFailed error) =>
          let (s, effects) := g.terminalizeQueuedForAccountingFault s {}
          ⟨s, effects, .conversionFailed error, false⟩
        | (s, .applied units) => ⟨s, {}, .applied units, true⟩
        | (s, outcome) => ⟨s, {}, outcome, false⟩

def releaseStage (s : GovernedState) (permitId : PermitId) (freedUnits : Nat)
    (sequence : Option Nat) (nowMs : Nat) : Section StageReleaseOutcome :=
  match s.permits[permitId]? with
  | none => ⟨s, {}, .unknownPermit, false⟩
  | some record =>
    match g.policy.classPolicy record.taskClass with
    | none => ⟨s, {}, .unknownPermit, false⟩
    | some policy =>
      let (s, outcome) :=
        releaseStageMemory s permitId freedUnits policy.memoryReleasePolicy sequence nowMs
      ⟨s, {}, outcome, true⟩

def reapLeaksWith (s : GovernedState) (staleAfterMs nowMs : Nat) : Section LeakSweepReport :=
  let (s, effects, report) := reapLeaks s g.policy nowMs staleAfterMs {}
  ⟨s, effects, report, true⟩

end Governor

end Taskmesh
