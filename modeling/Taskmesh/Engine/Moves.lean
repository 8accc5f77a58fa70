import Mathlib.Logic.Relation
import Taskmesh.Engine.Proofs.TransitionProofs

/-!
# The moves of the governed state

Every locked section is a sequence of a few kinds of moves: what can happen to the queues, permits
and tickets, with the condition under which the code does it. Invariants are proved move by move and
then hold after every section. A section first removes permits and then grants them, so a path is a
shrinking part followed by a growing part.
-/

namespace Taskmesh

open Std MachineInt SetIndex

/-- Identities the state does not know. -/
structure Fresh (s : GovernedState) (ids : Ids) : Prop where
  permit : s.permits[ids.permitId]? = none
  ticket : s.tickets[ids.ticket]? = none
  waiting : ∀ c r, r ∈ s.waiting c →
    r.permitId ≠ ids.permitId ∧ r.ticket ≠ ids.ticket ∧ r.seqNo ≠ ids.seqNo

/-- The class a request is accounted under: its own, or the fallback its own class degrades to. -/
def EffectiveClass (g : Governor) (request : AdmissionRequest) (c : TaskClass) : Prop :=
  c = request.spec.taskClass ∨
    ∃ declared, g.policy.classPolicy request.spec.taskClass = some declared ∧
      declared.memoryOvercommitPolicy = .degradeToLight c

/-- The checks a request passed before its capacity was assessed under the class `c`. -/
structure PassedChecks (g : Governor) (s : GovernedState) (request : AdmissionRequest) (c : TaskClass)
    (policy : ClassPolicy) : Prop where
  known : g.policy.classPolicy c = some policy
  enabled : policy.isDisabled = false
  identity : s.hasOperationIdentity request.spec.rootOperationId request.spec.operation = false
  recursion : isRecursive s request.spec = false
  effective : EffectiveClass g request c

/-- A submission the lock can accept: it passed the checks, its plan is valid, its requirements are
registered, admission is open and its identities are new. -/
structure Accepted (g : Governor) (s : GovernedState) (policy : ClassPolicy) (c : TaskClass)
    (request : AdmissionRequest) (ids : Ids) : Prop extends PassedChecks g s request c policy where
  registered : RegisteredWith g.policy request.capabilities
  valid : validateTaskSpec request.spec = .ok ()
  isOpen : s.admissionClosed = false
  fresh : Fresh s ids

/-- Which half of a section a move belongs to. -/
inductive Trend where
  | shrinking | growing

/-- Vacate the recursion guard of a request that leaves its queue, if it is a child. -/
def GovernedState.vacateOf (s : GovernedState) (r : PendingRequest) : GovernedState :=
  if r.scope.isChild then s.vacateRecursionGuard r.rootOperationId r.targetStage else s

/-- A change of one permit's charge: an accepted reading, or a stage that returned units. -/
inductive LedgerChange (ledger : PermitLedger) : PermitLedger → Prop
  | measured (measuredBytes sequence units nowMs : Nat)
      (later : ledger.measurementSequence < sequence) :
      LedgerChange ledger (ledger.measured measuredBytes sequence units nowMs)
  | staged (freed : Nat) (sequence : Option Nat) (nowMs : Nat) (within : freed ≤ ledger.effectiveUnits) :
      LedgerChange ledger (ledger.staged freed sequence nowMs)

/-- On whose behalf a section runs: with which proof it may end a leased permit, which identities it
may give to a request, which permit's memory it may change, and which ticket it claims or gives up. -/
structure Caller where
  custody : PermitId → Option Nat → Prop
  ids : Ids → Prop
  memory : PermitId → Prop
  tickets : Ticket → Prop

/-- Nobody in particular: a section of the governor itself. -/
def Caller.nobody : Caller := ⟨fun _ _ => False, fun _ => False, fun _ => False, fun _ => False⟩

/-- One move, on behalf of a caller. -/
inductive Move (g : Governor) (caller : Caller) :
    Trend → GovernedState → GovernedState → Prop
  | rescheduled {trend : Trend} {s s' : GovernedState} (h : s.Rescheduled s') : Move g caller trend s s'
  | flagged {trend : Trend} (s : GovernedState) (pending : Bool) :
      Move g caller trend s { s with promotionPending := pending }
  | closed (s : GovernedState) : Move g caller .shrinking s s.closeAdmission
  | faulted (s : GovernedState) (what : String) (allowed : ∃ p, caller.memory p) :
      Move g caller .shrinking s (s.recordAccountingFault what)
  | admitted {s : GovernedState} {policy : ClassPolicy} {c : TaskClass} {request : AdmissionRequest}
      {ids : Ids} (nowMs : Nat) (allowed : caller.ids ids)
      (accepted : Accepted g s policy c request ids)
      (runnable : assessIntake s g.policy policy c request = .runnable) :
      Move g caller .growing s (s.grant (directGrant s policy c request ids nowMs))
  | enqueued {s tagged : GovernedState} {policy : ClassPolicy} {c : TaskClass}
      {request : AdmissionRequest} {ids : Ids} {blockers : BlockerSet} (waker : Option Waker)
      (nowMs : Nat) (tags : Nat × Nat × Nat) (allowed : caller.ids ids)
      (accepted : Accepted g s policy c request ids)
      (blocked : assessIntake s g.policy policy c request = .reversiblyBlocked blockers)
      (room : s.queued c < policy.maxQueueDepth.toNat) (h : s.Rescheduled tagged)
      (sound : blockers.accountingFault = false) :
      Move g caller .shrinking s
        (tagged.commitPending
          (pendingRequest s policy c request waker ids nowMs blockers.primary tags))
  | promoted {s s' : GovernedState} {grant : GrantRequest} (nowMs : Nat)
      (h : g.promoteStep nowMs s = (s', some grant)) : Move g caller .growing s s'
  | cycled {s : GovernedState} {c : TaskClass} {index : Nat} {witness : CycleWitness}
      {r : PendingRequest} {held : HeldCapacity} (h : g.findCycle s = some (c, index, witness))
      (found : (s.cls c).queue[index]? = some r) (first : witness.held.head? = some held) :
      Move g caller .growing s (g.terminalizeCycle (s.removedPending c index r) c r held)
  | cancelled {s : GovernedState} {c : TaskClass} {index : Nat} {r : PendingRequest} {ticket : Ticket}
      (h : s.tickets[ticket]? = some (.queued c)) (found : (s.cls c).queue[index]? = some r)
      (same : r.ticket = ticket) (owner : caller.tickets ticket) :
      Move g caller .shrinking s (((s.removedPending c index r).removeTicket ticket).vacateOf r)
  | lost {s : GovernedState} {c : TaskClass} {ticket : Ticket}
      (h : s.tickets[ticket]? = some (.queued c))
      (missing : ∀ r ∈ (s.cls c).queue, r.ticket ≠ ticket) (owner : caller.tickets ticket) :
      Move g caller .shrinking s (s.removeTicket ticket)
  | faultedHead {s : GovernedState} {c : TaskClass} {r : PendingRequest}
      (found : (s.cls c).queue[0]? = some r) :
      Move g caller .shrinking s (((s.removedPending c 0 r).vacateOf r).setTicket r.ticket .faulted)
  | unwound {s s' : GovernedState} {p : PermitId} {record : PermitRecord} {reason : TerminalReason}
      {effects effects' : TransitionEffects} (found : s.permits[p]? = some record)
      (ends : record.phase = .dispatchReserved ∨ caller.custody p record.leaseNonce)
      (h : s.unwind p reason effects = some (s', effects')) : Move g caller .shrinking s s'
  | claimBegun {s : GovernedState} {ticket : Ticket} {p : PermitId} {record : PermitRecord}
      (nowMs : Nat) (h : s.tickets[ticket]? = some (.granted p)) (found : s.permits[p]? = some record)
      (owner : caller.tickets ticket) :
      Move g caller .shrinking s
        ({ s with permits := s.permits.insert p (Governor.claimedRecord record nowMs) }.setTicket ticket
          (.claiming p))
  | transferred {s : GovernedState} {ticket : Ticket} {p : PermitId} {record : PermitRecord}
      (nowMs : Nat) (h : s.tickets[ticket]? = some (.claiming p)) (found : s.permits[p]? = some record)
      (owner : caller.tickets ticket) :
      Move g caller .shrinking s
        ({ s with permits := s.permits.insert p (Governor.transferredRecord record nowMs) }.removeTicket
          ticket)
  | detached {s : GovernedState} {ticket : Ticket} {p : PermitId} {record : PermitRecord}
      (h : s.tickets[ticket]? = some (.claiming p)) (found : s.permits[p]? = some record)
      (leased : record.leaseNonce ≠ none) :
      Move g caller .shrinking s (Governor.detachTicket s p ticket)
  | expired {s : GovernedState} {ticket : Ticket} {p : PermitId}
      (h : s.tickets[ticket]? = some (.claiming p)) (gone : s.permits[p]? = none) :
      Move g caller .shrinking s (s.recordTerminalTicket ticket .released)
  | orphaned {s : GovernedState} {ticket : Ticket} {p : PermitId}
      (h : s.tickets[ticket]? = some (.granted p) ∨ s.tickets[ticket]? = some (.claiming p))
      (gone : s.permits[p]? = none) (owner : caller.tickets ticket) :
      Move g caller .shrinking s (s.removeTicket ticket)
  | forgot (s : GovernedState) (ticket : Ticket) (owner : caller.tickets ticket) :
      Move g caller .shrinking s (s.forgetTerminalTicket ticket)
  | advanced {s : GovernedState} {p : PermitId} {record : PermitRecord} {phase : ExecutionPhase}
      (nonces : Nat) (found : s.permits[p]? = some record) (later : record.phase.rank < phase.rank) :
      Move g caller .shrinking s (s.advancedTo p record phase nonces)
  | recharged {s : GovernedState} {p : PermitId} {record : PermitRecord} {ledger : PermitLedger}
      (allowed : caller.memory p) (found : s.permits[p]? = some record)
      (change : LedgerChange record.ledger ledger) :
      Move g caller .shrinking s (s.rechargePermit p record ledger)

/-- A sequence of moves of one trend. -/
abbrev Moves (g : Governor) (caller : Caller) (trend : Trend) :
    GovernedState → GovernedState → Prop :=
  Relation.ReflTransGen (Move g caller trend)

/-- A path: permits are removed first and granted afterwards. -/
def Path (g : Governor) (caller : Caller) (s s' : GovernedState) : Prop :=
  ∃ middle, Moves g caller .shrinking s middle ∧ Moves g caller .growing middle s'

variable {g : Governor} {caller : Caller}

/-- What every move preserves, a path preserves. -/
theorem Path.invariant {P : GovernedState → Prop} {s s' : GovernedState}
    (h : Path g caller s s') (hmove : ∀ trend s s', Move g caller trend s s' → P s → P s')
    (hs : P s) : P s' := by
  obtain ⟨middle, hshrink, hgrow⟩ := h
  have hmiddle : P middle := by
    clear hgrow
    induction hshrink with
    | refl => exact hs
    | tail _ hm ih => exact hmove _ _ _ hm ih
  induction hgrow with
  | refl => exact hmiddle
  | tail _ hm ih => exact hmove _ _ _ hm ih

theorem Path.of_shrinking {s s' : GovernedState} (h : Moves g caller .shrinking s s') :
    Path g caller s s' := ⟨s', h, .refl⟩

theorem Path.then_growing {s s' s'' : GovernedState} (h : Path g caller s s')
    (h' : Moves g caller .growing s' s'') : Path g caller s s'' := by
  obtain ⟨middle, hshrink, hgrow⟩ := h
  exact ⟨middle, hshrink, hgrow.trans h'⟩

theorem Path.after_shrinking {s s' s'' : GovernedState} (h : Moves g caller .shrinking s s')
    (h' : Path g caller s' s'') : Path g caller s s'' := by
  obtain ⟨middle, hshrink, hgrow⟩ := h'
  exact ⟨middle, h.trans hshrink, hgrow⟩

theorem Moves.single {trend : Trend} {s s' : GovernedState} (h : Move g caller trend s s') :
    Moves g caller trend s s' := Relation.ReflTransGen.single h

theorem Moves.rescheduled {trend : Trend} {s s' : GovernedState} (h : s.Rescheduled s') :
    Moves g caller trend s s' := Moves.single (Move.rescheduled h)

end Taskmesh
