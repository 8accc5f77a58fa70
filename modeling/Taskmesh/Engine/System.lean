import Taskmesh.Engine.Intake
import Taskmesh.Systems.Runs

/-!
# The concurrent system

A governor shared by any number of callers. Every locked section of a public operation is one atomic
step, and so is every take of an identity counter; between them a call in progress is a thread, and
any other call may step. Host callbacks run while no lock is held, so whatever they do to the
governor is the steps of other calls.
-/

namespace Taskmesh

open Std MachineInt

/-- The identities an admission call has taken so far. -/
inductive Taken where
  | nothing
  | permit (permit : Nat)
  | ticket (permit ticket : Nat)

/-- A call in progress, between two locked sections. -/
inductive Thread (policies : PolicySet) where
  /-- Taking its identities, one counter after the other. -/
  | allocating (intake : Intake policies) (sampledMs : Nat) (taken : Taken)
  /-- About to take the lock with its identities. -/
  | admitting (intake : Intake policies) (sampledMs : Nat) (ids : Ids)
  /-- Decided; retiring host references before it answers. -/
  | settling (decision : AdmissionDecision) (effects : TransitionEffects) (sampledMs : Nat)
  /-- Between the two sections of a claim, retiring the permit's waker. -/
  | claiming (ticket : Ticket) (permitId : PermitId) (effects : TransitionEffects) (sampledMs : Nat)
  /-- Notifying waiters, with another promotion pass to run if one is owed. -/
  | draining (effects : TransitionEffects) (sampledMs : Nat)

/-- The governed state, the identity counters, the process-wide lease counter and the calls in
progress. -/
structure Sys (policies : PolicySet) where
  state : GovernedState := {}
  nextPermit : Nat := 1
  nextTicket : Nat := 1
  nextSeq : Nat := 1
  leaseNonces : Nat := 1
  threads : List (Thread policies) := []

/-- What a caller can do, and how a call in progress goes on. -/
inductive Action where
  | call (entry : AdmitCall) (sampledMs : UInt64)
  | allocate (thread : Nat)
  | enter (thread : Nat)
  | settle (thread : Nat) (panicked : Bool)
  | claim (ticket : Ticket) (sampledMs : UInt64)
  | finishClaim (thread : Nat) (panicked : Bool)
  | abandon (ticket : Ticket) (sampledMs : UInt64)
  | release (permitId : PermitId) (sampledMs : UInt64)
  | releaseLeased (token : LeaseToken) (sampledMs : UInt64)
  | advancePhase (permitId : PermitId) (phase : ExecutionPhase)
  | reconcileMemory (permitId : PermitId) (measuredBytes : UInt64) (epoch : Option UInt64)
      (sampledMs : UInt64)
  | releaseStageMemory (permitId : PermitId) (freedUnits : UInt32) (sequence : Option UInt64)
      (sampledMs : UInt64)
  | reapLeaks (staleAfterMs : UInt64) (sampledMs : UInt64)
  | closeAdmission
  | drain (thread : Nat)
  /-- Another governor of the process takes a lease nonce. -/
  | mintElsewhere

/-- What a step tells its caller. -/
inductive Event where
  | progressed
  | decided (ids : Ids) (decision : AdmissionDecision)
  | answered (answer : AdmitAnswer)
  | claimed (ticket : Ticket) (outcome : ClaimOutcome)
  | abandoned (ticket : Ticket) (outcome : AbandonOutcome)
  | released (permitId : PermitId) (outcome : ReleaseOutcome)
  | advanced (permitId : PermitId) (outcome : AdvanceOutcome)
  | reconciled (permitId : PermitId) (outcome : ReconcileOutcome)
  | stageReleased (permitId : PermitId) (outcome : StageReleaseOutcome)
  | swept (report : LeakSweepReport)
  | panicked
  deriving DecidableEq

namespace Governor

variable (g : Governor)

/-- The system of a governor. -/
abbrev System := Sys g.policy

/-- A step up to its promotion pass: the section it runs under the lock, the counters after it, and
the threads once its effects are known. -/
structure Prepared where
  sys : g.System
  sec : Section Event
  nowMs : Nat := 0
  resume : TransitionEffects → List (Thread g.policy)

variable {g}

/-- A step that does not touch the governed state. -/
def unlocked (σ : g.System) (threads : List (Thread g.policy)) (event : Event) : g.Prepared :=
  { sys := σ, sec := ⟨σ.state, {}, event, false⟩, resume := fun _ => threads }

/-- A step that runs a section under the lock, at the clamped sample of its call. -/
def locked (σ : g.System) (sampledMs : Nat) (section_ : GovernedState → Nat → Section Event)
    (resume : TransitionEffects → List (Thread g.policy)) : g.Prepared :=
  let s := σ.state.commitTime sampledMs
  { sys := σ, sec := section_ s s.commitWatermarkMs, nowMs := s.commitWatermarkMs, resume := resume }

/-- A public operation made of one section: its effects are drained afterwards. -/
def operation {α : Type} (σ : g.System) (sampledMs : Nat)
    (section_ : GovernedState → Nat → Section α) (event : α → Event) : g.Prepared :=
  locked σ sampledMs
    (fun s now =>
      let sec := section_ s now
      ⟨sec.state, sec.effects, event sec.outcome, sec.promotes⟩)
    (fun effects => σ.threads ++ [.draining effects sampledMs])

/-- The same, where the source returns at once on some outcomes: nothing was changed, and nothing is
drained. -/
def operationUnless {α : Type} (σ : g.System) (sampledMs : Nat)
    (section_ : GovernedState → Nat → Section α) (event : α → Event) (early : α → Bool) : g.Prepared :=
  let s := σ.state.commitTime sampledMs
  { operation σ sampledMs section_ event with
    resume := fun effects =>
      if early (section_ s s.commitWatermarkMs).outcome then σ.threads
      else σ.threads ++ [.draining effects sampledMs] }

/-- A reconcile that found no permit, or no next epoch to assign. -/
def reconcileEarly (epoch : Option Nat) : ReconcileOutcome → Bool
  | .unknownPermit => true
  | .epochExhausted _ => epoch.isNone
  | _ => false

def stageReleaseEarly : StageReleaseOutcome → Bool
  | .unknownPermit => true
  | _ => false

/-! ## The steps of each call -/

/-- `take_sequence`: the value taken and the counter after it; an exhausted counter never wraps. -/
def takeSequence (counter : Nat) : Option (Nat × Nat) :=
  (checkedAdd u64Max counter 1).map fun next => (counter, next)

def call (σ : g.System) (entry : AdmitCall) (sampledMs : Nat) : g.Prepared :=
  match preflight g.policy entry with
  | .error answer => unlocked σ σ.threads (.answered answer)
  | .ok intake => unlocked σ (σ.threads ++ [.allocating intake sampledMs .nothing]) .progressed

/-- Take the next identity of an admission call. -/
def allocate (σ : g.System) (i : Nat) (intake : Intake g.policy) (sampledMs : Nat) (taken : Taken) :
    g.Prepared :=
  let exhausted := unlocked σ (σ.threads.eraseIdx i) (.answered (.ok (.rejected .identityExhausted)))
  match taken with
  | .nothing =>
    match takeSequence σ.nextPermit with
    | none => exhausted
    | some (permit, next) =>
      unlocked { σ with nextPermit := next }
        (σ.threads.set i (.allocating intake sampledMs (.permit permit))) .progressed
  | .permit permit =>
    match takeSequence σ.nextTicket with
    | none => exhausted
    | some (ticket, next) =>
      unlocked { σ with nextTicket := next }
        (σ.threads.set i (.allocating intake sampledMs (.ticket permit ticket))) .progressed
  | .ticket permit ticket =>
    match takeSequence σ.nextSeq with
    | none => exhausted
    | some (seqNo, next) =>
      unlocked { σ with nextSeq := next }
        (σ.threads.set i (.admitting intake sampledMs ⟨⟨g.authority, permit⟩, ⟨g.authority, ticket⟩, seqNo⟩))
        .progressed

/-- The locked section of an admission call. -/
def enter (σ : g.System) (i : Nat) (intake : Intake g.policy) (sampledMs : Nat) (ids : Ids) :
    g.Prepared :=
  let s := σ.state.commitTime sampledMs
  let admission := admitRequest s g.policy s.commitWatermarkMs intake.request intake.waker ids {}
  { sys := σ
    sec := ⟨admission.state, admission.effects, .decided ids admission.decision, false⟩
    nowMs := s.commitWatermarkMs
    resume := fun effects => σ.threads.set i (.settling admission.decision effects sampledMs) }

/-- Host code to run: only then can a callback panic. -/
def touchesHost (effects : TransitionEffects) : Bool := !effects.wake.isEmpty || !effects.retire.isEmpty

/-- Answer an admission call, or compensate it after a host callback panicked. -/
def settle (σ : g.System) (i : Nat) (decision : AdmissionDecision) (sampledMs : Nat)
    (panicked : Bool) : g.Prepared :=
  match panicked, decision with
  | false, _ => unlocked σ (σ.threads.eraseIdx i) (.answered (.ok decision))
  | true, .admitted permitId =>
    locked σ sampledMs
      (fun s _ =>
        let sec := releaseWithProof s permitId none
        ⟨sec.state, sec.effects, .panicked, sec.promotes⟩)
      (fun effects => σ.threads.set i (.draining effects sampledMs))
  | true, _ => unlocked σ (σ.threads.eraseIdx i) .panicked

/-- The first locked section of a claim: answer at once, or go on outside the lock. -/
def startClaim (σ : g.System) (ticket : Ticket) (sampledMs : Nat) : g.Prepared :=
  let s := σ.state.commitTime sampledMs
  let begun := beginClaim s ticket s.commitWatermarkMs
  { sys := σ
    sec :=
      ⟨begun.1, begun.2.1,
        match begun.2.2 with
        | .answered outcome => .claimed ticket outcome
        | .claiming _ => .progressed,
        false⟩
    resume := fun effects =>
      match begun.2.2 with
      | .answered _ => σ.threads
      | .claiming permitId => σ.threads ++ [.claiming ticket permitId effects sampledMs] }

/-- The second locked section of a claim: finalize it, or compensate a panic. -/
def endClaim (σ : g.System) (i : Nat) (ticket : Ticket) (permitId : PermitId) (sampledMs : Nat)
    (panicked : Bool) : g.Prepared :=
  if panicked then
    locked σ sampledMs
      (fun s _ =>
        let sec := compensateClaim s ticket permitId
        ⟨sec.state, sec.effects, .panicked, sec.promotes⟩)
      (fun effects => σ.threads.set i (.draining effects sampledMs))
  else
    locked σ sampledMs
      (fun s now =>
        let (s, outcome) := finishClaim s ticket now
        ⟨s, {}, .claimed ticket outcome, false⟩)
      (fun _ => σ.threads.eraseIdx i)

def advance (σ : g.System) (permitId : PermitId) (phase : ExecutionPhase) : g.Prepared :=
  let (s, outcome, nonces) := σ.state.advancePhase permitId phase σ.leaseNonces
  { sys := { σ with leaseNonces := nonces }
    sec := ⟨s, {}, .advanced permitId outcome, false⟩
    resume := fun _ => σ.threads }

/-- One round of draining effects: another pass when one is owed, else the call is over. -/
def drain (σ : g.System) (i : Nat) (effects : TransitionEffects) (sampledMs : Nat) : g.Prepared :=
  if effects.moreRunnable then
    locked σ sampledMs (fun s _ => ⟨s, {}, .progressed, true⟩)
      (fun effects => σ.threads.set i (.draining effects sampledMs))
  else unlocked σ (σ.threads.eraseIdx i) .progressed

/-- A step up to its promotion pass, if the action is enabled. -/
def prepare (σ : g.System) : Action → Option g.Prepared
  | .call entry sampledMs => some (call σ entry sampledMs.toNat)
  | .allocate i =>
    match σ.threads[i]? with
    | some (.allocating intake sampledMs taken) => some (allocate σ i intake sampledMs taken)
    | _ => none
  | .enter i =>
    match σ.threads[i]? with
    | some (.admitting intake sampledMs ids) => some (enter σ i intake sampledMs ids)
    | _ => none
  | .settle i panicked =>
    match σ.threads[i]? with
    | some (.settling decision effects sampledMs) =>
      if panicked && !touchesHost effects then none
      else some (settle σ i decision sampledMs panicked)
    | _ => none
  | .claim ticket sampledMs => some (startClaim σ ticket sampledMs.toNat)
  | .finishClaim i panicked =>
    match σ.threads[i]? with
    | some (.claiming ticket permitId effects sampledMs) =>
      if panicked && !touchesHost effects then none
      else some (endClaim σ i ticket permitId sampledMs panicked)
    | _ => none
  | .abandon ticket sampledMs =>
    some (operation σ sampledMs.toNat (fun s _ => g.abandon s ticket) (.abandoned ticket))
  | .release permitId sampledMs =>
    some (operation σ sampledMs.toNat (fun s _ => releaseWithProof s permitId none)
      (.released permitId))
  | .releaseLeased token sampledMs =>
    some (operation σ sampledMs.toNat (fun s _ => releaseWithProof s token.permitId (some token.nonce))
      (.released token.permitId))
  | .advancePhase permitId phase => some (advance σ permitId phase)
  | .reconcileMemory permitId measuredBytes epoch sampledMs =>
    some (operationUnless σ sampledMs.toNat
      (fun s now => g.reconcileMemory s permitId measuredBytes.toNat (epoch.map UInt64.toNat) now)
      (.reconciled permitId) (reconcileEarly (epoch.map UInt64.toNat)))
  | .releaseStageMemory permitId freedUnits sequence sampledMs =>
    some (operationUnless σ sampledMs.toNat
      (fun s now => g.releaseStage s permitId freedUnits.toNat (sequence.map UInt64.toNat) now)
      (.stageReleased permitId) stageReleaseEarly)
  | .reapLeaks staleAfterMs sampledMs =>
    some (operation σ sampledMs.toNat (fun s now => g.reapLeaksWith s staleAfterMs.toNat now) .swept)
  | .closeAdmission =>
    some
      { sys := σ
        sec := ⟨σ.state.closeAdmission, {}, .progressed, false⟩
        resume := fun _ => σ.threads }
  | .drain i =>
    match σ.threads[i]? with
    | some (.draining effects sampledMs) => some (drain σ i effects sampledMs)
    | _ => none
  | .mintElsewhere =>
    some (unlocked { σ with leaseNonces := wrappingAdd u64Max σ.leaseNonces 1 } σ.threads .progressed)

/-- The system after a prepared step has committed. -/
def finish (p : g.Prepared) : g.System :=
  let committed := g.commit p.sec p.nowMs
  { p.sys with state := committed.1, threads := p.resume committed.2 }

variable (g)

/-- One atomic step of the system. -/
def step (σ : g.System) (a : Action) : Option (g.System × Event) :=
  (prepare σ a).map fun p => (finish p, p.sec.outcome)

/-- A governor as it is constructed. -/
def init : g.System := {}

/-- The states any interleaving of calls can reach. -/
def Reachable (σ : g.System) : Prop := Runs.Reachable g.step g.init σ

/-- Fewer than `2^32` permits are live. -/
def fewLive (σ : g.System) : Bool := σ.state.permits.size < 2 ^ 32

/-- The states reached by runs with fewer than `2^32` permits live throughout. -/
def ReachableFewLive (σ : g.System) : Prop :=
  Runs.Reachable (Runs.restrict g.fewLive g.step) g.init σ

end Governor

end Taskmesh
