import Taskmesh.Engine.Delivery
import Taskmesh.Host.Submission
import Taskmesh.Systems.Runs

/-!
# The runtime

Any number of submissions over one governor, with everybody else who uses that governor: other engine calls
may step at any time, by whoever holds the handle. A lease token is the one thing that cannot be made up:
whoever spends one was given it.
-/

namespace Taskmesh

open Std

/-- The notifier an admission call brings along. -/
def AdmitCall.notifier : AdmitCall → Option Waker
  | .admitWaitable _ waker => some waker
  | .admitResolved _ _ waker | .admitValidatedRequirements _ _ waker => waker
  | .admitSpec _ | .admitValidated _ => none

namespace Host

/-- The entry points of the runtime. -/
inductive RunPath where
  | io
  | localRuntime
  | blocking
  | cpu
  | requestedStack
  deriving DecidableEq

/-- The hints an entry point accepts. -/
def RunPath.allowed : RunPath → List SubstrateHint
  | .io => [.asyncIo]
  | .localRuntime => [.localRuntime]
  | .blocking => [.blockingPool, .largeStackCapability, .backgroundOnly]
  | .cpu => [.sharedCpuExecutor]
  | .requestedStack => [.largeStackCapability]

def RunPath.dispatch : RunPath → DispatchKind
  | .io | .localRuntime => .callerFuture
  | .blocking => .blockingPool
  | .cpu => .cpuExecutor
  | .requestedStack => .dedicatedStackRuntime

/-- The entry point bounds the caller's response. -/
def RunPath.bounds : RunPath → Bool
  | .blocking | .cpu => true
  | .io | .localRuntime | .requestedStack => false

/-- What a runtime was built with, and the last instant its clock can represent. -/
structure Settings where
  instantMax : Nat
  cpuPhysicalDomain : String

/-- The submissions of a runtime over its governor. -/
structure HostSys (g : Governor) (usizeMax : Nat) (T E : Type) where
  engine : g.System
  /-- Whose the engine calls in progress are, call by call: a submission's, or somebody else's. -/
  owners : List (Option Nat) := []
  submissions : List (Submission usizeMax T E) := []
  /-- The lease tokens others were given and have not spent. -/
  tokens : List LeaseToken := []
  /-- The cancellation tokens that have fired. -/
  fired : List CancellationToken := []

inductive HostAction (T E : Type) where
  /-- Somebody else's engine call, or any engine call in progress that goes on. -/
  | outside (a : Action)
  | fire (token : CancellationToken)
  | submit (path : RunPath) (spec : TaskSpec) (opts : SubmitOptions) (responseBy : Option Nat)
      (waker : Waker) (now : Nat)
  | turn (submission : Nat) (t : Turn T E)

inductive HostEvent where
  | progressed
  /-- The submission is refused before it touches the engine. -/
  | refused (error : GovernorError)
  /-- What the engine was asked and what it said. -/
  | engine (a : Action) (e : Event)

variable {g : Governor} {usizeMax : Nat} {T E : Type}

/-- `acquire_execution_lease_response_by` and its callers up to the first look at the bounds. -/
def Submission.open (settings : Settings) (plan : ValidatedDispatchPlan usizeMax) (path : RunPath)
    (opts : SubmitOptions) (responseBy : Option Nat) (waker : Waker) (now : Nat) :
    Except GovernorError (Submission usizeMax T E) :=
  let responseBy := if path.bounds then responseBy else none
  if responseBy.isSome && opts.deadline.isSome then
    .error (.policyViolation "response boundary cannot be combined with a run deadline")
  else if plan.absoluteDeadline.isSome &&
      !(plan.dispatch = .callerFuture || plan.dispatch = .dedicatedStackRuntime) then
    .error (.policyViolation "absolute completion deadline requires cooperative async work")
  else
    (AcquisitionArbiter.new settings.instantMax opts (responseBy <|> plan.absoluteDeadline) now).map
      fun arbiter => { plan := plan, arbiter := arbiter, responseBy := responseBy, waker := waker }

namespace HostSys

/-- `TokioRuntime::plan`. -/
def plan (settings : Settings) (_ : HostSys g usizeMax T E) (path : RunPath) (spec : TaskSpec)
    (opts : SubmitOptions) : Except GovernorError (ValidatedDispatchPlan usizeMax) :=
  ValidatedDispatchPlan.preflight usizeMax spec opts (g.policy.classPolicy spec.taskClass) path.allowed
    path.dispatch g.policy settings.cpuPhysicalDomain

/-- Whose call the action continues. -/
def ownerOf (σ : HostSys g usizeMax T E) (a : Action) : Option Nat :=
  (a.thread.bind fun i => σ.owners[i]?).join

/-- What somebody else may do. A token is spent by whoever holds it, the notifier of a submission is shared
with the engine alone, and the notifiers of this host do not panic. -/
def permits (σ : HostSys g usizeMax T E) : Action → Bool
  | .releaseLeased token _ => token ∈ σ.tokens
  | .call entry _ => σ.submissions.all fun sub => entry.notifier ≠ some sub.waker
  | .settle i panicked => !panicked || (σ.ownerOf (.settle i panicked)).isNone
  | .finishClaim i panicked => !panicked || (σ.ownerOf (.finishClaim i panicked)).isNone
  | _ => true

/-- The owners of the calls in progress after a step for `owner`: a call that started is the last one. -/
def nextOwners (σ : HostSys g usizeMax T E) (engine : g.System) (owner : Option Nat) (a : Action) :
    List (Option Nat) :=
  if σ.engine.threads.length < engine.threads.length then σ.owners ++ [owner]
  else if engine.threads.length < σ.engine.threads.length then
    match a.thread with
    | some i => σ.owners.eraseIdx i
    | none => σ.owners
  else σ.owners

/-- `TokioPermitWaker::wake`: the notifiers a call wakes before it goes on. -/
def wake (σ : HostSys g usizeMax T E) (wakers : List Waker) : List (Submission usizeMax T E) :=
  σ.submissions.map fun sub => if sub.waker ∈ wakers then { sub with notified := true } else sub

/-- One step of the engine for `owner`. -/
def engineStep (σ : HostSys g usizeMax T E) (owner : Option Nat) (a : Action) :
    Option (HostSys g usizeMax T E × Event) :=
  (g.step σ.engine a).map fun next =>
    ({ σ with
        engine := next.1
        owners := σ.nextOwners next.1 owner a
        submissions := σ.wake (Governor.owedBy σ.engine a).wake }, next.2)

/-- What the engine said reaches the submission whose call goes on, or somebody else. -/
def heard (σ : HostSys g usizeMax T E) (owner : Option Nat) (a : Action) (e : Event) : HostSys g usizeMax T E :=
  match owner, a, e with
  | some k, _, e => { σ with submissions := σ.submissions.modify k fun sub => sub.hears e }
  | none, _, .advanced _ (.leased token) => { σ with tokens := σ.tokens ++ [token] }
  | none, .releaseLeased token _, _ => { σ with tokens := σ.tokens.erase token }
  | none, _, _ => σ

/-- What a submission reads. -/
def around (settings : Settings) (σ : HostSys g usizeMax T E) : Around where
  instantMax := settings.instantMax
  status := Governor.ticketStatus σ.engine.state
  blockReason := g.pendingBlockReason σ.engine.state
  fired token := token ∈ σ.fired

/-- A submission does what its turn comes to. -/
def perform (σ : HostSys g usizeMax T E) (k : Nat) : Request usizeMax T E → Option (HostSys g usizeMax T E × HostEvent)
  | .goOn next => some ({ σ with submissions := σ.submissions.set k next }, .progressed)
  | .ask a hears =>
    (σ.engineStep (some k) a).map fun next =>
      ({ next.1 with submissions := next.1.submissions.set k (hears next.2) }, .engine a next.2)

/-- A new submission; its notifier is its own. -/
def submit (settings : Settings) (σ : HostSys g usizeMax T E) (path : RunPath) (spec : TaskSpec)
    (opts : SubmitOptions) (responseBy : Option Nat) (waker : Waker) (now : Nat) :
    Option (HostSys g usizeMax T E × HostEvent) :=
  if σ.submissions.any fun sub => sub.waker = waker then none
  else
    match (σ.plan settings path spec opts).bind fun plan =>
      Submission.open settings plan path opts responseBy waker now with
    | .error error => some (σ, .refused error)
    | .ok sub => some ({ σ with submissions := σ.submissions ++ [sub] }, .progressed)

end HostSys

variable (g) in
/-- One atomic step of the runtime. -/
def hostStep (settings : Settings) (σ : HostSys g usizeMax T E) :
    HostAction T E → Option (HostSys g usizeMax T E × HostEvent)
  | .outside a =>
    if σ.permits a then
      (σ.engineStep (σ.ownerOf a) a).map fun next => (next.1.heard (σ.ownerOf a) a next.2, .engine a next.2)
    else none
  | .fire token => some ({ σ with fired := token :: σ.fired }, .progressed)
  | .submit path spec opts responseBy waker now => σ.submit settings path spec opts responseBy waker now
  | .turn k t =>
    match σ.submissions[k]? with
    | none => none
    | some sub => (sub.turn (σ.around settings) t).bind (σ.perform k)

variable (g usizeMax T E) in
/-- A runtime as it is built. -/
def hostInit : HostSys g usizeMax T E := { engine := g.init }

variable (g) in
/-- The states any interleaving of submissions and engine calls can reach. -/
def HostReachable (settings : Settings) (σ : HostSys g usizeMax T E) : Prop :=
  Runs.Reachable (hostStep g settings) (hostInit g usizeMax T E) σ

end Host

end Taskmesh
