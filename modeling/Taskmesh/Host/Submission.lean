import Taskmesh.Engine.Observation
import Taskmesh.Host.Lease

/-!
# Submissions

One submission over a governor (`runtime.rs`, `runtime/acquisition.rs`, `runtime/synchronous.rs`,
`runtime/detached.rs`). It is a caller, which acquires a permit and waits for the answer, and a worker,
which runs the job; the execution lease moves between them. Both go from one atomic point to the next, and
between two points everybody else may step. A point that calls the engine makes one call.
-/

namespace Taskmesh.Host

open MachineInt

/-- How a job ends by itself. -/
inductive JobOutcome (T E : Type) where
  | value (t : T)
  | error (e : E)
  | panicked

/-- What a submission is answered. -/
abbrev Response (T E : Type) := Except (RunError E) T

/-- The result of a job that did not panic. -/
def JobOutcome.result {T E : Type} : JobOutcome T E → Option (Response T E)
  | .value t => some (.ok t)
  | .error e => some (.error (.task e))
  | .panicked => none

/-- How an acquisition that waited ended. -/
inductive Leaving where
  | acquired
  | failed (error : GovernorError)
  | dropped

/-- Where the caller of a submission stands. -/
inductive CallerPoint (T E : Type) where
  /-- About to look at its bounds, before anything exists. -/
  | checking
  /-- `acquire`: about to look at its bounds once more and to call the engine. -/
  | submitting
  | admitting
  /-- `finalize_acquired`: has a permit, about to look at its bounds one last time. -/
  | acquired (queued blocked : Bool)
  /-- `return_unstarted`: about to drop the lease of a permit that came too late. -/
  | unstarted (queued : Bool) (error : GovernorError)
  /-- Top of the loop of `await_promotion`. -/
  | looking
  | deciding (blocked : Bool)
  /-- About to claim its ticket; `expired` is the bound that had passed. -/
  | asking (expired : Option AcquisitionRejection) (blocked : Bool)
  | claiming (expired : Option AcquisitionRejection) (blocked : Bool)
  | parked
  /-- Done waiting; about to read the state of its ticket. -/
  | leaving (why : Leaving)
  /-- The ticket guard is dropped while armed; about to abandon. -/
  | abandoning (why : Leaving)
  /-- Has an execution lease; a synchronous path is about to look at its response boundary. -/
  | dispatching
  /-- About to declare the first phase of the execution. -/
  | accepting
  /-- About to drop the lease and to answer. -/
  | refused (error : GovernorError)
  | spawning
  /-- `run_cancellable`: polling the caller's own future. -/
  | polling (runDeadline : Option Nat)
  /-- Waiting for the worker. -/
  | awaiting
  /-- About to drop the lease of a finished execution. -/
  | releasing (response : Response T E)
  /-- `finalize_released_response`: custody is released; about to look at its bounds once more. -/
  | settling (response : Response T E)
  | answered (response : Response T E)
  /-- The caller's future is dropped; about to drop the lease. -/
  | discarding
  | dropped

/-- Where the worker of a submission stands. -/
inductive WorkerPoint (T E : Type) where
  | idle
  /-- The closure is with the executor. -/
  | submitted
  /-- About to declare that the job runs. -/
  | ready
  | running (runDeadline : Option Nat)
  /-- About to declare that the job is over; it has no result if it panicked. -/
  | ended (result : Option (Response T E))
  /-- About to send the response together with the lease. -/
  | sending (response : Response T E)
  | sent (response : Response T E) (completedAt : Nat)
  /-- About to drop the lease. -/
  | tearing
  | over

structure Submission (usizeMax : Nat) (T E : Type) where
  plan : ValidatedDispatchPlan usizeMax
  arbiter : AcquisitionArbiter
  responseBy : Option Nat
  waker : Waker
  /-- The ticket of a request that was queued. -/
  ticket : Option Ticket := none
  /-- The notification `Notify` stores until it is awaited. -/
  notified : Bool := false
  /-- The lease, whoever holds it. -/
  lease : Option ExecutionLease := none
  caller : CallerPoint T E := .checking
  worker : WorkerPoint T E := .idle
  /-- When the worker started, and whether it told the caller. -/
  startedAt : Option Nat := none
  told : Bool := false
  /-- A reply that does not carry the lease. -/
  reply : Option (RunError E) := none

/-- What a submission reads around it. -/
structure Around where
  instantMax : Nat
  /-- What the engine says of a ticket. -/
  status : Ticket → ClaimOutcome
  blockReason : Ticket → Option CapacityBlock
  fired : CancellationToken → Bool

/-- What a point does. -/
inductive Request (usizeMax : Nat) (T E : Type) where
  /-- It goes on by itself. -/
  | goOn (next : Submission usizeMax T E)
  /-- It calls the engine and goes on with what it hears. -/
  | ask (a : Action) (hears : Event → Submission usizeMax T E)

variable {usizeMax : Nat} {T E : Type}

namespace Submission

def go (sub : Submission usizeMax T E) (point : CallerPoint T E) : Submission usizeMax T E :=
  { sub with caller := point }

def work (sub : Submission usizeMax T E) (point : WorkerPoint T E) : Submission usizeMax T E :=
  { sub with worker := point }

def answer (sub : Submission usizeMax T E) (error : GovernorError) : Submission usizeMax T E :=
  sub.go (.answered (.error (.governor error)))

/-- The job is polled on the caller's task or on an owned runtime, and can be stopped there. -/
def cooperative (sub : Submission usizeMax T E) : Bool :=
  sub.plan.dispatch = .callerFuture || sub.plan.dispatch = .dedicatedStackRuntime

/-- The instant that bounds the caller's answer. -/
def boundary (sub : Submission usizeMax T E) : Option Nat :=
  if sub.cooperative then sub.plan.absoluteDeadline else sub.responseBy

def context (sub : Submission usizeMax T E) : String :=
  match sub.plan.dispatch with
  | .blockingPool => "blocking worker"
  | .cpuExecutor => "cpu worker"
  | .dedicatedStackThread => "large-stack worker"
  | .dedicatedStackRuntime => "requested-stack async worker"
  | .callerFuture => ""

/-- The caller still holds its end of the channel. -/
def listens (sub : Submission usizeMax T E) : Bool :=
  match sub.caller with
  | .spawning | .awaiting => true
  | _ => false

/-- The receiver is gone: a message that was not received is dropped, and the lease in it. -/
def closeChannel (sub : Submission usizeMax T E) : Submission usizeMax T E :=
  match sub.worker with
  | .sent _ _ => sub.work .tearing
  | _ => sub

/-- Drop the lease, with the engine call that takes, and go on. -/
def dropLease (sub : Submission usizeMax T E) (sampledMs : UInt64)
    (next : Submission usizeMax T E → Submission usizeMax T E) : Request usizeMax T E :=
  match sub.lease with
  | none => .goOn (next sub)
  | some lease =>
    match lease.dropAction sampledMs with
    | none => .goOn (next { sub with lease := some lease.dropped })
    | some a => .ask a fun _ => next { sub with lease := some lease.dropped }

/-- Declare the next phase of the execution, and go on with the answer. -/
def advance (sub : Submission usizeMax T E) (phase : ExecutionPhase)
    (next : Submission usizeMax T E → Except GovernorError Unit → Submission usizeMax T E) :
    Option (Request usizeMax T E) :=
  sub.lease.map fun lease =>
    match lease.advanceAction phase with
    | .error error => .goOn (next sub (.error error))
    | .ok a => .ask a fun
      | .advanced _ outcome =>
        next { sub with lease := some (lease.advanced phase outcome).1 } (lease.advanced phase outcome).2
      | _ => sub

/-! ### Acquisition -/

/-- What an admission call returned. -/
def admitted (sub : Submission usizeMax T E) : AdmitAnswer → Submission usizeMax T E
  | .ok (.admitted permitId) =>
    { sub with lease := some (.reserved permitId), caller := .acquired false false }
  | .ok (.queued ticket) => { sub with ticket := some ticket, caller := .looking }
  | .ok (.rejected verdict) => sub.answer (.rejected (.engine verdict))
  | .error error =>
    sub.answer (.policyViolation ("validated dispatch requirements rejected: " ++ error.display))

/-- What a claim returned; `expired` is the bound that had passed when it was made. -/
def claimed (sub : Submission usizeMax T E) (ticket : Ticket) (expired : Option AcquisitionRejection)
    (blocked : Bool) : ClaimOutcome → Submission usizeMax T E
  | .ready permitId => { sub with lease := some (.reserved permitId), caller := .acquired true blocked }
  | .pending =>
    match expired with
    | some rejection => sub.go (.leaving (.failed (AcquisitionArbiter.toGovernorError rejection blocked)))
    | none => sub.go .parked
  | .terminal reason => sub.go (.leaving (.failed (.ticketClaimTerminated ticket.sequence reason)))
  | .invalid => sub.go (.leaving (.failed (.invalidTicketClaim ticket.sequence)))

/-- What the caller hears of its engine call in progress. -/
def hears (sub : Submission usizeMax T E) (e : Event) : Submission usizeMax T E :=
  match sub.caller, e with
  | .admitting, .answered answer => sub.admitted answer
  | .claiming expired blocked, .claimed ticket outcome => sub.claimed ticket expired blocked outcome
  | _, _ => sub

/-- An acquisition that failed answers at once, unless it holds a ticket. -/
def leave (sub : Submission usizeMax T E) (queued : Bool) (error : GovernorError) : Submission usizeMax T E :=
  if queued then sub.go (.leaving (.failed error)) else sub.answer error

/-- The guard of the ticket is gone. -/
def left (sub : Submission usizeMax T E) : Leaving → Submission usizeMax T E
  | .acquired => sub.go .dispatching
  | .failed error => sub.answer error
  | .dropped => sub.go .dropped

/-! ### Dispatch -/

/-- The phase a dispatch declares first. -/
def firstPhase (sub : Submission usizeMax T E) : ExecutionPhase :=
  if sub.plan.dispatch = .callerFuture then .running else .accepted

/-- The deadline of a cooperative run that starts now; a relative one may not be representable. -/
def runDeadline (sub : Submission usizeMax T E) (instantMax now : Nat) : Except GovernorError (Option Nat) :=
  match sub.plan.deadline with
  | none => .ok none
  | some (.completeBy instant) => .ok (some instant)
  | some (.runFor budget) =>
    match checkedAdd instantMax now budget with
    | some deadline => .ok (some deadline)
    | none => .error (.policyViolation "relative run deadline exceeds Instant range")

/-- The first phase was declared, or not: the caller polls its future, or hands the job over. -/
def dispatched (instantMax now : Nat) (sub : Submission usizeMax T E) :
    Except GovernorError Unit → Submission usizeMax T E
  | .error error => sub.go (.refused error)
  | .ok () =>
    if sub.plan.dispatch = .callerFuture then
      match sub.runDeadline instantMax now with
      | .ok deadline => sub.go (.polling deadline)
      | .error error => sub.go (.releasing (.error (.governor error)))
    else { sub with caller := .spawning, worker := .submitted }

/-- A run budget that started with the worker has passed at `now`. -/
def runExpired (sub : Submission usizeMax T E) (instantMax now : Nat) : Bool :=
  !sub.cooperative && sub.plan.runBudget.any fun budget =>
    sub.startedAt.any fun startedAt =>
      (checkedAdd instantMax startedAt budget).any fun expiresAt => expiresAt ≤ now

/-! ### The worker -/

/-- The worker replies without the lease and tears its runtime down. -/
def terminate (sub : Submission usizeMax T E) (error : GovernorError) : Submission usizeMax T E :=
  { sub with worker := .tearing, reply := if sub.listens then some (.governor error) else none }

/-- `Running` was declared, or not. -/
def started (instantMax now : Nat) (sub : Submission usizeMax T E) :
    Except GovernorError Unit → Submission usizeMax T E
  | .error error =>
    if sub.plan.dispatch = .dedicatedStackRuntime then sub.terminate error
    else sub.work (.sending (.error (.governor error)))
  | .ok () =>
    if sub.plan.dispatch = .dedicatedStackRuntime then
      match sub.runDeadline instantMax now with
      | .ok deadline => sub.work (.running deadline)
      | .error error => sub.work (.ended (some (.error (.governor error))))
    else { sub with told := true, worker := .running none }

/-- `CleanupPending` was declared, or not. An owned runtime that was told to stop answers before its
teardown, any other worker after. -/
def finished (sub : Submission usizeMax T E) (result : Option (Response T E)) :
    Except GovernorError Unit → Submission usizeMax T E
  | .error error =>
    if sub.plan.dispatch = .dedicatedStackRuntime then sub.terminate error
    else sub.work (.sending (.error (.governor error)))
  | .ok () =>
    match result with
    | none => sub.work (.sending (.error (.governor (.workerPanicked sub.context))))
    | some (.error (.governor .cancelled)) => sub.terminate .cancelled
    | some (.error (.governor .deadlineExceeded)) => sub.terminate .deadlineExceeded
    | some response => sub.work (.sending response)

/-! ### Turns -/

/-- The next point of the caller, at a reading of the host's clock and one of the governor's. -/
def callerTurn (around : Around) (sub : Submission usizeMax T E) (now : Nat) (sampledMs : UInt64) :
    Option (Request usizeMax T E) :=
  match sub.caller with
  | .checking =>
    match sub.arbiter.rejection around.fired now false with
    | some rejection => some (.goOn (sub.answer (AcquisitionArbiter.toGovernorError rejection false)))
    | none => some (.goOn (sub.go .submitting))
  | .submitting =>
    match sub.arbiter.rejection around.fired now false with
    | some rejection => some (.goOn (sub.answer (AcquisitionArbiter.toGovernorError rejection false)))
    | none =>
      some (.ask (.call (.admitValidatedRequirements sub.plan.task sub.plan.requirements (some sub.waker))
        sampledMs) fun
        | .answered answer => sub.admitted answer
        | _ => sub.go .admitting)
  | .acquired queued blocked =>
    match sub.arbiter.rejection around.fired now queued with
    | some rejection =>
      some (.goOn (sub.go (.unstarted queued (AcquisitionArbiter.toGovernorError rejection blocked))))
    | none => some (.goOn (sub.go (if queued then .leaving .acquired else .dispatching)))
  | .unstarted queued error => some (sub.dropLease sampledMs fun sub => sub.leave queued error)
  | .looking =>
    sub.ticket.map fun ticket =>
      .goOn (sub.go (.deciding (around.blockReason ticket = some .capability)))
  | .deciding blocked =>
    some (.goOn (sub.go (.asking (sub.arbiter.rejection around.fired now true) blocked)))
  | .asking expired blocked =>
    sub.ticket.map fun ticket =>
      .ask (.claim ticket sampledMs) fun
        | .claimed _ outcome => sub.claimed ticket expired blocked outcome
        | _ => sub.go (.claiming expired blocked)
  | .leaving why =>
    sub.ticket.map fun ticket =>
      match around.status ticket with
      | .terminal _ | .invalid => .goOn (sub.left why)
      | .ready _ | .pending => .goOn (sub.go (.abandoning why))
  | .abandoning why => sub.ticket.map fun ticket => .ask (.abandon ticket sampledMs) fun _ => sub.left why
  | .dispatching =>
    if !sub.cooperative && sub.responseBy.any fun deadline => deadline ≤ now then
      some (.goOn (sub.go (.refused .deadlineExceeded)))
    else some (.goOn (sub.go .accepting))
  | .accepting => sub.advance sub.firstPhase (dispatched around.instantMax now)
  | .refused error => some (sub.dropLease sampledMs fun sub => sub.answer error)
  | .releasing response => some (sub.dropLease sampledMs fun sub => sub.go (.settling response))
  | .settling response =>
    if sub.plan.cancel.any around.fired then some (.goOn (sub.answer .cancelled))
    else if sub.boundary.any fun deadline => deadline ≤ now then some (.goOn (sub.answer .deadlineExceeded))
    else some (.goOn (sub.go (.answered response)))
  | .discarding => some (sub.dropLease sampledMs fun sub => sub.go .dropped)
  | .admitting | .claiming _ _ | .parked | .spawning | .polling _ | .awaiting | .answered _ | .dropped => none

/-- The parked caller is polled. The select is biased, and only its notification is consumed. -/
def resume (around : Around) (sub : Submission usizeMax T E) (now : Nat) : Option (Submission usizeMax T E) :=
  match sub.caller with
  | .parked =>
    if sub.arbiter.cancel.any around.fired then some (sub.go .looking)
    else if sub.notified then some { sub with notified := false, caller := .looking }
    else if sub.arbiter.wakeDeadline.any fun deadline => deadline ≤ now then some (sub.go .looking)
    else none
  | _ => none

/-- The caller that waits for its worker is polled, in the order of its select. -/
def poll (around : Around) (sub : Submission usizeMax T E) (now : Nat) : Option (Submission usizeMax T E) :=
  match sub.caller with
  | .awaiting =>
    if sub.plan.cancel.any around.fired then some (sub.answer .cancelled).closeChannel
    else if sub.boundary.any fun deadline => deadline ≤ now then
      some (sub.answer .deadlineExceeded).closeChannel
    else if sub.told && sub.runExpired around.instantMax now then
      some (sub.answer .deadlineExceeded).closeChannel
    else
      match sub.worker, sub.reply with
      | .sent response completedAt, _ =>
        some { sub with
          worker := .over
          caller := .releasing
            (if sub.runExpired around.instantMax completedAt then .error (.governor .deadlineExceeded)
            else response) }
      | .tearing, some error | .over, some error => some (sub.go (.answered (.error error)))
      | .tearing, none | .over, none => some (sub.answer (.jobAbandoned sub.context))
      | _, _ => none
  | _ => none

/-- `run_cancellable`: how a poll of a cooperative job ends it, if it does. `work` is what the job comes to,
observed at `completedAt`. -/
def runCancellable (around : Around) (sub : Submission usizeMax T E) (deadline : Option Nat)
    (now completedAt : Nat) (work : Option (JobOutcome T E)) : Option (Option (Response T E)) :=
  if sub.plan.cancel.any around.fired then some (some (.error (.governor .cancelled)))
  else if deadline.any fun deadline => deadline ≤ now then some (some (.error (.governor .deadlineExceeded)))
  else work.map fun outcome =>
    outcome.result.map fun response =>
      if deadline.any fun deadline => deadline ≤ completedAt then .error (.governor .deadlineExceeded)
      else response

/-- A cooperative job is polled, on its caller's task or on its worker. -/
def pollJob (around : Around) (sub : Submission usizeMax T E) (now completedAt : Nat)
    (work : Option (JobOutcome T E)) : Option (Submission usizeMax T E) :=
  match sub.caller, sub.worker with
  | .polling deadline, _ =>
    (sub.runCancellable around deadline now completedAt work).map fun
      | some response => sub.go (.releasing response)
      | none => sub.go .discarding
  | _, .running deadline =>
    if sub.plan.dispatch = .dedicatedStackRuntime then
      -- A caller that stopped waiting stops the job.
      if !sub.listens then some (sub.work (.ended (some (.error (.governor .cancelled)))))
      else (sub.runCancellable around deadline now completedAt work).map fun result => sub.work (.ended result)
    else none
  | _, _ => none

/-- The caller's future is dropped, at a point where it waits. -/
def dropCaller (sub : Submission usizeMax T E) : Option (Submission usizeMax T E) :=
  match sub.caller with
  | .checking => some (sub.go .dropped)
  | .parked => some (sub.go (.abandoning .dropped))
  | .polling _ => some (sub.go .discarding)
  | .awaiting => some (sub.go .dropped).closeChannel
  | _ => none

/-- The executor took the closure, or failed to. A thread that could not be spawned drops it; a CPU
executor that panicked may still run it. -/
def spawnReturned (sub : Submission usizeMax T E) (accepted : Bool) : Option (Submission usizeMax T E) :=
  match sub.caller, accepted, sub.plan.dispatch, sub.worker with
  | .spawning, true, _, _ => some (sub.go .awaiting)
  | .spawning, false, .cpuExecutor, _ => some (sub.answer (.workerPanicked "cpu executor spawn")).closeChannel
  | .spawning, false, .dedicatedStackThread, .submitted | .spawning, false, .dedicatedStackRuntime, .submitted =>
    some { sub with worker := .idle, caller := .refused (.workerUnavailable sub.context) }
  | _, _, _, _ => none

/-- The executor starts to run the closure. -/
def start (sub : Submission usizeMax T E) (now : Nat) : Option (Submission usizeMax T E) :=
  match sub.worker with
  | .submitted =>
    let sub := { sub with startedAt := some now }
    if !sub.cooperative && sub.responseBy.any fun deadline => deadline ≤ now then
      some (sub.work (.sending (.error (.governor .deadlineExceeded))))
    else some (sub.work .ready)
  | _ => none

/-- The executor drops the closure unrun. -/
def discard (sub : Submission usizeMax T E) : Option (Submission usizeMax T E) :=
  match sub.worker with
  | .submitted => some (sub.work .tearing)
  | _ => none

/-- No runtime could be built for the worker. -/
def runtimeFailed (sub : Submission usizeMax T E) : Option (Submission usizeMax T E) :=
  match sub.worker with
  | .ready =>
    if sub.plan.dispatch = .dedicatedStackRuntime then some (sub.terminate (.workerUnavailable sub.context))
    else none
  | _ => none

/-- A job that cannot be stopped ends. -/
def jobEnds (sub : Submission usizeMax T E) (outcome : JobOutcome T E) : Option (Submission usizeMax T E) :=
  match sub.worker with
  | .running _ => if sub.cooperative then none else some (sub.work (.ended outcome.result))
  | _ => none

/-- The next point of the worker. -/
def workerTurn (around : Around) (sub : Submission usizeMax T E) (now : Nat) (sampledMs : UInt64) :
    Option (Request usizeMax T E) :=
  match sub.worker with
  | .ready => sub.advance .running (started around.instantMax now)
  | .ended result =>
    if sub.plan.dispatch = .dedicatedStackRuntime && result.isNone then
      some (.goOn (sub.terminate (.workerPanicked sub.context)))
    else sub.advance .cleanupPending fun sub => sub.finished result
  | .sending response =>
    some (.goOn (if sub.listens then sub.work (.sent response now) else sub.work .tearing))
  | .tearing => some (sub.dropLease sampledMs fun sub => sub.work .over)
  | .idle | .submitted | .running _ | .sent _ _ | .over => none

end Submission

/-- What moves a submission. -/
inductive Turn (T E : Type) where
  | caller (now : Nat) (sampledMs : UInt64)
  | resume (now : Nat)
  | poll (now : Nat)
  | pollJob (now completedAt : Nat) (work : Option (JobOutcome T E))
  | dropCaller
  | spawnReturned (accepted : Bool)
  | start (now : Nat)
  | discard
  | runtimeFailed
  | jobEnds (outcome : JobOutcome T E)
  | worker (now : Nat) (sampledMs : UInt64)

/-- What a submission does when it is moved, if it can be. -/
def Submission.turn (around : Around) (sub : Submission usizeMax T E) : Turn T E → Option (Request usizeMax T E)
  | .caller now sampledMs => sub.callerTurn around now sampledMs
  | .resume now => (sub.resume around now).map .goOn
  | .poll now => (sub.poll around now).map .goOn
  | .pollJob now completedAt work => (sub.pollJob around now completedAt work).map .goOn
  | .dropCaller => sub.dropCaller.map .goOn
  | .spawnReturned accepted => (sub.spawnReturned accepted).map .goOn
  | .start now => (sub.start now).map .goOn
  | .discard => sub.discard.map .goOn
  | .runtimeFailed => sub.runtimeFailed.map .goOn
  | .jobEnds outcome => (sub.jobEnds outcome).map .goOn
  | .worker now sampledMs => sub.workerTurn around now sampledMs

end Taskmesh.Host
