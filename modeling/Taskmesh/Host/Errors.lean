import Taskmesh.Engine.Validation
import Taskmesh.Contract.Topology

/-!
# Errors of the host

What a submission or the builder answers when it refuses (`verdict.rs`, `topology.rs`). A failure of the
task itself is kept apart from a failure of the governor.
-/

namespace Taskmesh

/-- Why a topology is not constructible, or an executor does not fit it. -/
inductive TopologyError where
  | invertedCpuWorkerBounds (minWorkers maxWorkers : Nat)
  | slotCountTooLarge (pool : String) (slots max : Nat)
  | zeroFixedCpuWorkers
  | executorSubmissionMayBlock
  | executorPhysicalDomainUnknown
  | executorWorkerCountUnknown
  | unknownExecutorPhysicalDomain (domain : String)
  | zeroFixedPhysicalDomain (domain : String)
  | executorWorkerCountMismatch (declared resolved : Nat) (domain : String)
  deriving DecidableEq

/-- The verdict of a refused submission: one of the engine, or one only the host gives. -/
inductive SubmissionVerdict where
  | engine (verdict : AdmissionVerdict)
  | cancelledBeforeSubmit
  | permitAcquireTimedOut (retryAfterMs : Option Nat)
  | substratePoolTimedOut (retryAfterMs : Option Nat)
  | substrateMismatch
  deriving DecidableEq

/-- An error of the governor or the host. A policy violation found by the engine keeps its own type. -/
inductive GovernorError where
  | rejected (verdict : SubmissionVerdict)
  | ticketClaimTerminated (ticket : Nat) (reason : TerminalReason)
  | invalidTicketClaim (ticket : Nat)
  | policyViolation (message : String)
  | invalidPolicy (violation : PolicyViolation)
  | invalidTopology (error : TopologyError)
  | cancelled
  | deadlineExceeded
  | deadlineUnsupported (taskClass : TaskClass) (policy : CancellationPolicy)
  | leaseReclaimed (permitId : Nat)
  | workerUnavailable (context : String)
  | workerPanicked (context : String)
  | jobAbandoned (context : String)
  deriving DecidableEq

/-- The split between a failure of the governor and the task's own error. -/
inductive RunError (E : Type) where
  | governor (error : GovernorError)
  | task (error : E)
  deriving DecidableEq

def CapabilityResolutionError.display : CapabilityResolutionError → String
  | .emptyName => "capability name must be non-empty"
  | .unknownName name => "unknown capability: " ++ name
  | .foreignId => "capability id is not registered by this policy"
  | .tooManyRequirements max => "capability requirement count exceeds bounded maximum " ++ toString max

def PermitId.display (p : PermitId) : String := toString p.authority ++ ":" ++ toString p.sequence

def ExecutionPhase.debug : ExecutionPhase → String
  | .dispatchReserved => "DispatchReserved"
  | .accepted => "Accepted"
  | .running => "Running"
  | .cleanupPending => "CleanupPending"

end Taskmesh
