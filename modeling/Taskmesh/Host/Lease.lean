import Taskmesh.Engine.System
import Taskmesh.Host.Plan

/-!
# Execution leases

Custody of one permit on the host's side (`ExecutionLease` of `runtime.rs`): whoever holds the value owns
the execution, and dropping it returns the permit with the proof it was given.
-/

namespace Taskmesh.Host

/-- What a lease holds over its permit. -/
inductive Custody where
  /-- Admitted, not yet dispatched: releasable by id. -/
  | reserved
  /-- Dispatched: only this token ends the permit. -/
  | leased (token : LeaseToken)
  | gone
  deriving DecidableEq

structure ExecutionLease where
  permitId : PermitId
  custody : Custody
  deriving DecidableEq

namespace ExecutionLease

/-- A lease over a freshly granted, undispatched permit. -/
def reserved (permitId : PermitId) : ExecutionLease := ⟨permitId, .reserved⟩

/-- The token a lease holds. -/
def token (lease : ExecutionLease) : Option LeaseToken :=
  match lease.custody with
  | .leased token => some token
  | _ => none

/-- The engine call `advance` makes: none for a lease with nothing left. -/
def advanceAction (lease : ExecutionLease) (phase : ExecutionPhase) : Except GovernorError Action :=
  if lease.custody = .gone then .error (.leaseReclaimed lease.permitId.sequence)
  else .ok (.advancePhase lease.permitId phase)

/-- `advance` once the engine has answered. -/
def advanced (lease : ExecutionLease) (phase : ExecutionPhase) (outcome : AdvanceOutcome) :
    ExecutionLease × Except GovernorError Unit :=
  match outcome with
  | .leased token => ({ lease with custody := .leased token }, .ok ())
  | .advanced =>
    if lease.token.isSome then (lease, .ok ())
    else
      -- Something else took the token: this lease can no longer release the permit.
      ({ lease with custody := .gone },
        .error (.policyViolation ("permit " ++ lease.permitId.display ++
          " was leased outside its runtime lease; the runtime cannot release it and will not run under it")))
  | .refused .unknownPermit =>
    ({ lease with custody := .gone }, .error (.leaseReclaimed lease.permitId.sequence))
  | .refused (.notLater current) =>
    (lease, .error (.policyViolation ("execution phase " ++ phase.debug ++ " does not advance permit " ++
      lease.permitId.display ++ " (currently " ++ current.debug ++ ")")))

/-- The engine call a drop makes, if any. -/
def dropAction (lease : ExecutionLease) (sampledMs : UInt64) : Option Action :=
  match lease.custody with
  | .reserved => some (.release lease.permitId sampledMs)
  | .leased token => some (.releaseLeased token sampledMs)
  | .gone => none

/-- What a drop leaves. -/
def dropped (lease : ExecutionLease) : ExecutionLease := { lease with custody := .gone }

end ExecutionLease

end Taskmesh.Host
