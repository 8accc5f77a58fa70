import Taskmesh.Host.Errors

/-!
# Cancellation and deadlines

The bounds a submission puts on its wait and on its run (`executor/cancel.rs`). Before the lease is handed
over a single arbiter decides between them: cancellation, then the absolute deadline, then the relative
budget, and an instant that is reached has expired.
-/

namespace Taskmesh.Host

open MachineInt

/-- A cancellation token, by its allocation; once fired it stays so. -/
abbrev CancellationToken := Nat

/-- The deadline of a submission; instants and durations are counted in one unit. -/
inductive SubmissionDeadline where
  | runFor (budget : Nat)
  | completeBy (instant : Nat)
  deriving DecidableEq

structure SubmitOptions where
  cancel : Option CancellationToken := none
  acquireTimeout : Option Nat := none
  deadline : Option SubmissionDeadline := none
  deriving DecidableEq

/-- `SubmitOptions::unbounded`: no cancellation, wait indefinitely. -/
def SubmitOptions.unbounded : SubmitOptions := {}

inductive RelativeAcquisitionBudget where
  | unbounded
  | tryOnce
  | atInstant (deadline : Nat)
  deriving DecidableEq

inductive AcquisitionRejection where
  | cancelled
  | absoluteDeadline
  | relativeTimeout
  deriving DecidableEq

/-- The single owner of what ends an acquisition. -/
structure AcquisitionArbiter where
  cancel : Option CancellationToken
  absoluteDeadline : Option Nat
  relative : RelativeAcquisitionBudget
  deriving DecidableEq

namespace AcquisitionArbiter

/-- `instantMax` is the last instant the clock can represent. -/
def new (instantMax : Nat) (opts : SubmitOptions) (absoluteDeadline : Option Nat) (now : Nat) :
    Except GovernorError AcquisitionArbiter :=
  match opts.acquireTimeout with
  | none => .ok ⟨opts.cancel, absoluteDeadline, .unbounded⟩
  | some 0 => .ok ⟨opts.cancel, absoluteDeadline, .tryOnce⟩
  | some timeout =>
    match checkedAdd instantMax now timeout with
    | some deadline => .ok ⟨opts.cancel, absoluteDeadline, .atInstant deadline⟩
    | none => .error (.policyViolation "acquire timeout exceeds Instant range")

/-- The earliest instant that can wake a queued acquisition. -/
def wakeDeadline (arbiter : AcquisitionArbiter) : Option Nat :=
  match arbiter.absoluteDeadline, arbiter.relative with
  | some absolute, .atInstant relative => some (min absolute relative)
  | some absolute, _ => some absolute
  | none, .atInstant relative => some relative
  | none, _ => none

/-- What ends the acquisition now, if anything does; `fired` says which tokens have fired. -/
def rejection (arbiter : AcquisitionArbiter) (fired : CancellationToken → Bool) (now : Nat) (queued : Bool) :
    Option AcquisitionRejection :=
  if arbiter.cancel.any fired then some .cancelled
  else if arbiter.absoluteDeadline.any fun deadline => deadline ≤ now then some .absoluteDeadline
  else
    match arbiter.relative with
    | .tryOnce => if queued then some .relativeTimeout else none
    | .atInstant deadline => if deadline ≤ now then some .relativeTimeout else none
    | .unbounded => none

def toGovernorError (rejection : AcquisitionRejection) (capabilityBlocked : Bool) : GovernorError :=
  match rejection with
  | .cancelled => .rejected .cancelledBeforeSubmit
  | .absoluteDeadline => .deadlineExceeded
  | .relativeTimeout =>
    if capabilityBlocked then .rejected (.substratePoolTimedOut none)
    else .rejected (.permitAcquireTimedOut none)

end AcquisitionArbiter

end Taskmesh.Host
