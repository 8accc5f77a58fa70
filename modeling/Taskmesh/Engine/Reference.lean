import Taskmesh.Collections.RingWalk
import Taskmesh.Engine.Scheduler

/-!
# The textbook deficit round robin

The oracle the scheduler is tested against (`tests/hardening_fairness_reference.rs`): it credits one
quantum per visit and walks the ring one class at a time, so it may take any number of visits. It is
the abstract behaviour of `drrSelect`, which computes the same answer without the walk.
-/

namespace Taskmesh

open MachineInt

/-- A naive deficit round robin over the known classes, in ascending order. -/
structure ReferenceDrr where
  classes : List TaskClass
  quanta : TaskClass → Nat
  deficits : TaskClass → Nat
  queues : TaskClass → List Nat
  cursor : Option TaskClass
  /-- Classes whose head cannot run right now. They are not visited and keep their credit. -/
  blocked : TaskClass → Bool

namespace ReferenceDrr

def candidates (r : ReferenceDrr) : List TaskClass :=
  r.classes.filter fun c => !(r.queues c).isEmpty && !r.blocked c

/-- The cost of the request at the front of a queue that is not empty. -/
def headCost (r : ReferenceDrr) (c : TaskClass) : Nat := (r.queues c).head?.getD 0

/-- The ring of the classes that can run. -/
def ring (r : ReferenceDrr) : List (RingWalk.Slot TaskClass) :=
  r.candidates.map fun c => ⟨c, r.quanta c, r.headCost c⟩

/-- The cursor class, while it can still afford its head. -/
def cursorServes (r : ReferenceDrr) : Option TaskClass :=
  match r.cursor with
  | none => none
  | some cursor =>
    if cursor ∈ r.candidates ∧ r.headCost cursor ≤ r.deficits cursor then some cursor else none

def start (r : ReferenceDrr) : Nat :=
  match r.cursor with
  | some cursor => (r.candidates.findIdx? fun c => compare c cursor == .gt).getD 0
  | none => 0

/-- The class served next, with its head paid: the cursor class, or the first one on the ring that
affords its head. `none` when the walk is not over within the visits allowed. -/
def choose (r : ReferenceDrr) (fuel : Nat) : Option (TaskClass × ReferenceDrr) :=
  match r.cursorServes with
  | some c =>
    some (c, { r with deficits := Function.update r.deficits c (r.deficits c - r.headCost c) })
  | none =>
    match RingWalk.walk r.ring fuel r.deficits r.start with
    | none => none
    | some (c, deficits) => some (c, { r with deficits := deficits, cursor := some c })

/-- Take the head of a queue; a drained queue ends the busy period, and its credit with it. -/
def pop (r : ReferenceDrr) (c : TaskClass) : ReferenceDrr :=
  { r with
    queues := Function.update r.queues c (r.queues c).tail
    deficits :=
      if (r.queues c).tail.isEmpty then Function.update r.deficits c 0 else r.deficits }

/-- Serve one request, returning the class served. -/
def select (r : ReferenceDrr) (fuel : Nat) : Option (Option TaskClass × ReferenceDrr) :=
  if r.candidates.isEmpty then some (none, r)
  else (r.choose fuel).map fun (c, chosen) => (some c, chosen.pop c)

/-- The oracle and the scheduler are about to decide the same round. -/
structure Matches (r : ReferenceDrr) (s : GovernedState) (pool : List Candidate) : Prop where
  candidates : r.candidates = pool.map Candidate.taskClass
  quanta : ∀ c ∈ pool, r.quanta c.taskClass = drrQuantum c.fairness
  heads : ∀ c ∈ pool, ∃ rest, r.queues c.taskClass = max c.headCostCpu 1 :: rest
  deficits : ∀ c, r.deficits c = (s.cls c).deficit
  cursor : r.cursor = s.drrCursor

end ReferenceDrr

/-- No addition of the credit loop of `drrSelect` leaves `u128`. -/
def CreditsFit (s : GovernedState) (pool : List Candidate) : Prop :=
  drrCursorServes s pool = none → ∀ first rest, planVisits s pool (drrStart s pool) = first :: rest →
    ∀ v ∈ first :: rest, v.offset ≤ (earliestVisit first rest).visitPos →
      (s.cls v.taskClass).deficit +
        (((earliestVisit first rest).visitPos - v.offset) / pool.length + 1) * v.quantum ≤ u128Max

end Taskmesh
