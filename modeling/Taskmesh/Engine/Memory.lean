import Taskmesh.Engine.Admission

/-!
# Memory governance

Permit sizing, reconcile, stage-boundary release and the leak sweep (`features/memory/mod.rs`).
-/

namespace Taskmesh

open Std MachineInt

def defaultLeakStaleMs : Nat := 60000

/-- The memory units a permit should hold once `measuredBytes` are known, given its mode. The
remaining reservation, not the original estimate, is the floor. -/
def effectiveUnits (mode : MemoryPermitMode) (remainingReservationUnits measuredBytes : Nat)
    (scale : MemoryUnitScale) : Except ResourceConversionError Nat :=
  match mode with
  | .estimated => .ok remainingReservationUnits
  | .measured => scale.unitsFor measuredBytes
  | .hybrid => (scale.unitsFor measuredBytes).map fun units => max remainingReservationUnits units

/-- A still-held permit looks leaked: untouched past the staleness window. -/
def isStale (lastTouchedMs nowMs staleAfterMs : Nat) : Bool :=
  saturatingAdd u64Max lastTouchedMs staleAfterMs < nowMs

def stageReleaseAllowed : MemoryReleasePolicy → Bool
  | .onStageBoundary => true
  | .leakDetecting => true
  | .onTaskCompletion => false

/-- Outcome of a memory reconcile. -/
inductive ReconcileOutcome where
  | applied (heldUnits : Nat)
  | unknownPermit
  | staleEpoch (currentEpoch : Nat)
  | epochExhausted (currentEpoch : Nat)
  | conversionFailed (error : ResourceConversionError)
  deriving DecidableEq

namespace GovernedState

/-- Apply one change to the three memory totals: global, class and, for a child, its root. -/
def adjustMemory (s : GovernedState) (c : TaskClass) (root : Option String) (f : Nat → Nat) :
    GovernedState :=
  { s with
    memoryUnitsHeld := f s.memoryUnitsHeld
    classes := s.classes.modify c fun cs => { cs with memoryUnitsHeld := f cs.memoryUnitsHeld }
    roots :=
      match root with
      | some root => s.roots.modify root fun r => { r with memoryUnits := f r.memoryUnits }
      | none => s.roots }

/-- Lower one total, unless it holds less than `units`. -/
def lowered (units held : Nat) : Nat := (checkedSub held units).getD held

/-- One of the three totals holds less than `units`. -/
def memoryUnderflow (s : GovernedState) (c : TaskClass) (root : Option String) (units : Nat) : Bool :=
  (checkedSub s.memoryUnitsHeld units).isNone ||
    (s.classes[c]?.any fun cs => (checkedSub cs.memoryUnitsHeld units).isNone) ||
    ((root.bind fun root => s.roots[root]?).any fun r => (checkedSub r.memoryUnits units).isNone)

/-- Apply a signed effective-memory delta. A total that holds less than a drop stays as it is, and
the disagreement is a sticky fault. -/
def applyMemoryDelta (s : GovernedState) (c : TaskClass) (root : Option String) (delta : Int) :
    GovernedState :=
  if delta ≥ 0 then s.adjustMemory c root fun held => held + delta.natAbs
  else
    let lower := s.adjustMemory c root (lowered delta.natAbs)
    if s.memoryUnderflow c root delta.natAbs then
      lower.recordAccountingFault "memory release exceeds the units a ledger holds"
    else lower

/-- Write a permit's ledger and move the totals by the difference of its effective charge. -/
def rechargePermit (s : GovernedState) (permitId : PermitId) (record : PermitRecord)
    (ledger : PermitLedger) : GovernedState :=
  let root := if record.scope.isChild then some record.rootOperationId else none
  let s := { s with permits := s.permits.insert permitId { record with ledger := ledger } }
  s.applyMemoryDelta record.taskClass root (ledger.effectiveUnits - record.ledger.effectiveUnits : Int)

end GovernedState

/-- The ledger after an accepted reading. A late arrival does not drag activity backwards. -/
def PermitLedger.measured (ledger : PermitLedger) (measuredBytes sequence units nowMs : Nat) :
    PermitLedger :=
  { ledger with
    measuredBytes := measuredBytes
    measurementSequence := sequence
    effectiveUnits := units
    lastTouchedMs := max ledger.lastTouchedMs nowMs }

/-- The ledger after a stage returned `freed` units. The reservation shrinks with the release, or an
`estimated` reconcile would resurrect the units. -/
def PermitLedger.staged (ledger : PermitLedger) (freed : Nat) (sequence : Option Nat) (nowMs : Nat) :
    PermitLedger :=
  { ledger with
    stageSequence := sequence.getD ledger.stageSequence
    effectiveUnits := ledger.effectiveUnits - freed
    remainingReservationUnits := ledger.remainingReservationUnits - freed
    lastTouchedMs := max ledger.lastTouchedMs nowMs }

/-- Reconcile a permit's held memory against a fresh reading, ordered by `sequence`. -/
def reconcile (s : GovernedState) (permitId : PermitId) (measuredBytes sequence : Nat)
    (mode : MemoryPermitMode) (scale : MemoryUnitScale) (nowMs : Nat) :
    GovernedState × ReconcileOutcome :=
  match s.permits[permitId]? with
  | none => (s, .unknownPermit)
  | some record =>
    if record.ledger.measurementSequence = u64Max then (s, .epochExhausted u64Max)
    else if sequence ≤ record.ledger.measurementSequence then
      (s, .staleEpoch record.ledger.measurementSequence)
    else
      match effectiveUnits mode record.ledger.remainingReservationUnits measuredBytes scale with
      | .error error =>
        (s.recordAccountingFault "measured memory exceeds the unit domain", .conversionFailed error)
      | .ok units =>
        (s.rechargePermit permitId record (record.ledger.measured measuredBytes sequence units nowMs),
          .applied units)

/-- Stage-boundary release: return memory while keeping the permit alive. `sequence` deduplicates
stage events when it is given. -/
def releaseStageMemory (s : GovernedState) (permitId : PermitId) (freedUnits : Nat)
    (policy : MemoryReleasePolicy) (sequence : Option Nat) (nowMs : Nat) :
    GovernedState × StageReleaseOutcome :=
  if !stageReleaseAllowed policy then (s, .policyForbids policy)
  else
    match s.permits[permitId]? with
    | none => (s, .unknownPermit)
    | some record =>
      if sequence.any fun sequence => decide (sequence ≤ record.ledger.stageSequence) then
        (s, .staleSequence record.ledger.stageSequence)
      else
        let freed := min freedUnits record.ledger.effectiveUnits
        (s.rechargePermit permitId record (record.ledger.staged freed sequence nowMs), .released freed)

/-! ## Leak sweep -/

/-- The permit's class opted into leak detection and its lease is stale. -/
def isSuspected (policies : PolicySet) (nowMs staleAfterMs : Nat) (record : PermitRecord) : Bool :=
  (policies.classPolicy record.taskClass).any (fun p =>
      decide (p.memoryReleasePolicy = .leakDetecting)) &&
    isStale record.ledger.lastTouchedMs nowMs staleAfterMs

/-- The suspected permits that never reached an executor, in permit order. -/
def reclaimable (s : GovernedState) (policies : PolicySet) (nowMs staleAfterMs : Nat) :
    List PermitId :=
  (s.permits.toList.filter fun entry =>
    isSuspected policies nowMs staleAfterMs entry.2 && decide (entry.2.phase = .dispatchReserved)).map
    fun entry => entry.2.permitId

/-- Unwind every listed permit, counting those that were there. -/
def reclaimAll : List PermitId → GovernedState → TransitionEffects → Nat →
    GovernedState × TransitionEffects × Nat
  | [], s, effects, count => (s, effects, count)
  | permitId :: rest, s, effects, count =>
    match s.unwind permitId .reclaimed effects with
    | some (s, effects) => reclaimAll rest s effects (wrappingAdd u32Max count 1)
    | none => reclaimAll rest s effects count

/-- Sweep outstanding permits for leaks. A stale lease on running work is reported and left
charged. -/
def reapLeaks (s : GovernedState) (policies : PolicySet) (nowMs staleAfterMs : Nat)
    (effects : TransitionEffects) : GovernedState × TransitionEffects × LeakSweepReport :=
  let suspected := s.permits.toList.countP fun entry => isSuspected policies nowMs staleAfterMs entry.2
  let retained := s.permits.toList.countP fun entry =>
    isSuspected policies nowMs staleAfterMs entry.2 && decide (entry.2.phase ≠ .dispatchReserved)
  let (s, effects, reclaimed) := reclaimAll (reclaimable s policies nowMs staleAfterMs) s effects 0
  (s, effects,
    { reclaimedPermits := reclaimed
      suspectedLeaks := min suspected u32Max
      retainedActive := min retained u32Max })

end Taskmesh
