import Taskmesh.Engine.Delivery
import Taskmesh.Engine.Observation

/-!
# Graceful drain of the Tokio host

Any number of `drain` calls over one governor. Every engine step is atomic as before; a drain call moves
through its own atomic points: it stores the flag, closes admission, and then creates a `Notified`, looks
at the gauges and parks until that `Notified` is completed or its deadline passes. The settlement port
first loads the flag, outside the lock, and notifies in a later step.
-/

namespace Taskmesh.Host

open Std MachineInt

/-- Work still charged to one class when a drain gave up. -/
structure Outstanding where
  inflight : Nat
  queued : Nat
  deriving DecidableEq

structure DrainReport where
  elapsed : Nat
  classesDrained : Nat

structure NotDrained where
  classes : BTreeMap TaskClass Outstanding
  elapsed : Nat

/-- The classes with work still charged, from one authoritative snapshot. -/
def outstanding (snapshot : Snapshot) : BTreeMap TaskClass Outstanding :=
  snapshot.classes.filterMap fun _ c =>
    if 0 < c.inflight ∨ 0 < c.queued then some ⟨c.inflight, c.queued⟩ else none

/-- Where a drain call stands. A `Notified` that exists says whether it is completed. -/
inductive DrainPoint where
  /-- About to store the flag. -/
  | starting
  | closing
  /-- About to create a `Notified`. -/
  | looping
  /-- About to look at the gauges. -/
  | looking (notified : Bool)
  /-- Work was outstanding; about to park. -/
  | looked (notified : Bool)
  | parked (notified : Bool)
  /-- The deadline passed; about to look once more. -/
  | expired
  | returned (result : Except NotDrained DrainReport)

/-- A drain call; it waits without a bound when the clock cannot represent its deadline. -/
structure DrainCall where
  started : Nat
  deadline : Option Nat
  point : DrainPoint

/-- `DrainSignal` with the drain calls on it, over a governor. `notifying` counts the settlements that
loaded the flag as set and have not notified yet. -/
structure DrainSys (g : Governor) where
  engine : g.System
  draining : Bool := false
  notifying : Nat := 0
  drains : List DrainCall := []

/-- `Notify::notify_waiters`: every `Notified` that exists is completed. -/
def DrainPoint.notify : DrainPoint → DrainPoint
  | looking _ => looking true
  | looked _ => looked true
  | parked _ => parked true
  | point => point

def DrainCall.notify (call : DrainCall) : DrainCall := { call with point := call.point.notify }

inductive DrainAction where
  /-- A step of the governor; the last round of a call that settles loads the flag. -/
  | engine (action : Action)
  /-- A settlement that saw the flag notifies the waiters. -/
  | notify
  | start (timeout now : Nat)
  /-- The next point of a drain call, at a reading of the clock. -/
  | advance (drain : Nat) (now : Nat)
  /-- A parked drain is polled after its deadline. -/
  | expire (drain : Nat) (now : Nat)
  /-- The caller drops a drain that is parked. -/
  | cancel (drain : Nat)

inductive DrainEvent where
  | engine (event : Event)
  | progressed
  | returned (drain : Nat) (result : Except NotDrained DrainReport)

variable {g : Governor}

/-- The drain call moves to its next point. -/
def DrainSys.moveTo (σ : DrainSys g) (drain : Nat) (call : DrainCall) (point : DrainPoint) :
    DrainSys g × DrainEvent :=
  ({ σ with drains := σ.drains.set drain { call with point := point } },
    match point with
    | .returned result => .returned drain result
    | _ => .progressed)

/-- Look at the gauges: the call returns when every class is at zero, and otherwise goes on at `left`. -/
def DrainSys.look (σ : DrainSys g) (drain : Nat) (call : DrainCall) (now : Nat)
    (left : BTreeMap TaskClass Outstanding → DrainPoint) : DrainSys g × DrainEvent :=
  let snapshot := g.snapshot σ.engine.state
  let classes := outstanding snapshot
  if classes.isEmpty then
    σ.moveTo drain call (.returned (.ok ⟨now - call.started, snapshot.classes.size⟩))
  else σ.moveTo drain call (left classes)

/-- The next point of a drain call that is not waiting. -/
def DrainSys.advance (σ : DrainSys g) (drain : Nat) (call : DrainCall) (now : Nat) :
    Option (DrainSys g × DrainEvent) :=
  match call.point with
  | .starting => some ({ σ with draining := true }.moveTo drain call .closing)
  | .closing =>
    let engine := { σ.engine with state := σ.engine.state.closeAdmission }
    some ({ σ with engine := engine }.moveTo drain call .looping)
  | .looping => some (σ.moveTo drain call (.looking false))
  | .looking notified => some (σ.look drain call now fun _ => .looked notified)
  | .looked notified => some (σ.moveTo drain call (.parked notified))
  | .parked true => some (σ.moveTo drain call .looping)
  | .parked false => none
  | .expired =>
    some (σ.look drain call now fun classes => .returned (.error ⟨classes, now - call.started⟩))
  | .returned _ => none

/-- The select is biased: the deadline decides only while the `Notified` is not completed. -/
def DrainCall.expires (call : DrainCall) (now : Nat) : Bool :=
  match call.point, call.deadline with
  | .parked false, some deadline => deadline ≤ now
  | _, _ => false

def DrainCall.isParked (call : DrainCall) : Bool :=
  match call.point with
  | .parked _ => true
  | _ => false

/-- `DrainSignal::settled` up to the load: whoever sees the flag goes on to notify. -/
def DrainSys.loadFlag (σ : DrainSys g) : DrainSys g :=
  if σ.draining then { σ with notifying := σ.notifying + 1 } else σ

variable (g) in
/-- One atomic step. `instantMax` is the last instant the clock can represent. -/
def drainStep (instantMax : Nat) (σ : DrainSys g) : DrainAction → Option (DrainSys g × DrainEvent)
  | .engine a =>
    (g.step σ.engine a).map fun next =>
      let σ' := { σ with engine := next.1 }
      (if Governor.settles σ.engine a then σ'.loadFlag else σ', .engine next.2)
  | .notify =>
    if 0 < σ.notifying then
      some ({ σ with notifying := σ.notifying - 1, drains := σ.drains.map DrainCall.notify }, .progressed)
    else none
  | .start timeout now =>
    let call : DrainCall := ⟨now, checkedAdd instantMax now timeout, .starting⟩
    some ({ σ with drains := σ.drains ++ [call] }, .progressed)
  | .advance drain now => σ.drains[drain]?.bind fun call => σ.advance drain call now
  | .expire drain now =>
    match σ.drains[drain]? with
    | some call => if call.expires now then some (σ.moveTo drain call .expired) else none
    | none => none
  | .cancel drain =>
    match σ.drains[drain]? with
    | some call => if call.isParked then some ({ σ with drains := σ.drains.eraseIdx drain }, .progressed)
      else none
    | none => none

variable (g) in
/-- A runtime as it is built. -/
def drainInit : DrainSys g := { engine := g.init }

variable (g) in
/-- The states any interleaving of drains and engine calls can reach. -/
def DrainReachable (instantMax : Nat) (σ : DrainSys g) : Prop :=
  Runs.Reachable (drainStep g instantMax) (drainInit g) σ

end Taskmesh.Host
