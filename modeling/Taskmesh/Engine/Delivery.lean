import Taskmesh.Engine.System

/-!
# Effects outside the lock

Host code runs only while the mutex is released. `apply_effects` wakes and destroys the references a
transition returned, every call contained; a call in progress does so before it goes on, and
`drain_effects_captured` does it once for every pass and then tells the settlement port. Only the payload of
the first panic is kept, and the destructor of any other one runs where nothing contains it.
-/

namespace Taskmesh

/-- A call of host code. -/
inductive HostCall where
  | wake (waker : Waker)
  | drop (waker : Waker)
  /-- The settlement port of the host. -/
  | settled
  deriving DecidableEq

/-- How host code ends. The payload of a panic may be a value whose own destructor panics. -/
inductive Fate where
  | returns
  | panics (payloadPanics : Bool)
  deriving DecidableEq

/-- What becomes of the code that contains host calls. -/
inductive Ending where
  | contained
  /-- A payload panicked outside `catch_unwind`: the call is left, and what it holds is destroyed. -/
  | unwinding
  /-- Host code panicked while the call was unwound. -/
  | aborted
  deriving DecidableEq

/-- Host calls under `catch_unwind`: which were made, in order, and the payload kept of the first panic, by
whether its destructor panics. -/
structure HostRun where
  calls : List HostCall := []
  firstPanic : Option Bool := none
  ending : Ending := .contained
  deriving DecidableEq

/-- `first_panic.get_or_insert(payload)`: a payload that is not kept is destroyed there, outside
`catch_unwind`. -/
def HostRun.getOrInsert (run : HostRun) (payloadPanics : Bool) : HostRun :=
  match run.firstPanic with
  | none => { run with firstPanic := some payloadPanics }
  | some _ => if payloadPanics then { run with ending := .unwinding } else run

/-- One call of host code; `fates` says how the calls end, by position. While the call is unwound only
destructors run, and none may panic. -/
def HostRun.contain (fates : Nat → Fate) (run : HostRun) (call : HostCall) : HostRun :=
  let made := { run with calls := run.calls ++ [call] }
  match run.ending, call with
  | .contained, _ =>
    match fates run.calls.length with
    | .returns => made
    | .panics payloadPanics => made.getOrInsert payloadPanics
  | .unwinding, .drop _ => if fates run.calls.length = .returns then made else { made with ending := .aborted }
  | .unwinding, _ => run
  | .aborted, _ => run

/-- The kept payload goes out of scope while the call is unwound. -/
def HostRun.dropPayload (run : HostRun) : HostRun :=
  if run.ending = .unwinding && run.firstPanic = some true then { run with ending := .aborted } else run

/-- Each woken reference is destroyed after its wake. -/
def HostRun.wakeEach (fates : Nat → Fate) (wakers : List Waker) (run : HostRun) : HostRun :=
  wakers.foldl (fun run waker => (run.contain fates (.wake waker)).contain fates (.drop waker)) run

def HostRun.dropEach (fates : Nat → Fate) (wakers : List Waker) (run : HostRun) : HostRun :=
  wakers.foldl (fun run waker => run.contain fates (.drop waker)) run

/-- Run the host-visible part of a transition. A call that is left drops the payload it kept with the loop it
is left in. -/
def applyEffects (fates : Nat → Fate) (effects : TransitionEffects) : HostRun :=
  let woken := (HostRun.wakeEach fates effects.wake {}).dropPayload
  (woken.dropEach fates effects.retire).dropPayload

/-- The effects a call in progress holds and has not applied. -/
def Thread.owed {policies : PolicySet} : Thread policies → TransitionEffects
  | .allocating _ _ _ => {}
  | .admitting _ _ _ => {}
  | .settling _ effects _ => effects
  | .claiming _ _ effects _ => effects
  | .draining effects _ => effects

/-- The call in progress an action continues. -/
def Action.thread : Action → Option Nat
  | .allocate i | .enter i | .settle i _ | .finishClaim i _ | .drain i => some i
  | _ => none

/-- Whether the action continues a call whose host code panicked, where that decides how it goes on. -/
def Action.panicked : Action → Option Bool
  | .settle _ panicked | .finishClaim _ panicked => some panicked
  | _ => none

namespace Governor

variable {g : Governor}

/-- The effects a call applies before the step that continues it. -/
def owedBy (σ : g.System) (a : Action) : TransitionEffects :=
  ((a.thread.bind fun i => σ.threads[i]?).map Thread.owed).getD {}

/-- The effects a step returns when it releases the lock. -/
def returned (σ : g.System) (a : Action) : Option TransitionEffects :=
  (prepare σ a).map fun p => (g.commit p.sec p.nowMs).2

/-- Whether the step is the last round of a call that drains, which tells the settlement port. -/
def settles (σ : g.System) (a : Action) : Bool :=
  match a with
  | .drain _ => !(owedBy σ a).moreRunnable
  | _ => false

/-- The panics a call in progress has kept, by whether their payload panics when it is destroyed. -/
structure Frame where
  /-- The panic the call compensates, which it raises again at its end. -/
  original : Option Bool := none
  /-- The first panic of the rounds drained so far. -/
  firstPanic : Option Bool := none
  deriving DecidableEq

/-- `drain_effects_captured` keeps the first panic of all its rounds. -/
def Frame.keep (frame : Frame) (run : HostRun) : HostRun :=
  let kept := { run with firstPanic := frame.firstPanic }
  match run.ending, run.firstPanic with
  | .contained, some payloadPanics => (kept.getOrInsert payloadPanics).dropPayload
  | _, _ => kept.dropPayload

/-- A compensating call drops the panic of its drain and raises the one it compensates. -/
def Frame.compensate (frame : Frame) (run : HostRun) : HostRun :=
  if frame.original.isSome then
    let dropped :=
      if run.ending = .contained && run.firstPanic = some true then { run with ending := .unwinding } else run
    { dropped with firstPanic := frame.original }.dropPayload
  else run

/-- The host code of the step that continues a call. -/
def hostRun (fates : Nat → Fate) (frame : Frame) (σ : g.System) (a : Action) : HostRun :=
  let run := applyEffects fates (owedBy σ a)
  match a with
  | .drain _ =>
    let run := frame.keep run
    if settles σ a then frame.compensate (run.contain fates .settled).dropPayload
    else if run.ending = .unwinding then frame.compensate run
    else run
  | _ => run

/-- The frame of the call once the step is over. -/
def Frame.after (frame : Frame) (a : Action) (run : HostRun) : Frame :=
  match a with
  | .drain _ => { frame with firstPanic := run.firstPanic }
  | _ => { original := run.firstPanic }

/-- A governor with the frames of its calls in progress, the host calls made so far and everything its
transitions returned. -/
structure HostSys (g : Governor) where
  sys : g.System
  frames : List Frame := []
  calls : List HostCall := []
  returned : TransitionEffects := {}

/-- A step and the fate of the host code that precedes it. -/
structure HostAction where
  action : Action
  fates : Nat → Fate

/-- The frame of the call an action continues. -/
def HostSys.frame (σ : HostSys g) (a : Action) : Frame := (a.thread.bind fun i => σ.frames[i]?).getD {}

/-- A call that goes on keeps its frame; one that starts has an empty one. -/
def HostSys.nextFrames (σ : HostSys g) (a : Action) (run : HostRun) (sys : g.System) : List Frame :=
  match a.thread with
  | none => σ.frames ++ List.replicate (sys.threads.length - σ.sys.threads.length) {}
  | some i =>
    if sys.threads.length < σ.sys.threads.length then σ.frames.eraseIdx i
    else σ.frames.set i ((σ.frame a).after a run)

/-- The call an action continues is left by a panic: it takes the lock no more. -/
def HostSys.unwound (σ : HostSys g) (a : Action) (run : HostRun) : HostSys g :=
  match a.thread with
  | none => { σ with calls := σ.calls ++ run.calls }
  | some i =>
    { σ with
      sys := { σ.sys with threads := σ.sys.threads.eraseIdx i }
      frames := σ.frames.eraseIdx i
      calls := σ.calls ++ run.calls }

variable (g) in
/-- One step with the host code it waits for. A call that depends on a panic sees the first one. After an
abort there is no next state. -/
def hostStep (σ : HostSys g) (a : HostAction) : Option (HostSys g × Event) :=
  let run := hostRun a.fates (σ.frame a.action) σ.sys a.action
  if a.action.panicked.all fun panicked => panicked == run.firstPanic.isSome then
    match g.step σ.sys a.action, Governor.returned σ.sys a.action with
    | some (sys, event), some effects =>
      match run.ending with
      | .contained =>
        some (⟨sys, σ.nextFrames a.action run sys, σ.calls ++ run.calls, σ.returned.absorb effects⟩, event)
      | .unwinding => some (σ.unwound a.action run, .panicked)
      | .aborted => none
    | _, _ => none
  else none

end Governor

end Taskmesh
