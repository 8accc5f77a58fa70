import Taskmesh.Host.Drain
import Taskmesh.Engine.Proofs.SettlementProofs

/-!
# A drain misses no settlement

A drain that parks has found work and created its `Notified` before it looked. From then on the work is
still there, or the call that ended it has its settlement to come, or a settlement that saw the flag is
about to notify.
-/

namespace Taskmesh.Host

open Std MachineInt Governor

variable {g : Governor} {instantMax : Nat} {σ σ' : DrainSys g} {a : DrainAction} {e : DrainEvent}
  {s s' : GovernedState}

/-! ## What a snapshot shows -/

/-- Some class has work in flight or waiting. -/
def Busy (s : GovernedState) : Prop := ∃ c, 0 < s.inflight c ∨ 0 < s.queued c

/-- The first entry of every key stays. -/
theorem getElem?_foldl_insertIfNew {β : Type} (f : TaskClass → β) (keys seen : List TaskClass)
    (classes : BTreeMap TaskClass β) (h : ∀ c, classes[c]? = if c ∈ seen then some (f c) else none)
    (c : TaskClass) :
    (keys.foldl (fun classes c => classes.insertIfNew c (f c)) classes)[c]? =
      if c ∈ seen ++ keys then some (f c) else none := by
  induction keys generalizing seen classes with
  | nil => simpa using h c
  | cons key keys ih =>
    rw [List.foldl_cons, ih (seen ++ [key]), List.append_assoc, List.singleton_append]
    intro c'
    have hmem : key ∈ classes ↔ key ∈ seen := by
      rw [ExtTreeMap.mem_iff_isSome_getElem?, h]
      by_cases hseen : key ∈ seen <;> simp [hseen]
    rw [ExtTreeMap.getElem?_insertIfNew, h]
    by_cases hkey : key = c'
    · subst hkey
      simp [hmem]
    · have hkey' : c' ≠ key := fun heq => hkey heq.symm
      simp [hkey, hkey']

/-- A class shows its own state, or zeros when it has none. -/
theorem snapshot_class (g : Governor) (s : GovernedState) (c : TaskClass) :
    (g.snapshot s).classes[c]? =
      if c ∈ g.policy.classes.keys ++ s.classes.keys then some (s.cls c).snapshot else none := by
  have hshown : ∀ c, (s.classes[c]?.map ClassState.snapshot).getD {} = (s.cls c).snapshot := by
    intro c
    unfold GovernedState.cls
    cases s.classes[c]? with
    | none => rfl
    | some cs => rfl
  have hfold := getElem?_foldl_insertIfNew
    (fun c => (s.classes[c]?.map ClassState.snapshot).getD ({} : ClassSnapshot))
    (g.policy.classes.keys ++ s.classes.keys) [] ∅ (by simp) c
  rw [List.nil_append, hshown] at hfold
  exact hfold

/-- Nothing is outstanding exactly when every gauge is at zero, also of the classes nobody knows. -/
theorem outstanding_isEmpty_iff (g : Governor) (s : GovernedState) :
    (outstanding (g.snapshot s)).isEmpty = true ↔ ¬ Busy s := by
  rw [ExtTreeMap.isEmpty_iff, outstanding, ExtTreeMap.filterMap_eq_empty_iff]
  constructor
  · rintro hempty ⟨c, hbusy⟩
    have hknown : c ∈ s.classes := by
      by_contra hnot
      have hdefault : s.cls c = default := by
        unfold GovernedState.cls
        rw [ExtTreeMap.getElem?_eq_none hnot]
        rfl
      unfold GovernedState.inflight GovernedState.queued at hbusy
      rw [hdefault] at hbusy
      rcases hbusy with h | h
      · exact absurd h (Nat.lt_irrefl 0)
      · exact absurd h (Nat.lt_irrefl 0)
    have hshown := snapshot_class g s c
    rw [if_pos (List.mem_append_right _ (ExtTreeMap.mem_keys.mpr hknown))] at hshown
    have hmem : c ∈ (g.snapshot s).classes := by
      rw [ExtTreeMap.mem_iff_isSome_getElem?, hshown]
      rfl
    have hnone := hempty c hmem
    rw [ExtTreeMap.getElem_eq_get_getElem?] at hnone
    simp only [hshown, Option.get_some] at hnone
    have hgauges : 0 < (s.cls c).snapshot.inflight ∨ 0 < (s.cls c).snapshot.queued := hbusy
    rw [if_pos hgauges] at hnone
    simp at hnone
  · intro hidle c hmem
    have hshown := snapshot_class g s c
    have hvalue : (g.snapshot s).classes[c] = (s.cls c).snapshot := by
      rw [ExtTreeMap.getElem_eq_get_getElem?]
      by_cases hknown : c ∈ g.policy.classes.keys ++ s.classes.keys
      · simp [hshown, hknown]
      · rw [if_neg hknown, ← Option.not_isSome_iff_eq_none, ← ExtTreeMap.mem_iff_isSome_getElem?] at hshown
        exact absurd hmem hshown
    rw [hvalue, if_neg]
    exact fun hbusy => hidle ⟨c, hbusy⟩

/-! ## What a step does -/

/-- How a drain call goes on by itself once admission is closed. -/
inductive DrainPoint.Next (s : GovernedState) : DrainPoint → DrainPoint → Prop
  | created : Next s .looping (.looking false)
  | busy {notified : Bool} (left : Busy s) : Next s (.looking notified) (.looked notified)
  | parked {notified : Bool} : Next s (.looked notified) (.parked notified)
  | woken : Next s (.parked true) .looping
  | expired : Next s (.parked false) .expired
  | drained {notified : Bool} (idle : ¬ Busy s) (report : DrainReport) :
      Next s (.looking notified) (.returned (.ok report))
  | drainedLate (idle : ¬ Busy s) (report : DrainReport) : Next s .expired (.returned (.ok report))
  | gaveUp (left : Busy s) (error : NotDrained) : Next s .expired (.returned (.error error))

/-- What one step does to the host. -/
inductive DrainTurn (σ : DrainSys g) : DrainSys g → DrainEvent → Prop
  | engine {act : Action} {engine : g.System} {ev : Event} (step : g.step σ.engine act = some (engine, ev)) :
      DrainTurn σ
        { σ with
          engine := engine
          notifying := σ.notifying + if settles σ.engine act && σ.draining then 1 else 0 }
        (.engine ev)
  | notified (pending : 0 < σ.notifying) :
      DrainTurn σ { σ with notifying := σ.notifying - 1, drains := σ.drains.map DrainCall.notify } .progressed
  | started {call : DrainCall} (point : call.point = .starting) :
      DrainTurn σ { σ with drains := σ.drains ++ [call] } .progressed
  | marked {drain : Nat} {call : DrainCall} (found : σ.drains[drain]? = some call) :
      DrainTurn σ
        { σ with draining := true, drains := σ.drains.set drain { call with point := .closing } } .progressed
  | closed {drain : Nat} {call : DrainCall} (found : σ.drains[drain]? = some call)
      (point : call.point = .closing) :
      DrainTurn σ
        { σ with
          engine := { σ.engine with state := σ.engine.state.closeAdmission }
          drains := σ.drains.set drain { call with point := .looping } } .progressed
  | moved {drain : Nat} {call : DrainCall} {point : DrainPoint} (found : σ.drains[drain]? = some call)
      (next : call.point.Next σ.engine.state point) :
      DrainTurn σ (σ.moveTo drain call point).1 (σ.moveTo drain call point).2
  | cancelled (drain : Nat) : DrainTurn σ { σ with drains := σ.drains.eraseIdx drain } .progressed

/-- A look at the gauges ends the call where no work is outstanding, and moves it on where some is. -/
theorem drainTurn_look {drain : Nat} {call : DrainCall} {now : Nat}
    {left : BTreeMap TaskClass Outstanding → DrainPoint} (found : σ.drains[drain]? = some call)
    (hidle : ∀ report, ¬ Busy σ.engine.state → call.point.Next σ.engine.state (.returned (.ok report)))
    (hbusy : ∀ classes, Busy σ.engine.state → call.point.Next σ.engine.state (left classes))
    (h : σ.look drain call now left = (σ', e)) : DrainTurn σ σ' e := by
  unfold DrainSys.look at h
  simp only at h
  split at h
  · rename_i hempty
    obtain ⟨rfl, rfl⟩ := Prod.mk.inj h
    exact .moved found (hidle _ ((outstanding_isEmpty_iff g _).mp hempty))
  · rename_i hnot
    obtain ⟨rfl, rfl⟩ := Prod.mk.inj h
    exact .moved found (hbusy _ (by_contra fun hidle => hnot ((outstanding_isEmpty_iff g _).mpr hidle)))

/-- One turn of a drain call is a look, a wait or its end. -/
theorem drainTurn_advance {drain : Nat} {call : DrainCall} {now : Nat} (found : σ.drains[drain]? = some call)
    (h : σ.advance drain call now = some (σ', e)) : DrainTurn σ σ' e := by
  unfold DrainSys.advance at h
  split at h
  · obtain ⟨rfl, rfl⟩ := Prod.mk.inj (Option.some.inj h)
    exact .marked found
  · rename_i hpoint
    obtain ⟨rfl, rfl⟩ := Prod.mk.inj (Option.some.inj h)
    exact .closed found hpoint
  · rename_i hpoint
    obtain ⟨rfl, rfl⟩ := Prod.mk.inj (Option.some.inj h)
    exact .moved found (hpoint ▸ .created)
  · rename_i notified hpoint
    refine drainTurn_look found (fun report hidle => ?_) (fun _ hleft => ?_) (Option.some.inj h)
    · rw [hpoint]
      exact .drained hidle report
    · rw [hpoint]
      exact .busy hleft
  · rename_i notified hpoint
    obtain ⟨rfl, rfl⟩ := Prod.mk.inj (Option.some.inj h)
    exact .moved found (hpoint ▸ .parked)
  · rename_i hpoint
    obtain ⟨rfl, rfl⟩ := Prod.mk.inj (Option.some.inj h)
    exact .moved found (hpoint ▸ .woken)
  · simp at h
  · rename_i hpoint
    refine drainTurn_look found (fun report hidle => ?_) (fun _ hleft => ?_) (Option.some.inj h)
    · rw [hpoint]
      exact .drainedLate hidle report
    · rw [hpoint]
      exact .gaveUp hleft _
  · simp at h

/-- A step of the drain system is one turn of one call, or leaves every call alone. -/
theorem drainStep_turn (h : drainStep g instantMax σ a = some (σ', e)) : DrainTurn σ σ' e := by
  cases a with
  | engine act =>
    simp only [drainStep, Option.map_eq_some_iff] at h
    obtain ⟨⟨engine, ev⟩, hstep, heq⟩ := h
    obtain ⟨rfl, rfl⟩ := Prod.mk.inj heq
    have hturn := DrainTurn.engine hstep
    cases hsettles : settles σ.engine act <;> cases hflag : σ.draining <;>
      simpa [hsettles, hflag, DrainSys.loadFlag] using hturn
  | notify =>
    simp only [drainStep] at h
    split at h
    · rename_i hpending
      obtain ⟨rfl, rfl⟩ := Prod.mk.inj (Option.some.inj h)
      exact .notified hpending
    · simp at h
  | start timeout now =>
    obtain ⟨rfl, rfl⟩ := Prod.mk.inj (Option.some.inj h)
    exact .started rfl
  | advance drain now =>
    simp only [drainStep, Option.bind_eq_some_iff] at h
    obtain ⟨call, hcall, hadvance⟩ := h
    exact drainTurn_advance hcall hadvance
  | expire drain now =>
    simp only [drainStep] at h
    split at h
    · rename_i call hcall
      split at h
      · rename_i hexpires
        obtain ⟨rfl, rfl⟩ := Prod.mk.inj (Option.some.inj h)
        have hpoint : call.point = .parked false := by
          unfold DrainCall.expires at hexpires
          split at hexpires
          · assumption
          · simp at hexpires
        exact .moved hcall (hpoint ▸ .expired)
      · simp at h
    · simp at h
  | cancel drain =>
    simp only [drainStep] at h
    split at h
    · split at h
      · obtain ⟨rfl, rfl⟩ := Prod.mk.inj (Option.some.inj h)
        exact .cancelled drain
      · simp at h
    · simp at h

/-- A step of the host is a step of its governor, or none. -/
theorem drainStep_engine (σ : DrainSys g) (a : DrainAction) (σ' : DrainSys g) (e : DrainEvent)
    (h : drainStep g instantMax σ a = some (σ', e)) :
    σ'.engine = σ.engine ∨ ∃ act ev, g.step σ.engine act = some (σ'.engine, ev) := by
  cases drainStep_turn h with
  | engine step => exact Or.inr ⟨_, _, step⟩
  | closed found point => exact Or.inr ⟨.closeAdmission, .progressed, rfl⟩
  | notified | started | marked | moved | cancelled => exact Or.inl rfl

/-! ## The invariant -/

/-- A drain that has looked, found work, and was not notified since it created its `Notified`. -/
def DrainPoint.waits : DrainPoint → Bool
  | looked false | parked false => true
  | _ => false

/-- The flag is set before admission is closed, admission is closed before the first look, and a drain
that waits has something to wait for. -/
structure DrainInv (σ : DrainSys g) : Prop where
  engine : g.Reachable σ.engine
  flag : ∀ call ∈ σ.drains, call.point ≠ .starting → σ.draining = true
  closed : ∀ call ∈ σ.drains, call.point ≠ .starting → call.point ≠ .closing →
    σ.engine.state.admissionClosed = true
  awaited : ∀ call ∈ σ.drains, call.point.waits = true →
    Busy σ.engine.state ∨ 0 < drainings σ.engine.threads ∨ 0 < σ.notifying

/-- No drain call has begun. -/
theorem drainInv_init (g : Governor) : DrainInv (drainInit g) where
  engine := Runs.Reachable.refl g.init
  flag call hmem := by simp [drainInit] at hmem
  closed call hmem := by simp [drainInit] at hmem
  awaited call hmem := by simp [drainInit] at hmem

/-- A state whose gauges are kept is still busy. -/
theorem busy_of_gaugesKept (h : GaugesKept s s') (hbusy : Busy s) : Busy s' := by
  obtain ⟨c, hc⟩ := hbusy
  have hkept := h c
  exact ⟨c, by omega⟩

/-- A step of the governor under the host. -/
theorem DrainInv.engineStep (hinv : DrainInv σ) {act : Action} {engine : g.System} {ev : Event}
    (hstep : g.step σ.engine act = some (engine, ev)) :
    DrainInv { σ with
      engine := engine
      notifying := σ.notifying + if settles σ.engine act && σ.draining then 1 else 0 } where
  engine := hinv.engine.next hstep
  flag := hinv.flag
  closed call hmem hpoint hpoint' :=
    ((SysInv.of_reachable hinv.engine).step_gatesKept hstep).closed (hinv.closed call hmem hpoint hpoint')
  awaited call hmem hwaits := by
    have hpoint : call.point ≠ .starting := by
      intro heq
      simp [heq, DrainPoint.waits] at hwaits
    have hflag := hinv.flag call hmem hpoint
    have hdrainings := step_drainings hstep
    rcases hinv.awaited call hmem hwaits with hbusy | hdraining | hnotifying
    · rcases (SysInv.of_reachable hinv.engine).step_goesOn hstep with ⟨effects, sampledMs, hcall⟩ | hkept
      · exact Or.inr (Or.inl (drainings_pos hcall))
      · exact Or.inl (busy_of_gaugesKept hkept hbusy)
    · right
      -- The last call that drained settles now, and it reads the flag as set.
      cases hsettles : settles σ.engine act with
      | true =>
        right
        simp [hflag]
      | false =>
        left
        simp only [hsettles, Bool.false_eq_true, if_false] at hdrainings
        show 0 < drainings engine.threads
        omega
    · right
      right
      show 0 < σ.notifying + _
      omega

/-- A drain call that moves on, with everything else as it was. -/
theorem DrainInv.moveTo (hinv : DrainInv σ) {drain : Nat} {call : DrainCall} {point : DrainPoint}
    (hmem : call ∈ σ.drains) (hnext : call.point.Next σ.engine.state point) :
    DrainInv (σ.moveTo drain call point).1 := by
  have hstarted : call.point ≠ .starting ∧ call.point ≠ .closing := by
    generalize call.point = start at hnext
    cases hnext <;> simp
  have hcases : ∀ call' ∈ (σ.moveTo drain call point).1.drains, call' ∈ σ.drains ∨
      call' = { call with point := point } := fun call' hmem' => List.mem_or_eq_of_mem_set hmem'
  refine ⟨hinv.engine, fun call' hmem' hpoint => ?_, fun call' hmem' hpoint hpoint' => ?_,
    fun call' hmem' hwaits => ?_⟩
  · rcases hcases call' hmem' with hold | rfl
    · exact hinv.flag call' hold hpoint
    · exact hinv.flag call hmem hstarted.1
  · rcases hcases call' hmem' with hold | rfl
    · exact hinv.closed call' hold hpoint hpoint'
    · exact hinv.closed call hmem hstarted.1 hstarted.2
  · rcases hcases call' hmem' with hold | rfl
    · exact hinv.awaited call' hold hwaits
    · generalize hfrom : call.point = start at hnext
      cases hnext with
      | busy left => exact Or.inl left
      | @parked notified =>
        cases notified with
        | true => simp [DrainPoint.waits] at hwaits
        | false => exact hinv.awaited call hmem (by simp [hfrom, DrainPoint.waits])
      | created | woken | expired | drained | drainedLate | gaveUp => simp [DrainPoint.waits] at hwaits

/-- One step keeps every waiting drain call notified of the state it has to look at. -/
theorem DrainInv.step (hinv : DrainInv σ) (h : drainStep g instantMax σ a = some (σ', e)) :
    DrainInv σ' := by
  cases drainStep_turn h with
  | engine step => exact hinv.engineStep step
  | notified pending =>
    have hcalls : ∀ call ∈ σ.drains.map DrainCall.notify, call.point.waits = false ∧
        ∃ call' ∈ σ.drains, (call.point = .starting ↔ call'.point = .starting) ∧
          (call.point = .closing ↔ call'.point = .closing) := by
      intro call hmem
      obtain ⟨call', hmem', rfl⟩ := List.mem_map.mp hmem
      refine ⟨?_, call', hmem', ?_⟩
      · unfold DrainCall.notify DrainPoint.notify
        cases call'.point <;> rfl
      · unfold DrainCall.notify DrainPoint.notify
        cases call'.point <;> simp
    refine ⟨hinv.engine, fun call hmem hpoint => ?_, fun call hmem hpoint hpoint' => ?_,
      fun call hmem hwaits => ?_⟩
    · obtain ⟨_, call', hmem', hstarting, _⟩ := hcalls call hmem
      exact hinv.flag call' hmem' (fun heq => hpoint (hstarting.mpr heq))
    · obtain ⟨_, call', hmem', hstarting, hclosing⟩ := hcalls call hmem
      exact hinv.closed call' hmem' (fun heq => hpoint (hstarting.mpr heq))
        (fun heq => hpoint' (hclosing.mpr heq))
    · rw [(hcalls call hmem).1] at hwaits
      simp at hwaits
  | @started call point =>
    refine ⟨hinv.engine, fun call' hmem hpoint => ?_, fun call' hmem hpoint hpoint' => ?_,
      fun call' hmem hwaits => ?_⟩ <;>
      rcases List.mem_append.mp hmem with hold | hnew
    · exact hinv.flag call' hold hpoint
    · obtain rfl := List.mem_singleton.mp hnew
      exact absurd point hpoint
    · exact hinv.closed call' hold hpoint hpoint'
    · obtain rfl := List.mem_singleton.mp hnew
      exact absurd point hpoint
    · exact hinv.awaited call' hold hwaits
    · obtain rfl := List.mem_singleton.mp hnew
      simp [point, DrainPoint.waits] at hwaits
  | @marked drain call found =>
    refine ⟨hinv.engine, fun _ _ _ => rfl, fun call' hmem hpoint hpoint' => ?_, fun call' hmem hwaits => ?_⟩
    · rcases List.mem_or_eq_of_mem_set hmem with hold | rfl
      · exact hinv.closed call' hold hpoint hpoint'
      · exact absurd rfl hpoint'
    · rcases List.mem_or_eq_of_mem_set hmem with hold | rfl
      · exact hinv.awaited call' hold hwaits
      · simp [DrainPoint.waits] at hwaits
  | @closed drain call found point =>
    refine ⟨hinv.engine.next (a := .closeAdmission) (e := .progressed) rfl, fun call' hmem hpoint => ?_,
      fun _ _ _ _ => rfl, fun call' hmem hwaits => ?_⟩
    · rcases List.mem_or_eq_of_mem_set hmem with hold | rfl
      · exact hinv.flag call' hold hpoint
      · exact hinv.flag call (List.mem_of_getElem? found) (by simp [point])
    · rcases List.mem_or_eq_of_mem_set hmem with hold | rfl
      · exact hinv.awaited call' hold hwaits
      · simp [DrainPoint.waits] at hwaits
  | moved found next => exact hinv.moveTo (List.mem_of_getElem? found) next
  | cancelled drain =>
    have hkept := fun call (hmem : call ∈ σ.drains.eraseIdx drain) => List.mem_of_mem_eraseIdx hmem
    exact ⟨hinv.engine, fun call hmem => hinv.flag call (hkept call hmem),
      fun call hmem => hinv.closed call (hkept call hmem),
      fun call hmem => hinv.awaited call (hkept call hmem)⟩

/-- In every reachable state no waiting drain call has missed a settlement. -/
theorem DrainInv.of_reachable (h : DrainReachable g instantMax σ) : DrainInv σ :=
  h.invariant (drainInv_init g) fun _ _ _ _ hinv hstep => hinv.step hstep

/-! ## After a drain -/

/-- An idle engine shows no load in any class. -/
theorem classLoad_of_idle (h : ¬ Busy s) (c : TaskClass) : classLoad s c = 0 := by
  have hinflight : s.inflight c = 0 := Nat.eq_zero_of_not_pos fun hpos => h ⟨c, Or.inl hpos⟩
  have hqueued : s.queued c = 0 := Nat.eq_zero_of_not_pos fun hpos => h ⟨c, Or.inr hpos⟩
  rw [queued_eq_waiting, u32Max] at hqueued
  rw [classLoad_eq]
  omega

/-- An engine that shows no load in any class is idle. -/
theorem idle_of_classLoad (h : ∀ c, classLoad s c = 0) : ¬ Busy s := by
  rintro ⟨c, hbusy⟩
  have hload := h c
  rw [classLoad_eq] at hload
  rw [queued_eq_waiting] at hbusy
  omega

/-- A governor that is closed and idle stays so: no permit becomes live, and every admission is
refused. -/
theorem idle_for_good {τ τ' : g.System} {trace : List (Action × Event)} (hreach : g.Reachable τ)
    (hclosed : τ.state.admissionClosed = true) (hidle : ¬ Busy τ.state)
    (hrun : Runs.Run g.step τ trace τ') :
    ¬ Busy τ'.state ∧ (∀ p, p ∈ τ'.state.permits → p ∈ τ.state.permits) ∧
      ∀ i τ'' ev, g.step τ' (.enter i) = some (τ'', ev) →
        ∃ ids, ev = .decided ids (.rejected .runtimeUnavailable) := by
  have hafter := AfterClose.run (SysInv.of_reachable hreach) hclosed hrun
  have hload := classLoad_of_idle hidle
  refine ⟨idle_of_classLoad fun c => ?_, fun p hp => ?_, fun i τ'' ev hstep => ?_⟩
  · have hle := hafter.narrowed.load c
    rw [hload c] at hle
    omega
  · refine (hafter.narrowed.live p hp).resolve_right fun hreserved => ?_
    obtain ⟨c, r, hr, _⟩ := reserved_iff_waiting.mp hreserved
    have hempty := hload c
    rw [classLoad_eq] at hempty
    have hlength := List.length_pos_of_mem hr
    omega
  · obtain ⟨intake, sampledMs, ids, effects, heq, _⟩ := enter_threads hstep
    refine ⟨ids, heq.trans (congrArg (Event.decided ids) ?_)⟩
    exact admit_closed hafter.closed

/-- A drain returns `Ok` from an idle look at a closed governor. -/
theorem DrainInv.returned_ok (hinv : DrainInv σ) {drain : Nat} {report : DrainReport}
    (h : drainStep g instantMax σ a = some (σ', .returned drain (.ok report))) :
    σ'.engine = σ.engine ∧ σ.engine.state.admissionClosed = true ∧ ¬ Busy σ.engine.state := by
  generalize hev : DrainEvent.returned drain (.ok report) = ev at h
  cases drainStep_turn h with
  | @moved drain' call point found next =>
    have hpoint : point = .returned (.ok report) := by
      unfold DrainSys.moveTo at hev
      simp only at hev
      split at hev
      · rw [(DrainEvent.returned.inj hev).2]
      · simp at hev
    subst hpoint
    have hclosed := hinv.closed call (List.mem_of_getElem? found)
    generalize call.point = start at next hclosed
    cases next with
    | drained idle => exact ⟨rfl, hclosed (by simp) (by simp), idle⟩
    | drainedLate idle => exact ⟨rfl, hclosed (by simp) (by simp), idle⟩
  | engine | notified | started | marked | closed | cancelled => simp at hev

/-! ## Drains -/

/-- Every call that returned custody has finished its settlement. -/
def DrainSys.Settled (σ : DrainSys g) : Prop := drainings σ.engine.threads = 0 ∧ σ.notifying = 0

/-- In every interleaving of drains and engine calls: a drain that is parked when every settlement is
over still has work to wait for, or its `Notified` is completed; a drain returns `Ok` only from a look at
gauges that are all zero, and from then on they stay zero, no permit becomes live and every admission is
refused; and an engine step that lowers a gauge leaves its own call draining, which ends in a settlement
and in no other way. -/
theorem drain_misses_nothing (g : Governor) (instantMax : Nat) (σ : DrainSys g)
    (h : DrainReachable g instantMax σ) :
    (∀ call ∈ σ.drains, ∀ notified, call.point = .parked notified → σ.Settled →
      Busy σ.engine.state ∨ notified = true) ∧
    (∀ a σ' drain report, drainStep g instantMax σ a = some (σ', .returned drain (.ok report)) →
      σ'.engine = σ.engine ∧ ¬ Busy σ.engine.state ∧
      ∀ trace σ'', Runs.Run (drainStep g instantMax) σ' trace σ'' →
        ¬ Busy σ''.engine.state ∧
        (∀ p, p ∈ σ''.engine.state.permits → p ∈ σ'.engine.state.permits) ∧
        ∀ i τ ev, g.step σ''.engine (.enter i) = some (τ, ev) →
          ∃ ids, ev = .decided ids (.rejected .runtimeUnavailable)) ∧
    (∀ a τ ev, g.step σ.engine a = some (τ, ev) →
      drainings σ.engine.threads ≤ drainings τ.threads + (if settles σ.engine a then 1 else 0) ∧
      (¬ GaugesKept σ.engine.state τ.state →
        GoesOn σ.engine τ a ∧
        ∃ rounds τ', Runs.replay g.step τ (List.replicate rounds (.drain (callIndex σ.engine a))) = some τ' ∧
          settles τ' (.drain (callIndex σ.engine a)) = true ∧
          (g.step τ' (.drain (callIndex σ.engine a))).isSome = true)) := by
  have hinv := DrainInv.of_reachable h
  refine ⟨?_, ?_, ?_⟩
  · rintro call hmem notified hpoint ⟨hdrainings, hnotifying⟩
    cases notified with
    | true => exact Or.inr rfl
    | false =>
      left
      have hwaits : call.point.waits = true := by
        rw [hpoint]
        rfl
      rcases hinv.awaited call hmem hwaits with hbusy | hdraining | hpending
      · exact hbusy
      · omega
      · omega
  · intro a σ' drain report hstep
    obtain ⟨hengine, hclosed, hidle⟩ := hinv.returned_ok hstep
    refine ⟨hengine, hidle, fun trace σ'' hrun => ?_⟩
    obtain ⟨trace', hrun'⟩ := hrun.project (f := DrainSys.engine) drainStep_engine
    have hreach := (hinv.step hstep).engine
    rw [← hengine] at hclosed hidle
    exact idle_for_good hreach hclosed hidle hrun'
  · intro a τ ev hstep
    refine ⟨step_drainings hstep, fun hlowered => ?_⟩
    have hgoes := ((SysInv.of_reachable hinv.engine).step_goesOn hstep).resolve_right hlowered
    obtain ⟨effects, sampledMs, hcall⟩ := hgoes
    exact ⟨⟨effects, sampledMs, hcall⟩, draining_settles hcall⟩

namespace Sample

open Taskmesh.Sample

/-- One task runs when a drain parks; then it ends, its call settles and the waiters are notified. -/
def woken : DrainSys governor :=
  (Runs.replay (drainStep governor 100) (drainInit governor)
    ((admission (.admitSpec (task "a")) ++ [Action.advancePhase ⟨7, 1⟩ .running]).map .engine ++
      [.start 10 0, .advance 0 0, .advance 0 0, .advance 0 0, .advance 0 0, .advance 0 0,
        .engine (.releaseLeased ⟨⟨7, 1⟩, 1⟩ 5), .engine (.drain 0), .notify])).getD (drainInit governor)

end Sample

/-- In the sample the drain is parked, every settlement is over and nothing runs: its `Notified` is
completed. -/
theorem sample_drain : Sample.woken.drains.length = 1 ∧
    ∀ call ∈ Sample.woken.drains, call.isParked = true ∧ call.point = .parked true := by
  have hreach : DrainReachable Sample.governor 100 Sample.woken := Runs.reachable_replay _ _
  have hidle : ¬ Busy Sample.woken.engine.state :=
    (outstanding_isEmpty_iff Sample.governor _).mp (by decide +kernel)
  have hsettled : Sample.woken.Settled := ⟨by decide +kernel, by decide +kernel⟩
  have hparked : ∀ call ∈ Sample.woken.drains, call.isParked = true := by decide +kernel
  refine ⟨by decide +kernel, fun call hmem => ⟨hparked call hmem, ?_⟩⟩
  have hcall := hparked call hmem
  unfold DrainCall.isParked at hcall
  split at hcall
  · rename_i notified hpoint
    have hwoken := ((drain_misses_nothing _ 100 _ hreach).1 call hmem notified hpoint hsettled).resolve_left hidle
    rw [hpoint, hwoken]
  · simp at hcall

end Taskmesh.Host
