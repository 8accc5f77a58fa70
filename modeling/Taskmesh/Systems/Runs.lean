import Mathlib.Tactic

/-!
# Runs of a labelled transition system

A system is a partial step function: in a state an action is either not enabled or leads to one
state, with an observable event. A run is a finite sequence of steps with its trace. What one step
preserves, every run preserves.
-/

namespace Runs

variable {S A E : Type} {step : S → A → Option (S × E)}

/-- `Run step s trace s'`: the actions of `trace`, in order, lead from `s` to `s'`. -/
inductive Run (step : S → A → Option (S × E)) : S → List (A × E) → S → Prop
  | nil (s : S) : Run step s [] s
  | snoc {s t u : S} {trace : List (A × E)} {a : A} {e : E} :
      Run step s trace t → step t a = some (u, e) → Run step s (trace ++ [(a, e)]) u

/-- The states some run from `init` ends in. -/
def Reachable (step : S → A → Option (S × E)) (init s : S) : Prop := ∃ trace, Run step init trace s

/-- The system whose every step has to end in a state with `bound`. -/
def restrict (bound : S → Bool) (step : S → A → Option (S × E)) (s : S) (a : A) : Option (S × E) :=
  (step s a).filter fun next => bound next.1

theorem restrict_eq_some {bound : S → Bool} {s s' : S} {a : A} {e : E} :
    restrict bound step s a = some (s', e) ↔ step s a = some (s', e) ∧ bound s' = true := by
  simp [restrict, Option.filter_eq_some_iff]

/-- The system whose every step has to be one that `ok` lets pass. -/
def guarded (ok : S → A → Bool) (step : S → A → Option (S × E)) (s : S) (a : A) : Option (S × E) :=
  if ok s a then step s a else none

theorem guarded_eq_some {ok : S → A → Bool} {s s' : S} {a : A} {e : E} :
    guarded ok step s a = some (s', e) ↔ ok s a = true ∧ step s a = some (s', e) := by
  simp [guarded]

theorem Run.single {s t : S} {a : A} {e : E} (h : step s a = some (t, e)) : Run step s [(a, e)] t :=
  Run.snoc (Run.nil s) h

theorem Run.append {s t u : S} {tr tr' : List (A × E)} (h : Run step s tr t) (h' : Run step t tr' u) :
    Run step s (tr ++ tr') u := by
  induction h' with
  | nil => simpa using h
  | snoc _ hs ih =>
    rw [← List.append_assoc]
    exact Run.snoc ih hs

theorem Reachable.refl (init : S) : Reachable step init init := ⟨[], Run.nil init⟩

theorem Reachable.next {init s s' : S} {a : A} {e : E} (h : Reachable step init s)
    (hs : step s a = some (s', e)) : Reachable step init s' := by
  obtain ⟨trace, hrun⟩ := h
  exact ⟨trace ++ [(a, e)], Run.snoc hrun hs⟩

theorem Reachable.run {init s s' : S} {trace : List (A × E)} (h : Reachable step init s)
    (hrun : Run step s trace s') : Reachable step init s' := by
  obtain ⟨before, hbefore⟩ := h
  exact ⟨before ++ trace, hbefore.append hrun⟩

/-- What every step preserves, a run preserves. -/
theorem Run.invariant {P : S → Prop} {s s' : S} {trace : List (A × E)} (hrun : Run step s trace s')
    (hstep : ∀ t a u e, P t → step t a = some (u, e) → P u) (hs : P s) : P s' := by
  induction hrun with
  | nil => exact hs
  | snoc _ h ih => exact hstep _ _ _ _ ih h

/-- An initial condition that every step preserves holds in every reachable state. -/
theorem Reachable.invariant {P : S → Prop} {init s : S} (h : Reachable step init s)
    (hinit : P init) (hstep : ∀ t a u e, P t → step t a = some (u, e) → P u) : P s := by
  obtain ⟨trace, hrun⟩ := h
  exact hrun.invariant hstep hinit

/-- The same along a run, when a step preserves `P` only in states with an invariant `I`, and only
for the actions that satisfy `Q`. -/
theorem Run.invariant_of {I P : S → Prop} {Q : A × E → Prop} {s s' : S} {trace : List (A × E)}
    (hrun : Run step s trace s') (hI : ∀ t a u e, I t → step t a = some (u, e) → I u)
    (hP : ∀ t a u e, I t → P t → Q (a, e) → step t a = some (u, e) → P u)
    (hQ : ∀ l ∈ trace, Q l) (hIs : I s) (hPs : P s) : P s' := by
  induction hrun with
  | nil => exact hPs
  | snoc hrun h ih =>
    refine hP _ _ _ _ (hrun.invariant hI hIs) (ih fun l hl => hQ l ?_) (hQ _ ?_) h
    · exact List.mem_append_left _ hl
    · simp

theorem Run.of_restrict {bound : S → Bool} {s s' : S} {trace : List (A × E)}
    (hrun : Run (restrict bound step) s trace s') : Run step s trace s' := by
  induction hrun with
  | nil => exact Run.nil _
  | snoc _ h ih => exact Run.snoc ih (restrict_eq_some.mp h).1

theorem Run.of_guarded {ok : S → A → Bool} {s s' : S} {trace : List (A × E)}
    (hrun : Run (guarded ok step) s trace s') : Run step s trace s' := by
  induction hrun with
  | nil => exact Run.nil _
  | snoc _ h ih => exact Run.snoc ih (guarded_eq_some.mp h).2

theorem Reachable.of_restrict {bound : S → Bool} {init s : S}
    (h : Reachable (restrict bound step) init s) : Reachable step init s := by
  obtain ⟨trace, hrun⟩ := h
  exact ⟨trace, hrun.of_restrict⟩

/-- A system whose every step is one step of another, or none, seen through `f`: so are its runs. -/
theorem Run.project {T B F : Type} {step' : T → B → Option (T × F)} {f : S → T}
    (hstep : ∀ s a s' e, step s a = some (s', e) → f s' = f s ∨ ∃ b ev, step' (f s) b = some (f s', ev))
    {s s' : S} {trace : List (A × E)} (hrun : Run step s trace s') :
    ∃ trace', Run step' (f s) trace' (f s') := by
  induction hrun with
  | nil => exact ⟨[], Run.nil _⟩
  | snoc _ h ih =>
    obtain ⟨trace', hrun'⟩ := ih
    rcases hstep _ _ _ _ h with heq | ⟨b, ev, hb⟩
    · rw [heq]
      exact ⟨trace', hrun'⟩
    · exact ⟨trace' ++ [(b, ev)], Run.snoc hrun' hb⟩

theorem Reachable.project {T B F : Type} {step' : T → B → Option (T × F)} {f : S → T}
    (hstep : ∀ s a s' e, step s a = some (s', e) → f s' = f s ∨ ∃ b ev, step' (f s) b = some (f s', ev))
    {init s : S} (h : Reachable step init s) : Reachable step' (f init) (f s) := by
  obtain ⟨trace, hrun⟩ := h
  exact hrun.project hstep

/-- Run a list of actions, if each is enabled in turn. -/
def replay (step : S → A → Option (S × E)) : S → List A → Option S
  | s, [] => some s
  | s, a :: rest =>
    match step s a with
    | none => none
    | some (s', _) => replay step s' rest

theorem replay_append (s : S) (actions rest : List A) :
    replay step s (actions ++ rest) = (replay step s actions).bind fun s' => replay step s' rest := by
  induction actions generalizing s with
  | nil => rfl
  | cons a actions ih =>
    simp only [List.cons_append, replay]
    cases step s a with
    | none => rfl
    | some next => exact ih next.1

theorem run_of_replay {s s' : S} {actions : List A} (h : replay step s actions = some s') :
    ∃ trace, Run step s trace s' := by
  induction actions generalizing s with
  | nil =>
    obtain rfl := Option.some.inj h
    exact ⟨[], Run.nil s⟩
  | cons a rest ih =>
    unfold replay at h
    cases hstep : step s a with
    | none => simp [hstep] at h
    | some next =>
      obtain ⟨t, e⟩ := next
      rw [hstep] at h
      obtain ⟨trace, hrun⟩ := ih h
      exact ⟨[(a, e)] ++ trace, (Run.single hstep).append hrun⟩

/-- Where a list of actions leads is reachable. -/
theorem reachable_replay (init : S) (actions : List A) :
    Reachable step init ((replay step init actions).getD init) := by
  cases h : replay step init actions with
  | none => exact Reachable.refl init
  | some s => exact run_of_replay h

/-- Every state on a run is the end of one part of it and the start of the rest. -/
theorem Run.split {s s' : S} {tr tr' : List (A × E)} (h : Run step s (tr ++ tr') s') :
    ∃ t, Run step s tr t ∧ Run step t tr' s' := by
  induction tr' using List.reverseRecOn generalizing s' with
  | nil => exact ⟨s', by simpa using h, Run.nil s'⟩
  | append_singleton l x ih =>
    rw [← List.append_assoc] at h
    generalize hl : tr ++ l ++ [x] = whole at h
    cases h with
    | nil => simp at hl
    | snoc hrun hstep =>
      obtain ⟨h1, h2⟩ := List.append_inj' hl rfl
      subst h1
      obtain ⟨t, ht1, ht2⟩ := ih hrun
      simp only [List.cons.injEq, and_true] at h2
      subst h2
      exact ⟨t, ht1, Run.snoc ht2 hstep⟩

/-- A step of a run with what comes before and after it. -/
theorem Run.split_at {s s' : S} {before after : List (A × E)} {a : A} {e : E}
    (h : Run step s (before ++ (a, e) :: after) s') :
    ∃ t u, Run step s before t ∧ step t a = some (u, e) ∧ Run step u after s' := by
  rw [List.append_cons] at h
  obtain ⟨u, hfirst, hafter⟩ := h.split
  generalize hl : before ++ [(a, e)] = whole at hfirst
  cases hfirst with
  | nil => simp at hl
  | @snoc t _ trace b ev hrun hstep =>
    obtain ⟨rfl, hlast⟩ := List.append_inj' hl rfl
    obtain ⟨rfl, rfl⟩ : a = b ∧ e = ev := by simpa using hlast
    exact ⟨t, u, hrun, hstep, hafter⟩

end Runs
