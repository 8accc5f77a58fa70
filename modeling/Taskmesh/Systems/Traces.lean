import Mathlib.Tactic

/-!
# Traces of a labelled relation

A trace lists the moves of a run together with the states they were made from. Invariants hold along
a trace when every move keeps them.
-/

namespace Traces

variable {S L : Type} {move : S → L → S → Prop}

/-- The moves made between two states, each with the state it was made from. -/
inductive Trace (move : S → L → S → Prop) : S → List (S × L) → S → Prop
  | nil (s : S) : Trace move s [] s
  | snoc {s t u : S} {tr : List (S × L)} {l : L} (before : Trace move s tr t) (last : move t l u) :
      Trace move s (tr ++ [(t, l)]) u

variable {s t u : S} {tr tr' : List (S × L)} {l : L}

theorem Trace.single (h : move s l t) : Trace move s [(s, l)] t := Trace.snoc (Trace.nil s) h

theorem Trace.append (h : Trace move s tr t) (h' : Trace move t tr' u) : Trace move s (tr ++ tr') u := by
  induction h' with
  | nil => simpa using h
  | snoc _ hlast ih =>
    rw [← List.append_assoc]
    exact Trace.snoc ih hlast

/-- Every move of a trace is made from where the moves before it lead. -/
theorem Trace.at_move (h : Trace move s (tr ++ (t, l) :: tr') u) :
    Trace move s tr t ∧ ∃ t', move t l t' := by
  induction tr' using List.reverseRecOn generalizing u with
  | nil =>
    generalize hwhole : tr ++ [(t, l)] = whole at h
    cases h with
    | nil => simp at hwhole
    | snoc before last =>
      obtain ⟨rfl, hlast⟩ := List.append_inj' hwhole rfl
      obtain ⟨rfl, rfl⟩ := Prod.mk.inj (List.cons.inj hlast).1
      exact ⟨before, _, last⟩
  | append_singleton rest x ih =>
    rw [← List.cons_append, ← List.append_assoc] at h
    generalize hwhole : tr ++ (t, l) :: rest ++ [x] = whole at h
    cases h with
    | nil => simp at hwhole
    | snoc before last =>
      obtain ⟨rfl, _⟩ := List.append_inj' hwhole rfl
      exact ih before

/-- A trace either goes nowhere or moves from its start. -/
theorem Trace.start (h : Trace move s tr t) : s = t ∨ ∃ l, (s, l) ∈ tr := by
  induction h with
  | nil => exact Or.inl rfl
  | @snoc t u tr l _ _ ih =>
    rcases ih with rfl | ⟨l', hmem⟩
    · exact Or.inr ⟨l, List.mem_append_right _ (List.mem_singleton_self _)⟩
    · exact Or.inr ⟨l', List.mem_append_left _ hmem⟩

/-- What every move keeps holds at the end of a trace. -/
theorem Trace.invariant {P : S → Prop} (h : Trace move s tr t)
    (hmove : ∀ s l t, P s → move s l t → P t) (hs : P s) : P t := by
  induction h with
  | nil => exact hs
  | snoc _ hlast ih => exact hmove _ _ _ ih hlast

/-- The same, where each move may rely on a condition that the trace meets throughout. -/
theorem Trace.invariant_of {P : S → Prop} {Q : S × L → Prop} (h : Trace move s tr t)
    (hmove : ∀ s l t, P s → Q (s, l) → move s l t → P t) (hQ : ∀ x ∈ tr, Q x) (hs : P s) : P t := by
  induction h with
  | nil => exact hs
  | snoc _ hlast ih =>
    refine hmove _ _ _ (ih fun x hx => hQ x (List.mem_append_left _ hx)) (hQ _ ?_) hlast
    exact List.mem_append_right _ (List.mem_singleton_self _)

end Traces
