import Mathlib.Data.List.Forall2
import Mathlib.Tactic

/-!
# Checked traversals

A traversal of a list by a computation that may fail. Where it succeeds it succeeded at every element, in
order, whatever the failures carry.
-/

namespace Traversal

variable {α β : Type} {R : α → β → Prop} {l : List α} {l' : List β}

/-- A computation whose successes are exactly its pure values. -/
structure Checked (m : Type → Type) [Monad m] : Prop where
  pure_inj : ∀ {γ : Type} {a b : γ}, (pure a : m γ) = pure b → a = b
  bind_pure : ∀ {γ δ : Type} {x : m γ} {k : γ → m δ} {b : δ}, x >>= k = pure b → ∃ a, x = pure a ∧ k a = pure b

theorem checked_option : Checked Option where
  pure_inj h := Option.some.inj h
  bind_pure h := Option.bind_eq_some_iff.mp h

theorem checked_except (ε : Type) : Checked (Except ε) where
  pure_inj h := Except.ok.inj h
  bind_pure {_ _ x k b} h := by
    cases x with
    | error e => exact absurd h (by simp [bind, Except.bind, pure, Except.pure])
    | ok a => exact ⟨a, rfl, h⟩

/-- A traversal that succeeds lists the results of its elements. -/
theorem Checked.forall₂ {m : Type → Type} [Monad m] [LawfulMonad m] (hm : Checked m) {f : α → m β}
    (h : l.mapM f = pure l') : List.Forall₂ (fun a b => f a = pure b) l l' := by
  induction l generalizing l' with
  | nil =>
    obtain rfl := hm.pure_inj (List.mapM_nil (f := f) ▸ h)
    exact .nil
  | cons a rest ih =>
    rw [List.mapM_cons] at h
    obtain ⟨b, ha, h⟩ := hm.bind_pure h
    obtain ⟨rest', hrest, h⟩ := hm.bind_pure h
    obtain rfl := hm.pure_inj h
    exact .cons ha (ih hrest)

theorem mem_right (h : List.Forall₂ R l l') {b : β} (hb : b ∈ l') : ∃ a ∈ l, R a b := by
  induction h with
  | nil => simp at hb
  | cons hab _ ih =>
    rcases List.mem_cons.mp hb with rfl | hb
    · exact ⟨_, List.mem_cons_self, hab⟩
    · obtain ⟨a, ha, hR⟩ := ih hb
      exact ⟨a, List.mem_cons_of_mem _ ha, hR⟩

section

variable {m : Type → Type} [Monad m] [LawfulMonad m] {f : α → m β}

/-- Every result is that of an element. -/
theorem Checked.source (hm : Checked m) (h : l.mapM f = pure l') {b : β} (hb : b ∈ l') :
    ∃ a ∈ l, f a = pure b := mem_right (hm.forall₂ h) hb

/-- Every element has a result. -/
theorem Checked.result (hm : Checked m) (h : l.mapM f = pure l') {a : α} (ha : a ∈ l) :
    ∃ b ∈ l', f a = pure b := mem_right (R := fun b a => f a = pure b) (hm.forall₂ h).flip ha

end

end Traversal
