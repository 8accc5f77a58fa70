import Mathlib.Tactic

/-!
# Families of queues

A family of queues indexed by a key: pushing at the back of one queue, and removing an element from
the middle of one. A label carried at most once over the whole family stays so, and tells which
element was removed.
-/

namespace QueueFamily

variable {K α β : Type} {q q' : K → List α} {k k' : K} {a b : α} {i : Nat}

/-- `a` was pushed at the back of the queue of `k`. -/
structure Pushed (q q' : K → List α) (k : K) (a : α) : Prop where
  back : q' k = q k ++ [a]
  other : ∀ k', k' ≠ k → q' k' = q k'

/-- `a` was removed from position `i` of the queue of `k`. -/
structure Removed (q q' : K → List α) (k : K) (i : Nat) (a : α) : Prop where
  found : (q k)[i]? = some a
  rest : q' k = (q k).eraseIdx i
  other : ∀ k', k' ≠ k → q' k' = q k'

/-- No two elements of the family carry the same label. -/
structure UniqueBy (f : α → β) (q : K → List α) : Prop where
  within : ∀ k, ((q k).map f).Nodup
  across : ∀ k k' a a', a ∈ q k → a' ∈ q k' → f a = f a' → k = k'

theorem Pushed.mem_iff (h : Pushed q q' k a) : b ∈ q' k' ↔ b ∈ q k' ∨ (k' = k ∧ b = a) := by
  by_cases hk : k' = k
  · subst hk
    rw [h.back]
    simp
  · rw [h.other k' hk]
    simp [hk]

/-- The queue of the pushed element is one longer, the others keep their length. -/
theorem Pushed.length_eq [DecidableEq K] (h : Pushed q q' k a) (k' : K) :
    (q' k').length = (q k').length + if k' = k then 1 else 0 := by
  by_cases hk : k' = k
  · subst hk
    rw [h.back, if_pos rfl, List.length_append, List.length_singleton]
  · rw [h.other k' hk, if_neg hk, Nat.add_zero]

theorem Removed.mem (h : Removed q q' k i a) : a ∈ q k := List.mem_of_getElem? h.found

theorem Removed.mem_of_mem (h : Removed q q' k i a) (hb : b ∈ q' k') : b ∈ q k' := by
  by_cases hk : k' = k
  · subst hk
    rw [h.rest] at hb
    exact List.mem_of_mem_eraseIdx hb
  · rwa [h.other k' hk] at hb

/-- The queue of the removed element is one shorter, the others keep their length. -/
theorem Removed.length_eq [DecidableEq K] (h : Removed q q' k i a) (k' : K) :
    (q' k').length + (if k' = k then 1 else 0) = (q k').length := by
  by_cases hk : k' = k
  · subst hk
    have hlt : i < (q k').length := (List.getElem?_eq_some_iff.mp h.found).1
    rw [h.rest, List.length_eraseIdx_of_lt hlt, if_pos rfl]
    omega
  · rw [h.other k' hk, if_neg hk, Nat.add_zero]

theorem UniqueBy.eq_of_label {f : α → β} (h : UniqueBy f q) (ha : a ∈ q k) (hb : b ∈ q k')
    (hl : f a = f b) : a = b := by
  obtain rfl := h.across k k' a b ha hb hl
  exact List.inj_on_of_nodup_map (h.within k) ha hb hl

/-- Pushing an element with a fresh label keeps labels unique. -/
theorem UniqueBy.pushed {f : α → β} (h : UniqueBy f q) (hp : Pushed q q' k a)
    (hfresh : ∀ k' b, b ∈ q k' → f b ≠ f a) : UniqueBy f q' := by
  refine ⟨fun k' => ?_, fun k₁ k₂ a₁ a₂ h₁ h₂ hl => ?_⟩
  · by_cases hk : k' = k
    · subst hk
      rw [hp.back, List.map_append, List.nodup_append]
      refine ⟨h.within k', by simp, fun x hx y hy => ?_⟩
      obtain ⟨b, hb, rfl⟩ := List.mem_map.mp hx
      obtain rfl : y = f a := by simpa using hy
      exact hfresh k' b hb
    · rw [hp.other k' hk]
      exact h.within k'
  · rcases hp.mem_iff.mp h₁ with h₁ | ⟨rfl, rfl⟩ <;> rcases hp.mem_iff.mp h₂ with h₂ | ⟨rfl, rfl⟩
    · exact h.across k₁ k₂ a₁ a₂ h₁ h₂ hl
    · exact absurd hl (hfresh k₁ a₁ h₁)
    · exact absurd hl.symm (hfresh k₂ a₂ h₂)
    · rfl

/-- Removing an element keeps labels unique. -/
theorem UniqueBy.removed {f : α → β} (h : UniqueBy f q) (hr : Removed q q' k i a) : UniqueBy f q' := by
  refine ⟨fun k' => ?_, fun k₁ k₂ a₁ a₂ h₁ h₂ hl => ?_⟩
  · by_cases hk : k' = k
    · subst hk
      rw [hr.rest]
      exact (h.within k').sublist ((List.eraseIdx_sublist _ _).map f)
    · rw [hr.other k' hk]
      exact h.within k'
  · exact h.across k₁ k₂ a₁ a₂ (hr.mem_of_mem h₁) (hr.mem_of_mem h₂) hl

/-- What is left after a removal is everything with another label. -/
theorem Removed.mem_iff {f : α → β} {j : K} (hr : Removed q q' k i a) (h : UniqueBy f q) :
    b ∈ q' j ↔ b ∈ q j ∧ f b ≠ f a := by
  constructor
  · intro hb
    refine ⟨hr.mem_of_mem hb, fun hl => ?_⟩
    obtain rfl := h.across _ _ _ _ (hr.mem_of_mem hb) hr.mem hl
    have hba : b = a := h.eq_of_label (hr.mem_of_mem hb) hr.mem hl
    subst hba
    -- The removed position was the only one of its queue with this label.
    have hnd : (q j).Nodup := (h.within j).of_map f
    rw [hr.rest, List.mem_eraseIdx_iff_getElem?] at hb
    obtain ⟨n, hni, hn⟩ := hb
    obtain ⟨hlt, _⟩ := List.getElem?_eq_some_iff.mp hn
    exact hni ((List.getElem?_inj hlt hnd).mp (hn.trans hr.found.symm))
  · rintro ⟨hb, hne⟩
    by_cases hk : j = k
    · subst hk
      rw [hr.rest]
      obtain ⟨n, hn⟩ := List.mem_iff_getElem?.mp hb
      rw [List.mem_eraseIdx_iff_getElem?]
      refine ⟨n, fun hni => hne ?_, hn⟩
      subst hni
      rw [hr.found] at hn
      rw [Option.some.inj hn]
    · rwa [hr.other j hk]

end QueueFamily
