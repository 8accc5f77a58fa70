import Mathlib.Data.List.Basic

/-!
# Slots

One slot of a list changes: it is added at the end, written, or removed.
-/

namespace Taskmesh

variable {α β : Type} {i : Option Nat} {xs xs' : List α} {ys : List β} {old new : Option α}

/-- What changed, at a position the step was given, or at the end. -/
inductive SlotChange : Option Nat → List α → List α → Option α → Option α → Prop
  | same (xs : List α) : SlotChange none xs xs none none
  | added (xs : List α) (x : α) : SlotChange none xs (xs ++ [x]) none (some x)
  | written {xs : List α} {i : Nat} {x : α} (found : xs[i]? = some x) (y : α) :
      SlotChange (some i) xs (xs.set i y) (some x) (some y)
  | removed {xs : List α} {i : Nat} {x : α} (found : xs[i]? = some x) :
      SlotChange (some i) xs (xs.eraseIdx i) (some x) none

/-- Everything around the slot stays where it was. -/
theorem SlotChange.split (h : SlotChange i xs xs' old new) :
    ∃ left right, xs = left ++ old.toList ++ right ∧ xs' = left ++ new.toList ++ right := by
  cases h with
  | same => exact ⟨xs, [], by simp, by simp⟩
  | added _ x => exact ⟨xs, [], by simp, by simp⟩
  | @written _ n x found y =>
    obtain ⟨hlt, rfl⟩ := List.getElem?_eq_some_iff.mp found
    refine ⟨xs.take n, xs.drop (n + 1), ?_, ?_⟩
    · rw [List.append_assoc]
      simp
    · rw [List.set_eq_take_append_cons_drop, if_pos hlt, List.append_assoc]
      rfl
  | @removed _ n x found =>
    obtain ⟨hlt, rfl⟩ := List.getElem?_eq_some_iff.mp found
    refine ⟨xs.take n, xs.drop (n + 1), ?_, ?_⟩
    · rw [List.append_assoc]
      simp
    · rw [List.eraseIdx_eq_take_drop_succ]
      simp

theorem SlotChange.length (h : SlotChange i xs xs' old new) :
    xs'.length + old.toList.length = xs.length + new.toList.length := by
  obtain ⟨left, right, rfl, rfl⟩ := h.split
  simp only [List.length_append]
  omega

/-- A step that was given no position adds a slot, or none. -/
theorem SlotChange.old_none (h : SlotChange none xs xs' old new) : old = none := by
  cases h with
  | same | added => rfl

/-- A step that was given a position writes the slot there, or removes it. -/
theorem SlotChange.old_some {n : Nat} (h : SlotChange (some n) xs xs' old new) : ∃ x, old = some x ∧ xs[n]? = some x := by
  cases h with
  | @written _ _ x found y => exact ⟨x, rfl, found⟩
  | @removed _ _ x found => exact ⟨x, rfl, found⟩

/-- A selection of the list changes as its slot does. -/
theorem SlotChange.filterMap (h : SlotChange i xs xs' old new) (f : α → Option β) :
    ∃ left right, xs.filterMap f = left ++ (old.bind f).toList ++ right ∧
      xs'.filterMap f = left ++ (new.bind f).toList ++ right := by
  obtain ⟨left, right, rfl, rfl⟩ := h.split
  have hslot : ∀ slot : Option α, slot.toList.filterMap f = (slot.bind f).toList := by
    intro slot
    cases slot with
    | none => rfl
    | some x => cases hf : f x <;> simp [hf]
  refine ⟨left.filterMap f, right.filterMap f, ?_, ?_⟩
  · simp only [List.filterMap_append, hslot]
  · simp only [List.filterMap_append, hslot]

/-- A list kept beside the first, entry by entry, changes in the same slot. -/
theorem SlotChange.zip (h : SlotChange i xs xs' old new) (ys' : List β) {o : β} (hlength : ys.length = xs.length)
    (hat : ∀ n, i = some n → ys[n]? = some o) (hadded : xs.length < xs'.length → ys' = ys ++ [o])
    (hremoved : ∀ n, i = some n → xs'.length < xs.length → ys' = ys.eraseIdx n)
    (hsame : xs'.length = xs.length → ys' = ys) :
    ys'.length = xs'.length ∧
      SlotChange i (ys.zip xs) (ys'.zip xs') (old.map fun x => (o, x)) (new.map fun x => (o, x)) := by
  cases h with
  | same =>
    rw [hsame rfl]
    exact ⟨hlength, .same _⟩
  | added _ x =>
    rw [hadded (by simp)]
    refine ⟨by simp [hlength], ?_⟩
    rw [List.zip_append hlength]
    exact .added _ (o, x)
  | @written _ n x found y =>
    rw [hsame (by simp)]
    refine ⟨by simp [hlength], ?_⟩
    have hfound : (ys.zip xs)[n]? = some (o, x) := by
      rw [List.getElem?_zip_eq_some]
      exact ⟨hat n rfl, found⟩
    have hset : ys.zip (xs.set n y) = (ys.zip xs).set n (o, y) := by
      refine List.ext_getElem? fun m => ?_
      by_cases hm : n = m
      · subst hm
        have hlt := (List.getElem?_eq_some_iff.mp found).1
        rw [List.getElem?_set_self (by simp [hlength, hlt]), List.getElem?_zip_eq_some]
        exact ⟨hat n rfl, List.getElem?_set_self hlt⟩
      · rw [List.getElem?_set_ne hm, List.zip, List.getElem?_zipWith, List.getElem?_zipWith,
          List.getElem?_set_ne hm]
    rw [hset]
    exact .written hfound _
  | @removed _ n x found =>
    have hlt := (List.getElem?_eq_some_iff.mp found).1
    rw [hremoved n rfl (by rw [List.length_eraseIdx_of_lt hlt]; omega)]
    refine ⟨by rw [List.length_eraseIdx_of_lt hlt, List.length_eraseIdx_of_lt (by omega), hlength], ?_⟩
    have hfound : (ys.zip xs)[n]? = some (o, x) := by
      rw [List.getElem?_zip_eq_some]
      exact ⟨hat n rfl, found⟩
    have herase : (ys.eraseIdx n).zip (xs.eraseIdx n) = (ys.zip xs).eraseIdx n := by
      rw [List.eraseIdx_eq_take_drop_succ, List.eraseIdx_eq_take_drop_succ, List.eraseIdx_eq_take_drop_succ,
        List.zip_append (by simp [hlength])]
      simp [List.zip, List.take_zipWith, List.drop_zipWith]
    rw [herase]
    exact .removed hfound

end Taskmesh
