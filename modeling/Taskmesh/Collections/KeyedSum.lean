import Mathlib.Algebra.BigOperators.Group.Finset.Basic
import Mathlib.Algebra.BigOperators.Group.Multiset.Basic
import Mathlib.Algebra.Order.BigOperators.Group.List
import Mathlib.Data.Multiset.MapFold
import Mathlib.Tactic

/-!
# Sums over an ordered map

A ledger keeps totals next to the map whose entries they total. `sumBy m f` is the total of `f`
over the entries of `m`, with values in an arbitrary commutative monoid, so that counts, sums of
units and multisets of entries are all the same notion. The lemmas say how the sum moves when one
entry is inserted, removed or replaced; a total that is updated by the same amount stays exact.
-/

namespace Std.ExtTreeMap

set_option linter.unusedSectionVars false

variable {K V : Type} [Ord K] [TransOrd K] [LawfulEqOrd K]

/-! ## The entry list of an updated map -/

theorem nodup_toList (m : ExtTreeMap K V) : m.toList.Nodup := by
  refine (distinct_keys_toList (t := m)).imp ?_
  rintro a b hab rfl
  exact hab (by simp)

theorem mem_toList {m : ExtTreeMap K V} {k : K} {v : V} : (k, v) ∈ m.toList ↔ m[k]? = some v :=
  mem_toList_iff_getElem?_eq_some

/-- Inserting under a fresh key adds one entry. -/
theorem toList_insert_perm {m : ExtTreeMap K V} {k : K} (hk : m[k]? = none) (v : V) :
    (m.insert k v).toList.Perm ((k, v) :: m.toList) := by
  have hnew : (k, v) ∉ m.toList := by rw [mem_toList, hk]; simp
  refine (List.perm_ext_iff_of_nodup (nodup_toList _) (List.nodup_cons.mpr ⟨hnew, nodup_toList m⟩)).mpr ?_
  rintro ⟨a, b⟩
  rw [List.mem_cons, mem_toList, mem_toList, getElem?_insert]
  by_cases h : k = a
  · subst h; simp [hk, eq_comm]
  · simp [h, Ne.symm h]

/-- Erasing a stored key removes one entry. -/
theorem toList_erase_perm {m : ExtTreeMap K V} {k : K} {v : V} (hk : m[k]? = some v) :
    m.toList.Perm ((k, v) :: (m.erase k).toList) := by
  have hgone : (k, v) ∉ (m.erase k).toList := by rw [mem_toList]; simp
  refine (List.perm_ext_iff_of_nodup (nodup_toList m) (List.nodup_cons.mpr ⟨hgone, nodup_toList _⟩)).mpr ?_
  rintro ⟨a, b⟩
  rw [List.mem_cons, mem_toList, mem_toList, getElem?_erase]
  by_cases h : k = a
  · subst h; simp [hk, eq_comm]
  · simp [h, Ne.symm h]

theorem erase_insert_self (m : ExtTreeMap K V) (k : K) (v : V) :
    (m.erase k).insert k v = m.insert k v := by
  ext a
  simp only [getElem?_insert, getElem?_erase]
  by_cases h : k = a <;> simp [h]

/-! ## Sums -/

section Sum

variable {M : Type} [AddCommMonoid M]

/-- The sum of `f` over the entries of `m`. -/
def sumBy (m : ExtTreeMap K V) (f : K → V → M) : M := (m.toList.map fun e => f e.1 e.2).sum

@[simp] theorem sumBy_empty (f : K → V → M) : sumBy (∅ : ExtTreeMap K V) f = 0 := by
  have h : (∅ : ExtTreeMap K V).toList = [] := toList_eq_nil_iff.mpr rfl
  simp [sumBy, h]

theorem sumBy_insert_new {m : ExtTreeMap K V} {k : K} (hk : m[k]? = none) (v : V) (f : K → V → M) :
    sumBy (m.insert k v) f = f k v + sumBy m f := by
  have h := ((toList_insert_perm hk v).map fun e => f e.1 e.2).sum_eq
  simpa [sumBy] using h

theorem sumBy_erase {m : ExtTreeMap K V} {k : K} {v : V} (hk : m[k]? = some v) (f : K → V → M) :
    sumBy m f = f k v + sumBy (m.erase k) f := by
  have h := ((toList_erase_perm hk).map fun e => f e.1 e.2).sum_eq
  simpa [sumBy] using h

/-- Replacing the value of a stored key moves the sum by the difference of the two values. -/
theorem sumBy_replace {m : ExtTreeMap K V} {k : K} {v : V} (hk : m[k]? = some v) (v' : V)
    (f : K → V → M) : sumBy (m.insert k v') f + f k v = sumBy m f + f k v' := by
  have hgone : (m.erase k)[k]? = none := by simp
  rw [← erase_insert_self, sumBy_insert_new hgone, sumBy_erase hk]
  abel

/-- The same for a map read with a default that weighs nothing: the key may be absent. -/
theorem sumBy_upsert (m : ExtTreeMap K V) (k : K) (d v' : V) (f : K → V → M) (hd : f k d = 0) :
    sumBy (m.insert k v') f + f k (m[k]?.getD d) = sumBy m f + f k v' := by
  cases hk : m[k]? with
  | some v => simpa using sumBy_replace hk v' f
  | none =>
    rw [sumBy_insert_new hk]
    simp [hd, add_comm]

theorem sumBy_congr {m : ExtTreeMap K V} {f g : K → V → M}
    (h : ∀ k v, m[k]? = some v → f k v = g k v) : sumBy m f = sumBy m g := by
  unfold sumBy
  congr 1
  refine List.map_congr_left ?_
  rintro ⟨k, v⟩ hkv
  exact h k v (mem_toList.mp hkv)

theorem sumBy_eq_zero {m : ExtTreeMap K V} {f : K → V → M}
    (h : ∀ k v, m[k]? = some v → f k v = 0) : sumBy m f = 0 := by
  rw [sumBy_congr h]
  simp [sumBy]

theorem sumBy_add (m : ExtTreeMap K V) (f g : K → V → M) :
    sumBy m (fun k v => f k v + g k v) = sumBy m f + sumBy m g := by
  simp [sumBy, List.sum_map_add]

/-- A sum with one indexed term picks that term out. -/
theorem sumBy_ite_key [DecidableEq K] {m : ExtTreeMap K V} {k : K} {v : V} (hk : m[k]? = some v)
    (x : M) : sumBy m (fun k' _ => if k = k' then x else 0) = x := by
  rw [sumBy_erase hk, sumBy_eq_zero, if_pos rfl, add_zero]
  intro k' v' hk'
  rw [getElem?_erase] at hk'
  by_cases h : k = k'
  · simp [h] at hk'
  · simp [h]

/-- Two maps that read the same through a weightless default have the same sum. -/
theorem sumBy_congr_getD {m m' : ExtTreeMap K V} {f : K → V → M} (d : V) (hd : ∀ k, f k d = 0)
    (h : ∀ k, f k (m[k]?.getD d) = f k (m'[k]?.getD d)) : sumBy m f = sumBy m' f := by
  classical
  have key : ∀ (n : ExtTreeMap K V) (S : Finset K), (∀ e ∈ n.toList, e.1 ∈ S) →
      sumBy n f = ∑ k ∈ S, f k (n[k]?.getD d) := by
    intro n S hS
    have hinj : (n.toList.map Prod.fst).Nodup := by
      refine (List.pairwise_map.mpr ((distinct_keys_toList (t := n)).imp ?_))
      intro a b hab hEq
      exact hab (by simp [hEq])
    have hsub : (n.toList.map Prod.fst).toFinset ⊆ S := by
      intro k hk
      obtain ⟨e, he, rfl⟩ := List.mem_map.mp (List.mem_toFinset.mp hk)
      exact hS e he
    rw [← Finset.sum_subset hsub, List.sum_toFinset _ hinj, sumBy, List.map_map]
    · congr 1
      refine List.map_congr_left ?_
      rintro ⟨k, v⟩ hkv
      simp [mem_toList.mp hkv]
    · intro k _ hk
      have : n[k]? = none := by
        cases hn : n[k]? with
        | none => rfl
        | some v =>
          exact absurd (List.mem_toFinset.mpr (List.mem_map.mpr ⟨(k, v), mem_toList.mpr hn, rfl⟩)) hk
      simp [this, hd]
  set S : Finset K := (m.toList.map Prod.fst).toFinset ∪ (m'.toList.map Prod.fst).toFinset with hS
  rw [key m S, key m' S]
  · exact Finset.sum_congr rfl fun k _ => h k
  · intro e he
    exact Finset.mem_union_right _ (List.mem_toFinset.mpr (List.mem_map_of_mem he))
  · intro e he
    exact Finset.mem_union_left _ (List.mem_toFinset.mpr (List.mem_map_of_mem he))

/-- Summing group by group is summing at once, when every entry belongs to a listed group. -/
theorem sumBy_groups {G W : Type} [Ord G] [TransOrd G] [LawfulEqOrd G] [DecidableEq G]
    (groups : ExtTreeMap G W) (m : ExtTreeMap K V) (label : V → G) (f : K → V → M)
    (h : ∀ (k : K) (v : V), m[k]? = some v → ∃ w, groups[label v]? = some w) :
    sumBy groups (fun c _ => sumBy m fun k v => if label v = c then f k v else 0) = sumBy m f := by
  have hswap := Multiset.sum_map_sum_map (groups.toList : Multiset (G × W)) (m.toList : Multiset (K × V))
    (f := fun c e => if label e.2 = c.1 then f e.1 e.2 else 0)
  simp only [Multiset.map_coe, Multiset.sum_coe] at hswap
  unfold sumBy
  rw [hswap]
  congr 1
  refine List.map_congr_left ?_
  rintro ⟨k, v⟩ hkv
  obtain ⟨w, hw⟩ := h k v (mem_toList.mp hkv)
  exact sumBy_ite_key hw (f k v)

end Sum

/-! ## Counts and bounds -/

theorem sumBy_le_sumBy {m : ExtTreeMap K V} {f g : K → V → ℕ}
    (h : ∀ k v, m[k]? = some v → f k v ≤ g k v) : sumBy m f ≤ sumBy m g := by
  refine List.sum_le_sum ?_
  rintro ⟨k, v⟩ hkv
  exact h k v (mem_toList.mp hkv)

theorem le_sumBy {m : ExtTreeMap K V} {f : K → V → ℕ} {k : K} {v : V} (hk : m[k]? = some v) :
    f k v ≤ sumBy m f := by
  rw [sumBy_erase hk]
  exact Nat.le_add_right _ _

/-- The same for items stored under distinct keys, each weighing at most what its entry weighs. -/
theorem sum_map_le_sumBy {α : Type} {m : ExtTreeMap K V} {f : K → V → ℕ} {l : List α} {key : α → K} {w : α → ℕ}
    (hl : (l.map key).Nodup) (hm : ∀ a ∈ l, ∃ v, m[key a]? = some v ∧ w a ≤ f (key a) v) :
    (l.map w).sum ≤ sumBy m f := by
  induction l generalizing m with
  | nil => simp
  | cons a rest ih =>
    obtain ⟨hnot, hrest⟩ := List.nodup_cons.mp hl
    obtain ⟨v, hv, hle⟩ := hm a List.mem_cons_self
    have hsum := ih (m := m.erase (key a)) hrest fun b hb => by
      obtain ⟨u, hu, hub⟩ := hm b (List.mem_cons_of_mem a hb)
      refine ⟨u, ?_, hub⟩
      have hne : key a ≠ key b := fun heq => hnot (heq ▸ List.mem_map_of_mem hb)
      rw [getElem?_erase]
      simpa [hne] using hu
    rw [List.map_cons, List.sum_cons, sumBy_erase hv]
    omega

theorem size_eq_sumBy (m : ExtTreeMap K V) : m.size = sumBy m fun _ _ => 1 := by
  simp [sumBy, length_toList]

end Std.ExtTreeMap
