import Mathlib.Tactic

/-!
# Maps from keys to sets

An index that keeps, under each key, the set of members registered for it, and drops a key with its
last member. Adding and removing one member are specified by the membership relation alone; that no
key keeps an empty set is an invariant of its own.
-/

namespace SetIndex

open Std

set_option linter.unusedSectionVars false

variable {K V : Type} [Ord K] [TransOrd K] [LawfulEqOrd K] [Ord V] [TransOrd V] [LawfulEqOrd V]

/-- Register `v` under `k`, creating the entry when absent. -/
def insertMember (m : ExtTreeMap K (ExtTreeSet V)) (k : K) (v : V) : ExtTreeMap K (ExtTreeSet V) :=
  m.insert k ((m[k]?.getD ∅).insert v)

/-- Remove `v` from the entry of `k`; the entry disappears with its last member. -/
def removeMember (m : ExtTreeMap K (ExtTreeSet V)) (k : K) (v : V) : ExtTreeMap K (ExtTreeSet V) :=
  match m[k]? with
  | none => m
  | some set =>
    let set := set.erase v
    if set.isEmpty then m.erase k else m.insert k set

/-- `v` is registered under `k`. -/
def Registered (m : ExtTreeMap K (ExtTreeSet V)) (k : K) (v : V) : Prop := v ∈ m[k]?.getD ∅

/-- No key keeps an empty set. -/
def NoEmpty (m : ExtTreeMap K (ExtTreeSet V)) : Prop := ∀ k : K, m[k]? ≠ some ∅

theorem registered_iff {m : ExtTreeMap K (ExtTreeSet V)} {k : K} {v : V} :
    Registered m k v ↔ ∃ set, m[k]? = some set ∧ v ∈ set := by
  unfold Registered
  cases m[k]? with
  | none => simp
  | some set => simp

theorem registered_insertMember {m : ExtTreeMap K (ExtTreeSet V)} {k k' : K} {v v' : V} :
    Registered (insertMember m k v) k' v' ↔ (k = k' ∧ v = v') ∨ Registered m k' v' := by
  unfold Registered insertMember
  rw [ExtTreeMap.getElem?_insert]
  by_cases hk : k = k'
  · subst hk
    simp [ExtTreeSet.mem_insert]
  · simp [hk]

theorem registered_removeMember {m : ExtTreeMap K (ExtTreeSet V)} {k k' : K} {v v' : V} :
    Registered (removeMember m k v) k' v' ↔ Registered m k' v' ∧ ¬ (k = k' ∧ v = v') := by
  unfold removeMember
  cases hm : m[k]? with
  | none =>
    have h : ∀ w, ¬ Registered m k w := by intro w; simp [Registered, hm]
    by_cases hk : k = k'
    · subst hk; simp [h]
    · simp [hk]
  | some set =>
    by_cases hk : k = k'
    · subst hk
      by_cases he : (set.erase v).isEmpty
      · have hnone : v' ∉ set.erase v := by
          rw [ExtTreeSet.isEmpty_iff.mp he]; simp
        have : ¬ (v' ∈ set ∧ ¬ v = v') := by
          intro h
          exact hnone (ExtTreeSet.mem_erase.mpr ⟨by simpa using h.2, h.1⟩)
        simp only [he, if_true, Registered, ExtTreeMap.getElem?_erase_self, hm, Option.getD_some]
        simpa using this
      · simp only [he, Registered, hm, Option.getD_some]
        simp [ExtTreeSet.mem_erase, and_comm]
    · by_cases he : (set.erase v).isEmpty
      · simp [he, Registered, ExtTreeMap.getElem?_erase, hk]
      · simp [he, Registered, ExtTreeMap.getElem?_insert, hk]

theorem noEmpty_insertMember {m : ExtTreeMap K (ExtTreeSet V)} (h : NoEmpty m) (k : K) (v : V) :
    NoEmpty (insertMember m k v) := by
  intro k'
  unfold insertMember
  rw [ExtTreeMap.getElem?_insert]
  by_cases hk : k = k'
  · simp [hk]
  · simpa [hk] using h k'

theorem noEmpty_removeMember {m : ExtTreeMap K (ExtTreeSet V)} (h : NoEmpty m) (k : K) (v : V) :
    NoEmpty (removeMember m k v) := by
  intro k'
  unfold removeMember
  cases hm : m[k]? with
  | none => exact h k'
  | some set =>
    by_cases he : (set.erase v).isEmpty
    · simp only [he, if_true, ExtTreeMap.getElem?_erase]
      by_cases hk : k = k'
      · simp [hk]
      · simpa [hk] using h k'
    · have hne : set.erase v ≠ ∅ := fun hc => he (ExtTreeSet.isEmpty_iff.mpr hc)
      show (if (set.erase v).isEmpty then m.erase k else m.insert k (set.erase v))[k']? ≠ some ∅
      rw [if_neg he, ExtTreeMap.getElem?_insert]
      by_cases hk : k = k'
      · simpa [hk] using hne
      · simpa [hk] using h k'

/-- With no empty entries, an entry is present exactly when a member is registered. -/
theorem exists_registered_iff {m : ExtTreeMap K (ExtTreeSet V)} (h : NoEmpty m) {k : K} :
    (∃ v, Registered m k v) ↔ m[k]? ≠ none := by
  cases hm : m[k]? with
  | none => simp [Registered, hm]
  | some set =>
    have hne : set ≠ ∅ := fun hc => h k (hc ▸ hm)
    obtain ⟨v, hv⟩ : ∃ v, v ∈ set := by
      by_contra hcon
      push Not at hcon
      exact hne (ExtTreeSet.eq_empty_iff_forall_not_mem.mpr hcon)
    simp only [ne_eq, reduceCtorEq, not_false_eq_true, iff_true]
    exact ⟨v, registered_iff.mpr ⟨set, hm, hv⟩⟩

/-! ## Registering one member under several keys -/

theorem registered_foldl_insertMember {ks : List K} {m : ExtTreeMap K (ExtTreeSet V)} {k' : K}
    {v v' : V} :
    Registered (ks.foldl (fun m k => insertMember m k v) m) k' v' ↔
      (k' ∈ ks ∧ v = v') ∨ Registered m k' v' := by
  induction ks generalizing m with
  | nil => simp
  | cons k ks ih =>
    rw [List.foldl_cons, ih, registered_insertMember, List.mem_cons]
    constructor
    · rintro (⟨h1, h2⟩ | ⟨rfl, h2⟩ | h)
      · exact Or.inl ⟨Or.inr h1, h2⟩
      · exact Or.inl ⟨Or.inl rfl, h2⟩
      · exact Or.inr h
    · rintro (⟨rfl | h1, h2⟩ | h)
      · exact Or.inr (Or.inl ⟨rfl, h2⟩)
      · exact Or.inl ⟨h1, h2⟩
      · exact Or.inr (Or.inr h)

theorem registered_foldl_removeMember {ks : List K} {m : ExtTreeMap K (ExtTreeSet V)} {k' : K}
    {v v' : V} :
    Registered (ks.foldl (fun m k => removeMember m k v) m) k' v' ↔
      Registered m k' v' ∧ ¬ (k' ∈ ks ∧ v = v') := by
  induction ks generalizing m with
  | nil => simp
  | cons k ks ih =>
    rw [List.foldl_cons, ih, registered_removeMember, List.mem_cons]
    constructor
    · rintro ⟨⟨h1, h2⟩, h3⟩
      refine ⟨h1, ?_⟩
      rintro ⟨rfl | h4, h5⟩
      · exact h2 ⟨rfl, h5⟩
      · exact h3 ⟨h4, h5⟩
    · rintro ⟨h1, h2⟩
      refine ⟨⟨h1, ?_⟩, fun h3 => h2 ⟨Or.inr h3.1, h3.2⟩⟩
      rintro ⟨rfl, h4⟩
      exact h2 ⟨Or.inl rfl, h4⟩

theorem noEmpty_foldl_insertMember {ks : List K} {m : ExtTreeMap K (ExtTreeSet V)} (h : NoEmpty m)
    (v : V) : NoEmpty (ks.foldl (fun m k => insertMember m k v) m) := by
  induction ks generalizing m with
  | nil => exact h
  | cons k ks ih => exact ih (noEmpty_insertMember h k v)

theorem noEmpty_foldl_removeMember {ks : List K} {m : ExtTreeMap K (ExtTreeSet V)} (h : NoEmpty m)
    (v : V) : NoEmpty (ks.foldl (fun m k => removeMember m k v) m) := by
  induction ks generalizing m with
  | nil => exact h
  | cons k ks ih => exact ih (noEmpty_removeMember h k v)

end SetIndex
