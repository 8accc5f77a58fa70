import Mathlib.Tactic

/-!
# Identities taken from a counter

Identities are taken from a counter, held by the call that took them, and used once by a shared
state. No identity is held twice, what is held is not used, and what is held or used was taken: so an
identity that was given up without being used, or whose use ended, never comes back.
-/

namespace Allocation

/-- The counter stands at `next`; the identities in `held` are taken and not used; those in `used`
are. -/
structure Allocated (next : Nat) (held : List Nat) (used : Nat → Prop) : Prop where
  nodup : held.Nodup
  below : ∀ n ∈ held, n < next
  unused : ∀ n ∈ held, ¬ used n
  spent : ∀ n, used n → n < next

variable {next n : Nat} {held held' : List Nat} {used used' : Nat → Prop}

theorem Allocated.init (hused : ∀ n, ¬ used n) (next : Nat) : Allocated next [] used :=
  ⟨List.nodup_nil, by simp, by simp, fun n h => absurd h (hused n)⟩

theorem Allocated.perm (h : Allocated next held used) (hp : held.Perm held') :
    Allocated next held' used :=
  ⟨hp.nodup_iff.mp h.nodup, fun n hn => h.below n (hp.mem_iff.mpr hn),
    fun n hn => h.unused n (hp.mem_iff.mpr hn), h.spent⟩

/-- Taking the next identity. -/
theorem Allocated.take (h : Allocated next held used) : Allocated (next + 1) (next :: held) used := by
  refine ⟨List.nodup_cons.mpr ⟨fun hn => Nat.lt_irrefl _ (h.below _ hn), h.nodup⟩, fun n hn => ?_,
    fun n hn hu => ?_, fun n hu => Nat.lt_succ_of_lt (h.spent n hu)⟩
  · rcases List.mem_cons.mp hn with rfl | hn
    · exact Nat.lt_succ_self _
    · exact Nat.lt_succ_of_lt (h.below n hn)
  · rcases List.mem_cons.mp hn with rfl | hn
    · exact Nat.lt_irrefl _ (h.spent _ hu)
    · exact h.unused n hn hu

/-- Giving up an identity, and nothing new in use. -/
theorem Allocated.less (h : Allocated next held used) (hsub : held'.Subperm held)
    (hused : ∀ n, used' n → used n) : Allocated next held' used' := by
  refine ⟨?_, fun n hn => h.below n (hsub.subset hn), fun n hn hu => h.unused n (hsub.subset hn) (hused n hu),
    fun n hu => h.spent n (hused n hu)⟩
  obtain ⟨l, hp, hs⟩ := hsub
  exact hp.nodup_iff.mp (h.nodup.sublist hs)

/-- Using an identity that was held. -/
theorem Allocated.commit (h : Allocated next (n :: held) used)
    (hused : ∀ m, used' m → used m ∨ m = n) : Allocated next held used' := by
  obtain ⟨hnot, hnodup⟩ := List.nodup_cons.mp h.nodup
  refine ⟨hnodup, fun m hm => h.below m (List.mem_cons_of_mem _ hm), fun m hm hu => ?_, fun m hu => ?_⟩
  · rcases hused m hu with hu | rfl
    · exact h.unused m (List.mem_cons_of_mem _ hm) hu
    · exact hnot hm
  · rcases hused m hu with hu | rfl
    · exact h.spent m hu
    · exact h.below m List.mem_cons_self

/-- How a counter and the identities held of it move in one step; `given` left the callers. -/
inductive HeldStep (next : Nat) (held : List Nat) : Nat → List Nat → Option Nat → Prop
  | gave {held' : List Nat} (given : Option Nat) (perm : held.Perm (given.toList ++ held')) :
      HeldStep next held next held' given
  | kept {held' : List Nat} (perm : held'.Perm held) : HeldStep next held next held' none
  | took {held' : List Nat} (perm : held'.Perm (next :: held)) :
      HeldStep next held (next + 1) held' none

/-- A step of the callers and of the shared state together: what is newly used was given. -/
theorem Allocated.step {next' : Nat} {given : Option Nat} (h : Allocated next held used)
    (hstep : HeldStep next held next' held' given) (hused : ∀ n, used' n → used n ∨ given = some n) :
    Allocated next' held' used' := by
  cases hstep with
  | gave _ perm =>
    cases given with
    | none => exact (h.perm perm).less (List.Subperm.refl _) fun n hn => (hused n hn).resolve_right (by simp)
    | some n => exact (h.perm perm).commit fun m hm => (hused m hm).imp_right fun heq => (Option.some.inj heq).symm
  | kept perm =>
    exact (h.perm perm.symm).less (List.Subperm.refl _) fun n hn => (hused n hn).resolve_right (by simp)
  | took perm =>
    exact (h.take.perm perm.symm).less (List.Subperm.refl _) fun n hn => (hused n hn).resolve_right (by simp)

/-- How many identities are held. -/
theorem HeldStep.length {next' : Nat} {given : Option Nat} (h : HeldStep next held next' held' given) :
    held'.length + given.toList.length + next = held.length + next' := by
  cases h with
  | gave _ perm =>
    have := perm.length_eq
    rw [List.length_append] at this
    omega
  | kept perm =>
    have := perm.length_eq
    simpa using this
  | took perm =>
    have := perm.length_eq
    simp at this ⊢
    omega

/-- An identity that was taken and is not held any more: it is in use, or will never be. -/
def Spent (next : Nat) (held : List Nat) (n : Nat) : Prop := n < next ∧ n ∉ held

theorem Allocated.spent_of_used (h : Allocated next held used) (hn : used n) : Spent next held n :=
  ⟨h.spent n hn, fun hmem => h.unused n hmem hn⟩

theorem Spent.step {next' : Nat} {given : Option Nat} (h : Spent next held n)
    (hstep : HeldStep next held next' held' given) : Spent next' held' n := by
  obtain ⟨hlt, hnot⟩ := h
  cases hstep with
  | gave _ perm => exact ⟨hlt, fun hmem => hnot (perm.mem_iff.mpr (List.mem_append_right _ hmem))⟩
  | kept perm => exact ⟨hlt, fun hmem => hnot (perm.mem_iff.mp hmem)⟩
  | took perm =>
    refine ⟨Nat.lt_succ_of_lt hlt, fun hmem => ?_⟩
    rcases List.mem_cons.mp (perm.mem_iff.mp hmem) with rfl | hmem
    · exact Nat.lt_irrefl _ hlt
    · exact hnot hmem

end Allocation
