import Taskmesh.Engine.Governor
import Mathlib.Tactic

/-!
# What validation guarantees

A governor exists only for a policy that validation accepts: every class passes its checks, and the
enabled classes of a tier share one discipline.
-/

namespace Taskmesh

open Std MachineInt ExtTreeMap

variable {g : Governor} {c c' : TaskClass} {policy policy' : ClassPolicy}

theorem bind_eq_ok {ε β : Type} {x : Except ε Unit} {f : Unit → Except ε β} {b : β}
    (h : (x >>= f) = .ok b) : x = .ok () ∧ f () = .ok b := by
  cases x with
  | error e => simp [bind, Except.bind] at h
  | ok u => exact ⟨rfl, h⟩

theorem checkAll_ok {α : Type} {check : α → Except PolicyViolation Unit} {l : List α}
    (h : checkAll check l = .ok ()) {a : α} (ha : a ∈ l) : check a = .ok () := by
  induction l with
  | nil => simp at ha
  | cons b rest ih =>
    obtain ⟨hb, hrest⟩ := bind_eq_ok h
    rcases List.mem_cons.mp ha with rfl | ha
    · exact hb
    · exact ih hrest ha

theorem failIf_ok {condition : Bool} {violation : PolicyViolation}
    (h : failIf condition violation = .ok ()) : condition = false := by
  cases condition with
  | false => rfl
  | true => simp [failIf] at h

/-! ## The checks of a class -/

theorem validateClass_ok (g : Governor) (h : g.policy.classPolicy c = some policy) :
    validateClass g.policy c policy = .ok () := by
  have hclasses := (bind_eq_ok (bind_eq_ok g.valid).2).1
  exact checkAll_ok hclasses (a := (c, policy)) (mem_toList.mpr h)

/-- The cost of a class fits into an empty budget. -/
theorem class_cost_le (g : Governor) (h : g.policy.classPolicy c = some policy) :
    (g.policy.resources.maxCpuUnits.toNat ≠ 0 →
      (resolveCost policy).cpuUnits ≤ g.policy.resources.maxCpuUnits.toNat) ∧
    (g.policy.resources.maxMemoryUnits.toNat ≠ 0 →
      (resolveCost policy).memoryUnits ≤ g.policy.resources.maxMemoryUnits.toNat) := by
  have hclass := validateClass_ok g h
  unfold validateClass at hclass
  simp only at hclass
  split at hclass
  · simp [bind, Except.bind] at hclass
  · -- The checks before the two budgets, in source order.
    obtain ⟨_, hclass⟩ := bind_eq_ok hclass
    obtain ⟨_, hclass⟩ := bind_eq_ok hclass
    obtain ⟨_, hclass⟩ := bind_eq_ok hclass
    obtain ⟨hcpu, hclass⟩ := bind_eq_ok hclass
    obtain ⟨hmemory, _⟩ := bind_eq_ok hclass
    have hcpu := failIf_ok hcpu
    have hmemory := failIf_ok hmemory
    simp only [Bool.and_eq_false_imp, decide_eq_true_eq, decide_eq_false_iff_not, ne_eq,
      gt_iff_lt, UInt32.not_lt, UInt32.le_iff_toNat_le, ← UInt32.toNat_inj, UInt32.toNat_zero]
      at hcpu hmemory
    exact ⟨hcpu, hmemory⟩

/-- A discipline has a weight or a quantum to share by. -/
theorem class_share_pos (g : Governor) (h : g.policy.classPolicy c = some policy) :
    (∀ weight burst, policy.fairness = .weightedFairQueue weight burst → 0 < weight.toNat) ∧
      ∀ quantum, policy.fairness = .deficitRoundRobin quantum → 0 < quantum.toNat := by
  have hclass := validateClass_ok g h
  unfold validateClass at hclass
  simp only at hclass
  split at hclass
  · simp [bind, Except.bind] at hclass
  · -- The checks before the discipline, in source order.
    obtain ⟨_, hclass⟩ := bind_eq_ok hclass
    obtain ⟨_, hclass⟩ := bind_eq_ok hclass
    obtain ⟨_, hclass⟩ := bind_eq_ok hclass
    obtain ⟨_, hclass⟩ := bind_eq_ok hclass
    obtain ⟨_, hclass⟩ := bind_eq_ok hclass
    obtain ⟨_, hclass⟩ := bind_eq_ok hclass
    obtain ⟨_, hclass⟩ := bind_eq_ok hclass
    obtain ⟨_, hclass⟩ := bind_eq_ok hclass
    have hpositive : ∀ n : UInt32, n ≠ 0 → 0 < n.toNat := by
      intro n hn
      rw [Nat.pos_iff_ne_zero]
      exact fun hzero => hn (UInt32.toNat_inj.mp hzero)
    refine ⟨fun weight burst hfair => ?_, fun quantum hfair => ?_⟩
    · rw [hfair] at hclass
      have hweight := failIf_ok (bind_eq_ok hclass).1
      exact hpositive weight (by simpa using hweight)
    · rw [hfair] at hclass
      have hquantum := failIf_ok (bind_eq_ok hclass).1
      exact hpositive quantum (by simpa using hquantum)

theorem drrQuantum_pos (g : Governor) (h : g.policy.classPolicy c = some policy) :
    0 < drrQuantum policy.fairness := by
  cases hfair : policy.fairness with
  | deficitRoundRobin quantum => exact (class_share_pos g h).2 quantum hfair
  | fifo => exact Nat.one_pos
  | weightedFairQueue weight burst => exact Nat.one_pos
  | deadlineAware slack => exact Nat.one_pos
  | bestEffortScavenger => exact Nat.one_pos

/-! ## One discipline per tier -/

/-- The discipline a tier scan has seen for the tier of a class. -/
def seenKind (primary best : Option FairnessKind) (policy : ClassPolicy) : Option FairnessKind :=
  if policy.bestEffort then best else primary

/-- An enabled class agrees with what the scan has seen of its tier, and the scan goes on with it. -/
theorem validateTiers_cons {primary best : Option FairnessKind} {rest : List (TaskClass × ClassPolicy)}
    (henabled : policy.isDisabled = false)
    (h : validateTiers primary best ((c, policy) :: rest) = .ok ()) :
    (∀ kind ∈ seenKind primary best policy, policy.fairness.kind = kind) ∧
    ∃ primary' best', validateTiers primary' best' rest = .ok () ∧
      ∀ policy', seenKind primary' best' policy' =
        if policy'.bestEffort = policy.bestEffort then some policy.fairness.kind
        else seenKind primary best policy' := by
  unfold validateTiers at h
  rw [if_neg (by simp [henabled])] at h
  by_cases hmixed : ((if policy.bestEffort then best else primary).any
      fun kind => kind ≠ policy.fairness.kind) = true
  · rw [if_pos hmixed] at h
    simp at h
  · rw [if_neg hmixed] at h
    refine ⟨fun kind hmem => ?_, ?_⟩
    · by_contra hne
      exact hmixed (Option.any_eq_true _ _ |>.mpr ⟨kind, hmem, by simpa using Ne.symm hne⟩)
    · cases hbest : policy.bestEffort with
      | true =>
        rw [if_pos hbest] at h
        refine ⟨_, _, h, fun policy' => ?_⟩
        cases hbest' : policy'.bestEffort <;> simp [seenKind, hbest']
      | false =>
        rw [if_neg (by simp [hbest])] at h
        refine ⟨_, _, h, fun policy' => ?_⟩
        cases hbest' : policy'.bestEffort <;> simp [seenKind, hbest']

/-- What a tier scan has seen binds every enabled class to come, and these agree among themselves. -/
theorem validateTiers_ok {primary best : Option FairnessKind} {classes : List (TaskClass × ClassPolicy)}
    (h : validateTiers primary best classes = .ok ()) :
    (∀ entry ∈ classes, entry.2.isDisabled = false → ∀ kind ∈ seenKind primary best entry.2,
      entry.2.fairness.kind = kind) ∧
    ∀ entry ∈ classes, ∀ entry' ∈ classes, entry.2.isDisabled = false → entry'.2.isDisabled = false →
      entry.2.bestEffort = entry'.2.bestEffort → entry.2.fairness.kind = entry'.2.fairness.kind := by
  induction classes generalizing primary best with
  | nil => simp
  | cons head rest ih =>
    obtain ⟨c, policy⟩ := head
    cases hdisabled : policy.isDisabled with
    | true =>
      have hrest : validateTiers primary best rest = .ok () := by
        unfold validateTiers at h
        rwa [if_pos hdisabled] at h
      obtain ⟨hseen, hagree⟩ := ih hrest
      -- A disabled class takes no part.
      have hlater : ∀ entry ∈ (c, policy) :: rest, entry.2.isDisabled = false → entry ∈ rest := by
        intro entry hentry henabled
        rcases List.mem_cons.mp hentry with rfl | hentry
        · simp [hdisabled] at henabled
        · exact hentry
      refine ⟨fun entry hentry henabled => ?_, fun entry hentry entry' hentry' henabled henabled' => ?_⟩
      · exact hseen entry (hlater entry hentry henabled) henabled
      · exact hagree entry (hlater entry hentry henabled) entry' (hlater entry' hentry' henabled') henabled
          henabled'
    | false =>
      obtain ⟨hhead, primary', best', hrest, hscan⟩ := validateTiers_cons hdisabled h
      obtain ⟨hseen, hagree⟩ := ih hrest
      have hlater : ∀ entry ∈ rest, entry.2.isDisabled = false → entry.2.bestEffort = policy.bestEffort →
          entry.2.fairness.kind = policy.fairness.kind := by
        intro entry hentry henabled htier
        exact hseen entry hentry henabled _ (by simp [hscan entry.2, htier])
      refine ⟨fun entry hentry henabled kind hmem => ?_,
        fun entry hentry entry' hentry' henabled henabled' htier => ?_⟩
      · rcases List.mem_cons.mp hentry with rfl | hentry
        · exact hhead kind hmem
        · by_cases htier : entry.2.bestEffort = policy.bestEffort
          · rw [hlater entry hentry henabled htier]
            refine hhead kind ?_
            simpa [seenKind, htier] using hmem
          · exact hseen entry hentry henabled kind (by rw [hscan, if_neg htier]; exact hmem)
      · rcases List.mem_cons.mp hentry with rfl | hentry
        · rcases List.mem_cons.mp hentry' with rfl | hentry'
          · rfl
          · exact (hlater entry' hentry' henabled' htier.symm).symm
        · rcases List.mem_cons.mp hentry' with rfl | hentry'
          · exact hlater entry hentry henabled htier
          · exact hagree entry hentry entry' hentry' henabled henabled' htier

/-- The enabled classes of a tier share one discipline. -/
theorem tier_discipline (g : Governor) (h : g.policy.classPolicy c = some policy)
    (h' : g.policy.classPolicy c' = some policy') (henabled : policy.isDisabled = false)
    (henabled' : policy'.isDisabled = false) (htier : policy.bestEffort = policy'.bestEffort) :
    policy.fairness.kind = policy'.fairness.kind := by
  have htiers := (bind_eq_ok (bind_eq_ok g.valid).2).2
  exact (validateTiers_ok htiers).2 (c, policy) (mem_toList.mpr h) (c', policy') (mem_toList.mpr h')
    henabled henabled' htier

end Taskmesh
