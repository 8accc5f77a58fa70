import Taskmesh.Engine.Proofs.DeficitProofs

/-!
# Rotation of the ring

While the pool stays the same, the walks of consecutive selections continue one another: each starts
at the slot after the last winner. So the visits of all of them are one long walk, in which no slot
gets a visit more than another by more than one, and what a class was served is what it was credited
less what it still holds.
-/

namespace Taskmesh

open Std MachineInt GovernedState RingWalk

variable {g : Governor} {s s' t : GovernedState} {classes : List TaskClass}

/-! ## Where a walk starts -/

/-- Where a walk of a ring of classes starts: at the first class after the cursor. -/
def ringStart (cursor : Option TaskClass) (classes : List TaskClass) : Nat :=
  match cursor with
  | some cur => (classes.findIdx? fun c => compare c cur == .gt).getD 0
  | none => 0

/-- The start of a round is where the ring walk of the library begins. -/
theorem drrStart_eq (s : GovernedState) (pool : List Candidate) :
    drrStart s pool = ringStart s.drrCursor (pool.map Candidate.taskClass) := by
  unfold drrStart ringStart
  cases s.drrCursor with
  | none => rfl
  | some cur =>
    simp only [List.findIdx?_map]
    rfl

theorem ringStart_lt (cursor : Option TaskClass) (h : classes ≠ []) :
    ringStart cursor classes < classes.length := by
  have hpos : 0 < classes.length := List.length_pos_iff.mpr h
  unfold ringStart
  split
  · rename_i cur
    cases hfind : classes.findIdx? fun c => compare c cur == .gt with
    | none => exact hpos
    | some w => exact (List.findIdx?_eq_some_iff_getElem.mp hfind).1
  · exact hpos

/-- After a class of the ring was served, the walk goes on at the next slot. -/
theorem ringStart_cursor {w : Nat} {k : TaskClass} (hascending : classes.Pairwise (compare · · = .lt))
    (hw : classes[w]? = some k) : ringStart (some k) classes = (w + 1) % classes.length := by
  obtain ⟨hlt, rfl⟩ := List.getElem?_eq_some_iff.mp hw
  have horder := List.pairwise_iff_getElem.mp hascending
  have hbefore : ∀ i (hi : i < classes.length), i ≤ w → (compare classes[i] classes[w] == .gt) = false := by
    intro i hi hle
    rcases Nat.lt_or_eq_of_le hle with hlt' | rfl
    · rw [horder i w hi hlt hlt']
      rfl
    · rw [compare_self]
      rfl
  unfold ringStart
  simp only
  by_cases hlast : w + 1 < classes.length
  · have hfind : classes.findIdx? (fun c => compare c classes[w] == .gt) = some (w + 1) := by
      rw [List.findIdx?_eq_some_iff_getElem]
      refine ⟨hlast, ?_, fun i hi => ?_⟩
      · rw [OrientedCmp.gt_of_lt (horder w (w + 1) hlt hlast (Nat.lt_succ_self w))]
        rfl
      · simpa using hbefore i (by omega) (by omega)
    rw [hfind, Nat.mod_eq_of_lt hlast]
    rfl
  · have hfind : classes.findIdx? (fun c => compare c classes[w] == .gt) = none := by
      rw [List.findIdx?_eq_none_iff]
      intro c hc
      obtain ⟨i, hi, rfl⟩ := List.getElem_of_mem hc
      exact hbefore i hi (by omega)
    rw [hfind, show w + 1 = classes.length by omega, Nat.mod_self]
    rfl

/-! ## A walk that finds nobody able to pay -/

/-- The credits such a walk leaves: every class is credited its visits, the winner pays its head and
keeps less than a quantum, and nobody else affords its head yet. -/
structure Walked (s : GovernedState) (pool : List Candidate) (deficits : TaskClass → Nat) (pos w : Nat) :
    Prop where
  stop : (drrStart s pool + pos) % pool.length = w
  books : ∀ (i : Nat) (k : Candidate), pool[i]? = some k →
    deficits k.taskClass + (if i = w then max k.headCostCpu 1 else 0) =
      s.deficits k.taskClass +
        visits pool.length (drrStart s pool) i (pos + 1) * drrQuantum k.fairness
  left : ∀ (i : Nat) (k : Candidate), pool[i]? = some k →
    deficits k.taskClass < if i = w then drrQuantum k.fairness else max k.headCostCpu 1

theorem DrrServes.walked_of_short {pool : List Candidate} {deficits : TaskClass → Nat}
    {cursor : Option TaskClass} {c : TaskClass} (h : DrrServes s pool deficits cursor c) (hpool : pool ≠ [])
    (hclasses : Ascending pool) (hquanta : ∀ k ∈ pool, 0 < drrQuantum k.fairness)
    (hshort : ∀ k ∈ pool, s.deficits k.taskClass < max k.headCostCpu 1)
    (hfits : ∀ k ∈ pool, max k.headCostCpu 1 + drrQuantum k.fairness ≤ u128Max) :
    ∃ pos w candidate, pool[w]? = some candidate ∧ candidate.taskClass = c ∧ cursor = some c ∧
      Walked s pool deficits pos w := by
  cases h with
  | @kept kept serves =>
    obtain ⟨_, hmem, hafford⟩ := drrCursorServes_eq_some serves
    exact absurd hafford (Nat.not_le.mpr (hshort kept hmem))
  | @walked credited pos winner chosen serves found earliest plan slots others =>
    obtain ⟨full, hfull, hcredited⟩ := walked_credit hpool hclasses slots
    have hstart : drrStart s pool < (ringOf pool).length := by
      rw [length_ringOf]
      exact drrStart_lt s hpool
    have hbooks : ∀ (i : Nat) (k : Candidate), pool[i]? = some k → full k.taskClass =
        s.deficits k.taskClass + visits pool.length (drrStart s pool) i (pos + 1) * drrQuantum k.fairness := by
      intro i k hk
      have hslot := hfull.slots i _ (getElem?_ringOf.mpr ⟨k, hk, rfl⟩)
      rwa [length_ringOf] at hslot
    have hpassed : ∀ (i : Nat) (k : Candidate), pool[i]? = some k → i ≠ winner →
        full k.taskClass < max k.headCostCpu 1 := by
      intro i k hk hne
      rcases earliest.passed (ringOf_quanta_pos hquanta) hstart hfull
        (getElem?_ringOf.mpr ⟨k, hk, rfl⟩) hne with hless | hsame
      · exact hless
      · exact hsame.trans_lt (hshort k (List.mem_of_getElem? hk))
    have hserved : max chosen.headCostCpu 1 ≤ full chosen.taskClass ∧
        full chosen.taskClass < max chosen.headCostCpu 1 + drrQuantum chosen.fairness := by
      obtain ⟨hle, hless⟩ := earliest.served (ringOf_quanta_pos hquanta) hstart hfull
      have hbefore := hshort chosen (List.mem_of_getElem? found)
      refine ⟨hle, ?_⟩
      rcases hless with hless | hone
      · exact hless
      · simp only at hone
        omega
    have hexact : ∀ (i : Nat) (k : Candidate), pool[i]? = some k → credited k.taskClass = full k.taskClass := by
      intro i k hk
      refine (hcredited i k hk).2 ?_
      have hfit := hfits k (List.mem_of_getElem? hk)
      by_cases hwinner : i = winner
      · subst hwinner
        obtain rfl : chosen = k := Option.some.inj (found.symm.trans hk)
        omega
      · have := hpassed i k hk hwinner
        omega
    refine ⟨pos, winner, chosen, found, rfl, rfl, ?_, fun i k hk => ?_, fun i k hk => ?_⟩
    · have hmod := earliest.pos_mod
      rw [length_ringOf] at hmod
      have hlt := earliest.winner_lt
      rw [length_ringOf] at hlt
      exact (mod_eq_iff_offset hlt (drrStart_lt s hpool)).mpr hmod
    · by_cases hwinner : i = winner
      · subst hwinner
        obtain rfl : chosen = k := Option.some.inj (found.symm.trans hk)
        rw [if_pos rfl, Function.update_self, hexact i chosen hk, ← hbooks i chosen hk]
        omega
      · rw [if_neg hwinner, Function.update_of_ne (hclasses.class_ne hk found hwinner), hexact i k hk,
          ← hbooks i k hk, Nat.add_zero]
    · by_cases hwinner : i = winner
      · subst hwinner
        obtain rfl : chosen = k := Option.some.inj (found.symm.trans hk)
        rw [if_pos rfl, Function.update_self, hexact i chosen hk]
        omega
      · rw [if_neg hwinner, Function.update_of_ne (hclasses.class_ne hk found hwinner), hexact i k hk]
        exact hpassed i k hk hwinner

/-! ## A run over one pool -/

/-- What a visit credits a class. -/
def PolicySet.quantumOf (policies : PolicySet) (c : TaskClass) : Nat :=
  ((policies.classPolicy c).map fun policy => drrQuantum policy.fairness).getD 1

/-- What a service of a class costs. -/
def PolicySet.costOf (policies : PolicySet) (c : TaskClass) : Nat :=
  ((policies.classPolicy c).map headCost).getD 1

/-- What a move pays for the class `c`: the cost of the request it serves, floored at one. -/
def serviceCost (c : TaskClass) : GovernedState × ScheduleEvent → Nat
  | (s, .dispatched selection) =>
    if selection.taskClass = c then
      (((s.cls c).queue[selection.queueIndex]?).map fun r => max r.cost.cpuUnits 1).getD 0
    else 0
  | _ => 0

/-- What the class `c` was served along a trace. -/
def serviceTotal (c : TaskClass) (tr : List (GovernedState × ScheduleEvent)) : Nat :=
  (tr.map (serviceCost c)).sum

theorem serviceTotal_snoc (c : TaskClass) (tr : List (GovernedState × ScheduleEvent))
    (x : GovernedState × ScheduleEvent) :
    serviceTotal c (tr ++ [x]) = serviceTotal c tr + serviceCost c x := by
  simp [serviceTotal]

/-- Every dispatch of the trace chose among the same classes, and none of them was ever empty before a
move. -/
structure Steady (g : Governor) (classes : List TaskClass) (tr : List (GovernedState × ScheduleEvent)) :
    Prop where
  pool : ∀ x ∈ tr, ∀ selection, x.2 = .dispatched selection →
    (contendedTier (runnableCandidates x.1 g.policy)).map Candidate.taskClass = classes
  busy : ∀ x ∈ tr, ∀ c ∈ classes, (x.1.cls c).queue ≠ []

/-- The classes share by deficit round robin. -/
def SharesByDeficit (g : Governor) (classes : List TaskClass) : Prop :=
  ∀ c ∈ classes, ∃ policy quantum, g.policy.classPolicy c = some policy ∧
    policy.fairness = .deficitRoundRobin quantum

/-- The accounts of a run over one pool, after `T` visits: `credit` is what each class holds, up to the
reset of a queue that has just drained. -/
structure Rotation (g : Governor) (classes : List TaskClass) (s : GovernedState)
    (tr : List (GovernedState × ScheduleEvent)) (t : GovernedState) (T : Nat) (credit : TaskClass → Nat) :
    Prop where
  books : ∀ (i : Nat) (k : TaskClass), classes[i]? = some k →
    serviceTotal k tr + credit k = s.deficits k +
      visits classes.length (ringStart s.drrCursor classes) i T * g.policy.quantumOf k
  bounded : ∀ k ∈ classes, credit k < max (g.policy.costOf k) (g.policy.quantumOf k)
  current : ∀ k ∈ classes, (t.cls k).queue ≠ [] → t.deficits k = credit k
  cursor : (T = 0 ∧ t.drrCursor = s.drrCursor ∧ ∀ k ∈ classes, credit k < g.policy.costOf k) ∨
    ∃ w k, classes[w]? = some k ∧ t.drrCursor = some k ∧
      (ringStart s.drrCursor classes + T) % classes.length = (w + 1) % classes.length ∧
      ∀ k' ∈ classes, k' ≠ k → credit k' < g.policy.costOf k'

/-- A run in which nobody can afford its head begins a rotation. -/
theorem Rotation.start (hshort : ∀ k ∈ classes, s.deficits k < g.policy.costOf k) :
    Rotation g classes s [] s 0 s.deficits := by
  refine ⟨fun i k _ => ?_, fun k hk => lt_max_of_lt_left (hshort k hk), fun _ _ _ => rfl,
    Or.inl ⟨rfl, rfl, hshort⟩⟩
  simp [serviceTotal, visits]

/-- Only a dispatch serves anybody. -/
theorem serviceCost_quiet {event : ScheduleEvent} (hquiet : ∀ selection, event ≠ .dispatched selection)
    (c : TaskClass) : serviceCost c (t, event) = 0 := by
  cases event with
  | dispatched selection => exact absurd rfl (hquiet selection)
  | ticked => rfl
  | other => rfl
  | granted k => rfl
  | enqueued k => rfl
  | dropped k index => rfl
  | emptied k => rfl

/-- Only a service moves the cursor of the ring. -/
theorem ScheduleMove.cursor_eq {event : ScheduleEvent} (h : ScheduleMove g t event s')
    (hquiet : ∀ selection, event ≠ .dispatched selection) : s'.drrCursor = t.drrCursor := by
  cases h with
  | ticked => rfl
  | other same ages => exact same.cursor
  | granted known => rfl
  | @enqueued policy k request waker ids blockedOn known enabled =>
    obtain ⟨tagged, r, harrives⟩ := arrives_enqueuedAt t policy k request waker ids blockedOn
    exact harrives.cursor.trans harrives.tagging.own_class.2.2
  | dispatched chosen promoted => exact absurd rfl (hquiet _)
  | dropped known found same ages => exact same.cursor
  | emptied same ages => exact same.cursor

/-- Only a service or the end of its busy period moves the credit of a class. -/
theorem ScheduleMove.deficit_eq {event : ScheduleEvent} {c : TaskClass} (h : ScheduleMove g t event s')
    (hquiet : ∀ selection, event ≠ .dispatched selection) (hbusy : (s'.cls c).queue ≠ []) :
    s'.deficits c = t.deficits c := by
  cases h.class_cases c with
  | kept same time apart still => exact congrArg ClassSchedule.deficit same
  | shifted other rebased time known fair overflows => exact congrArg ClassSchedule.deficit rebased
  | arrived known arrives =>
    exact (congrArg ClassSchedule.deficit arrives.own).trans arrives.tagging.own_class.2.1
  | passed serves other => exact absurd rfl (hquiet _)
  | served serves own => exact absurd rfl (hquiet _)
  | @dropped policy index r known found left time =>
    have hqueue : (((t.cls c).schedule.dequeued index).rederived policy.fairness t.virtualTime).queue ≠ [] := by
      rw [← left]
      exact hbusy
    refine (congrArg ClassSchedule.deficit left).trans ?_
    unfold ClassSchedule.rederived at hqueue ⊢
    split at hqueue
    · exact absurd rfl hqueue
    · rename_i hne
      rw [if_neg hne]
      cases policy.fairness <;> rfl
  | emptied left time => exact absurd (congrArg ClassSchedule.queue left) hbusy

/-- A move that serves nobody leaves the accounts alone. -/
theorem Rotation.quiet {tr : List (GovernedState × ScheduleEvent)} {event : ScheduleEvent} {T : Nat}
    {credit : TaskClass → Nat} (h : Rotation g classes s tr t T credit) (hmove : ScheduleMove g t event s')
    (hbusy : ∀ c ∈ classes, (t.cls c).queue ≠ []) (hquiet : ∀ selection, event ≠ .dispatched selection) :
    Rotation g classes s (tr ++ [(t, event)]) s' T credit := by
  refine ⟨fun i k hk => ?_, h.bounded, fun k hk hne => ?_, ?_⟩
  · rw [serviceTotal_snoc, serviceCost_quiet hquiet, Nat.add_zero]
    exact h.books i k hk
  · rw [hmove.deficit_eq hquiet hne]
    exact h.current k hk (hbusy k hk)
  · rw [hmove.cursor_eq hquiet]
    exact h.cursor

/-! ## One service -/

theorem costOf_eq {c : TaskClass} {policy : ClassPolicy} (h : g.policy.classPolicy c = some policy) :
    g.policy.costOf c = headCost policy := by
  simp [PolicySet.costOf, h]

theorem quantumOf_eq {c : TaskClass} {policy : ClassPolicy} (h : g.policy.classPolicy c = some policy) :
    g.policy.quantumOf c = drrQuantum policy.fairness := by
  simp [PolicySet.quantumOf, h]

/-- The slots of a pool, by what their classes charge and are credited. -/
theorem Priced.slot {candidate : Candidate} (h : Priced g t)
    (hmem : candidate ∈ runnableCandidates t g.policy) :
    max candidate.headCostCpu 1 = g.policy.costOf candidate.taskClass ∧
      drrQuantum candidate.fairness = g.policy.quantumOf candidate.taskClass := by
  obtain ⟨policy, head, hcandidate⟩ := isCandidate_of_mem hmem
  obtain ⟨hcost, hfair⟩ := h.candidate hmem hcandidate.known
  rw [hcost, hfair, costOf_eq hcandidate.known, quantumOf_eq hcandidate.known]
  exact ⟨rfl, rfl⟩

/-- A head cost and a quantum are `u32` values, so their sum cannot saturate. -/
theorem costOf_add_quantumOf_le (g : Governor) (c : TaskClass) :
    g.policy.costOf c + g.policy.quantumOf c ≤ u128Max := by
  cases hpolicy : g.policy.classPolicy c with
  | none =>
    simp only [PolicySet.costOf, PolicySet.quantumOf, hpolicy]
    decide
  | some policy =>
    rw [costOf_eq hpolicy, quantumOf_eq hpolicy]
    have hcost : headCost policy ≤ 2 ^ 32 := by
      have := policy.permitCost.cpuUnits.toNat_lt
      unfold headCost
      omega
    have hquantum : drrQuantum policy.fairness ≤ 2 ^ 32 := by
      cases policy.fairness with
      | deficitRoundRobin quantum => exact Nat.le_of_lt quantum.toNat_lt
      | fifo => decide
      | weightedFairQueue weight burst => exact Nat.one_le_two_pow
      | deadlineAware slack => exact Nat.one_le_two_pow
      | bestEffortScavenger => decide
    calc headCost policy + drrQuantum policy.fairness ≤ 2 ^ 32 + 2 ^ 32 := Nat.add_le_add hcost hquantum
      _ ≤ u128Max := by decide

/-- A pool of the ring: the candidates of the classes, in their order. -/
structure PoolOf (g : Governor) (t : GovernedState) (classes : List TaskClass) (pool : List Candidate) :
    Prop where
  tier : contendedTier (runnableCandidates t g.policy) = pool
  classes_eq : pool.map Candidate.taskClass = classes
  nonempty : pool ≠ []

namespace PoolOf

variable {pool : List Candidate}

/-- Every member of the pool is a candidate. -/
theorem runnable (h : PoolOf g t classes pool) {k : Candidate} (hk : k ∈ pool) :
    k ∈ runnableCandidates t g.policy := contendedTier_subset (by rw [h.tier]; exact hk)

theorem ascending (h : PoolOf g t classes pool) : Ascending pool := h.tier ▸ ascending_contendedTier t g.policy

/-- The classes of the pool stand in the order of the class map. -/
theorem classes_ascending (h : PoolOf g t classes pool) : classes.Pairwise (compare · · = .lt) := by
  rw [← h.classes_eq, List.pairwise_map]
  exact h.ascending

theorem length_eq (h : PoolOf g t classes pool) : pool.length = classes.length := by
  rw [← h.classes_eq, List.length_map]

theorem mem (h : PoolOf g t classes pool) {k : Candidate} (hk : k ∈ pool) : k.taskClass ∈ classes := by
  rw [← h.classes_eq]
  exact List.mem_map_of_mem hk

theorem getElem (h : PoolOf g t classes pool) {i : Nat} {k : Candidate} (hk : pool[i]? = some k) :
    classes[i]? = some k.taskClass := by
  rw [← h.classes_eq, List.getElem?_map, hk]
  rfl

/-- Every class of the pool has its place in the ring. -/
theorem exists_slot (h : PoolOf g t classes pool) {i : Nat} {c : TaskClass} (hc : classes[i]? = some c) :
    ∃ k, pool[i]? = some k ∧ k.taskClass = c := by
  rw [← h.classes_eq, List.getElem?_map, Option.map_eq_some_iff] at hc
  exact hc

end PoolOf

section Service

variable {pool : List Candidate} {tr : List (GovernedState × ScheduleEvent)} {T : Nat}
  {credit : TaskClass → Nat}

/-- When the cursor class cannot pay, nobody can. -/
theorem Rotation.short (h : Rotation g classes s tr t T credit) (hpool : PoolOf g t classes pool)
    (hpriced : Priced g t) (hbusy : ∀ c ∈ classes, (t.cls c).queue ≠ [])
    (hserves : drrCursorServes t pool = none) :
    ∀ k ∈ pool, t.deficits k.taskClass < max k.headCostCpu 1 := by
  intro k hk
  have hcurrent := h.current k.taskClass (hpool.mem hk) (hbusy _ (hpool.mem hk))
  have hcost := (hpriced.slot (hpool.runnable hk)).1
  by_contra hafford
  rcases h.cursor with ⟨_, _, hshort⟩ | ⟨w, cur, _, hcursor, _, hshort⟩
  · have := hshort k.taskClass (hpool.mem hk)
    omega
  · by_cases hcur : k.taskClass = cur
    · subst hcur
      have := drrCursorServes_of_affords hpool.ascending hk hcursor (Nat.not_lt.mp hafford)
      rw [hserves] at this
      simp at this
    · have := hshort k.taskClass (hpool.mem hk) hcur
      omega

/-- The next walk goes on where the last one stopped. -/
theorem Rotation.start_eq (h : Rotation g classes s tr t T credit) (hpool : PoolOf g t classes pool) :
    drrStart t pool = (ringStart s.drrCursor classes + T) % classes.length := by
  have hstart : drrStart t pool = ringStart t.drrCursor classes := by
    rw [drrStart_eq, hpool.classes_eq]
  rcases h.cursor with ⟨rfl, hcursor, _⟩ | ⟨w, cur, hw, hcursor, hcontinues, _⟩
  · have hlt := drrStart_lt t hpool.nonempty
    rw [hpool.length_eq, hstart, hcursor] at hlt
    rw [hstart, hcursor, Nat.add_zero, Nat.mod_eq_of_lt hlt]
  · rw [hstart, hcursor, ringStart_cursor hpool.classes_ascending hw, hcontinues]

/-- The accounts after the cursor class was served again. -/
theorem Rotation.kept {event : ScheduleEvent} {kept : Candidate} (h : Rotation g classes s tr t T credit)
    (hpool : PoolOf g t classes pool) (hpriced : Priced g t) (hbusy : ∀ c ∈ classes, (t.cls c).queue ≠ [])
    (hserves : drrCursorServes t pool = some kept) {credit' : TaskClass → Nat}
    (hcredit : credit' = Function.update t.deficits kept.taskClass
      (t.deficits kept.taskClass - max kept.headCostCpu 1))
    (hservice : ∀ c, serviceCost c (t, event) =
      if c = kept.taskClass then g.policy.costOf c else 0)
    (hcurrent : ∀ k ∈ classes, (s'.cls k).queue ≠ [] → s'.deficits k = credit' k)
    (hcursor : s'.drrCursor = t.drrCursor) :
    Rotation g classes s (tr ++ [(t, event)]) s' T credit' := by
  obtain ⟨hcur, hmem, hafford⟩ := drrCursorServes_eq_some hserves
  have hcost := (hpriced.slot (hpool.runnable hmem)).1
  have hheld : ∀ k ∈ classes, t.deficits k = credit k := fun k hk => h.current k hk (hbusy k hk)
  have hown := hheld _ (hpool.mem hmem)
  have hself : credit' kept.taskClass = credit kept.taskClass - g.policy.costOf kept.taskClass := by
    rw [hcredit, Function.update_self, hown, hcost]
  have hothers : ∀ k ∈ classes, k ≠ kept.taskClass → credit' k = credit k := by
    intro k hk hne
    rw [hcredit, Function.update_of_ne hne, hheld k hk]
  rw [hcost, hown] at hafford
  refine ⟨fun i k hk => ?_, fun k hk => ?_, hcurrent, ?_⟩
  · rw [serviceTotal_snoc, hservice, ← h.books i k hk]
    by_cases hsame : k = kept.taskClass
    · subst hsame
      rw [if_pos rfl, hself]
      omega
    · rw [if_neg hsame, hothers k (List.mem_of_getElem? hk) hsame, Nat.add_zero]
  · by_cases hsame : k = kept.taskClass
    · subst hsame
      rw [hself]
      exact (Nat.sub_le _ _).trans_lt (h.bounded _ hk)
    · rw [hothers k hk hsame]
      exact h.bounded k hk
  · rcases h.cursor with ⟨_, _, hshort⟩ | ⟨w, cur, hw, hcursor', hcontinues, hshort⟩
    · exact absurd hafford (Nat.not_le.mpr (hshort _ (hpool.mem hmem)))
    · obtain rfl : kept.taskClass = cur := Option.some.inj (hcur.symm.trans hcursor')
      refine Or.inr ⟨w, _, hw, hcursor.trans hcursor', hcontinues, fun k' hk' hne => ?_⟩
      rw [hothers k' hk' hne]
      exact hshort k' hk' hne

/-- The accounts after a walk. -/
theorem Rotation.walked {event : ScheduleEvent} {winner : Candidate} {pos w : Nat}
    {credit' : TaskClass → Nat} (h : Rotation g classes s tr t T credit) (hpool : PoolOf g t classes pool)
    (hpriced : Priced g t) (hbusy : ∀ c ∈ classes, (t.cls c).queue ≠ [])
    (hwalked : Walked t pool credit' pos w) (hwinner : pool[w]? = some winner)
    (hservice : ∀ c, serviceCost c (t, event) =
      if c = winner.taskClass then g.policy.costOf c else 0)
    (hcurrent : ∀ k ∈ classes, (s'.cls k).queue ≠ [] → s'.deficits k = credit' k)
    (hcursor : s'.drrCursor = some winner.taskClass) :
    Rotation g classes s (tr ++ [(t, event)]) s' (T + (pos + 1)) credit' := by
  have hstart := h.start_eq hpool
  have hlength := hpool.length_eq
  have hsame : ∀ (i : Nat) (k : Candidate), pool[i]? = some k →
      (i = w ↔ k.taskClass = winner.taskClass) := by
    intro i k hk
    refine ⟨fun heq => ?_, fun heq => ?_⟩
    · subst heq
      rw [Option.some.inj (hk.symm.trans hwinner)]
    · by_contra hne
      exact hpool.ascending.class_ne hk hwinner hne heq
  refine ⟨fun i c hc => ?_, fun c hc => ?_, hcurrent, Or.inr ⟨w, _, hpool.getElem hwinner, hcursor, ?_, ?_⟩⟩
  · obtain ⟨k, hk, rfl⟩ := hpool.exists_slot hc
    obtain ⟨hcost, hquantum⟩ := hpriced.slot (hpool.runnable (List.mem_of_getElem? hk))
    have hbooks := hwalked.books i k hk
    have hheld := h.current k.taskClass (List.mem_of_getElem? hc) (hbusy _ (List.mem_of_getElem? hc))
    have hpaid : serviceCost k.taskClass (t, event) = if i = w then max k.headCostCpu 1 else 0 := by
      rw [hservice, hcost]
      simp only [hsame i k hk]
    rw [hlength, hstart, hheld, hquantum] at hbooks
    rw [serviceTotal_snoc, hpaid, visits_add, Nat.add_mul, ← Nat.add_assoc, ← h.books i k.taskClass hc]
    omega
  · obtain ⟨i, hi⟩ := List.mem_iff_getElem?.mp hc
    obtain ⟨k, hk, rfl⟩ := hpool.exists_slot hi
    obtain ⟨hcost, hquantum⟩ := hpriced.slot (hpool.runnable (List.mem_of_getElem? hk))
    have hleft := hwalked.left i k hk
    rw [hcost, hquantum] at hleft
    split at hleft
    · exact lt_max_of_lt_right hleft
    · exact lt_max_of_lt_left hleft
  · have hstop := hwalked.stop
    rw [hlength, hstart, Nat.mod_add_mod] at hstop
    rw [← hstop, Nat.mod_add_mod, ← Nat.add_assoc, ← Nat.add_assoc]
  · intro c hc hne
    obtain ⟨i, hi⟩ := List.mem_iff_getElem?.mp hc
    obtain ⟨k, hk, rfl⟩ := hpool.exists_slot hi
    have hleft := hwalked.left i k hk
    rw [if_neg fun heq => hne ((hsame i k hk).mp heq),
      (hpriced.slot (hpool.runnable (List.mem_of_getElem? hk))).1] at hleft
    exact hleft

theorem credited_deficit_of_ne {fairness : FairnessPolicy} {virtualTime index tag : Nat} {c : ClassSchedule}
    (h : (c.credited fairness virtualTime index tag).queue ≠ []) :
    (c.credited fairness virtualTime index tag).deficit = c.deficit := by
  unfold ClassSchedule.credited at h ⊢
  split at h
  · exact absurd rfl h
  · rename_i hne
    rw [if_neg hne]
    simp only
    split
    · cases fairness <;> rfl
    · rfl

/-- What a service leaves of the credits, for the classes that stay busy. -/
theorem Serves.deficits_eq {first candidate : Candidate} {rest : List Candidate} {policy : ClassPolicy}
    {head : PendingRequest} (h : Serves g t s' first rest candidate policy head) {k : TaskClass}
    (hbusy : (s'.cls k).queue ≠ []) : s'.deficits k = (dispatchChoice t first rest).1.deficits k := by
  by_cases hk : k = candidate.taskClass
  · subst hk
    have hbusy : (s'.cls candidate.taskClass).schedule.queue ≠ [] := hbusy
    rw [h.own] at hbusy
    exact (congrArg ClassSchedule.deficit h.own).trans (credited_deficit_of_ne hbusy)
  · exact congrArg ClassSchedule.deficit (h.others k hk)

/-- What a service pays. -/
theorem Serves.serviceCost_eq {first candidate : Candidate} {rest : List Candidate} {policy : ClassPolicy}
    {head : PendingRequest} (h : Serves g t s' first rest candidate policy head) (hpriced : Priced g t)
    (c : TaskClass) : serviceCost c (t, candidate.dispatched) =
      if c = candidate.taskClass then g.policy.costOf c else 0 := by
  simp only [serviceCost, Candidate.dispatched]
  by_cases hc : candidate.taskClass = c
  · subst hc
    rw [if_pos rfl, if_pos rfl, h.driven.queued, ← (hpriced.slot h.selects.mem).1, h.driven.cost]
    rfl
  · rw [if_neg hc, if_neg (Ne.symm hc)]

/-- One service keeps the accounts. -/
theorem Rotation.serve {selection : Selection} (h : Rotation g classes s tr t T credit)
    (hshares : SharesByDeficit g classes) (hpriced : Priced g t)
    (hmove : ScheduleMove g t (.dispatched selection) s')
    (htier : (contendedTier (runnableCandidates t g.policy)).map Candidate.taskClass = classes)
    (hbusy : ∀ c ∈ classes, (t.cls c).queue ≠ []) :
    ∃ T' credit', Rotation g classes s (tr ++ [(t, .dispatched selection)]) s' T' credit' := by
  cases hmove with
  | dispatched chosen promoted =>
    obtain ⟨first, rest, candidate, policy, head, hserves, hselect⟩ := serves_of_promoteStep promoted
    obtain rfl := Option.some.inj (chosen.symm.trans hselect)
    have hpool : PoolOf g t classes (first :: rest) :=
      ⟨hserves.selects.tier, hserves.selects.tier ▸ htier, List.cons_ne_nil first rest⟩
    have hdrr : dispatchChoice t first rest = drrSelect t (first :: rest) := by
      obtain ⟨policy', quantum, hknown, hfair⟩ := hshares _ (hpool.mem List.mem_cons_self)
      obtain ⟨policy'', _, hcandidate⟩ := isCandidate_of_mem (hpool.runnable List.mem_cons_self)
      obtain rfl : policy' = policy'' := Option.some.inj (hknown.symm.trans hcandidate.known)
      unfold dispatchChoice
      rw [hcandidate.fairness, hfair]
    obtain ⟨c, hc, hround⟩ := drrSelect_serves t (List.cons_ne_nil first rest) hpool.ascending
    obtain rfl : candidate.taskClass = c := by
      have hchose := hserves.selects.chose
      rw [hdrr, hc] at hchose
      exact (Option.some.inj hchose).symm
    have hcurrent : ∀ k ∈ classes, (s'.cls k).queue ≠ [] →
        s'.deficits k = (drrSelect t (first :: rest)).1.deficits k := by
      intro k _ hne
      rw [hserves.deficits_eq hne, hdrr]
    have hcursor : s'.drrCursor = (drrSelect t (first :: rest)).1.drrCursor := by
      rw [hserves.cursor, hdrr]
    have hservice := hserves.serviceCost_eq hpriced
    have hquanta : ∀ k ∈ first :: rest, 0 < drrQuantum k.fairness :=
      fun k hk => quanta_pos g t (hpool.runnable hk)
    cases hkept : drrCursorServes t (first :: rest) with
    | some kept =>
      have hclass : kept.taskClass = candidate.taskClass ∧ (drrSelect t (first :: rest)).1.deficits =
          Function.update t.deficits kept.taskClass (t.deficits kept.taskClass - max kept.headCostCpu 1) ∧
          (drrSelect t (first :: rest)).1.drrCursor = t.drrCursor := by
        unfold drrSelect at hc ⊢
        simp only [hkept] at hc ⊢
        exact ⟨Option.some.inj hc, deficits_spendDeficit _ _ _, rfl⟩
      obtain ⟨hclass, hcredit, hstays⟩ := hclass
      refine ⟨T, _, h.kept hpool hpriced hbusy hkept hcredit ?_ hcurrent (hcursor.trans hstays)⟩
      rw [hclass]
      exact hservice
    | none =>
      have hshort := h.short hpool hpriced hbusy hkept
      have hfits : ∀ k ∈ first :: rest, max k.headCostCpu 1 + drrQuantum k.fairness ≤ u128Max := by
        intro k hk
        obtain ⟨hcost, hquantum⟩ := hpriced.slot (hpool.runnable hk)
        rw [hcost, hquantum]
        exact costOf_add_quantumOf_le g _
      obtain ⟨pos, w, winner, hwinner, hclass, hstays, hwalked⟩ :=
        hround.walked_of_short (List.cons_ne_nil first rest) hpool.ascending hquanta hshort hfits
      refine ⟨T + (pos + 1), _, h.walked hpool hpriced hbusy hwalked hwinner ?_ hcurrent ?_⟩
      · rw [hclass]
        exact hservice
      · rw [hcursor, hstays, hclass]

end Service

/-! ## A whole run -/

/-- The accounts of a run over one pool. The induction is on the trace: a move that serves nobody
leaves them alone, and a service continues the walk of the ring. -/
theorem rotation_of_trace {tr : List (GovernedState × ScheduleEvent)} (htrace : ScheduleTrace g s tr t)
    (hshares : SharesByDeficit g classes) (hpriced : Priced g s) (hsteady : Steady g classes tr)
    (hshort : ∀ k ∈ classes, s.deficits k < g.policy.costOf k) :
    ∃ T credit, Rotation g classes s tr t T credit := by
  have hboth : Priced g t ∧ ∃ T credit, Rotation g classes s tr t T credit := by
    induction htrace with
    | nil => exact ⟨hpriced, 0, _, Rotation.start hshort⟩
    | @snoc t t' tr event _ hmove ih =>
      have hbefore : Steady g classes tr :=
        ⟨fun x hx => hsteady.pool x (List.mem_append_left _ hx),
          fun x hx => hsteady.busy x (List.mem_append_left _ hx)⟩
      have hlast : (t, event) ∈ tr ++ [(t, event)] := List.mem_append_right _ (List.mem_singleton_self _)
      obtain ⟨hpriced', T, credit, hrotation⟩ := ih hbefore
      have hbusy : ∀ c ∈ classes, (t.cls c).queue ≠ [] := hsteady.busy (t, event) hlast
      have hpool : ∀ selection, event = .dispatched selection →
          (contendedTier (runnableCandidates t g.policy)).map Candidate.taskClass = classes :=
        hsteady.pool (t, event) hlast
      refine ⟨hpriced'.step hmove, ?_⟩
      by_cases hserves : ∃ selection, event = .dispatched selection
      · obtain ⟨selection, rfl⟩ := hserves
        exact hrotation.serve hshares hpriced' hmove (hpool selection rfl) hbusy
      · push Not at hserves
        exact ⟨T, credit, hrotation.quiet hmove hbusy hserves⟩
  exact hboth.2

/-- The shares of two accounts whose visits differ by at most one. -/
theorem share_difference {served₁ served₂ credit₁ credit₂ initial₁ initial₂ visits₁ visits₂ q₁ q₂ m₁ m₂ : Nat}
    (h₁ : served₁ + credit₁ = initial₁ + visits₁ * q₁) (h₂ : served₂ + credit₂ = initial₂ + visits₂ * q₂)
    (hcredit₂ : credit₂ ≤ m₂) (hinitial₁ : initial₁ ≤ m₁) (hvisits : visits₁ ≤ visits₂ + 1) :
    served₁ * q₂ ≤ served₂ * q₁ + (q₁ * q₂ + m₁ * q₂ + m₂ * q₁) := by
  have hleft : served₁ * q₂ ≤ (m₁ + visits₁ * q₁) * q₂ := Nat.mul_le_mul_right _ (by omega)
  have hright : visits₂ * q₂ * q₁ ≤ (served₂ + m₂) * q₁ := Nat.mul_le_mul_right _ (by omega)
  have hmore : visits₁ * (q₁ * q₂) ≤ (visits₂ + 1) * (q₁ * q₂) := Nat.mul_le_mul_right _ hvisits
  calc served₁ * q₂ ≤ (m₁ + visits₁ * q₁) * q₂ := hleft
    _ = m₁ * q₂ + visits₁ * (q₁ * q₂) := by ring
    _ ≤ m₁ * q₂ + (visits₂ + 1) * (q₁ * q₂) := Nat.add_le_add_left hmore _
    _ = m₁ * q₂ + (visits₂ * q₂ * q₁ + q₁ * q₂) := by ring
    _ ≤ m₁ * q₂ + ((served₂ + m₂) * q₁ + q₁ * q₂) := by gcongr
    _ = served₂ * q₁ + (q₁ * q₂ + m₁ * q₂ + m₂ * q₁) := by ring

/-- Over a run with one pool, in which every class starts below the cost of its head, two classes are
served in proportion to their quanta, up to a bounded difference. -/
theorem drr_proportional_service (g : Governor) (s t : GovernedState) (classes : List TaskClass)
    (tr : List (GovernedState × ScheduleEvent)) (htrace : ScheduleTrace g s tr t)
    (hshares : SharesByDeficit g classes) (hpriced : Priced g s) (hsteady : Steady g classes tr)
    (hshort : ∀ k ∈ classes, (s.cls k).deficit < g.policy.costOf k)
    (i j : TaskClass) (hi : i ∈ classes) (hj : j ∈ classes) :
    |(serviceTotal i tr : Int) * g.policy.quantumOf j - serviceTotal j tr * g.policy.quantumOf i| ≤
      g.policy.quantumOf i * g.policy.quantumOf j +
        max (g.policy.costOf i) (g.policy.quantumOf i) * g.policy.quantumOf j +
        max (g.policy.costOf j) (g.policy.quantumOf j) * g.policy.quantumOf i := by
  obtain ⟨T, credit, h⟩ := rotation_of_trace htrace hshares hpriced hsteady hshort
  obtain ⟨m, hm⟩ := List.mem_iff_getElem?.mp hi
  obtain ⟨n, hn⟩ := List.mem_iff_getElem?.mp hj
  have hmlt : m < classes.length := (List.getElem?_eq_some_iff.mp hm).1
  have hnlt : n < classes.length := (List.getElem?_eq_some_iff.mp hn).1
  have hstart := ringStart_lt s.drrCursor (List.ne_nil_of_mem hi)
  have hinitial : ∀ k ∈ classes, s.deficits k ≤ max (g.policy.costOf k) (g.policy.quantumOf k) :=
    fun k hk => (hshort k hk).le.trans (le_max_left _ _)
  have hij := share_difference (h.books m i hm) (h.books n j hn) (h.bounded j hj).le (hinitial i hi)
    (visits_le_succ hmlt hnlt hstart T)
  have hji := share_difference (h.books n j hn) (h.books m i hm) (h.bounded i hi).le (hinitial j hj)
    (visits_le_succ hnlt hmlt hstart T)
  zify at hij hji
  rw [abs_le]
  push_cast
  constructor
  · linarith
  · linarith

namespace RingSample

/-- The governor of the ring sample, with room for two permits in each class. -/
def wideGovernor : Governor :=
  ⟨7, PolicySet.new ⟨4, 8, 0, 0, ⟨0⟩⟩
    (((∅ : BTreeMap TaskClass ClassPolicy).insert ⟨"x"⟩
      { FairSample.classPolicy (.deficitRoundRobin 4) with maxInflight := 2 }).insert ⟨"y"⟩
      { FairSample.classPolicy (.deficitRoundRobin 1) with maxInflight := 2 }) 1, by decide +kernel⟩

/-- Both classes run two tasks and have two more queued. -/
def crowded : wideGovernor.System :=
  (Runs.replay wideGovernor.step wideGovernor.init calls).getD wideGovernor.init

theorem crowded_reachable : wideGovernor.Reachable crowded := Runs.reachable_replay wideGovernor.init _

/-- All running tasks have ended, and the pass that follows is about to run. -/
def freed : GovernedState :=
  [(1 : Nat), 2, 3, 4].foldl (fun s n => (Governor.releaseWithProof s ⟨7, n⟩ none).state) crowded.state

theorem freed_priced : Priced wideGovernor freed := by
  have hrelease : ∀ (s : GovernedState) (n : Nat), Priced wideGovernor s →
      Priced wideGovernor (Governor.releaseWithProof s ⟨7, n⟩ none).state := by
    intro s n h
    obtain ⟨tr, htrace, _⟩ := releaseWithProofReason_reschedules (g := wideGovernor) s ⟨7, n⟩ none
      .released {}
    exact htrace.invariant (fun _ _ _ hpriced hmove => hpriced.step hmove) h
  exact hrelease _ 4 (hrelease _ 3 (hrelease _ 2 (hrelease _ 1 (Priced.of_reachable crowded_reachable))))

/-- The state after the pass has served one request. -/
def served : GovernedState := (wideGovernor.promoteStep freed.commitWatermarkMs freed).1

/-- Both requests the pass serves first are of the class `x`. -/
def services : List (GovernedState × ScheduleEvent) :=
  [(freed, .dispatched ⟨⟨"x"⟩, 0, 0⟩), (served, .dispatched ⟨⟨"x"⟩, 0, 0⟩)]

theorem services_trace : ScheduleTrace wideGovernor freed services
    (wideGovernor.promoteStep served.commitWatermarkMs served).1 := by
  exact Traces.Trace.snoc
    (Traces.Trace.single (ScheduleMove.of_select (s := freed) (by decide +kernel) (by decide +kernel)))
    (ScheduleMove.of_select (s := served) (by decide +kernel) (by decide +kernel))

end RingSample

/-- In the sample the first two requests served are of the class with four times the quantum. -/
theorem sample_proportional : serviceTotal ⟨"x"⟩ RingSample.services = 2 ∧
    |(serviceTotal ⟨"x"⟩ RingSample.services : Int) * 1 - serviceTotal ⟨"y"⟩ RingSample.services * 4| ≤
      4 * 1 + 4 * 1 + 1 * 4 := by
  refine ⟨by decide +kernel, ?_⟩
  have hsteady : Steady RingSample.wideGovernor [⟨"x"⟩, ⟨"y"⟩] RingSample.services := by
    refine ⟨fun x hx selection _ => ?_, fun x hx => ?_⟩
    · rcases List.mem_cons.mp hx with rfl | hx
      · decide +kernel
      · obtain rfl := List.mem_singleton.mp hx
        decide +kernel
    · rcases List.mem_cons.mp hx with rfl | hx
      · simp only [List.forall_mem_cons, ne_eq, ← List.isEmpty_iff]
        decide +kernel
      · obtain rfl := List.mem_singleton.mp hx
        simp only [List.forall_mem_cons, ne_eq, ← List.isEmpty_iff]
        decide +kernel
  have hshares : SharesByDeficit RingSample.wideGovernor [⟨"x"⟩, ⟨"y"⟩] := by
    intro c hc
    rcases List.mem_cons.mp hc with rfl | hc
    · exact ⟨{ FairSample.classPolicy (.deficitRoundRobin 4) with maxInflight := 2 }, 4, by decide +kernel, rfl⟩
    · obtain rfl := List.mem_singleton.mp hc
      exact ⟨{ FairSample.classPolicy (.deficitRoundRobin 1) with maxInflight := 2 }, 1, by decide +kernel, rfl⟩
  exact drr_proportional_service RingSample.wideGovernor RingSample.freed _ [⟨"x"⟩, ⟨"y"⟩] RingSample.services
    RingSample.services_trace hshares RingSample.freed_priced hsteady (by decide +kernel) ⟨"x"⟩ ⟨"y"⟩
    (by simp) (by simp)

end Taskmesh
