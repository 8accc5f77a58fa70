import Taskmesh.Engine.Proofs.SchedulerProofs
import Taskmesh.Engine.Reference

/-!
# The arithmetic ring walk

`drrSelect` plans the visit at which each class first affords its head and credits the visits up to
the earliest of them. That is where the walk of the ring stops, with the credits it leaves.
-/

namespace Taskmesh

open Std MachineInt GovernedState RingWalk

variable {s : GovernedState} {pool : List Candidate}

/-- The ring of a pool. -/
def ringOf (pool : List Candidate) : List (Slot TaskClass) :=
  pool.map fun c => ⟨c.taskClass, drrQuantum c.fairness, max c.headCostCpu 1⟩

/-- The deficits of all classes. -/
def GovernedState.deficits (s : GovernedState) (c : TaskClass) : Nat := (s.cls c).deficit

/-- A pool in ascending order of its classes, no class twice. -/
def Ascending (pool : List Candidate) : Prop :=
  pool.Pairwise fun a b => compare a.taskClass b.taskClass = .lt

theorem length_ringOf (pool : List Candidate) : (ringOf pool).length = pool.length := List.length_map _

theorem getElem?_ringOf {i : Nat} {slot : Slot TaskClass} :
    (ringOf pool)[i]? = some slot ↔ ∃ c, pool[i]? = some c ∧
      slot = ⟨c.taskClass, drrQuantum c.fairness, max c.headCostCpu 1⟩ := by
  unfold ringOf
  rw [List.getElem?_map, Option.map_eq_some_iff]
  constructor
  · rintro ⟨c, hc, rfl⟩
    exact ⟨c, hc, rfl⟩
  · rintro ⟨c, hc, rfl⟩
    exact ⟨c, hc, rfl⟩

theorem Ascending.nodup (h : Ascending pool) : (pool.map Candidate.taskClass).Nodup := by
  rw [List.Nodup, List.pairwise_map]
  refine List.Pairwise.imp (fun {a b} hlt heq => ?_) h
  rw [heq, compare_self] at hlt
  simp at hlt

theorem Ascending.keys_nodup (h : Ascending pool) : ((ringOf pool).map Slot.key).Nodup := by
  have hkeys : (ringOf pool).map Slot.key = pool.map Candidate.taskClass := by
    unfold ringOf
    rw [List.map_map]
    rfl
  rw [hkeys]
  exact h.nodup

theorem drrStart_lt (s : GovernedState) (hpool : pool ≠ []) : drrStart s pool < pool.length := by
  have hpos : 0 < pool.length := List.length_pos_iff.mpr hpool
  unfold drrStart
  split
  · rename_i cur _
    cases hfind : pool.findIdx? fun c => compare c.taskClass cur == .gt with
    | none => exact hpos
    | some i => exact (List.findIdx?_eq_some_iff_getElem.mp hfind).1
  · exact hpos

/-! ## The plan -/

/-- The planned visit of the slot at `i`. -/
def plannedVisit (s : GovernedState) (n start i : Nat) (c : Candidate) : PlannedVisit where
  taskClass := c.taskClass
  quantum := drrQuantum c.fairness
  cost := max c.headCostCpu 1
  offset := offset n start i
  visitPos :=
    position n start i ⟨c.taskClass, drrQuantum c.fairness, max c.headCostCpu 1⟩ (s.deficits c.taskClass)

/-- The plan of a round holds exactly one visit for each place of the ring. -/
theorem mem_planVisits_iff {start : Nat} {v : PlannedVisit} :
    v ∈ planVisits s pool start ↔
      ∃ i c, pool[i]? = some c ∧ v = plannedVisit s pool.length start i c := by
  unfold planVisits
  rw [List.mem_map]
  constructor
  · rintro ⟨⟨c, i⟩, hmem, rfl⟩
    exact ⟨i, c, List.mem_zipIdx_iff_getElem?.mp hmem, rfl⟩
  · rintro ⟨i, c, hc, rfl⟩
    exact ⟨(c, i), List.mem_zipIdx_iff_getElem?.mpr hc, rfl⟩

/-- The plan visits the classes in the order of the pool. -/
theorem planVisits_classes (s : GovernedState) (pool : List Candidate) (start : Nat) :
    (planVisits s pool start).map PlannedVisit.taskClass = pool.map Candidate.taskClass := by
  unfold planVisits
  rw [List.map_map]
  conv_rhs => rw [← List.zipIdx_map_fst 0 pool, List.map_map]
  rfl

/-- No planned visit comes before the winner. -/
theorem earliestVisit_le (best : PlannedVisit) (rest : List PlannedVisit) {v : PlannedVisit}
    (hv : v ∈ best :: rest) : (earliestVisit best rest).visitPos ≤ v.visitPos := by
  induction rest generalizing best v with
  | nil =>
    obtain rfl : v = best := by simpa using hv
    exact Nat.le_refl _
  | cons w rest ih =>
    unfold earliestVisit
    split
    · rename_i hlt
      rcases List.mem_cons.mp hv with rfl | hmem
      · exact (ih w List.mem_cons_self).trans hlt.le
      · exact ih w hmem
    · rename_i hge
      rcases List.mem_cons.mp hv with rfl | hmem
      · exact ih v List.mem_cons_self
      · rcases List.mem_cons.mp hmem with rfl | hmem
        · exact (ih best List.mem_cons_self).trans (Nat.not_lt.mp hge)
        · exact ih best (List.mem_cons_of_mem _ hmem)

/-- The earliest planned visit is where the walk of the ring stops. -/
theorem earliest_of_plan {start : Nat} {first : PlannedVisit} {rest : List PlannedVisit}
    (hplan : planVisits s pool start = first :: rest) :
    ∃ i c, pool[i]? = some c ∧ earliestVisit first rest = plannedVisit s pool.length start i c ∧
      Earliest (ringOf pool) start s.deficits (earliestVisit first rest).visitPos i
        ⟨c.taskClass, drrQuantum c.fairness, max c.headCostCpu 1⟩ := by
  have hmem : earliestVisit first rest ∈ planVisits s pool start := by
    rw [hplan]
    exact earliestVisit_mem first rest
  obtain ⟨i, c, hc, heq⟩ := mem_planVisits_iff.mp hmem
  refine ⟨i, c, hc, heq, getElem?_ringOf.mpr ⟨c, hc, rfl⟩, ?_, fun j other hj => ?_⟩
  · rw [heq, length_ringOf]
    rfl
  · obtain ⟨c', hc', rfl⟩ := getElem?_ringOf.mp hj
    have hplanned : plannedVisit s pool.length start j c' ∈ first :: rest := by
      rw [← hplan]
      exact mem_planVisits_iff.mpr ⟨j, c', hc', rfl⟩
    rw [length_ringOf]
    exact earliestVisit_le first rest hplanned

/-! ## The credits -/

/-- The deficit of a class after the visits made up to `winningPos`. -/
def creditedDeficit (ringSize winningPos deficit : Nat) (v : PlannedVisit) : Nat :=
  if v.offset > winningPos then deficit
  else saturatingAdd u128Max deficit (min (((winningPos - v.offset) / ringSize + 1) * v.quantum) u128Max)

theorem deficits_modifyClass (s : GovernedState) (c : TaskClass) (f : Nat → Nat) (c' : TaskClass) :
    (s.modifyClass c fun cs => { cs with deficit := f cs.deficit }).deficits c' =
      if c = c' then f (s.deficits c) else s.deficits c' := by
  unfold GovernedState.deficits
  rw [cls_modifyClass]
  split <;> rfl

theorem deficits_creditVisit (ringSize winningPos : Nat) (s : GovernedState) (v : PlannedVisit)
    (c : TaskClass) : (creditVisit ringSize winningPos s v).deficits c =
      if v.taskClass = c then creditedDeficit ringSize winningPos (s.deficits c) v else s.deficits c := by
  unfold creditVisit creditedDeficit
  split
  · simp
  · rw [deficits_modifyClass s v.taskClass fun d => saturatingAdd u128Max d _]
    split
    · rename_i h
      rw [h]
    · rfl

/-- Crediting a plan of distinct classes gives each of them its own credit. -/
theorem deficits_creditVisits (ringSize winningPos : Nat) (plan : List PlannedVisit) (s : GovernedState)
    (hclasses : (plan.map PlannedVisit.taskClass).Nodup) :
    (∀ v ∈ plan, (plan.foldl (creditVisit ringSize winningPos) s).deficits v.taskClass =
        creditedDeficit ringSize winningPos (s.deficits v.taskClass) v) ∧
      ∀ c, (∀ v ∈ plan, v.taskClass ≠ c) →
        (plan.foldl (creditVisit ringSize winningPos) s).deficits c = s.deficits c := by
  induction plan generalizing s with
  | nil => simp
  | cons v rest ih =>
    rw [List.map_cons, List.nodup_cons] at hclasses
    obtain ⟨hnew, hrest⟩ := hclasses
    obtain ⟨hin, hout⟩ := ih (creditVisit ringSize winningPos s v) hrest
    have hv : ∀ w ∈ rest, w.taskClass ≠ v.taskClass := fun w hw heq =>
      hnew (List.mem_map.mpr ⟨w, hw, heq⟩)
    refine ⟨fun w hw => ?_, fun c hc => ?_⟩
    · rw [List.foldl_cons]
      rcases List.mem_cons.mp hw with rfl | hmem
      · rw [hout _ hv, deficits_creditVisit, if_pos rfl]
      · rw [hin w hmem, deficits_creditVisit, if_neg fun heq => hv w hmem heq.symm]
    · rw [List.foldl_cons, hout c fun w hw => hc w (List.mem_cons_of_mem _ hw), deficits_creditVisit,
        if_neg (hc v List.mem_cons_self)]

/-- A place the round reaches is credited one quantum for each landing, up to what its head needs. -/
theorem creditedDeficit_reached {n start pos i deficit : Nat} {c : Candidate}
    (h : offset n start i ≤ pos) :
    creditedDeficit n pos deficit (plannedVisit s n start i c) =
      saturatingAdd u128Max deficit
        (min (((pos - offset n start i) / n + 1) * drrQuantum c.fairness) u128Max) :=
  if_neg (Nat.not_lt.mpr h)

/-- A place the round does not reach is credited nothing. -/
theorem creditedDeficit_missed {n start pos i deficit : Nat} {c : Candidate}
    (h : ¬ offset n start i ≤ pos) :
    creditedDeficit n pos deficit (plannedVisit s n start i c) = deficit := if_pos (Nat.not_le.mp h)

/-- Without saturation the credits are those of the walk. -/
theorem creditedDeficit_eq {n start pos i deficit : Nat} {c : Candidate} (hi : i < n) (hstart : start < n)
    (hfits : offset n start i ≤ pos →
      deficit + ((pos - offset n start i) / n + 1) * drrQuantum c.fairness ≤ u128Max) :
    creditedDeficit n pos deficit (plannedVisit s n start i c) =
      deficit + visits n start i (pos + 1) * drrQuantum c.fairness := by
  by_cases hreached : offset n start i ≤ pos
  · have hsum := hfits hreached
    rw [creditedDeficit_reached hreached, visits_succ_eq hi hstart hreached,
      min_eq_left ((Nat.le_add_left _ _).trans hsum), saturatingAdd_of_lt hsum]
  · rw [creditedDeficit_missed hreached, visits_of_lt hi hstart (by omega), Nat.zero_mul, Nat.add_zero]

/-- Saturation only lowers a credit. -/
theorem creditedDeficit_le {n start pos i deficit : Nat} {c : Candidate} (hi : i < n) (hstart : start < n) :
    creditedDeficit n pos deficit (plannedVisit s n start i c) ≤
      deficit + visits n start i (pos + 1) * drrQuantum c.fairness := by
  by_cases hreached : offset n start i ≤ pos
  · rw [creditedDeficit_reached hreached, visits_succ_eq hi hstart hreached]
    refine (Nat.min_le_left _ _).trans ?_
    exact Nat.add_le_add_left (Nat.min_le_left _ _) _
  · rw [creditedDeficit_missed hreached]
    exact Nat.le_add_right _ _

/-! ## One selection -/

/-- Spending takes the head cost from the class that is served. -/
theorem deficits_spendDeficit (s : GovernedState) (c : TaskClass) (cost : Nat) :
    (spendDeficit s c cost).deficits = Function.update s.deficits c (s.deficits c - cost) := by
  funext c'
  unfold spendDeficit
  rw [deficits_modifyClass s c fun d => d - cost]
  by_cases h : c = c'
  · subst h
    rw [if_pos rfl, Function.update_self]
  · rw [if_neg h, Function.update_of_ne fun heq => h heq.symm]

/-- The class the cursor keeps serving affords its head. -/
theorem drrCursorServes_eq_some {c : Candidate} (h : drrCursorServes s pool = some c) :
    s.drrCursor = some c.taskClass ∧ c ∈ pool ∧ max c.headCostCpu 1 ≤ s.deficits c.taskClass := by
  unfold drrCursorServes at h
  split at h
  · simp at h
  · rename_i cur hcur
    split at h
    · simp at h
    · rename_i found hfind
      split at h
      · rename_i hcost
        obtain rfl : found = c := by simpa using h
        have hclass : found.taskClass = cur := by simpa using List.find?_some hfind
        subst hclass
        exact ⟨hcur, List.mem_of_find?_eq_some hfind, hcost⟩
      · simp at h

/-- What `drrSelect` does to the deficits and the cursor: it keeps serving the cursor class, or walks
the ring and credits the visits up to the winning one. -/
inductive DrrServes (s : GovernedState) (pool : List Candidate) :
    (TaskClass → Nat) → Option TaskClass → TaskClass → Prop
  | kept {c : Candidate} (serves : drrCursorServes s pool = some c) :
      DrrServes s pool
        (Function.update s.deficits c.taskClass (s.deficits c.taskClass - max c.headCostCpu 1))
        s.drrCursor c.taskClass
  | walked {credited : TaskClass → Nat} {pos winner : Nat} {c : Candidate}
      (serves : drrCursorServes s pool = none) (found : pool[winner]? = some c)
      (earliest : Earliest (ringOf pool) (drrStart s pool) s.deficits pos winner
        ⟨c.taskClass, drrQuantum c.fairness, max c.headCostCpu 1⟩)
      (plan : ∃ first rest, planVisits s pool (drrStart s pool) = first :: rest ∧
        pos = (earliestVisit first rest).visitPos)
      (slots : ∀ i c', pool[i]? = some c' → credited c'.taskClass =
        creditedDeficit pool.length pos (s.deficits c'.taskClass)
          (plannedVisit s pool.length (drrStart s pool) i c'))
      (others : ∀ k, (∀ c' ∈ pool, c'.taskClass ≠ k) → credited k = s.deficits k) :
      DrrServes s pool
        (Function.update credited c.taskClass (credited c.taskClass - max c.headCostCpu 1))
        (some c.taskClass) c.taskClass

/-- Deficit round robin serves the class the ring walk serves, with the deficits the walk leaves. -/
theorem drrSelect_serves (s : GovernedState) (hpool : pool ≠ []) (hclasses : Ascending pool) :
    ∃ c, (drrSelect s pool).2 = some c ∧
      DrrServes s pool (drrSelect s pool).1.deficits (drrSelect s pool).1.drrCursor c := by
  unfold drrSelect
  cases hserves : drrCursorServes s pool with
  | some c =>
    refine ⟨c.taskClass, rfl, ?_⟩
    simp only
    rw [deficits_spendDeficit]
    exact DrrServes.kept hserves
  | none =>
    simp only
    cases hplan : planVisits s pool (drrStart s pool) with
    | nil =>
      have hlen := planVisits_length s pool (drrStart s pool)
      rw [hplan] at hlen
      exact absurd (List.length_eq_zero_iff.mp hlen.symm) hpool
    | cons first rest =>
      obtain ⟨winner, c, hc, hvisit, hearliest⟩ := earliest_of_plan hplan
      have hnodup : ((first :: rest).map PlannedVisit.taskClass).Nodup := by
        rw [← hplan, planVisits_classes]
        exact hclasses.nodup
      obtain ⟨hin, hout⟩ := deficits_creditVisits pool.length (earliestVisit first rest).visitPos
        (first :: rest) { s with drrRingVisits := saturatingAdd u64Max s.drrRingVisits pool.length } hnodup
      refine ⟨c.taskClass, ?_, ?_⟩
      · simp only
        rw [hvisit]
        rfl
      · have hdeficits : ∀ (s' : GovernedState) (cursor : Option TaskClass),
            ({ s' with drrCursor := cursor } : GovernedState).deficits = s'.deficits := fun _ _ => rfl
        simp only [hdeficits, deficits_spendDeficit]
        have hserved := DrrServes.walked hserves hc hearliest ⟨first, rest, hplan, rfl⟩
          (fun i c' hc' => hin _ (hplan ▸ mem_planVisits_iff.mpr ⟨i, c', hc', rfl⟩))
          (fun k hk => hout k fun v hv => by
            obtain ⟨i, c', hc', rfl⟩ := mem_planVisits_iff.mp (hplan ▸ hv)
            exact hk c' (List.mem_of_getElem? hc'))
        have hclass : (earliestVisit first rest).taskClass = c.taskClass := by rw [hvisit]; rfl
        have hcost : (earliestVisit first rest).cost = max c.headCostCpu 1 := by rw [hvisit]; rfl
        rw [hclass, hcost]
        exact hserved

/-! ## The walk it replaces -/

/-- A round of the arithmetic walk that does not saturate is a round of the ring walk. -/
theorem DrrServes.walk {deficits : TaskClass → Nat} {cursor : Option TaskClass} {c : TaskClass}
    (h : DrrServes s pool deficits cursor c) (hserves : drrCursorServes s pool = none)
    (hpool : pool ≠ []) (hclasses : Ascending pool) (hquanta : ∀ c ∈ pool, 0 < drrQuantum c.fairness)
    (hfits : CreditsFit s pool) :
    cursor = some c ∧ ∃ pos, ∀ fuel, RingWalk.walk (ringOf pool) fuel s.deficits (drrStart s pool) =
      if pos < fuel then some (c, deficits) else none := by
  cases h with
  | kept hkept =>
    rw [hserves] at hkept
    simp at hkept
  | @walked credited pos winner candidate _ found earliest plan slots others =>
    refine ⟨rfl, pos, fun fuel => ?_⟩
    have hstart : drrStart s pool < (ringOf pool).length := by
      rw [length_ringOf]
      exact drrStart_lt s hpool
    have hringquanta : ∀ slot ∈ ringOf pool, 0 < slot.quantum := by
      intro slot hslot
      obtain ⟨i, hi⟩ := List.mem_iff_getElem?.mp hslot
      obtain ⟨c', hc', rfl⟩ := getElem?_ringOf.mp hi
      exact hquanta c' (List.mem_of_getElem? hc')
    have hcredited : Credited (ringOf pool) (drrStart s pool) s.deficits (pos + 1) credited := by
      refine ⟨fun i slot hi => ?_, fun k hk => ?_⟩
      · obtain ⟨c', hc', rfl⟩ := getElem?_ringOf.mp hi
        have hilt : i < pool.length := (List.getElem?_eq_some_iff.mp hc').1
        rw [length_ringOf, slots i c' hc']
        refine creditedDeficit_eq hilt (drrStart_lt s hpool) fun hreached => ?_
        obtain ⟨first, rest, hplan, rfl⟩ := plan
        have hmem : plannedVisit s pool.length (drrStart s pool) i c' ∈ first :: rest := by
          rw [← hplan]
          exact mem_planVisits_iff.mpr ⟨i, c', hc', rfl⟩
        exact hfits hserves first rest hplan _ hmem hreached
      · refine others k fun c' hc' heq => ?_
        obtain ⟨i, hi⟩ := List.mem_iff_getElem?.mp hc'
        exact hk _ (List.mem_of_getElem? (getElem?_ringOf.mpr ⟨c', hi, rfl⟩)) heq
    exact walk_eq hclasses.keys_nodup hringquanta hstart earliest hcredited fuel

namespace ReferenceDrr.Matches

variable {r : ReferenceDrr}

theorem headCost_eq (h : r.Matches s pool) {c : Candidate} (hc : c ∈ pool) :
    r.headCost c.taskClass = max c.headCostCpu 1 := by
  obtain ⟨rest, hrest⟩ := h.heads c hc
  rw [ReferenceDrr.headCost, hrest]
  rfl

theorem deficits_eq (h : r.Matches s pool) : r.deficits = s.deficits := funext h.deficits

theorem ring_eq (h : r.Matches s pool) : r.ring = ringOf pool := by
  unfold ReferenceDrr.ring ringOf
  rw [h.candidates, List.map_map]
  refine List.map_congr_left fun c hc => ?_
  simp only [Function.comp, h.quanta c hc, h.headCost_eq hc]

theorem start_eq (h : r.Matches s pool) : r.start = drrStart s pool := by
  unfold ReferenceDrr.start drrStart
  rw [h.cursor, h.candidates]
  cases s.drrCursor with
  | none => rfl
  | some cur =>
    simp only
    rw [List.findIdx?_map]
    rfl

theorem cursorServes_eq (h : r.Matches s pool) :
    r.cursorServes = (drrCursorServes s pool).map Candidate.taskClass := by
  unfold ReferenceDrr.cursorServes drrCursorServes
  rw [h.cursor, h.candidates]
  cases s.drrCursor with
  | none => rfl
  | some cur =>
    simp only
    cases hfind : pool.find? fun c => decide (c.taskClass = cur) with
    | none =>
      have hout : cur ∉ pool.map Candidate.taskClass := by
        rintro hmem
        obtain ⟨c, hc, hclass⟩ := List.mem_map.mp hmem
        have := List.find?_eq_none.mp hfind c hc
        simp [hclass] at this
      rw [if_neg fun hand => hout hand.1]
      rfl
    | some c =>
      have hc := List.mem_of_find?_eq_some hfind
      have hclass : c.taskClass = cur := by simpa using List.find?_some hfind
      subst hclass
      have hin : c.taskClass ∈ pool.map Candidate.taskClass := List.mem_map.mpr ⟨c, hc, rfl⟩
      simp only [hin, true_and, h.headCost_eq hc, h.deficits c.taskClass, ge_iff_le]
      split <;> rfl

end ReferenceDrr.Matches

/-- A class drained by its own service has no credit left; any other class keeps it. -/
theorem deficits_onRequestServed (s : GovernedState) (c : TaskClass) (policy : ClassPolicy)
    (index tag : Nat) (k : TaskClass) : (onRequestServed s c policy index tag).deficits k =
      if k = c ∧ (s.cls c).queue = [] then 0 else s.deficits k := by
  unfold GovernedState.deficits onRequestServed
  rw [cls_modifyClass]
  by_cases hk : c = k
  · subst hk
    rw [if_pos rfl]
    by_cases hempty : (s.cls c).queue = []
    · simp [hempty, resetClass]
    · simp only [hempty, and_false, if_false, List.isEmpty_iff]
      split
      · split <;> rfl
      · rfl
  · rw [if_neg hk, if_neg fun hand => hk hand.1.symm]

/-- Planned visits never fall on the same position. -/
theorem planVisits_inj {start : Nat} (hstart : start < pool.length) {v w : PlannedVisit}
    (hv : v ∈ planVisits s pool start) (hw : w ∈ planVisits s pool start)
    (h : v.visitPos = w.visitPos) : v = w := by
  obtain ⟨i, c, hi, rfl⟩ := mem_planVisits_iff.mp hv
  obtain ⟨j, d, hj, rfl⟩ := mem_planVisits_iff.mp hw
  have hilt : i < pool.length := (List.getElem?_eq_some_iff.mp hi).1
  have hjlt : j < pool.length := (List.getElem?_eq_some_iff.mp hj).1
  have hpos : 0 < pool.length := by omega
  have hmod := congrArg (· % pool.length) h
  simp only [plannedVisit, position_mod hpos] at hmod
  obtain rfl := offset_inj hilt hjlt hstart hmod
  obtain rfl : c = d := Option.some.inj (hi.symm.trans hj)
  rfl

/-- The arithmetic walk of `drrSelect` is the textbook walk: the same class, the same deficits of all
classes and the same cursor, for every number of visits that lets the walk end, and one does. With
the served request taken, both leave the same deficits again. -/
theorem drrSelect_eq_reference (s : GovernedState) (pool : List Candidate) (r : ReferenceDrr)
    (hpool : pool ≠ []) (hclasses : Ascending pool) (hquanta : ∀ c ∈ pool, 0 < drrQuantum c.fairness)
    (hfits : CreditsFit s pool) (hmatch : r.Matches s pool) :
    (∀ v ∈ planVisits s pool (drrStart s pool), ∀ w ∈ planVisits s pool (drrStart s pool),
      v.visitPos = w.visitPos → v = w) ∧
    ∃ c visits chosen, (drrSelect s pool).2 = some c ∧
      (∀ fuel, r.choose fuel = if visits ≤ fuel then some (c, chosen) else none) ∧
      (∀ fuel, r.select fuel = if visits ≤ fuel then some (some c, chosen.pop c) else none) ∧
      (∀ k, chosen.deficits k = ((drrSelect s pool).1.cls k).deficit) ∧
      chosen.cursor = (drrSelect s pool).1.drrCursor ∧
      ∀ (served : GovernedState) (policy : ClassPolicy) (index tag : Nat),
        (∀ k, (served.cls k).deficit = ((drrSelect s pool).1.cls k).deficit) →
        ((served.cls c).queue = [] ↔ (r.queues c).tail = []) →
        ∀ k, ((onRequestServed served c policy index tag).cls k).deficit = (chosen.pop c).deficits k := by
  refine ⟨fun v hv w hw => planVisits_inj (drrStart_lt s hpool) hv hw, ?_⟩
  obtain ⟨c, hchosen, hserves⟩ := drrSelect_serves s hpool hclasses
  have hchoose : ∃ visits, ∀ fuel, r.choose fuel = if visits ≤ fuel then
      some (c, { r with
        deficits := (drrSelect s pool).1.deficits, cursor := (drrSelect s pool).1.drrCursor }) else none := by
    generalize (drrSelect s pool).1.deficits = deficits at hserves
    generalize (drrSelect s pool).1.drrCursor = cursor at hserves
    unfold ReferenceDrr.choose
    rw [hmatch.cursorServes_eq]
    cases hcursor : drrCursorServes s pool with
    | some candidate =>
      refine ⟨0, fun fuel => ?_⟩
      cases hserves with
      | walked hnone _ _ _ _ _ =>
        rw [hcursor] at hnone
        simp at hnone
      | kept hkept =>
        obtain rfl := Option.some.inj (hcursor.symm.trans hkept)
        obtain ⟨_, hmem, _⟩ := drrCursorServes_eq_some hcursor
        simp only [Option.map_some, Nat.zero_le, if_true, hmatch.deficits_eq, hmatch.headCost_eq hmem,
          ← hmatch.cursor]
    | none =>
      obtain ⟨rfl, pos, hwalk⟩ := hserves.walk hcursor hpool hclasses hquanta hfits
      refine ⟨pos + 1, fun fuel => ?_⟩
      simp only [Option.map_none]
      rw [hmatch.ring_eq, hmatch.start_eq, hmatch.deficits_eq, hwalk fuel]
      by_cases hfuel : pos < fuel
      · rw [if_pos hfuel, if_pos (Nat.succ_le_of_lt hfuel)]
      · rw [if_neg hfuel, if_neg fun hle => hfuel (Nat.lt_of_succ_le hle)]
  obtain ⟨visits, hchoose⟩ := hchoose
  refine ⟨c, visits, _, hchosen, hchoose, fun fuel => ?_, fun k => rfl, rfl, ?_⟩
  · have hcandidates : r.candidates.isEmpty = false := by
      rw [hmatch.candidates]
      simpa using hpool
    unfold ReferenceDrr.select
    rw [hcandidates, hchoose fuel]
    split <;> simp_all
  · intro served policy index tag hdeficits hqueue k
    show (onRequestServed served c policy index tag).deficits k = _
    have hsame : served.deficits k = (drrSelect s pool).1.deficits k := hdeficits k
    rw [deficits_onRequestServed, hsame]
    simp only [hqueue, ReferenceDrr.pop]
    by_cases hdrained : (r.queues c).tail = []
    · simp only [hdrained, and_true, List.isEmpty_nil, if_true, Function.update_apply]
    · simp only [hdrained, and_false, if_false, List.isEmpty_iff]

namespace Sample

/-- Two runnable classes: `a` needs three visits for its head, `b` only one. -/
def ringPool : List Candidate :=
  [ ⟨⟨"a"⟩, 0, .deficitRoundRobin 1, false, 1, 0, 0, 3⟩,
    ⟨⟨"b"⟩, 0, .deficitRoundRobin 2, false, 2, 0, 0, 1⟩ ]

def ringReference : ReferenceDrr where
  classes := [⟨"a"⟩, ⟨"b"⟩]
  quanta c := if c = ⟨"a"⟩ then 1 else 2
  deficits _ := 0
  queues c := if c = ⟨"a"⟩ then [3] else [1, 1]
  cursor := none
  blocked _ := false

end Sample

/-- In the sample the second class of the ring is served, after two visits. -/
theorem sample_reference : ∃ visits chosen, ∀ fuel, visits ≤ fuel →
    Sample.ringReference.select fuel = some (some ⟨"b"⟩, chosen) := by
  have hfits : CreditsFit {} Sample.ringPool := by
    intro _ first rest hplan
    obtain ⟨rfl, rfl⟩ := List.cons.inj hplan
    simp [earliestVisit, drrStart, drrQuantum, Sample.ringPool, u128Max, GovernedState.cls, default]
  have hmatch : Sample.ringReference.Matches {} Sample.ringPool :=
    ⟨by decide +kernel, by simp [Sample.ringPool, Sample.ringReference, drrQuantum],
      by simp [Sample.ringPool, Sample.ringReference], fun _ => rfl, rfl⟩
  obtain ⟨_, c, visits, chosen, hc, _, hselect, _⟩ := drrSelect_eq_reference {} Sample.ringPool
    Sample.ringReference (by simp [Sample.ringPool]) (by unfold Ascending; decide +kernel)
    (by simp [Sample.ringPool, drrQuantum]) hfits hmatch
  have hb : (drrSelect {} Sample.ringPool).2 = some ⟨"b"⟩ := by decide +kernel
  obtain rfl : c = ⟨"b"⟩ := Option.some.inj (hc.symm.trans hb)
  exact ⟨visits, _, fun fuel hfuel => by rw [hselect fuel, if_pos hfuel]⟩

end Taskmesh
