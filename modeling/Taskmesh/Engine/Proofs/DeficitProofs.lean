import Taskmesh.Engine.Proofs.CreditProofs
import Taskmesh.Engine.Proofs.ValidationProofs

/-!
# Deficits

Every visit of the ring credits a class one quantum, and a service costs its head. A class that is
passed does not afford its head yet, and one that is served after a walk has less than a quantum left,
unless the walk found it already able to pay: that happens when its credit outlived its turn.
-/

namespace Taskmesh

open Std MachineInt GovernedState RingWalk

variable {g : Governor} {s s' : GovernedState}

/-! ## What a class charges -/

/-- The cost of serving a class once, floored at one. -/
def headCost (policy : ClassPolicy) : Nat := max policy.permitCost.cpuUnits.toNat 1

/-- Every queued request costs what its class charges. -/
def Priced (g : Governor) (s : GovernedState) : Prop :=
  ∀ c policy, g.policy.classPolicy c = some policy → ∀ r ∈ (s.cls c).queue, r.cost = resolveCost policy

theorem Priced.step {event : ScheduleEvent} (h : Priced g s) (hmove : ScheduleMove g s event s') :
    Priced g s' := by
  intro c policy hknown r hr
  have hmem : r.untagged ∈ (s'.cls c).schedule.waiting := List.mem_map_of_mem hr
  have hbefore : r.untagged ∈ (s.cls c).schedule.waiting → r.cost = resolveCost policy := by
    intro hmem
    obtain ⟨r', hr', heq⟩ := List.mem_map.mp hmem
    have hcost : r'.untagged.cost = r.untagged.cost := by rw [heq]
    exact hcost.symm.trans (h c policy hknown r' hr')
  rcases (hmove.class_cases c).waiting_cases with hsub | ⟨policy', tagged, fresh, _, hknown', harrives, hwaiting⟩
  · exact hbefore (hsub.subset hmem)
  · rw [hwaiting] at hmem
    rcases List.mem_append.mp hmem with hmem | hmem
    · exact hbefore hmem
    · obtain rfl : policy' = policy := Option.some.inj (hknown'.symm.trans hknown)
      have hsame : r.untagged = fresh.untagged := List.mem_singleton.mp hmem
      have hcost : r.untagged.cost = fresh.untagged.cost := by rw [hsame]
      exact hcost.trans harrives.cost

theorem Priced.init (g : Governor) : Priced g {} := by
  intro c policy _ r hr
  simp [GovernedState.cls, default] at hr

theorem Priced.of_reachable {σ : g.System} (h : g.Reachable σ) : Priced g σ.state :=
  reachable_of_schedule (Priced.init g) (fun _ _ _ hpriced hmove => hpriced.step hmove) h

/-- A candidate costs what its class charges. -/
theorem Priced.candidate {candidate : Candidate} {policy : ClassPolicy} (h : Priced g s)
    (hmem : candidate ∈ runnableCandidates s g.policy)
    (hknown : g.policy.classPolicy candidate.taskClass = some policy) :
    max candidate.headCostCpu 1 = headCost policy ∧ candidate.fairness = policy.fairness := by
  obtain ⟨policy', head, hcandidate⟩ := isCandidate_of_mem hmem
  obtain rfl : policy' = policy := Option.some.inj (hcandidate.known.symm.trans hknown)
  have hcost := h _ _ hknown head (List.mem_of_getElem? hcandidate.queued)
  refine ⟨?_, hcandidate.fairness⟩
  rw [hcandidate.cost, hcost]
  rfl

theorem quanta_pos (g : Governor) (s : GovernedState) {candidate : Candidate}
    (hmem : candidate ∈ runnableCandidates s g.policy) : 0 < drrQuantum candidate.fairness := by
  obtain ⟨policy, head, hcandidate⟩ := isCandidate_of_mem hmem
  rw [hcandidate.fairness]
  exact drrQuantum_pos g hcandidate.known

/-! ## One selection -/

/-- The credits a walk leaves when no credit saturates, and those it really leaves. -/
theorem walked_credit {pool : List Candidate} {credited : TaskClass → Nat} {pos : Nat} (hpool : pool ≠ [])
    (hclasses : Ascending pool)
    (slots : ∀ (i : Nat) (c' : Candidate), pool[i]? = some c' → credited c'.taskClass =
      creditedDeficit pool.length pos (s.deficits c'.taskClass)
        (plannedVisit s pool.length (drrStart s pool) i c')) :
    ∃ full, Credited (ringOf pool) (drrStart s pool) s.deficits (pos + 1) full ∧
      ∀ (i : Nat) (c' : Candidate), pool[i]? = some c' → credited c'.taskClass ≤ full c'.taskClass ∧
        (full c'.taskClass ≤ u128Max → credited c'.taskClass = full c'.taskClass) := by
  have hlength : 0 < (ringOf pool).length := by
    rw [length_ringOf]
    exact List.length_pos_iff.mpr hpool
  obtain ⟨full, hfull⟩ := credited_exists hclasses.keys_nodup hlength (drrStart s pool) s.deficits (pos + 1)
  refine ⟨full, hfull, fun i c' hc' => ?_⟩
  have hi : i < pool.length := (List.getElem?_eq_some_iff.mp hc').1
  have hslot := hfull.slots i _ (getElem?_ringOf.mpr ⟨c', hc', rfl⟩)
  simp only [length_ringOf] at hslot
  rw [slots i c' hc', hslot]
  refine ⟨creditedDeficit_le hi (drrStart_lt s hpool), fun hfits => ?_⟩
  refine creditedDeficit_eq hi (drrStart_lt s hpool) fun hreached => ?_
  rwa [← visits_succ_eq hi (drrStart_lt s hpool) hreached]

/-- The cursor class is served again if it is in the pool and affords its head. -/
theorem drrCursorServes_of_affords {pool : List Candidate} {candidate : Candidate}
    (hclasses : Ascending pool) (hmem : candidate ∈ pool) (hcursor : s.drrCursor = some candidate.taskClass)
    (hafford : max candidate.headCostCpu 1 ≤ s.deficits candidate.taskClass) :
    drrCursorServes s pool = some candidate := by
  have hfind : pool.find? (fun c => decide (c.taskClass = candidate.taskClass)) = some candidate := by
    cases hfound : pool.find? fun c => decide (c.taskClass = candidate.taskClass) with
    | none => exact absurd (List.find?_eq_none.mp hfound candidate hmem) (by simp)
    | some c =>
      have hclass : c.taskClass = candidate.taskClass := by simpa using List.find?_some hfound
      rw [List.inj_on_of_nodup_map hclasses.nodup (List.mem_of_find?_eq_some hfound) hmem hclass]
  unfold drrCursorServes
  rw [hcursor]
  simp only [hfind]
  exact if_pos hafford

/-- Slots of an ascending pool belong to different classes. -/
theorem Ascending.class_ne {pool : List Candidate} {i j : Nat} {k k' : Candidate} (h : Ascending pool)
    (hi : pool[i]? = some k) (hj : pool[j]? = some k') (hne : i ≠ j) : k.taskClass ≠ k'.taskClass :=
  fun heq => hne (key_inj h.keys_nodup (getElem?_ringOf.mpr ⟨k, hi, rfl⟩)
    (getElem?_ringOf.mpr ⟨k', hj, rfl⟩) heq)

theorem ringOf_quanta_pos {pool : List Candidate} (hquanta : ∀ c ∈ pool, 0 < drrQuantum c.fairness) :
    ∀ slot ∈ ringOf pool, 0 < slot.quantum := by
  intro slot hslot
  obtain ⟨c, hc, rfl⟩ := List.mem_map.mp hslot
  exact hquanta c hc

/-- A selection leaves a class of the pool with no more credit than before, or with less than it needs
to be passed or served, or it credited a class that could pay already: then it is the one served, and
the cursor stood elsewhere. -/
theorem DrrServes.deficit_cases {pool : List Candidate} {deficits : TaskClass → Nat}
    {cursor : Option TaskClass} {c : TaskClass} {candidate : Candidate} (h : DrrServes s pool deficits cursor c)
    (hpool : pool ≠ []) (hclasses : Ascending pool) (hquanta : ∀ c ∈ pool, 0 < drrQuantum c.fairness)
    (hmem : candidate ∈ pool) :
    deficits candidate.taskClass ≤ s.deficits candidate.taskClass ∨
      deficits candidate.taskClass < max (max candidate.headCostCpu 1) (drrQuantum candidate.fairness) ∨
      (c = candidate.taskClass ∧ s.drrCursor ≠ some c ∧
        max candidate.headCostCpu 1 ≤ s.deficits candidate.taskClass ∧
        deficits candidate.taskClass < s.deficits candidate.taskClass + drrQuantum candidate.fairness) := by
  cases h with
  | @kept kept serves =>
    refine Or.inl ?_
    by_cases hsame : candidate.taskClass = kept.taskClass
    · rw [hsame, Function.update_self]
      exact Nat.sub_le _ _
    · rw [Function.update_of_ne hsame]
  | @walked credited pos winner chosen serves found earliest plan slots others =>
    obtain ⟨full, hfull, hcredited⟩ := walked_credit hpool hclasses slots
    have hstart : drrStart s pool < (ringOf pool).length := by
      rw [length_ringOf]
      exact drrStart_lt s hpool
    have hquantum := hquanta candidate hmem
    obtain ⟨i, hi⟩ := List.mem_iff_getElem?.mp hmem
    have hle := (hcredited i candidate hi).1
    by_cases hwinner : i = winner
    · subst hwinner
      obtain rfl : chosen = candidate := Option.some.inj (found.symm.trans hi)
      obtain ⟨_, hserved⟩ := earliest.served (ringOf_quanta_pos hquanta) hstart hfull
      simp only at hserved
      rw [Function.update_self]
      rcases hserved with hless | hone
      · exact Or.inr (Or.inl (lt_max_of_lt_right (by omega)))
      · by_cases hafford : max chosen.headCostCpu 1 ≤ s.deficits chosen.taskClass
        · refine Or.inr (Or.inr ⟨rfl, fun hcursor => ?_, hafford, by omega⟩)
          have hkept := drrCursorServes_of_affords hclasses hmem hcursor hafford
          rw [serves] at hkept
          simp at hkept
        · exact Or.inr (Or.inl (lt_max_of_lt_right (by omega)))
    · rw [Function.update_of_ne (hclasses.class_ne hi found hwinner)]
      have hpassed := earliest.passed (ringOf_quanta_pos hquanta) hstart hfull
        (getElem?_ringOf.mpr ⟨candidate, hi, rfl⟩) hwinner
      simp only at hpassed
      rcases hpassed with hshort | hsame
      · exact Or.inr (Or.inl (lt_max_of_lt_left (by omega)))
      · exact Or.inl (by omega)

/-- The same, for the choice of any discipline. -/
theorem choice_deficit_cases {first candidate : Candidate} {rest : List Candidate}
    (htier : contendedTier (runnableCandidates s g.policy) = first :: rest)
    (hmem : candidate ∈ first :: rest) :
    (dispatchChoice s first rest).1.deficits candidate.taskClass ≤ s.deficits candidate.taskClass ∨
      (dispatchChoice s first rest).1.deficits candidate.taskClass <
        max (max candidate.headCostCpu 1) (drrQuantum candidate.fairness) ∨
      ((dispatchChoice s first rest).2 = some candidate.taskClass ∧
        s.drrCursor ≠ some candidate.taskClass ∧
        max candidate.headCostCpu 1 ≤ s.deficits candidate.taskClass ∧
        (dispatchChoice s first rest).1.deficits candidate.taskClass <
          s.deficits candidate.taskClass + drrQuantum candidate.fairness) := by
  have hquanta : ∀ c ∈ first :: rest, 0 < drrQuantum c.fairness := by
    intro c hc
    exact quanta_pos g s (contendedTier_subset (by rw [htier]; exact hc))
  have hascending : Ascending (first :: rest) := htier ▸ ascending_contendedTier s g.policy
  unfold dispatchChoice
  cases first.fairness with
  | deficitRoundRobin quantum =>
    obtain ⟨c, hc, hserves⟩ := drrSelect_serves s (List.cons_ne_nil first rest) hascending
    rcases hserves.deficit_cases (List.cons_ne_nil first rest) hascending hquanta hmem with
      hle | hless | ⟨rfl, hagain⟩
    · exact Or.inl hle
    · exact Or.inr (Or.inl hless)
    · exact Or.inr (Or.inr ⟨hc, hagain⟩)
  | fifo => exact Or.inl (Nat.le_refl _)
  | weightedFairQueue weight burst => exact Or.inl (Nat.le_refl _)
  | deadlineAware slack => exact Or.inl (Nat.le_refl _)
  | bestEffortScavenger => exact Or.inl (Nat.le_refl _)

/-! ## A bound on the credit -/

/-- A dispatch that credited the class `c` although it could pay already: the ring came to it while the
cursor stood elsewhere. -/
def recredited (policy : ClassPolicy) (c : TaskClass) : GovernedState × ScheduleEvent → Bool
  | (s, .dispatched selection) =>
    decide (selection.taskClass = c) && decide (s.drrCursor ≠ some c) &&
      decide (headCost policy ≤ (s.cls c).deficit)
  | _ => false

/-- How often that happened in the busy period of the class that a trace ends in. -/
def recredits (policy : ClassPolicy) (c : TaskClass) (tr : List (GovernedState × ScheduleEvent)) : Nat :=
  tr.foldl
    (fun k x => if (x.1.cls c).queue.isEmpty then 0 else if recredited policy c x then k + 1 else k) 0

theorem recredits_snoc (policy : ClassPolicy) (c : TaskClass) (tr : List (GovernedState × ScheduleEvent))
    (x : GovernedState × ScheduleEvent) : recredits policy c (tr ++ [x]) =
      if (x.1.cls c).queue.isEmpty then 0
      else if recredited policy c x then recredits policy c tr + 1 else recredits policy c tr := by
  unfold recredits
  rw [List.foldl_append]
  rfl

theorem credited_deficit_le (fairness : FairnessPolicy) (virtualTime index tag : Nat) (c : ClassSchedule) :
    (c.credited fairness virtualTime index tag).deficit ≤ c.deficit := by
  unfold ClassSchedule.credited
  split
  · exact Nat.zero_le _
  · simp only
    split
    · cases fairness <;> exact Nat.le_refl _
    · exact Nat.le_refl _

theorem rederived_deficit_le (fairness : FairnessPolicy) (virtualTime : Nat) (c : ClassSchedule) :
    (c.rederived fairness virtualTime).deficit ≤ c.deficit := by
  unfold ClassSchedule.rederived
  split
  · exact Nat.zero_le _
  · cases fairness <;> exact Nat.le_refl _

/-- What a move leaves of the credit of a class: no more than before, or less than a cost or a quantum,
or at most one quantum more when it was credited although it could pay. -/
theorem ScheduleMove.deficit_cases {event : ScheduleEvent} {c : TaskClass} {policy : ClassPolicy}
    (h : ScheduleMove g s event s') (hpriced : Priced g s) (hknown : g.policy.classPolicy c = some policy) :
    (s'.cls c).deficit ≤ (s.cls c).deficit ∨
      (s'.cls c).deficit < max (headCost policy) (drrQuantum policy.fairness) ∨
      (recredited policy c (s, event) = true ∧
        (s'.cls c).deficit < (s.cls c).deficit + drrQuantum policy.fairness) := by
  cases h.class_cases c with
  | kept same time apart still => exact Or.inl (congrArg ClassSchedule.deficit same).le
  | shifted other rebased time known fair overflows => exact Or.inl (congrArg ClassSchedule.deficit rebased).le
  | arrived known arrives =>
    refine Or.inl (Nat.le_of_eq ?_)
    exact (congrArg ClassSchedule.deficit arrives.own).trans arrives.tagging.own_class.2.1
  | @passed first candidate rest policy' head serves other =>
    have hdeficit : (s'.cls c).deficit = (dispatchChoice s first rest).1.deficits c :=
      congrArg ClassSchedule.deficit (serves.others c other)
    rw [hdeficit]
    by_cases hin : ∃ candidate' ∈ first :: rest, candidate'.taskClass = c
    · obtain ⟨candidate', hmem, rfl⟩ := hin
      have hrunnable : candidate' ∈ runnableCandidates s g.policy :=
        contendedTier_subset (by rw [serves.selects.tier]; exact hmem)
      obtain ⟨hcost, hfair⟩ := hpriced.candidate hrunnable hknown
      rcases choice_deficit_cases serves.selects.tier hmem with hle | hless | ⟨hchosen, _⟩
      · exact Or.inl hle
      · rw [hcost, hfair] at hless
        exact Or.inr (Or.inl hless)
      · exact absurd (Option.some.inj (hchosen.symm.trans serves.selects.chose)) other
    · push Not at hin
      exact Or.inl (dispatchChoice_deficits (serves.selects.tier ▸ ascending_contendedTier s g.policy) hin).le
  | @served first candidate rest policy' head serves own =>
    subst own
    have hdeficit : (s'.cls candidate.taskClass).deficit ≤
        (dispatchChoice s first rest).1.deficits candidate.taskClass := by
      refine (congrArg ClassSchedule.deficit serves.own).le.trans ?_
      exact credited_deficit_le _ _ _ _ _
    obtain ⟨hcost, hfair⟩ := hpriced.candidate serves.selects.mem hknown
    rcases choice_deficit_cases serves.selects.tier serves.selects.picked with
      hle | hless | ⟨_, hcursor, hafford, hmore⟩
    · exact Or.inl (hdeficit.trans hle)
    · rw [hcost, hfair] at hless
      exact Or.inr (Or.inl (hdeficit.trans_lt hless))
    · rw [hcost] at hafford
      rw [hfair] at hmore
      refine Or.inr (Or.inr ⟨?_, hdeficit.trans_lt hmore⟩)
      have hafford : headCost policy ≤ (s.cls candidate.taskClass).deficit := hafford
      simp [recredited, Candidate.dispatched, hcursor, hafford]
  | dropped known found left time =>
    refine Or.inl ((congrArg ClassSchedule.deficit left).le.trans ?_)
    exact rederived_deficit_le _ _ _
  | emptied left time => exact Or.inl ((congrArg ClassSchedule.deficit left).le.trans (Nat.zero_le _))

/-- A class that waits for nothing has no credit, also not after the move that ends its idleness. -/
theorem ScheduleMove.deficit_of_empty {event : ScheduleEvent} {c : TaskClass}
    (h : ScheduleMove g s event s') (hrested : IdleRested s) (hempty : (s.cls c).queue = []) :
    (s'.cls c).deficit = 0 := by
  have hzero : (s.cls c).deficit = 0 := (hrested c hempty).1
  by_cases hevent : event = .enqueued c
  · cases h.class_cases c with
    | kept same time apart still => exact (congrArg ClassSchedule.deficit same).trans hzero
    | shifted other rebased time known fair overflows => exact (congrArg ClassSchedule.deficit rebased).trans hzero
    | arrived known arrives =>
      refine (congrArg ClassSchedule.deficit arrives.own).trans ?_
      exact arrives.tagging.own_class.2.1.trans hzero
    | _ => simp [Candidate.dispatched] at hevent
  · exact ((hrested.step h) c (h.queue_nil hevent hempty)).1

/-- Along every trace of the schedule, and so in every reachable state, a class has less credit than a
quantum and the cost of its head, and a quantum more for each time it was credited although it could
pay already. -/
theorem drr_credit_bounded (g : Governor) (c : TaskClass) (policy : ClassPolicy) (quantum : UInt32)
    (hknown : g.policy.classPolicy c = some policy) (hfair : policy.fairness = .deficitRoundRobin quantum) :
    (∀ tr s, ScheduleTrace g {} tr s → (s.cls c).deficit <
      quantum.toNat + headCost policy + quantum.toNat * recredits policy c tr) ∧
    ∀ σ : g.System, g.Reachable σ → ∃ tr, ScheduleTrace g {} tr σ.state := by
  refine ⟨fun tr s htrace => ?_, fun σ h => reachable_trace h⟩
  have hquantum : 0 < quantum.toNat := (class_share_pos g hknown).2 quantum hfair
  have hshare : drrQuantum policy.fairness = quantum.toNat := by rw [hfair]; rfl
  have hboth : (Priced g s ∧ IdleRested s) ∧ (s.cls c).deficit <
      quantum.toNat + headCost policy + quantum.toNat * recredits policy c tr := by
    induction htrace with
    | nil =>
      refine ⟨⟨Priced.init g, fun c _ => ?_⟩, ?_⟩
      · simp [GovernedState.cls, default, ClassState.schedule]
      · simp [GovernedState.cls, default]
        omega
    | @snoc s s' tr event _ hmove ih =>
      obtain ⟨⟨hpriced, hrested⟩, hbound⟩ := ih
      refine ⟨⟨hpriced.step hmove, hrested.step hmove⟩, ?_⟩
      rw [recredits_snoc]
      by_cases hempty : (s.cls c).queue = []
      · rw [hmove.deficit_of_empty hrested hempty]
        omega
      · rw [if_neg (by simpa using hempty)]
        have hless : max (headCost policy) quantum.toNat < quantum.toNat + headCost policy := by
          unfold headCost
          omega
        rcases hmove.deficit_cases hpriced hknown with hle | hsmall | ⟨hagain, hmore⟩
        · split
          · rw [Nat.mul_succ]
            omega
          · omega
        · rw [hshare] at hsmall
          have := Nat.zero_le (quantum.toNat * (if recredited policy c (s, event) = true then
            recredits policy c tr + 1 else recredits policy c tr))
          omega
        · rw [if_pos hagain, Nat.mul_succ]
          rw [hshare] at hmore
          omega
  exact hboth.2

namespace RingSample

/-- Two classes that take turns, four units a visit. -/
def policy : PolicySet :=
  PolicySet.new ⟨4, 8, 0, 0, ⟨0⟩⟩
    (((∅ : BTreeMap TaskClass ClassPolicy).insert ⟨"x"⟩
      (FairSample.classPolicy (.deficitRoundRobin 4))).insert ⟨"y"⟩
      (FairSample.classPolicy (.deficitRoundRobin 4))) 1

def governor : Governor := ⟨7, policy, by decide +kernel⟩

/-- Each class runs one task and has three more queued. -/
def calls : List Action :=
  (["1", "2", "3", "4"].flatMap fun n =>
    Sample.admission (.admitSpec (FairSample.task "x" ("x" ++ n))) ++
      Sample.admission (.admitSpec (FairSample.task "y" ("y" ++ n))))

/-- Each class is served alone, while the other is at its limit. When `x` comes back, it is credited
once more, although its credit covers its head. -/
def returned : governor.System :=
  (Runs.replay governor.step governor.init
    (calls ++ [.release ⟨7, 1⟩ 1, .release ⟨7, 2⟩ 2, .release ⟨7, 3⟩ 3])).getD governor.init

theorem returned_reachable : governor.Reachable returned := Runs.reachable_replay governor.init _

end RingSample

/-- A class can hold more than a quantum and the cost of its head. -/
theorem drr_credit_exceeds_quantum_and_cost : ∃ (g : Governor) (σ : g.System) (c : TaskClass)
    (policy : ClassPolicy) (quantum : UInt32), g.Reachable σ ∧ g.policy.classPolicy c = some policy ∧
    policy.fairness = .deficitRoundRobin quantum ∧
    ¬ (σ.state.cls c).deficit < quantum.toNat + headCost policy := by
  refine ⟨RingSample.governor, RingSample.returned, ⟨"x"⟩, FairSample.classPolicy (.deficitRoundRobin 4), 4,
    RingSample.returned_reachable, by decide +kernel, rfl, ?_⟩
  decide +kernel

/-- In the sample the bound counts the extra credit of `x`. -/
theorem sample_credit : ∃ tr, ScheduleTrace RingSample.governor {} tr RingSample.returned.state ∧
    6 < 5 + 4 * recredits (FairSample.classPolicy (.deficitRoundRobin 4)) ⟨"x"⟩ tr := by
  obtain ⟨hbound, htraces⟩ := drr_credit_bounded RingSample.governor ⟨"x"⟩
    (FairSample.classPolicy (.deficitRoundRobin 4)) 4 (by decide +kernel) rfl
  obtain ⟨tr, htrace⟩ := htraces RingSample.returned RingSample.returned_reachable
  have hdeficit : (RingSample.returned.state.cls ⟨"x"⟩).deficit = 6 := by decide +kernel
  have := hbound tr _ htrace
  rw [hdeficit] at this
  exact ⟨tr, htrace, this⟩

end Taskmesh
