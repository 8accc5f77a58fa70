import Taskmesh.Engine.Proofs.OracleProofs
import Taskmesh.Engine.Proofs.TagRunProofs

/-!
# What a selection answers

The specification of `select`: nothing when no class has a candidate, else the candidate of the
contended tier that its discipline puts first. No two queued requests arrived at once, so the winner is
strictly first; and the enabled classes of a tier share one discipline, so it does not matter which of
them the discipline is read off.
-/

namespace Taskmesh

open Std MachineInt GovernedState RingWalk QueueFamily

variable {g : Governor} {s s' s'' : GovernedState} {policies : PolicySet} {tier : List Candidate}
  {c d first : Candidate} {rest : List Candidate} {kind : FairnessKind}

/-! ## The winner of a tier -/

/-- The order in which a discipline compares two keys. -/
def KeyLt (k k' : Nat × Nat) : Prop := k.1 < k'.1 ∨ k.1 = k'.1 ∧ k.2 < k'.2

/-- One candidate comes before all others. -/
structure Least (key : Candidate → Nat × Nat) (tier : List Candidate) (c : Candidate) : Prop where
  mem : c ∈ tier
  before : ∀ d ∈ tier, d ≠ c → KeyLt (key c) (key d)

/-- The winner of the ring: the class the cursor still affords, or the first class to afford its head on
the walk. -/
inductive RingWinner (s : GovernedState) (tier : List Candidate) (c : Candidate) : Prop
  | cursor (serves : drrCursorServes s tier = some c)
  | walked {pos winner : Nat} (serves : drrCursorServes s tier = none) (found : tier[winner]? = some c)
      (earliest : Earliest (ringOf tier) (drrStart s tier) s.deficits pos winner
        ⟨c.taskClass, drrQuantum c.fairness, max c.headCostCpu 1⟩)

/-- The candidate a discipline puts first in its tier. -/
inductive Wins (s : GovernedState) (tier : List Candidate) (c : Candidate) : FairnessKind → Prop
  | fifo (least : Least (fun c => (c.headQueueOrder, 0)) tier c) : Wins s tier c .fifo
  | scavenger (least : Least (fun c => (c.headQueueOrder, 0)) tier c) : Wins s tier c .bestEffortScavenger
  | weightedFair (least : Least (fun c => (c.headFinishTag, c.headQueueOrder)) tier c) :
      Wins s tier c .weightedFairQueue
  | deadline (least : Least (fun c => (c.headDeadlineMs, c.headQueueOrder)) tier c) :
      Wins s tier c .deadlineAware
  | ring (winner : RingWinner s tier c) : Wins s tier c .deficitRoundRobin

/-- The sequence number breaks every tie, so there is one least candidate. -/
theorem Least.unique {key : Candidate → Nat × Nat} (h : Least key tier c) (h' : Least key tier d) : c = d := by
  by_contra hne
  have hlt := h.before d h'.mem (Ne.symm hne)
  have hlt' := h'.before c h.mem hne
  unfold KeyLt at hlt hlt'
  omega

/-- The walk of the ring has one end. -/
theorem RingWinner.unique (h : RingWinner s tier c) (h' : RingWinner s tier d) : c = d := by
  cases h with
  | cursor serves =>
    cases h' with
    | cursor serves' => exact Option.some.inj (serves.symm.trans serves')
    | walked serves' found earliest =>
      rw [serves] at serves'
      simp at serves'
  | @walked pos winner serves found earliest =>
    cases h' with
    | cursor serves' =>
      rw [serves'] at serves
      simp at serves
    | @walked pos' winner' serves' found' earliest' =>
      have htier : tier ≠ [] := by
        rintro rfl
        simp at found
      have hstart : drrStart s tier < (ringOf tier).length := by
        rw [length_ringOf]
        exact drrStart_lt s htier
      by_cases hsame : winner' = winner
      · subst hsame
        exact Option.some.inj (found.symm.trans found')
      · have hlater := earliest.lt_position hstart earliest'.found hsame
        have hleast := earliest'.least winner _ earliest.found
        rw [← earliest'.pos_eq] at hlater
        rw [← earliest.pos_eq] at hleast
        omega

/-- At most one candidate wins under each discipline. -/
theorem Wins.unique (h : Wins s tier c kind) (h' : Wins s tier d kind) : c = d := by
  cases h with
  | fifo least => cases h' with | fifo least' => exact least.unique least'
  | scavenger least => cases h' with | scavenger least' => exact least.unique least'
  | weightedFair least => cases h' with | weightedFair least' => exact least.unique least'
  | deadline least => cases h' with | deadline least' => exact least.unique least'
  | ring winner => cases h' with | ring winner' => exact winner.unique winner'

/-- `pickMin` answers a candidate that none comes before. -/
theorem pickMin_not_lt (key : Candidate → Nat × Nat) (best : Candidate) (rest : List Candidate)
    (hd : d ∈ best :: rest) : ¬ KeyLt (key d) (key (pickMin key best rest)) := by
  unfold KeyLt
  induction rest generalizing best d with
  | nil =>
    obtain rfl : d = best := by simpa using hd
    simp [pickMin]
  | cons e rest ih =>
    unfold pickMin
    split
    · rename_i hlt
      have hlast := ih e List.mem_cons_self
      rcases List.mem_cons.mp hd with rfl | hmem
      · omega
      · exact ih e hmem
    · rename_i hge
      have hlast := ih best List.mem_cons_self
      rcases List.mem_cons.mp hd with rfl | hmem
      · exact hlast
      · rcases List.mem_cons.mp hmem with rfl | hmem
        · omega
        · exact ih best (List.mem_cons_of_mem _ hmem)

/-- With no key twice in the tier, `pickMin` answers the candidate before all others. -/
theorem pickMin_least {key : Candidate → Nat × Nat} (hkeys : ∀ c ∈ first :: rest, ∀ d ∈ first :: rest,
    (key c).1 = (key d).1 → (key c).2 = (key d).2 → c = d) :
    Least key (first :: rest) (pickMin key first rest) := by
  refine ⟨pickMin_mem key first rest, fun d hd hne => ?_⟩
  have hnot := pickMin_not_lt key first rest hd
  have hdistinct := hkeys d hd _ (pickMin_mem key first rest)
  unfold KeyLt at hnot ⊢
  by_contra hcontra
  exact hne (hdistinct (by omega) (by omega))

/-- The class `drrSelect` serves wins the ring. -/
theorem ringWinner_drrSelect (s : GovernedState) (htier : tier ≠ []) (hclasses : Ascending tier) :
    ∃ c ∈ tier, (drrSelect s tier).2 = some c.taskClass ∧ RingWinner s tier c := by
  obtain ⟨k, hchosen, hserves⟩ := drrSelect_serves s htier hclasses
  generalize (drrSelect s tier).1.deficits = deficits at hserves
  generalize (drrSelect s tier).1.drrCursor = cursor at hserves
  cases hserves with
  | @kept c serves => exact ⟨c, (drrCursorServes_eq_some serves).2.1, hchosen, .cursor serves⟩
  | @walked credited pos winner c serves found earliest plan slots others =>
    exact ⟨c, List.mem_of_getElem? found, hchosen, .walked serves found earliest⟩

/-! ## What a selection moves -/

/-- The round robin moved: credits of the classes of a tier, the cursor and the work counter. -/
structure RingMoved (s s' : GovernedState) (tier : List Candidate) : Prop where
  rest : ∃ classes cursor visits,
    s' = { s with classes := classes, drrCursor := cursor, drrRingVisits := visits }
  classes : ∀ k : TaskClass, s'.classes[k]? = s.classes[k]?.map fun cs => { cs with deficit := s'.deficits k }
  others : ∀ k, (∀ c ∈ tier, c.taskClass ≠ k) → s'.deficits k = s.deficits k

/-- What a selection that answers `c` changes. -/
inductive SelectionMoves (s : GovernedState) (tier : List Candidate) (c : Candidate) (s' : GovernedState) :
    FairnessKind → Prop
  | fifo (same : s' = s) : SelectionMoves s tier c s' .fifo
  | scavenger (same : s' = s) : SelectionMoves s tier c s' .bestEffortScavenger
  | weightedFair (raised : s' = { s with virtualTime := max s.virtualTime c.headFinishTag }) :
      SelectionMoves s tier c s' .weightedFairQueue
  | deadline (same : s' = s) : SelectionMoves s tier c s' .deadlineAware
  | ring (moved : RingMoved s s' tier) : SelectionMoves s tier c s' .deficitRoundRobin

theorem map_deficits_self (s : GovernedState) (k : TaskClass) :
    s.classes[k]? = s.classes[k]?.map fun cs => { cs with deficit := s.deficits k } := by
  unfold GovernedState.deficits GovernedState.cls
  cases s.classes[k]? <;> rfl

theorem RingMoved.cursor (s : GovernedState) (cursor : Option TaskClass) (visits : Nat) :
    RingMoved s { s with drrCursor := cursor, drrRingVisits := visits } tier :=
  ⟨⟨_, _, _, rfl⟩, map_deficits_self s, fun _ _ => rfl⟩

theorem RingMoved.trans (h : RingMoved s s' tier) (h' : RingMoved s' s'' tier) : RingMoved s s'' tier := by
  refine ⟨?_, fun k => ?_, fun k hk => (h'.others k hk).trans (h.others k hk)⟩
  · obtain ⟨_, _, _, rfl⟩ := h.rest
    obtain ⟨classes, cursor, visits, rfl⟩ := h'.rest
    exact ⟨classes, cursor, visits, rfl⟩
  · rw [h'.classes k, h.classes k, Option.map_map]
    rfl

/-- A change of the credit of one class of the tier. -/
theorem RingMoved.credit {k : TaskClass} (htier : ∃ c ∈ tier, c.taskClass = k) (hknown : s.classes[k]? ≠ none)
    (f : Nat → Nat) : RingMoved s (s.modifyClass k fun cs => { cs with deficit := f cs.deficit }) tier := by
  obtain ⟨cs, hcs⟩ := Option.ne_none_iff_exists'.mp hknown
  refine ⟨⟨_, _, _, rfl⟩, fun k' => ?_, fun k' hk' => ?_⟩
  · rw [deficits_modifyClass]
    unfold GovernedState.modifyClass GovernedState.deficits GovernedState.cls
    rw [ExtTreeMap.getElem?_insert]
    by_cases hk : k = k'
    · subst hk
      simp [hcs]
    · rw [if_neg (by simpa using hk), if_neg hk]
      exact map_deficits_self s k'
  · rw [deficits_modifyClass, if_neg]
    rintro rfl
    obtain ⟨c, hc, hclass⟩ := htier
    exact hk' c hc hclass

theorem RingMoved.known (h : RingMoved s s' tier) {k : TaskClass} (hknown : s.classes[k]? ≠ none) :
    s'.classes[k]? ≠ none := by
  rw [h.classes k]
  simpa using hknown

/-- Crediting a round moves deficits of the tier only. -/
theorem ringMoved_creditVisits (ringSize winningPos : Nat) (plan : List PlannedVisit)
    (hplan : ∀ v ∈ plan, (∃ c ∈ tier, c.taskClass = v.taskClass) ∧ s.classes[v.taskClass]? ≠ none) :
    RingMoved s (plan.foldl (creditVisit ringSize winningPos) s) tier := by
  induction plan generalizing s with
  | nil => exact RingMoved.cursor s s.drrCursor s.drrRingVisits
  | cons v plan ih =>
    obtain ⟨hclass, hknown⟩ := hplan v List.mem_cons_self
    have hvisit : RingMoved s (creditVisit ringSize winningPos s v) tier := by
      unfold creditVisit
      split
      · exact RingMoved.cursor s s.drrCursor s.drrRingVisits
      · exact RingMoved.credit hclass hknown fun d => saturatingAdd u128Max d _
    rw [List.foldl_cons]
    refine hvisit.trans (ih fun w hw => ?_)
    obtain ⟨hclass', hknown'⟩ := hplan w (List.mem_cons_of_mem _ hw)
    exact ⟨hclass', hvisit.known hknown'⟩

/-- Deficit round robin moves the cursor and the deficits of the tier, and nothing else. -/
theorem ringMoved_drrSelect (hknown : ∀ c ∈ tier, s.classes[c.taskClass]? ≠ none) :
    RingMoved s (drrSelect s tier).1 tier := by
  have hclass : ∀ {start : Nat} {v : PlannedVisit}, v ∈ planVisits s tier start →
      (∃ c ∈ tier, c.taskClass = v.taskClass) ∧ s.classes[v.taskClass]? ≠ none := by
    intro start v hv
    obtain ⟨i, c, hi, rfl⟩ := mem_planVisits_iff.mp hv
    have hc := List.mem_of_getElem? hi
    exact ⟨⟨c, hc, rfl⟩, hknown c hc⟩
  unfold drrSelect
  cases hserves : drrCursorServes s tier with
  | some c =>
    have hc := (drrCursorServes_eq_some hserves).2.1
    exact RingMoved.credit ⟨c, hc, rfl⟩ (hknown c hc) fun d => d - _
  | none =>
    simp only
    cases hplan : planVisits s tier (drrStart s tier) with
    | nil => exact RingMoved.cursor s s.drrCursor s.drrRingVisits
    | cons first rest =>
      simp only
      have hcounted : RingMoved s { s with drrRingVisits := saturatingAdd u64Max s.drrRingVisits tier.length } tier :=
        RingMoved.cursor s s.drrCursor _
      have hcredited := hcounted.trans (ringMoved_creditVisits tier.length
        (earliestVisit first rest).visitPos (first :: rest) fun v hv => hclass (hplan ▸ hv))
      obtain ⟨hwinner, hwinnerKnown⟩ := hclass (hplan ▸ earliestVisit_mem first rest)
      exact (hcredited.trans (RingMoved.credit hwinner (hcredited.known hwinnerKnown) fun d => d - _)).trans
        (RingMoved.cursor _ _ _)

/-! ## The specification -/

/-- The candidates that contend with `c`: all primary ones, or all best-effort ones. -/
def tierOf (candidates : List Candidate) (c : Candidate) : List Candidate :=
  candidates.filter fun d => d.bestEffort == c.bestEffort

/-- What `select` answers in a state. -/
structure SelectionSpec (g : Governor) (s : GovernedState) : Prop where
  /-- A candidate is the first request of its class that is runnable and has no predecessor. -/
  candidate : ∀ c ∈ runnableCandidates s g.policy, ∃ policy head,
    IsCandidate s g.policy c policy head ∧ c.headDeadlineMs = head.deadlineMs
  /-- A class with such a request has one candidate. -/
  complete : ∀ (k : TaskClass) policy r, g.policy.classPolicy k = some policy → r ∈ (s.cls k).queue →
    isRunnableCandidate s g.policy policy.maxInflight.toNat (s.cls k) r = true →
    ∃ c ∈ runnableCandidates s g.policy, c.taskClass = k
  once : ∀ c ∈ runnableCandidates s g.policy, ∀ d ∈ runnableCandidates s g.policy,
    c.taskClass = d.taskClass → c = d
  none_iff : (select s g.policy).2 = none ↔ runnableCandidates s g.policy = []
  unchanged : (select s g.policy).2 = none → (select s g.policy).1 = s
  chosen : ∀ selection, (select s g.policy).2 = some selection →
    ∃ c ∈ runnableCandidates s g.policy,
      selection = ⟨c.taskClass, c.queueIndex, c.headFinishTag⟩ ∧
      (c.bestEffort = true → ∀ d ∈ runnableCandidates s g.policy, d.bestEffort = true) ∧
      ∃ kind, (∀ d ∈ tierOf (runnableCandidates s g.policy) c, d.fairness.kind = kind) ∧
        Wins s (tierOf (runnableCandidates s g.policy) c) c kind ∧
        (∀ d, Wins s (tierOf (runnableCandidates s g.policy) c) d kind → d = c) ∧
        SelectionMoves s (tierOf (runnableCandidates s g.policy) c) c (select s g.policy).1 kind ∧
        ∀ first rest, (first :: rest).Perm (tierOf (runnableCandidates s g.policy) c) →
          kind ≠ .deficitRoundRobin →
          dispatchChoice s first rest = ((select s g.policy).1, some c.taskClass)

/-- The contended tier is the tier of each of its candidates. -/
theorem contendedTier_eq_tierOf {candidates : List Candidate} (hc : c ∈ contendedTier candidates) :
    contendedTier candidates = tierOf candidates c := by
  have htier := (List.mem_filter.mp hc).2
  refine List.filter_congr fun d _ => ?_
  generalize (candidates.any fun c => !c.bestEffort) = primary at htier ⊢
  cases hb : c.bestEffort <;> cases hd : d.bestEffort <;> cases primary <;> simp [hb] at htier ⊢

/-- A best-effort candidate contends only when no primary one is runnable. -/
theorem contendedTier_alone {candidates : List Candidate} (hc : c ∈ contendedTier candidates)
    (hbest : c.bestEffort = true) : ∀ d ∈ candidates, d.bestEffort = true := by
  intro d hd
  have htier := (List.mem_filter.mp hc).2
  by_contra hprimary
  have hany : (candidates.any fun c => !c.bestEffort) = true :=
    List.any_eq_true.mpr ⟨d, hd, by simpa using hprimary⟩
  simp [hbest, hany] at htier

/-- The deadline a candidate is compared by is the one of its head. -/
theorem headDeadlineMs_eq {policy : ClassPolicy} {head : PendingRequest} (hc : c ∈ runnableCandidates s policies)
    (h : IsCandidate s policies c policy head) : c.headDeadlineMs = head.deadlineMs := by
  obtain ⟨k, cs, hcs, hcandidate⟩ := mem_runnableCandidates.mp hc
  have hcls : s.cls k = cs := by simp [GovernedState.cls, hcs]
  obtain ⟨policy', head', hpolicy, rfl, hhead, _, _, hfirst⟩ := classCandidate_spec hcandidate
  have hsame : some head = some head' := by
    rw [← h.queued, hcls, hhead]
  obtain rfl := Option.some.inj hsame
  unfold classCandidate at hcandidate
  rw [hpolicy] at hcandidate
  simp only [hfirst, hhead, Option.some.injEq] at hcandidate
  rw [← hcandidate]

/-- No two candidates arrived at once. -/
theorem candidate_order_inj (horders : MatchesOracle s) (hc : c ∈ runnableCandidates s policies)
    (hd : d ∈ runnableCandidates s policies) (h : c.headQueueOrder = d.headQueueOrder) : c = d := by
  obtain ⟨policy, head, hcandidate⟩ := isCandidate_of_mem hc
  obtain ⟨policy', head', hcandidate'⟩ := isCandidate_of_mem hd
  have hsame : head.queueOrder = head'.queueOrder := by rw [← hcandidate.order, ← hcandidate'.order, h]
  exact candidate_unique hc hd (horders.distinct _ _ _ _ (List.mem_of_getElem? hcandidate.queued)
    (List.mem_of_getElem? hcandidate'.queued) hsame).1

/-- A tier of candidates, as it is contended or in any other order. -/
structure SharedTier (s : GovernedState) (policies : PolicySet) (tier : List Candidate) : Prop where
  known : ∀ c ∈ tier, c ∈ runnableCandidates s policies
  kinds : ∀ c ∈ tier, ∀ d ∈ tier, c.fairness.kind = d.fairness.kind

/-- The choice of a discipline that compares keys: the candidate before all others. -/
theorem dispatchChoice_wins (horders : MatchesOracle s) (htier : SharedTier s policies (first :: rest))
    (hring : first.fairness.kind = .deficitRoundRobin → Ascending (first :: rest)) :
    ∃ c ∈ first :: rest, (dispatchChoice s first rest).2 = some c.taskClass ∧
      Wins s (first :: rest) c first.fairness.kind ∧
      SelectionMoves s (first :: rest) c (dispatchChoice s first rest).1 first.fairness.kind := by
  have hinj : ∀ c ∈ first :: rest, ∀ d ∈ first :: rest, c.headQueueOrder = d.headQueueOrder → c = d :=
    fun c hc d hd => candidate_order_inj horders (htier.known c hc) (htier.known d hd)
  unfold dispatchChoice
  cases hfairness : first.fairness with
  | fifo =>
    refine ⟨_, pickMin_mem _ _ _, rfl, .fifo (pickMin_least ?_), .fifo rfl⟩
    exact fun c hc d hd hkey _ => hinj c hc d hd hkey
  | bestEffortScavenger =>
    refine ⟨_, pickMin_mem _ _ _, rfl, .scavenger (pickMin_least ?_), .scavenger rfl⟩
    exact fun c hc d hd hkey _ => hinj c hc d hd hkey
  | weightedFairQueue weight burst =>
    refine ⟨_, pickMin_mem _ _ _, rfl, .weightedFair (pickMin_least ?_), .weightedFair rfl⟩
    exact fun c hc d hd _ hkey => hinj c hc d hd hkey
  | deadlineAware slack =>
    refine ⟨_, pickMin_mem _ _ _, rfl, .deadline (pickMin_least ?_), .deadline rfl⟩
    exact fun c hc d hd _ hkey => hinj c hc d hd hkey
  | deficitRoundRobin quantum =>
    rw [hfairness] at hring
    obtain ⟨c, hc, hchosen, hwinner⟩ := ringWinner_drrSelect s (by simp) (hring rfl)
    refine ⟨c, hc, hchosen, .ring hwinner, .ring (ringMoved_drrSelect fun d hd => ?_)⟩
    obtain ⟨k, cs, hcs, hcandidate⟩ := mem_runnableCandidates.mp (htier.known d hd)
    obtain ⟨_, _, _, rfl, _⟩ := classCandidate_spec hcandidate
    simp [hcs]

/-- The winner does not depend on the order the candidates are listed in. -/
theorem Wins.perm {tier' : List Candidate} (h : Wins s tier c kind) (hperm : tier.Perm tier')
    (hkind : kind ≠ .deficitRoundRobin) : Wins s tier' c kind := by
  have hleast : ∀ {key : Candidate → Nat × Nat}, Least key tier c → Least key tier' c := fun least =>
    ⟨hperm.mem_iff.mp least.mem, fun d hd => least.before d (hperm.mem_iff.mpr hd)⟩
  cases h with
  | fifo least => exact .fifo (hleast least)
  | scavenger least => exact .scavenger (hleast least)
  | weightedFair least => exact .weightedFair (hleast least)
  | deadline least => exact .deadline (hleast least)
  | ring winner => exact absurd rfl hkind

/-- Apart from the ring, what a selection moves is determined by its answer. -/
theorem SelectionMoves.unique {tier' : List Candidate} (h : SelectionMoves s tier c s' kind)
    (h' : SelectionMoves s tier' c s'' kind) (hkind : kind ≠ .deficitRoundRobin) : s' = s'' := by
  cases h with
  | fifo same => cases h' with | fifo same' => rw [same, same']
  | scavenger same => cases h' with | scavenger same' => rw [same, same']
  | weightedFair raised => cases h' with | weightedFair raised' => rw [raised, raised']
  | deadline same => cases h' with | deadline same' => rw [same, same']
  | ring moved => exact absurd rfl hkind

theorem SharedTier.perm {tier' : List Candidate} (h : SharedTier s policies tier) (hperm : tier'.Perm tier) :
    SharedTier s policies tier' :=
  ⟨fun c hc => h.known c (hperm.mem_iff.mp hc),
    fun c hc d hd => h.kinds c (hperm.mem_iff.mp hc) d (hperm.mem_iff.mp hd)⟩

/-- The order in which the candidates are listed does not matter, except to the ring. -/
theorem dispatchChoice_perm {first' : Candidate} {rest' : List Candidate} (horders : MatchesOracle s)
    (htier : SharedTier s policies tier) (hperm : (first :: rest).Perm tier)
    (hperm' : (first' :: rest').Perm tier) (hkind : first.fairness.kind ≠ .deficitRoundRobin) :
    dispatchChoice s first rest = dispatchChoice s first' rest' := by
  have hsame : first'.fairness.kind = first.fairness.kind :=
    htier.kinds _ (hperm'.mem_iff.mp List.mem_cons_self) _ (hperm.mem_iff.mp List.mem_cons_self)
  obtain ⟨c, _, hchosen, hwins, hmoves⟩ :=
    dispatchChoice_wins horders (htier.perm hperm) fun hring => absurd hring hkind
  obtain ⟨d, _, hchosen', hwins', hmoves'⟩ :=
    dispatchChoice_wins horders (htier.perm hperm') fun hring => absurd (hsame.symm.trans hring) hkind
  rw [hsame] at hwins' hmoves'
  obtain rfl := (hwins.perm hperm hkind).unique (hwins'.perm hperm' hkind)
  exact Prod.ext (hmoves.unique hmoves' hkind) (hchosen.trans hchosen'.symm)

/-- The specification holds wherever no two queued requests arrived at once. -/
theorem SelectionSpec.of_orders (horders : MatchesOracle s) : SelectionSpec g s := by
  have hnone : (select s g.policy).2 = none ↔ runnableCandidates s g.policy = [] := by
    rw [← Option.isNone_iff_eq_none, ← Option.not_isSome, select_isSome_iff, Bool.not_eq_true']
    exact hasRunnable_eq_false_iff
  refine ⟨fun c hc => ?_, fun k policy r known hr hrun => ?_, fun c hc d hd => candidate_unique hc hd, hnone,
    fun h => ?_, fun selection hselection => ?_⟩
  · obtain ⟨policy, head, hcandidate⟩ := isCandidate_of_mem hc
    exact ⟨policy, head, hcandidate, headDeadlineMs_eq hc hcandidate⟩
  · exact candidate_of_runnable known hr hrun
  · rw [select_nil (hnone.mp h)]
  · obtain ⟨first, rest, c, hselects, rfl⟩ := selects_of_select hselection
    have hmem : c ∈ contendedTier (runnableCandidates s g.policy) := by
      rw [hselects.tier]
      exact hselects.picked
    have htier := contendedTier_eq_tierOf hmem
    have hcontends : SharedTier s g.policy (contendedTier (runnableCandidates s g.policy)) :=
      ⟨fun d hd => contendedTier_subset hd, fun d hd d' hd' => tier_kind hd hd'⟩
    have hascending := ascending_contendedTier s g.policy
    have hstate : (select s g.policy).1 = (dispatchChoice s first rest).1 := by rw [hselects.selects]
    have hfirst : first ∈ contendedTier (runnableCandidates s g.policy) := by
      rw [hselects.tier]
      exact List.mem_cons_self
    obtain ⟨d, hd, hchosen, hwins, hmoves⟩ := dispatchChoice_wins horders (hselects.tier ▸ hcontends)
      fun _ => hselects.tier ▸ hascending
    have hsame : d = c := by
      have hclass := Option.some.inj (hchosen.symm.trans hselects.chose)
      exact candidate_unique (contendedTier_subset (hselects.tier ▸ hd)) hselects.mem hclass
    subst hsame
    refine ⟨d, hselects.mem, rfl, contendedTier_alone hmem, first.fairness.kind, ?_⟩
    rw [hstate, ← htier]
    refine ⟨fun d' hd' => tier_kind hd' hfirst, ?_, fun d' hd' => ?_, ?_, fun first' rest' hperm hkind => ?_⟩
    · rw [hselects.tier]
      exact hwins
    · rw [hselects.tier] at hd'
      exact hd'.unique hwins
    · rw [hselects.tier]
      exact hmoves
    · have hlisted : (first :: rest).Perm (contendedTier (runnableCandidates s g.policy)) :=
        List.Perm.of_eq hselects.tier.symm
      rw [dispatchChoice_perm horders hcontends hperm hlisted ?_]
      · exact Prod.ext rfl hchosen
      · rwa [hcontends.kinds _ (hperm.mem_iff.mp List.mem_cons_self) _ hfirst]

/-! ## Wherever the governor selects -/

/-- The states in which a promotion pass started in `s` asks for a selection. -/
inductive PassState (g : Governor) (nowMs : Nat) (s : GovernedState) : GovernedState → Prop
  | first : PassState g nowMs s (g.terminalizeWaitCycle s {}).state
  | next {t t' : GovernedState} {grant : GrantRequest} (before : PassState g nowMs s t)
      (granted : g.promoteStep nowMs t = (t', some grant)) : PassState g nowMs s t'

/-- What the queues of every such state keep. -/
structure OrderedQueues (g : Governor) (s : GovernedState) : Prop where
  queues : QueueInv g s
  orders : UniqueBy PendingRequest.queueOrder s.waiting

/-- Every move keeps the queues in the order of arrival. -/
theorem OrderedQueues.move {caller : Caller} {trend : Trend} (h : OrderedQueues g s)
    (hm : Move g caller trend s s') : OrderedQueues g s' :=
  ⟨hm.queueInv h.queues, hm.queueEffect.orders h.queues h.orders⟩

/-- In a state with ordered queues, selection meets its specification. -/
theorem OrderedQueues.spec (h : OrderedQueues g s) : SelectionSpec g s :=
  SelectionSpec.of_orders (IndexedQueues.matches_oracle
    ⟨fun c => ClassState.indexed_queueHalf.mp (h.queues.indexed c), h.orders⟩)

/-- In every reachable state the queues are in the order of arrival. -/
theorem OrderedQueues.of_reachable {σ : g.System} (h : g.Reachable σ) : OrderedQueues g σ.state :=
  ⟨(SysInv.of_reachable h).state.queues, (IndexedQueues.of_reachable h).orders⟩

/-- Every state inside a pass has ordered queues too. -/
theorem OrderedQueues.pass {nowMs : Nat} (h : OrderedQueues g s) (hpass : PassState g nowMs s s') :
    OrderedQueues g s' := by
  induction hpass with
  | first =>
    have hmoves : Path g Caller.nobody s (g.terminalizeWaitCycle s {}).state :=
      ⟨s, .refl, terminalizeWaitCycle_moves g s {}⟩
    exact hmoves.invariant (fun _ _ _ hm h => h.move hm) h
  | next _ granted ih =>
    have hmove : Move g Caller.nobody .growing _ _ := Move.promoted nowMs granted
    exact ih.move hmove

/-- The specification of `select` holds in every reachable state, and in every state in which a section
of any step asks for a selection. -/
theorem selection_specified (g : Governor) (σ : g.System) (h : g.Reachable σ) :
    SelectionSpec g σ.state ∧
    ∀ a prepared, Governor.prepare σ a = some prepared → prepared.sec.promotes = true →
      ∀ s, PassState g prepared.nowMs prepared.sec.state s → SelectionSpec g s := by
  have hordered := OrderedQueues.of_reachable h
  refine ⟨hordered.spec, fun a prepared hprepared _ s hpass => ?_⟩
  have hsection : OrderedQueues g prepared.sec.state :=
    (prepare_path (SysInv.of_reachable h).ready hprepared).invariant (fun _ _ _ hm h => h.move hm) hordered
  exact (hsection.pass hpass).spec

namespace FairSample

/-- The two classes on a machine of one unit, where every request waits for every other one. -/
def narrowGovernor : Governor := ⟨7, PolicySet.new ⟨1, 8, 0, 0, ⟨0⟩⟩ policy.classes 1, by decide +kernel⟩

/-- A task of the heavier class runs; one of the lighter class waits, and then another of the heavier. -/
def contended : narrowGovernor.System :=
  (Runs.replay narrowGovernor.step narrowGovernor.init
    (Sample.admission (.admitSpec (task "a" "x")) ++ Sample.admission (.admitSpec (task "b" "y")) ++
      Sample.admission (.admitSpec (task "a" "z")))).getD narrowGovernor.init

theorem contended_reachable : narrowGovernor.Reachable contended := Runs.reachable_replay narrowGovernor.init _

end FairSample

/-- In the sample the running task ends, and of two runnable classes the heavier one is selected, although
its request arrived last. -/
theorem sample_selection : ∃ prepared selection,
    Governor.prepare FairSample.contended (.release ⟨7, 1⟩ 5) = some prepared ∧
      (runnableCandidates prepared.sec.state FairSample.narrowGovernor.policy).length = 2 ∧
      (select prepared.sec.state FairSample.narrowGovernor.policy).2 = some selection ∧
      selection.taskClass = ⟨"a"⟩ ∧ SelectionSpec FairSample.narrowGovernor prepared.sec.state := by
  have hruns : (Governor.prepare FairSample.contended (.release ⟨7, 1⟩ 5)).any (fun prepared =>
      prepared.sec.promotes &&
      decide ((runnableCandidates prepared.sec.state FairSample.narrowGovernor.policy).length = 2) &&
      (select prepared.sec.state FairSample.narrowGovernor.policy).2.any (fun selection =>
        decide (selection.taskClass = ⟨"a"⟩)) &&
      (FairSample.narrowGovernor.findCycle prepared.sec.state).isNone) = true := by decide +kernel
  obtain ⟨prepared, hprepared, hchecks⟩ := (Option.any_eq_true _ _).mp hruns
  simp only [Bool.and_eq_true] at hchecks
  obtain ⟨⟨⟨hpromotes, htwo⟩, hselects⟩, hcycle⟩ := hchecks
  obtain ⟨selection, hselection, hclass⟩ := (Option.any_eq_true _ _).mp hselects
  refine ⟨prepared, selection, hprepared, of_decide_eq_true htwo, hselection, of_decide_eq_true hclass, ?_⟩
  have hscan : (FairSample.narrowGovernor.terminalizeWaitCycle prepared.sec.state {}).state =
      prepared.sec.state := by
    unfold Governor.terminalizeWaitCycle
    rw [Option.isNone_iff_eq_none.mp hcycle]
  rw [← hscan]
  exact (selection_specified FairSample.narrowGovernor FairSample.contended FairSample.contended_reachable).2
    _ prepared hprepared hpromotes _ .first

end Taskmesh
