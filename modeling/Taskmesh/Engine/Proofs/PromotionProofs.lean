import Taskmesh.Engine.Proofs.QuietProofs

/-!
# Work conservation of promotion

A queued request that could run is never left without a promotion pass: either nothing is runnable, or
a continuation is owed by a call in progress. Sections without a pass make nothing runnable; a pass
that owes nothing left nothing runnable and no irreversible cycle behind; and a drain ends, because
every further pass removes a queued request.
-/

namespace Taskmesh

open Std MachineInt SetIndex QueueFamily ExtTreeMap

variable {g : Governor} {s s' s'' : GovernedState}

/-! ## What an assessment reads -/

theorem holding_some {permits permits' : BTreeMap PermitId PermitRecord} {p : PermitId}
    {record : PermitRecord}
    (h : permits'[p]?.map PermitRecord.holding = permits[p]?.map PermitRecord.holding)
    (found : permits[p]? = some record) :
    ∃ record', permits'[p]? = some record' ∧ record'.holding = record.holding := by
  rw [found, Option.map_some] at h
  simpa using h

/-- The chain of a permit consists of the same holdings. -/
theorem awaitedChain_congr
    (h : ∀ p : PermitId, s'.permits[p]?.map PermitRecord.holding = s.permits[p]?.map PermitRecord.holding)
    (fuel : Nat) (visited : List PermitId) (id : PermitId) :
    (awaitedChain s' fuel visited id).map PermitRecord.holding =
      (awaitedChain s fuel visited id).map PermitRecord.holding := by
  induction fuel generalizing visited id with
  | zero => rfl
  | succ fuel ih =>
    unfold awaitedChain
    split
    · rfl
    · cases hs : s.permits[id]? with
      | none =>
        have hs' : s'.permits[id]? = none := by
          have := h id
          rw [hs] at this
          simpa using this
        rw [hs']
      | some record =>
        obtain ⟨record', hs', hsame⟩ := holding_some (h id) hs
        rw [hs']
        have hscope : record'.holding.scope = record.holding.scope := congrArg PermitRecord.scope hsame
        have hparent : record'.holding.parentPermitId = record.holding.parentPermitId :=
          congrArg PermitRecord.parentPermitId hsame
        simp only [PermitRecord.holding] at hscope hparent
        simp only [hscope, hparent, List.map_cons, hsame]
        split
        · cases record.parentPermitId with
          | none => rfl
          | some next => simp only [ih (id :: visited) next]
        · rfl

/-- What a chain holds depends on the holdings of its records alone. -/
theorem heldByChain_congr {policies : PolicySet} {c : TaskClass} {blockers : BlockerSet}
    {chain chain' : List PermitRecord} (hsame : SameHoldings s s')
    (h : chain'.map PermitRecord.holding = chain.map PermitRecord.holding) :
    heldByChain s' policies c blockers chain' = heldByChain s policies c blockers chain := by
  have hclass : ∀ l : List PermitRecord, chainInClass l c = chainInClass (l.map PermitRecord.holding) c := by
    intro l
    simp only [chainInClass, List.countP_map]
    rfl
  have hpool : ∀ (l : List PermitRecord) id, chainInPool l id = chainInPool (l.map PermitRecord.holding) id := by
    intro l id
    simp only [chainInPool, List.countP_map]
    rfl
  have hcpu : ∀ l : List PermitRecord, chainCpu l = chainCpu (l.map PermitRecord.holding) := by
    intro l
    simp only [chainCpu, List.map_map]
    rfl
  have hmemory : ∀ l : List PermitRecord, chainMemory l = chainMemory (l.map PermitRecord.holding) := by
    intro l
    simp only [chainMemory, List.map_map]
    rfl
  have hinUse : ∀ id, s'.inUse id = s.inUse id := by
    intro id
    simp only [GovernedState.inUse, hsame.pools]
  unfold heldByChain
  rw [hclass chain', hcpu chain', hmemory chain', h, ← hclass, ← hcpu, ← hmemory, hsame.inflight,
    hsame.cpu, hsame.memory]
  simp only [hpool chain', h, ← hpool, hinUse]

/-- An assessment reads holdings, totals, the identity index and the fault. -/
theorem assessScope_congr {policies : PolicySet} (hsame : SameHoldings s s')
    (hfault : s'.accountingFault = s.accountingFault) (q : ScopeAssessment) :
    assessScope s' policies q = assessScope s policies q := by
  have hinUse : ∀ id, s'.inUse id = s.inUse id := by
    intro id
    simp only [GovernedState.inUse, hsame.pools]
  have hpool : poolBlocked s' policies = poolBlocked s policies := by
    funext id
    simp only [poolBlocked, hinUse]
  have hblockers : blockersFor s' policies q.taskClass q.maxInflight q.cost q.capabilities =
      blockersFor s policies q.taskClass q.maxInflight q.cost q.capabilities := by
    simp only [blockersFor, hpool, hfault, hsame.inflight, hsame.cpu, hsame.memory]
  have hchain : ∀ parent, (waitChain s' parent).map PermitRecord.holding =
      (waitChain s parent).map PermitRecord.holding := by
    intro parent
    unfold waitChain
    rw [hsame.size]
    exact awaitedChain_congr hsame.permits _ _ _
  have hempty : ∀ parent, (waitChain s' parent).isEmpty = (waitChain s parent).isEmpty := by
    intro parent
    have := congrArg List.isEmpty (hchain parent)
    simpa using this
  have hparent : s'.parentPermitForScope q.rootOperationId q.scope =
      s.parentPermitForScope q.rootOperationId q.scope := by
    unfold GovernedState.parentPermitForScope GovernedState.permitsForOperation
    rw [hsame.operations]
  have hcycle : ∀ blockers, cycleWitness s' policies q.rootOperationId q.scope q.parentPermitId q.taskClass
      blockers = cycleWitness s policies q.rootOperationId q.scope q.parentPermitId q.taskClass blockers := by
    intro blockers
    unfold cycleWitness
    simp only [hparent, hempty, heldByChain_congr hsame (hchain _)]
  unfold assessScope
  simp only [hblockers, hcycle]

/-- The owed continuation is read by no assessment. -/
theorem sameHoldings_flagged (s : GovernedState) (pending : Bool) :
    SameHoldings s { s with promotionPending := pending } :=
  ⟨fun _ => rfl, rfl, fun _ => rfl, rfl, rfl, rfl, rfl⟩

/-- The promotion flag is not read when runnable work is looked for. -/
theorem hasRunnable_flagged (s : GovernedState) (policies : PolicySet) (pending : Bool) :
    hasRunnable { s with promotionPending := pending } policies = hasRunnable s policies := by
  have hassess : ∀ r maxInflight behind,
      assessPending { s with promotionPending := pending } policies r maxInflight behind =
        assessPending s policies r maxInflight behind :=
    fun r maxInflight behind => assessScope_congr (sameHoldings_flagged s pending) rfl _
  unfold hasRunnable runnableCandidates classCandidate isRunnableCandidate
  simp only [hassess]

/-- The promotion flag is not read when a wait cycle is looked for. -/
theorem findCycle_flagged (s : GovernedState) (pending : Bool) :
    g.findCycle { s with promotionPending := pending } = g.findCycle s := by
  have hassess : ∀ r maxInflight behind,
      assessPending { s with promotionPending := pending } g.policy r maxInflight behind =
        assessPending s g.policy r maxInflight behind :=
    fun r maxInflight behind => assessScope_congr (sameHoldings_flagged s pending) rfl _
  unfold Governor.findCycle Governor.cycleIn
  simp only [hassess]

/-! ## Runnable requests -/

/-- A request is a runnable candidate when nothing of its domain is ahead and nothing blocks it. -/
theorem isRunnableCandidate_iff {policies : PolicySet} {maxInflight : Nat} {cs : ClassState}
    {r : PendingRequest} :
    isRunnableCandidate s policies maxInflight cs r = true ↔ cs.hasQueuedPredecessor r = false ∧
      (blockersFor s policies r.taskClass maxInflight r.cost r.capabilities).isEmpty = true := by
  simp only [isRunnableCandidate, Bool.and_eq_true, Bool.not_eq_true', decide_eq_true_eq]
  refine and_congr_right fun _ => ⟨fun h => (assessScope_runnable h).1, fun h => ?_⟩
  have hempty : ({ blockersFor s policies r.taskClass maxInflight r.cost r.capabilities with
      queuedBehind := false } : BlockerSet).isEmpty = true := h
  unfold assessPending assessScope
  simp only [hempty, if_true]

/-- Something is runnable, in terms of the waiting requests. -/
theorem hasRunnable_iff_waiting :
    hasRunnable s g.policy = true ↔
      ∃ c policy r, g.policy.classPolicy c = some policy ∧ r ∈ s.waiting c ∧
        (s.cls c).queueHalf.hasQueuedPredecessor r = false ∧
        (blockersFor s g.policy r.taskClass policy.maxInflight.toNat r.cost r.capabilities).isEmpty =
          true := by
  rw [hasRunnable_iff]
  constructor
  · rintro ⟨c, policy, r, hpolicy, hr, hrun⟩
    exact ⟨c, policy, r.untagged, hpolicy, List.mem_map_of_mem hr, isRunnableCandidate_iff.mp hrun⟩
  · rintro ⟨c, policy, r, hpolicy, hr, hrun⟩
    obtain ⟨r', hr', rfl⟩ := List.mem_map.mp hr
    exact ⟨c, policy, r', hpolicy, hr', isRunnableCandidate_iff.mpr hrun⟩

/-- No capacity was given back. -/
structure NoFreer (g : Governor) (s s' : GovernedState) : Prop where
  inflight : ∀ c, s.inflight c ≤ s'.inflight c
  pools : ∀ id, poolBlocked s g.policy id = true → poolBlocked s' g.policy id = true
  cpu : s.cpuUnitsHeld ≤ s'.cpuUnitsHeld
  memory : s.memoryUnitsHeld ≤ s'.memoryUnitsHeld
  fault : s'.accountingFault = none → s.accountingFault = none

theorem poolBlocked_congr {policies : PolicySet} {id : CapabilityId} (h : s'.inUse id = s.inUse id) :
    poolBlocked s' policies id = poolBlocked s policies id := by
  unfold poolBlocked
  rw [h]

/-- A quiet step frees nothing, so it makes nothing runnable. -/
theorem Quiet.noFreer (h : Quiet s s') : NoFreer g s s' where
  inflight c := Nat.le_of_eq (h.holdings.inflight c).symm
  pools id hblocked := by
    have hsame : s'.inUse id = s.inUse id := by simp only [GovernedState.inUse, h.holdings.pools]
    rwa [poolBlocked_congr hsame]
  cpu := Nat.le_of_eq h.holdings.cpu.symm
  memory := Nat.le_of_eq h.holdings.memory.symm
  fault hnone := by rw [← h.fault]; exact hnone

/-- A step that keeps the ledger frees nothing. -/
theorem noFreer_of_sameLedger (h : s.SameLedger s') (hfault : s'.accountingFault = s.accountingFault) :
    NoFreer g s s' where
  inflight c := Nat.le_of_eq (h.inflight_eq c).symm
  pools id hblocked := by rwa [poolBlocked_congr (h.inUse_eq id)]
  cpu := Nat.le_of_eq h.cpu.symm
  memory := Nat.le_of_eq h.memory.symm
  fault hnone := by rw [← hfault]; exact hnone

theorem overBudget_mono {budget held held' cost : Nat} (h : overBudget budget held' cost = false)
    (hle : held ≤ held') : overBudget budget held cost = false := by
  by_cases hb : budget = 0
  · simp [overBudget, hb]
  · unfold overBudget checkedAdd at h ⊢
    split at h
    · rename_i hfit
      rw [if_pos (by omega)]
      simp [hb] at h ⊢
      omega
    · simp [hb] at h

/-- What could run after nothing was given back could run before. -/
theorem NoFreer.blockers (h : NoFreer g s s') {c : TaskClass} {maxInflight : Nat} {cost : ResolvedCost}
    {capabilities : CapabilityRequirementSet}
    (hempty : (blockersFor s' g.policy c maxInflight cost capabilities).isEmpty = true) :
    (blockersFor s g.policy c maxInflight cost capabilities).isEmpty = true := by
  obtain ⟨hinflight, hpools, hcpu, hmemory, _, hfault⟩ := BlockerSet.isEmpty_iff.mp hempty
  simp only [blockersFor, ge_iff_le, decide_eq_false_iff_not, Nat.not_le, List.filter_eq_nil_iff,
    Bool.not_eq_true, Bool.or_eq_false_iff] at hinflight hpools hcpu hmemory hfault
  refine BlockerSet.isEmpty_iff.mpr ⟨?_, ?_, overBudget_mono hcpu h.cpu, overBudget_mono hmemory h.memory,
    rfl, ?_⟩
  · simp only [blockersFor, ge_iff_le, decide_eq_false_iff_not, Nat.not_le]
    exact Nat.lt_of_le_of_lt (h.inflight c) hinflight
  · simp only [blockersFor, List.filter_eq_nil_iff, Bool.not_eq_true]
    intro id hid
    by_contra hblocked
    have := h.pools id (by simpa using hblocked)
    rw [hpools id hid] at this
    simp at this
  · simp only [blockersFor, Bool.or_eq_false_iff]
    refine ⟨?_, hfault.2⟩
    have hnone : s'.accountingFault = none := by simpa using hfault.1
    simp [h.fault hnone]

/-- Nothing becomes runnable when the queues stay and nothing is given back. -/
theorem NoFreer.hasRunnable (h : NoFreer g s s') (hqueues : s.SameQueues s')
    (hrun : hasRunnable s' g.policy = true) : hasRunnable s g.policy = true := by
  obtain ⟨c, policy, r, hpolicy, hr, hpred, hempty⟩ := hasRunnable_iff_waiting.mp hrun
  rw [hqueues.waiting_eq c] at hr
  rw [hqueues.classes c] at hpred
  exact hasRunnable_iff_waiting.mpr ⟨c, policy, r, hpolicy, hr, hpred, h.blockers hempty⟩

/-- A stopped engine has no runnable work. -/
theorem Stopped.not_runnable (h : Stopped s) : hasRunnable s g.policy = false := by
  by_contra hrun
  obtain ⟨c, _, r, _, hr, _⟩ := hasRunnable_iff_waiting.mp (by simpa using hrun)
  rw [h.empty c] at hr
  simp at hr

/-! ## Admission -/

/-- A grant only takes capacity, so it makes nothing else runnable. -/
theorem noFreer_grant {grant : GrantRequest} {policy : ClassPolicy} (fits : GrantFits g s grant policy) :
    NoFreer g s (s.grant grant) where
  inflight c := by
    unfold GovernedState.inflight
    rw [GovernedState.cls_grant]
    split
    · rename_i hc
      subst hc
      have hroom := fits.congr (GovernedState.SameLedger.refl s)
      have hcharge : (GovernedState.chargeClass grant.cost (s.cls grant.taskClass)).inflight =
          wrappingAdd u32Max (s.cls grant.taskClass).inflight 1 := rfl
      have hlt : (s.cls grant.taskClass).inflight < u32Max := hroom
      rw [hcharge, wrappingAdd_of_le (by omega)]
      exact Nat.le_succ _
    · exact Nat.le_refl _
  pools id hblocked := by
    have hid : id ∉ grant.capabilities.ids := by
      intro hid
      rw [fits.room.2.2.2.1 id hid] at hblocked
      simp at hblocked
    have hsame : (s.grant grant).inUse id = s.inUse id := by
      show (GovernedState.occupyPools grant.capabilities.ids s.capabilityInUse)[id]?.getD 0 = _
      rw [getElem?_occupyPools grant.capabilities.nodup, if_neg hid]
      rfl
    rwa [poolBlocked_congr hsame]
  cpu := Nat.le_add_right _ _
  memory := Nat.le_add_right _ _
  fault hnone := hnone

/-- A request that had to queue is not runnable, unless a continuation is owed. -/
theorem hasRunnable_of_pushed {caller : Caller} {trend : Trend} {policy : ClassPolicy} {c : TaskClass}
    {request : AdmissionRequest} {ids : Ids} {blockers : BlockerSet} {waker : Option Waker} {nowMs : Nat}
    {tags : Nat × Nat × Nat} (hinv : QueueInv g s) (hmove : Move g caller trend s s')
    (hledger : s.SameLedger s') (hfault : s'.accountingFault = s.accountingFault)
    (accepted : Accepted g s policy c request ids)
    (blocked : assessIntake s g.policy policy c request = .reversiblyBlocked blockers)
    (pushed : Pushed s.waiting s'.waiting c
      (queuedEntry s policy c request waker ids nowMs blockers.primary tags))
    (hrun : hasRunnable s' g.policy = true) :
    hasRunnable s g.policy = true ∨ s.promotionPending = true := by
  have hinv' := hmove.queueInv hinv
  have hfree : NoFreer g s s' := noFreer_of_sameLedger hledger hfault
  obtain ⟨c', policy', r, hpolicy', hr, hpred, hempty⟩ := hasRunnable_iff_waiting.mp hrun
  have hahead : ∀ r' ∈ s'.waiting c', r'.capabilities.intersects r.capabilities = true →
      ¬ r'.queueOrder < r.queueOrder := by
    intro r' hr' hdomain horder
    have := (hinv'.hasQueuedPredecessor_iff c' r).mpr ⟨r', hr', hdomain, horder⟩
    rw [← hasQueuedPredecessor_queueHalf, hpred] at this
    simp at this
  rcases pushed.mem_iff.mp hr with hold | ⟨rfl, rfl⟩
  · left
    refine hasRunnable_iff_waiting.mpr ⟨c', policy', r, hpolicy', hold, ?_, hfree.blockers hempty⟩
    by_contra hpred'
    rw [Bool.not_eq_false, hasQueuedPredecessor_queueHalf] at hpred'
    obtain ⟨r', hr', hdomain, horder⟩ := (hinv.hasQueuedPredecessor_iff c' r).mp hpred'
    exact hahead r' (pushed.mem_iff.mpr (Or.inl hr')) hdomain horder
  · -- The newcomer: nothing of its domain is queued and nothing blocks it.
    right
    obtain rfl : policy = policy' := by
      have := accepted.known.symm.trans hpolicy'
      simpa using this
    have hdomain : (s.cls c').hasQueuedDomain request.capabilities = false := by
      by_contra hqueued
      obtain ⟨r', hr', hintersects⟩ := (hinv.hasQueuedDomain_iff c' request.capabilities).mp (by simpa using hqueued)
      refine hahead r' (pushed.mem_iff.mpr (Or.inl hr')) hintersects ?_
      exact Nat.lt_succ_of_le ((hinv.indexed c').bounded r' hr')
    have hclear : (blockersFor s g.policy c' policy.maxInflight.toNat (resolveCost policy)
        request.capabilities).isEmpty = true := hfree.blockers hempty
    obtain ⟨hblockers, hne⟩ := assessScope_blockers blocked
    have hbehind : queuedBehind s policy c' request.capabilities = true := by
      by_contra hfalse
      rw [Bool.not_eq_true] at hfalse
      rw [hblockers] at hne
      simp only [hfalse] at hne
      rw [BlockerSet.isEmpty_iff.mpr] at hne
      · simp at hne
      · obtain ⟨h1, h2, h3, h4, _, h6⟩ := BlockerSet.isEmpty_iff.mp hclear
        exact ⟨h1, h2, h3, h4, rfl, h6⟩
    unfold queuedBehind at hbehind
    rw [Bool.or_eq_true] at hbehind
    rcases hbehind with hqueued | howed
    · cases hcs : s.classes[c']? with
      | none => simp [hcs] at hqueued
      | some cs =>
        simp only [hcs, Option.any_some] at hqueued
        have hcls : s.cls c' = cs := by simp [GovernedState.cls, hcs]
        rw [hcls, hqueued] at hdomain
        simp at hdomain
    · simp only [Bool.and_eq_true] at howed
      exact howed.1.1

/-! ## What a pass leaves behind -/

/-- The grant loop stops because nothing is runnable, or because its slots are used up; a loop that
changed nothing granted nothing. -/
theorem promoteLoop_spec (nowMs slots : Nat) (s : GovernedState) (effects : TransitionEffects)
    (changed : Bool) :
    ((g.promoteLoop nowMs slots s effects changed).exhausted = false →
        hasRunnable (g.promoteLoop nowMs slots s effects changed).state g.policy = false) ∧
      ((g.promoteLoop nowMs slots s effects changed).changed = false →
        changed = false ∧ (g.promoteLoop nowMs slots s effects changed).state = s) := by
  induction slots generalizing s effects changed with
  | zero => exact ⟨fun h => by simp [Governor.promoteLoop] at h, fun h => ⟨h, rfl⟩⟩
  | succ slots ih =>
    unfold Governor.promoteLoop
    cases hround : g.promoteStep nowMs s with
    | mk s₁ grant =>
      cases grant with
      | none =>
        obtain ⟨hfalse, rfl⟩ := promoteStep_none hround
        exact ⟨fun _ => hfalse, fun h => ⟨h, rfl⟩⟩
      | some grant =>
        obtain ⟨hexhausted, hchanged⟩ := ih s₁ (effects.pushWake grant.claimWaker) true
        exact ⟨hexhausted, fun h => absurd (hchanged h).1 (by simp)⟩

/-- A pass that removes nothing found no cycle and left the state alone. -/
theorem terminalizeWaitCycle_not_removed {effects : TransitionEffects}
    (h : (g.terminalizeWaitCycle s effects).removed = false) :
    g.findCycle s = none ∧ (g.terminalizeWaitCycle s effects).state = s := by
  rcases terminalizeWaitCycle_cases g s effects with ⟨hnone, heq⟩ | ⟨c, index, witness, r, held, _, _, _, heq⟩
  · exact ⟨hnone, by rw [heq]⟩
  · rw [heq] at h
    simp at h

/-- The grants of a pass stopped with nothing runnable, unless its slots were used up; a pass that
changed nothing found no cycle. -/
theorem grantPass_spec (s : GovernedState) (nowMs : Nat) :
    ((g.grantPass s nowMs).exhausted = false →
        hasRunnable (g.grantPass s nowMs).state g.policy = false) ∧
      ((g.grantPass s nowMs).changed = false → g.findCycle (g.grantPass s nowMs).state = none) := by
  unfold Governor.grantPass
  obtain ⟨hloop, hchanged⟩ := promoteLoop_spec nowMs promotionBudget (g.terminalizeWaitCycle s {}).state
    (g.terminalizeWaitCycle s {}).effects (g.terminalizeWaitCycle s {}).removed (g := g)
  refine ⟨hloop, fun hpass => ?_⟩
  obtain ⟨hfirst, hsame⟩ := hchanged hpass
  obtain ⟨hnone, hstate⟩ := terminalizeWaitCycle_not_removed hfirst
  simp only
  rw [hsame, hstate]
  exact hnone

/-- The last scan removes a cycle, or changes nothing and there is none. -/
theorem lastScan_not_removed {pass : Governor.GrantPass}
    (hchanged : pass.changed = false → g.findCycle pass.state = none)
    (h : (g.lastScan pass).removed = false) :
    (g.lastScan pass).state = pass.state ∧ g.findCycle pass.state = none := by
  unfold Governor.lastScan at h ⊢
  cases hpass : pass.changed with
  | true =>
    simp only [hpass, if_true] at h ⊢
    obtain ⟨hnone, hstate⟩ := terminalizeWaitCycle_not_removed h
    exact ⟨hstate, hnone⟩
  | false =>
    simp only [Bool.false_eq_true, if_false, true_and]
    exact hchanged hpass

/-- A pass that owes nothing leaves nothing runnable and no wait cycle. -/
theorem promote_end {nowMs : Nat} (h : (g.promote s nowMs).2.moreRunnable = false) :
    hasRunnable (g.promote s nowMs).1 g.policy = false ∧ g.findCycle (g.promote s nowMs).1 = none := by
  obtain ⟨hloop, hchanged⟩ := grantPass_spec s nowMs (g := g)
  unfold Governor.promote at h ⊢
  generalize g.grantPass s nowMs = pass at h hloop hchanged ⊢
  simp only [Bool.or_eq_false_iff] at h
  obtain ⟨hremoved, hslots⟩ := h
  obtain ⟨hsame, hnone⟩ := lastScan_not_removed hchanged hremoved
  refine ⟨(hasRunnable_flagged _ _ _).trans ?_, (findCycle_flagged _ _).trans ?_⟩
  · cases hexhausted : pass.exhausted with
    | true => simpa [hexhausted] using hslots
    | false =>
      rw [hsame]
      exact hloop hexhausted
  · rw [hsame]
    exact hnone

/-- With nothing queued a pass does nothing, and owes nothing. -/
theorem promote_of_empty (hempty : ∀ c, (s.cls c).queue = []) (nowMs : Nat) :
    g.promote s nowMs = ({ s with promotionPending := false }, {}) := by
  have hcycle : ∀ effects, g.terminalizeWaitCycle s effects = ⟨s, effects, false⟩ := by
    intro effects
    rcases terminalizeWaitCycle_cases g s effects with ⟨_, heq⟩ | ⟨c, index, witness, r, held, _, hr, _, _⟩
    · exact heq
    · rw [hempty c] at hr
      simp at hr
  have hround : g.promoteStep nowMs s = (s, none) := by
    rcases promoteStep_cases g nowMs s with ⟨_, heq⟩ |
      ⟨s', grant, c, policy, index, r, head, chosen, served, _, hpromotes⟩
    · exact heq
    · have hr := hpromotes.queued
      rw [hempty c] at hr
      simp at hr
  have hloop : g.promoteLoop nowMs promotionBudget s {} false = ⟨s, {}, false, false⟩ := by
    unfold promotionBudget Governor.promoteLoop
    rw [hround]
  unfold Governor.promote Governor.grantPass Governor.lastScan
  simp only [hcycle, hloop]
  rfl

/-! ## Every further pass removes a queued request -/

/-- How many requests are queued. -/
def queuedTotal (s : GovernedState) : Nat := sumBy s.classes fun _ cs => cs.queue.length

theorem queuedTotal_congr (h : ∀ c, (s'.cls c).queue.length = (s.cls c).queue.length) :
    queuedTotal s' = queuedTotal s :=
  sumBy_congr_getD {} (fun _ => rfl) fun c => h c

theorem queuedTotal_of_sameQueues (h : s.SameQueues s') : queuedTotal s' = queuedTotal s := by
  refine queuedTotal_congr fun c => ?_
  have := congrArg (fun cs => cs.queue.length) (h.classes c)
  simpa [ClassState.queueHalf] using this

theorem queuedTotal_removed {c : TaskClass} {index : Nat} {r : PendingRequest}
    (h : Removed s.waiting s'.waiting c index r) : queuedTotal s' + 1 = queuedTotal s := by
  have hlen : ∀ (t : GovernedState) (c : TaskClass), (t.cls c).queue.length = (t.waiting c).length := by
    intro t c
    simp [GovernedState.waiting, ClassState.queueHalf]
  let restored : GovernedState := { s' with classes := s'.classes.insert c (s.cls c) }
  have hrestored : queuedTotal restored = queuedTotal s := by
    refine queuedTotal_congr fun c' => ?_
    have hcls : restored.cls c' = if c = c' then s.cls c else s'.cls c' :=
      GovernedState.cls_insert s' c c' (s.cls c)
    rw [hcls]
    split
    · rename_i hc
      rw [hc]
    · rename_i hc
      rw [hlen, hlen, h.other c' fun heq => hc heq.symm]
  have hupsert := sumBy_upsert s'.classes c {} (s.cls c) (fun _ cs => cs.queue.length) rfl
  have hold : (s'.classes[c]?.getD {}).queue.length + 1 = (s.cls c).queue.length := by
    have hread : (s'.classes[c]?.getD {}).queue.length = (s'.waiting c).length := hlen s' c
    rw [hread, hlen s c, h.rest, List.length_eraseIdx]
    obtain ⟨hlt, _⟩ := List.getElem?_eq_some_iff.mp h.found
    rw [if_pos hlt]
    omega
  have htotal : queuedTotal restored = sumBy (s'.classes.insert c (s.cls c)) fun _ cs => cs.queue.length := rfl
  have htotal' : queuedTotal s' = sumBy s'.classes fun _ cs => cs.queue.length := rfl
  omega

/-- A grant of a pass takes one request from the queues. -/
theorem queuedTotal_promoteStep {nowMs : Nat} {grant : GrantRequest}
    (h : g.promoteStep nowMs s = (s', some grant)) : queuedTotal s' + 1 = queuedTotal s := by
  obtain ⟨c, policy, index, r, head, chosen, served, hpromotes⟩ := promoteStep_some h
  have hremoved := hpromotes.removed
  rw [← hpromotes.waiting_eq] at hremoved
  exact queuedTotal_removed hremoved

theorem queuedTotal_terminalizeWaitCycle (s : GovernedState) (effects : TransitionEffects) :
    queuedTotal (g.terminalizeWaitCycle s effects).state +
      (if (g.terminalizeWaitCycle s effects).removed then 1 else 0) = queuedTotal s := by
  rcases terminalizeWaitCycle_cases g s effects with ⟨_, heq⟩ | ⟨c, index, witness, r, held, _, hr, _, heq⟩
  · rw [heq]
    rfl
  · rw [heq]
    have hremoved := GovernedState.removed_removedPending hr
    have hsame := sameQueues_terminalizeCycle g (s.removedPending c index r) c r held
    have hdrop := queuedTotal_removed hremoved
    have hkeep := queuedTotal_of_sameQueues hsame
    simp only [if_true]
    omega

/-- An exhausted pass has taken a request for each of its slots; the measure that bounds a drain. -/
theorem queuedTotal_promoteLoop (nowMs slots : Nat) (s : GovernedState) (effects : TransitionEffects)
    (changed : Bool) :
    queuedTotal (g.promoteLoop nowMs slots s effects changed).state +
      (if (g.promoteLoop nowMs slots s effects changed).exhausted then slots else 0) ≤ queuedTotal s := by
  induction slots generalizing s effects changed with
  | zero => simp [Governor.promoteLoop]
  | succ slots ih =>
    unfold Governor.promoteLoop
    cases hround : g.promoteStep nowMs s with
    | mk s₁ grant =>
      cases grant with
      | none =>
        obtain ⟨_, rfl⟩ := promoteStep_none hround
        simp
      | some grant =>
        have hstep := queuedTotal_promoteStep hround
        have hrest := ih s₁ (effects.pushWake grant.claimWaker) true
        simp only
        split at hrest <;> rename_i hexhausted <;> simp only [hexhausted] at hrest ⊢
        · simp only [if_true]
          omega
        · simp only [Bool.false_eq_true, if_false]
          omega

/-- A pass that owes another one removed at least one queued request. -/
theorem queuedTotal_promote {nowMs : Nat} (h : (g.promote s nowMs).2.moreRunnable = true) :
    queuedTotal (g.promote s nowMs).1 < queuedTotal s := by
  have hpass : queuedTotal (g.grantPass s nowMs).state +
      (if (g.grantPass s nowMs).exhausted then promotionBudget else 0) ≤ queuedTotal s := by
    unfold Governor.grantPass
    have hfirst := queuedTotal_terminalizeWaitCycle (g := g) s {}
    have hloop := queuedTotal_promoteLoop (g := g) nowMs promotionBudget (g.terminalizeWaitCycle s {}).state
      (g.terminalizeWaitCycle s {}).effects (g.terminalizeWaitCycle s {}).removed
    simp only
    omega
  unfold Governor.promote at h ⊢
  generalize g.grantPass s nowMs = pass at h hpass ⊢
  have hlast : queuedTotal (g.lastScan pass).state +
      (if (g.lastScan pass).removed then 1 else 0) = queuedTotal pass.state := by
    unfold Governor.lastScan
    split
    · exact queuedTotal_terminalizeWaitCycle _ _
    · rfl
  show queuedTotal (g.lastScan pass).state < queuedTotal s
  have hbudget : 0 < promotionBudget := by decide
  simp only [Bool.or_eq_true, Bool.and_eq_true] at h
  rcases h with hremoved | ⟨hexhausted, _⟩
  · rw [hremoved] at hlast
    simp only [if_true] at hlast
    omega
  · rw [hexhausted] at hpass
    simp only [if_true] at hpass
    omega

/-! ## Every run -/

namespace Governor

/-- The effects a call in progress still has to apply. -/
def threadEffects {policies : PolicySet} : Thread policies → Option TransitionEffects
  | .settling _ effects _ => some effects
  | .claiming _ _ effects _ => some effects
  | .draining effects _ => some effects
  | _ => none

/-- A continuation is owed: some call holds effects that ask for another pass. -/
def Owed (σ : g.System) : Prop :=
  ∃ th ∈ σ.threads, ∃ effects, threadEffects th = some effects ∧ effects.moreRunnable = true

end Governor

open Governor

variable {σ σ' : g.System} {a : Action} {e : Event}

/-- Nothing runnable is left without a pass. -/
structure PromotionInv (σ : g.System) : Prop where
  flagged : hasRunnable σ.state g.policy = true → σ.state.promotionPending = true
  owed : σ.state.promotionPending = true →
    ∃ effects sampledMs, Thread.draining effects sampledMs ∈ σ.threads ∧ effects.moreRunnable = true

theorem promotionInv_init (g : Governor) : PromotionInv g.init where
  flagged h := by
    have hstopped : Stopped g.init.state := ⟨fun c => waiting_init c, rfl⟩
    rw [hstopped.not_runnable] at h
    simp at h
  owed h := by simp [Governor.init] at h

theorem commitPending_frame (s : GovernedState) (r : PendingRequest) :
    s.SameLedger (s.commitPending r) ∧ s.SameFlags (s.commitPending r) := by
  have hledger := GovernedState.sameLedger_enqueue s r
  unfold GovernedState.commitPending
  simp only
  split <;>
  · exact ⟨hledger.trans ⟨fun _ => rfl, rfl, rfl, rfl, rfl, rfl, rfl⟩, ⟨rfl, rfl, rfl⟩⟩

/-- What an admission can make runnable. -/
theorem Entered.runnable {request : AdmissionRequest} {ids : Ids} {waker : Option Waker} {nowMs : Nat}
    {decision : AdmissionDecision} (h : Entered g s request ids waker nowMs s' decision)
    (hinv : QueueInv g s) (hrun : hasRunnable s' g.policy = true) :
    hasRunnable s g.policy = true ∨ s.promotionPending = true := by
  cases h with
  | refused cycle => exact Or.inl hrun
  | granted accepted runnable =>
    exact Or.inl ((noFreer_grant (accepted.grantFits runnable nowMs)).hasRunnable
      (GovernedState.sameQueues_grant _ _) hrun)
  | @queued policy c blockers accepted blocked sound room =>
    have hres := rescheduled_enqueueTags s c policy (resolveCost policy).cpuUnits nowMs
    have hmove : Move g ⟨fun _ _ => False, fun _ => True, fun _ => False, fun _ => False⟩ .shrinking s _ :=
      Move.enqueued waker nowMs (enqueueTags s c policy (resolveCost policy).cpuUnits nowMs).2 trivial
        accepted blocked room hres sound
    obtain ⟨hledger, hflags⟩ := commitPending_frame
      (enqueueTags s c policy (resolveCost policy).cpuUnits nowMs).1
      (pendingRequest s policy c request waker ids nowMs blockers.primary
        (enqueueTags s c policy (resolveCost policy).cpuUnits nowMs).2)
    exact hasRunnable_of_pushed hinv hmove (hres.ledger.trans hledger)
      (hflags.fault.trans hres.flags.fault) accepted blocked (pushed_commitPending hres) hrun

/-- Admission leaves the promotion flag as it was. -/
theorem Entered.pending {request : AdmissionRequest} {ids : Ids} {waker : Option Waker} {nowMs : Nat}
    {decision : AdmissionDecision} (h : Entered g s request ids waker nowMs s' decision) :
    s'.promotionPending = s.promotionPending := by
  cases h with
  | refused cycle => rfl
  | granted accepted runnable => rfl
  | @queued policy c blockers accepted blocked sound room =>
    have hres := rescheduled_enqueueTags s c policy (resolveCost policy).cpuUnits nowMs
    exact (commitPending_frame _ _).2.pending.trans hres.flags.pending

/-- A step without a pass makes nothing runnable unless a continuation is owed, and owes nothing new. -/
theorem SysInv.step_unpromoted (hinv : SysInv σ) {p : g.Prepared} (hp : Governor.prepare σ a = some p)
    (hpass : p.sec.promotes = false) :
    ((hasRunnable (finish p).state g.policy = true →
        hasRunnable σ.state g.policy = true ∨ σ.state.promotionPending = true) ∧
      (finish p).state.promotionPending = σ.state.promotionPending) ∨ Stopped (finish p).state := by
  have hstate : (finish p).state = p.sec.state := by
    unfold Governor.finish
    rw [commit_of_not_promotes _ _ hpass]
  by_cases henter : ∃ i, a = .enter i
  · obtain ⟨i, rfl⟩ := henter
    have hstep : g.step σ (.enter i) = some (finish p, p.sec.outcome) := by
      unfold Governor.step
      rw [hp]
      rfl
    obtain ⟨intake, sampledMs, ids, decision, _, _, hentered⟩ := hinv.step_entered hstep
    have hquiet := quiet_commitTime σ.state sampledMs
    have hseq : σ.state.terminalSeq < u64Max :=
      Nat.lt_of_le_of_lt (terminalSeq_le_load _) hinv.terminalSeq_lt
    refine Or.inl ⟨fun hrun => ?_, hentered.pending.trans hquiet.pending⟩
    rcases hentered.runnable (stateInv_commitTime hinv.state sampledMs hseq).queues hrun with hrun | howed
    · exact Or.inl (hquiet.noFreer.hasRunnable hquiet.queues hrun)
    · exact Or.inr (hquiet.pending ▸ howed)
  · rw [hstate]
    rcases prepare_quiet hp hpass (fun i hi => henter ⟨i, hi⟩) with hquiet | hstopped
    · exact Or.inl ⟨fun hrun => Or.inl (hquiet.noFreer.hasRunnable hquiet.queues hrun), hquiet.pending⟩
    · exact Or.inr hstopped

/-- One action keeps the promise that runnable work is accompanied by a pass still owed. -/
theorem PromotionInv.step (hpi : PromotionInv σ) (hinv : SysInv σ) (h : g.step σ a = some (σ', e)) :
    PromotionInv σ' := by
  obtain ⟨p, old, new, rest, hp, rfl, hthreads⟩ := step_threads h
  cases hpass : p.sec.promotes with
  | true =>
    obtain ⟨effects, sampledMs, rfl, hmore⟩ := hthreads.owes hpass
    have hstate : (finish p).state = (g.promote p.sec.state p.nowMs).1 := by
      unfold Governor.finish Governor.commit
      rw [hpass]
      rfl
    have hflag : (finish p).state.promotionPending = (g.promote p.sec.state p.nowMs).2.moreRunnable := by
      rw [hstate]
      rfl
    refine ⟨fun hrun => ?_, fun hpending => ⟨effects, sampledMs, ?_, hmore.trans hpending⟩⟩
    · by_contra hfalse
      rw [Bool.not_eq_true, hflag] at hfalse
      rw [hstate, (promote_end hfalse).1] at hrun
      simp at hrun
    · exact hthreads.after.mem_iff.mpr (List.mem_append_left _ (by simp))
  | false =>
    rcases hinv.step_unpromoted hp hpass with ⟨hrunnable, hsame⟩ | hstopped
    · refine ⟨fun hrun => ?_, fun hpending => ?_⟩
      · rw [hsame]
        exact (hrunnable hrun).elim hpi.flagged id
      · rw [hsame] at hpending
        obtain ⟨effects, sampledMs, hmem, hmore⟩ := hpi.owed hpending
        refine ⟨effects, sampledMs, ?_, hmore⟩
        rcases List.mem_append.mp (hthreads.before.mem_iff.mp hmem) with hold | hrest
        · -- The call that took the turn owed nothing.
          have := hthreads.paid hpass effects sampledMs (by rwa [Option.mem_toList] at hold)
          rw [this] at hmore
          simp at hmore
        · exact hthreads.after.mem_iff.mpr (List.mem_append_right _ hrest)
    · refine ⟨fun hrun => ?_, fun hpending => ?_⟩
      · rw [hstopped.not_runnable] at hrun
        simp at hrun
      · rw [hstopped.pending] at hpending
        simp at hpending

/-- In every reachable state runnable work has a pass owed to it. -/
theorem PromotionInv.of_reachable (h : g.Reachable σ) : PromotionInv σ :=
  (Runs.Reachable.invariant (P := fun σ : g.System => SysInv σ ∧ PromotionInv σ) h
    ⟨sysInv_init g, promotionInv_init g⟩
    fun _ _ _ _ hinv hstep => ⟨hinv.1.step hstep, hinv.2.step hinv.1 hstep⟩).2

end Taskmesh
