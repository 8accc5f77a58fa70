import Taskmesh.Engine.Proofs.CustodyProofs
import Taskmesh.Engine.Proofs.IntakeProofs
import Taskmesh.Engine.Proofs.MemoryProofs

/-!
# A wait that only ancestors could end

A request is refused for a nested wait when one of its blocked dimensions is held by its awaited
ancestors alone. As long as they stay live with at least the memory they were charged, that dimension
stays blocked, whatever else is admitted or released: the request could never have run.
-/

namespace Taskmesh

open Std MachineInt SetIndex QueueFamily ExtTreeMap TicketBook Governor

variable {g : Governor} {caller : Caller} {s s' : GovernedState} {σ σ' : g.System} {a : Action} {e : Event}
  {c : TaskClass} {p : PermitId} {t : Ticket} {q q' : ScopeAssessment} {chain : List PermitRecord}
  {record record' : PermitRecord} {held : HeldCapacity} {policies : PolicySet}

/-! ## Dimensions of capacity -/

/-- A dimension that can block a request. -/
inductive Dimension where
  | inflight
  | pool (id : CapabilityId)
  | cpu
  | memory

namespace Dimension

/-- The capacity a refusal names for the dimension. -/
def reported (g : Governor) (q : ScopeAssessment) : Dimension → Option HeldCapacity
  | .inflight => some (.classInflight q.taskClass)
  | .pool id => (g.policy.capabilityRecord id).map fun record => .capabilityPool record.id.name
  | .cpu => some .cpuBudget
  | .memory => some .memoryBudget

/-- What a live permit holds of the dimension. -/
def weight (q : ScopeAssessment) : Dimension → PermitRecord → Nat
  | .inflight, record => if record.taskClass = q.taskClass then 1 else 0
  | .pool id, record => if id ∈ record.capabilities.ids then 1 else 0
  | .cpu, record => cpuOf record
  | .memory, record => memoryOf record

/-- What is held of the dimension altogether. -/
def total (s : GovernedState) (q : ScopeAssessment) : Dimension → Nat
  | .inflight => s.inflight q.taskClass
  | .pool id => s.inUse id
  | .cpu => s.cpuUnitsHeld
  | .memory => s.memoryUnitsHeld

/-- That much held leaves no room for the request. -/
def Blocks (g : Governor) (q : ScopeAssessment) : Dimension → Nat → Prop
  | .inflight, held => q.maxInflight ≤ held
  | .pool id, held => id ∈ q.capabilities.ids ∧ ∃ limit, PoolLimit g id limit ∧ limit ≤ held
  | .cpu, held => overBudget g.policy.resources.maxCpuUnits.toNat held q.cost.cpuUnits = true
  | .memory, held => overBudget g.policy.resources.maxMemoryUnits.toNat held q.cost.memoryUnits = true

theorem Blocks.mono {d : Dimension} {held more : Nat} (h : d.Blocks g q held) (hle : held ≤ more) :
    d.Blocks g q more := by
  have hbudget : ∀ {budget cost : Nat}, overBudget budget held cost = true → overBudget budget more cost = true := by
    intro budget cost hover
    by_contra hfits
    rw [Bool.not_eq_true] at hfits
    rw [overBudget_mono hfits hle] at hover
    simp at hover
  cases d with
  | inflight => exact Nat.le_trans h hle
  | pool id =>
    obtain ⟨hid, limit, hlimit, hfull⟩ := h
    exact ⟨hid, limit, hlimit, Nat.le_trans hfull hle⟩
  | cpu => exact hbudget h
  | memory => exact hbudget h

/-- What is held of a bounded dimension is what the live permits hold. -/
theorem total_eq (hinv : StateInv g s) {d : Dimension} {held : Nat} (h : d.Blocks g q held) :
    d.total s q = heldBy s.permits (d.weight q) := by
  cases d with
  | inflight => exact (hinv.books.classes q.taskClass).inflight
  | pool id =>
    obtain ⟨_, limit, hlimit, _⟩ := h
    exact (hinv.capacity.pools id limit hlimit).1.inUse
  | cpu => exact hinv.books.cpu
  | memory => exact hinv.books.memory

end Dimension

/-- Two requests with the same needs: of one class, with the limit its policy gives it, and with one cost and one set
of requirements. -/
structure SameNeeds (q q' : ScopeAssessment) : Prop where
  taskClass : q'.taskClass = q.taskClass
  maxInflight : q'.maxInflight = q.maxInflight
  cost : q'.cost = q.cost
  capabilities : q'.capabilities = q.capabilities

/-- A request with a blocked dimension is not runnable. -/
theorem Dimension.Blocks.not_runnable {d : Dimension} (h : d.Blocks g q (d.total s q)) (hsame : SameNeeds q q') :
    assessScope s g.policy q' ≠ .runnable := by
  intro hrunnable
  obtain ⟨hinflight, hpools, hcpu, hmemory, _⟩ := BlockerSet.isEmpty_iff.mp (assessScope_runnable hrunnable).1
  simp only [blockersFor, hsame.taskClass, hsame.maxInflight, hsame.cost, hsame.capabilities]
    at hinflight hpools hcpu hmemory
  cases d with
  | inflight =>
    have hfull : q.maxInflight ≤ s.inflight q.taskClass := h
    simp [hfull] at hinflight
  | pool id =>
    obtain ⟨hid, limit, hlimit, hfull⟩ := h
    have hfree := List.filter_eq_nil_iff.mp hpools id hid
    rw [poolBlocked_of_limit hlimit] at hfree
    exact hfree (decide_eq_true hfull)
  | cpu =>
    have hover : overBudget g.policy.resources.maxCpuUnits.toNat s.cpuUnitsHeld q.cost.cpuUnits = true := h
    rw [hover] at hcpu
    simp at hcpu
  | memory =>
    have hover : overBudget g.policy.resources.maxMemoryUnits.toNat s.memoryUnitsHeld q.cost.memoryUnits = true := h
    rw [hover] at hmemory
    simp at hmemory

/-! ## The chain of awaited ancestors -/

/-- Consecutive ancestors from a parent upwards, each waiting for the one below it. -/
inductive AwaitedAncestors : PermitId → List PermitRecord → Prop
  | none (id : PermitId) : AwaitedAncestors id []
  | last (record : PermitRecord) : AwaitedAncestors record.permitId [record]
  | next {record : PermitRecord} {parent : PermitId} {chain : List PermitRecord}
      (awaited : record.scope.isAwaitedChild = true) (frozen : record.parentPermitId = some parent)
      (above : AwaitedAncestors parent chain) : AwaitedAncestors record.permitId (record :: chain)

/-- The records of the chain are live, each once. -/
structure LiveChain (s : GovernedState) (chain : List PermitRecord) : Prop where
  live : ∀ record ∈ chain, s.permits[record.permitId]? = some record
  distinct : (chain.map PermitRecord.permitId).Nodup

theorem awaitedChain_spec (ho : Occupancy s) (fuel : Nat) (visited : List PermitId) (id : PermitId) :
    AwaitedAncestors id (awaitedChain s fuel visited id) ∧ LiveChain s (awaitedChain s fuel visited id) ∧
      ∀ record ∈ awaitedChain s fuel visited id, record.permitId ∉ visited := by
  induction fuel generalizing visited id with
  | zero => exact ⟨.none id, ⟨by simp [awaitedChain], by simp [awaitedChain]⟩, by simp [awaitedChain]⟩
  | succ fuel ih =>
    unfold awaitedChain
    split
    · exact ⟨.none id, ⟨by simp, by simp⟩, by simp⟩
    · rename_i hfresh
      split
      · exact ⟨.none id, ⟨by simp, by simp⟩, by simp⟩
      · rename_i record found
        have hkey := ho.keys id record found
        subst hkey
        have hlast : AwaitedAncestors record.permitId [record] ∧ LiveChain s [record] ∧
            ∀ record' ∈ [record], record'.permitId ∉ visited :=
          ⟨.last record, ⟨by simpa using found, by simp⟩, by simpa using hfresh⟩
        split
        · rename_i hawaited
          split
          · rename_i parent hparent
            obtain ⟨hlinked, hchain, hvisited⟩ := ih (record.permitId :: visited) parent
            refine ⟨.next hawaited hparent hlinked, ⟨?_, ?_⟩, ?_⟩
            · intro record' hmem
              rcases List.mem_cons.mp hmem with rfl | hmem
              · exact found
              · exact hchain.live record' hmem
            · rw [List.map_cons, List.nodup_cons]
              refine ⟨fun hmem => ?_, hchain.distinct⟩
              obtain ⟨record', hmem', heq⟩ := List.mem_map.mp hmem
              exact hvisited record' hmem' (heq ▸ List.mem_cons_self)
            · intro record' hmem
              rcases List.mem_cons.mp hmem with rfl | hmem
              · exact hfresh
              · exact fun hmem' => hvisited record' hmem (List.mem_cons_of_mem _ hmem')
          · exact hlast
        · exact hlast

theorem countP_eq_sum {α : Type} (f : α → Bool) (l : List α) :
    l.countP f = (l.map fun a => if f a = true then 1 else 0).sum := by
  induction l with
  | nil => rfl
  | cons a rest ih =>
    rw [List.countP_cons, List.map_cons, List.sum_cons, ih, Nat.add_comm]

/-- What the chain holds of a dimension. -/
def Dimension.byChain (q : ScopeAssessment) (d : Dimension) (chain : List PermitRecord) : Nat :=
  (chain.map (d.weight q)).sum

theorem Dimension.byChain_inflight (q : ScopeAssessment) (chain : List PermitRecord) :
    Dimension.inflight.byChain q chain = chainInClass chain q.taskClass := by
  unfold chainInClass
  rw [countP_eq_sum]
  refine congrArg List.sum (List.map_congr_left fun record _ => ?_)
  show (if record.taskClass = q.taskClass then 1 else 0) = _
  simp

theorem Dimension.byChain_pool (q : ScopeAssessment) (id : CapabilityId) (chain : List PermitRecord) :
    (Dimension.pool id).byChain q chain = chainInPool chain id := by
  unfold chainInPool
  rw [countP_eq_sum]
  refine congrArg List.sum (List.map_congr_left fun record _ => ?_)
  show (if id ∈ record.capabilities.ids then 1 else 0) = _
  simp

/-- The chain alone keeps the request from running: a dimension is blocked, and nobody else holds any of
it. -/
structure CertainWait (g : Governor) (s : GovernedState) (q : ScopeAssessment) (parent : PermitId)
    (chain : List PermitRecord) (held : HeldCapacity) : Prop where
  linked : AwaitedAncestors parent chain
  parentLive : chain ≠ []
  live : LiveChain s chain
  alone : ∃ d : Dimension, d.reported g q = some held ∧ d.Blocks g q (d.total s q) ∧
    d.total s q = d.byChain q chain

/-- The dimensions a chain is reported for block the request and are held by the chain alone. -/
theorem heldByChain_alone {blockers : BlockerSet} {held : List HeldCapacity}
    (hblockers : blockers = { blockersFor s g.policy q.taskClass q.maxInflight q.cost q.capabilities with
      queuedBehind := q.queuedBehind })
    (h : heldByChain s g.policy q.taskClass blockers chain = some held) {capacity : HeldCapacity}
    (hmem : capacity ∈ held) :
    ∃ d : Dimension, d.reported g q = some capacity ∧ d.Blocks g q (d.total s q) ∧
      d.total s q = d.byChain q chain := by
  have hexclusive : ∀ {total byChain : Nat}, waitChainExclusivelyHolds total byChain = true → total = byChain := by
    intro total byChain hholds
    simp only [waitChainExclusivelyHolds, Bool.and_eq_true, decide_eq_true_eq] at hholds
    exact hholds.2
  unfold heldByChain at h
  obtain ⟨pools, hpools, h⟩ := Option.bind_eq_some_iff.mp h
  rw [← Option.some.inj h] at hmem
  simp only [List.mem_append] at hmem
  rcases hmem with ((hmem | hmem) | hmem) | hmem
  · split at hmem
    · rename_i hblocked
      obtain ⟨hblocked, hholds⟩ := Bool.and_eq_true_iff.mp hblocked
      rw [List.mem_singleton] at hmem
      refine ⟨.inflight, by rw [hmem]; rfl, ?_, ?_⟩
      · have hfull : q.maxInflight ≤ s.inflight q.taskClass := by
          rw [hblockers] at hblocked
          exact of_decide_eq_true hblocked
        exact hfull
      · exact (hexclusive hholds).trans (Dimension.byChain_inflight q chain).symm
    · simp at hmem
  · obtain ⟨id, hid, hreported⟩ := Traversal.checked_option.source hpools hmem
    obtain ⟨hblocked, hholds⟩ := List.mem_filter.mp hid
    rw [hblockers] at hblocked
    obtain ⟨hneeded, hfull⟩ := List.mem_filter.mp hblocked
    refine ⟨.pool id, hreported, ⟨hneeded, ?_⟩, ?_⟩
    · unfold poolBlocked at hfull
      cases hrecord : g.policy.capabilityRecord id with
      | none => simp [hrecord] at hfull
      | some record =>
        simp only [hrecord, ne_eq, decide_not, Bool.and_eq_true, Bool.not_eq_true', decide_eq_false_iff_not,
          decide_eq_true_eq] at hfull
        exact ⟨record.capacity.limit.toNat, ⟨hfull.1, record, hrecord, rfl⟩, hfull.2⟩
    · exact (hexclusive hholds).trans (Dimension.byChain_pool q id chain).symm
  · split at hmem
    · rename_i hblocked
      obtain ⟨hblocked, hholds⟩ := Bool.and_eq_true_iff.mp hblocked
      rw [List.mem_singleton] at hmem
      rw [hblockers] at hblocked
      exact ⟨.cpu, by rw [hmem]; rfl, hblocked, hexclusive hholds⟩
    · simp at hmem
  · split at hmem
    · rename_i hblocked
      obtain ⟨hblocked, hholds⟩ := Bool.and_eq_true_iff.mp hblocked
      rw [List.mem_singleton] at hmem
      rw [hblockers] at hblocked
      exact ⟨.memory, by rw [hmem]; rfl, hblocked, hexclusive hholds⟩
    · simp at hmem

/-- The parent an awaited child waits in: the generation it was queued under, or else the permit that has
the operation its scope names. -/
structure WaitsIn (q : ScopeAssessment) (parent : PermitId) (chain : List PermitRecord) : Prop where
  awaited : q.scope.isAwaitedChild = true
  parent : q.parentPermitId = some parent ∨ q.parentPermitId = none ∧ ∃ record above, chain = record :: above ∧
    record.permitId = parent ∧ record.rootOperationId = q.rootOperationId ∧
    ∃ stage, q.scope = .child record.operation stage true

/-- A walk that visits anything starts with the permit it was asked for. -/
theorem waitChain_head (s : GovernedState) {parent : PermitId} (found : s.permits[parent]? = some record) :
    ∃ above, waitChain s parent = record :: above := by
  unfold waitChain awaitedChain
  simp [found]

/-- Only an awaited child is refused for a nested wait, and then its awaited ancestors alone block it. -/
theorem assessScope_certain (ho : Occupancy s) {witness : CycleWitness}
    (h : assessScope s g.policy q = .irreversibleWaitCycle witness) (hheld : held ∈ witness.held) :
    ∃ parent, WaitsIn q parent (waitChain s parent) ∧ CertainWait g s q parent (waitChain s parent) held := by
  have hwitness := assessScope_cycle h
  unfold cycleWitness at hwitness
  split at hwitness
  · rename_i parentOperationId parentStage hscope
    obtain ⟨parent, hparent, hwitness⟩ := Option.bind_eq_some_iff.mp hwitness
    dsimp only at hwitness
    split at hwitness
    · simp at hwitness
    · rename_i hlive
      obtain ⟨reported, hreported, hwitness⟩ := Option.bind_eq_some_iff.mp hwitness
      split at hwitness
      · simp at hwitness
      · rw [← Option.some.inj hwitness] at hheld
        obtain ⟨hlinked, hchain, _⟩ := awaitedChain_spec ho (s.permits.size + 1) [] parent
        refine ⟨parent, ⟨by rw [hscope]; rfl, ?_⟩, hlinked, ?_, hchain, heldByChain_alone rfl hreported hheld⟩
        · cases hfrozen : q.parentPermitId with
          | some frozen =>
            rw [hfrozen] at hparent
            exact Or.inl (by simpa using hparent)
          | none =>
            rw [hfrozen, hscope] at hparent
            have hnamed : s.permitsForOperation q.rootOperationId parentOperationId = some parent := hparent
            obtain ⟨record, found, hidentity⟩ := (ho.operations _ _ _).mp hnamed
            obtain ⟨hroot, hoperation⟩ : record.rootOperationId = q.rootOperationId ∧
                record.operation = parentOperationId := by
              simpa [identityLabel] using hidentity
            obtain ⟨above, hwalk⟩ := waitChain_head s found
            exact Or.inr ⟨rfl, record, above, hwalk, ho.keys parent record found, hroot, parentStage,
              by rw [hoperation, hscope]⟩
        · intro hnil
          exact hlive (by rw [List.isEmpty_iff]; exact hnil)
  · simp at hwitness

/-! ## As long as the chain stays -/

/-- The permits of the chain are live, charged for at least the memory they were charged for. -/
def Undiminished (chain : List PermitRecord) (s : GovernedState) : Prop :=
  ∀ record ∈ chain, ∃ record', s.permits[record.permitId]? = some record' ∧
    record.ledger.effectiveUnits ≤ record'.ledger.effectiveUnits

/-- A permit goes on with its charge, but for its memory, or it is gone for good. -/
def ChargedOrGone (record : PermitRecord) (p : PermitId) (s : GovernedState) : Prop :=
  (∃ record', s.permits[p]? = some record' ∧ SameCharge record record') ∨ Gone s p

/-- A move may end the permit; it neither brings it back nor changes what it was charged for. -/
theorem Move.chargedOrGone {trend : Trend} (h : Move g caller trend s s') (hinv : StateInv g s)
    (hseq : s.terminalSeq < u64Max) (hids : ∀ ids, caller.ids ids → ids.permitId ≠ p)
    (hlife : ChargedOrGone record p s) : ChargedOrGone record p s' := by
  rcases hlife with ⟨old, hold, hcharge⟩ | hgone
  · rcases (h.effect hinv.queues).permit hinv.occupancy hold with ⟨new, hnew, hmoved⟩ | ⟨hgone, _⟩
    · exact Or.inl ⟨new, hnew, hcharge.trans hmoved.charge⟩
    · exact Or.inr hgone
  · exact Or.inr ((h.effect hinv.queues).gone hinv.occupancy (h.stateInv hinv hseq).occupancy hids hgone)

/-- After a run a permit that was live before goes on with its charge, or is gone for good. -/
theorem SysInv.run_life (hinv : SysInv σ) (found : σ.state.permits[p]? = some record)
    {trace : List (Action × Event)} (hrun : Runs.Run g.step σ trace σ') :
    SysInv σ' ∧ SpentPermit σ' p ∧ ChargedOrGone record p σ'.state := by
  refine hrun.invariant (P := fun τ : g.System => SysInv τ ∧ SpentPermit τ p ∧ ChargedOrGone record p τ.state) ?_
    ⟨hinv, hinv.spent_live found, Or.inl ⟨record, found, SameCharge.refl record⟩⟩
  rintro τ a υ e ⟨hinv₁, hspent, hlife⟩ hstep
  exact ⟨hinv₁.step hstep, hspent.step hstep, hinv₁.step_rule hstep (fun _ _ _ hm hinv₂ hseq hlife₂ =>
    hm.chargedOrGone hinv₂ hseq (fun _ hids => hspent.not_brought hids) hlife₂) hlife⟩

theorem Dimension.weight_le (d : Dimension) (q : ScopeAssessment) (hcharge : SameCharge record record')
    (hmemory : record.ledger.effectiveUnits ≤ record'.ledger.effectiveUnits) :
    d.weight q record ≤ d.weight q record' := by
  cases d with
  | inflight =>
    show (if record.taskClass = q.taskClass then 1 else 0) ≤ if record'.taskClass = q.taskClass then 1 else 0
    rw [hcharge.taskClass]
  | pool id =>
    show (if id ∈ record.capabilities.ids then 1 else 0) ≤ if id ∈ record'.capabilities.ids then 1 else 0
    rw [hcharge.capabilities]
  | cpu => exact Nat.le_of_eq hcharge.cpuUnits.symm
  | memory => exact hmemory

/-- The dimension stays blocked by the chain: wherever the chain is undiminished, no other permit came in its place. -/
theorem CertainWait.blocks {parent : PermitId} (h : CertainWait g s q parent chain held) (hinv : StateInv g s')
    (hlife : ∀ record ∈ chain, ChargedOrGone record record.permitId s') (hchain : Undiminished chain s') :
    ∃ d : Dimension, d.reported g q = some held ∧ d.Blocks g q (d.byChain q chain) ∧
      d.byChain q chain ≤ d.total s' q := by
  obtain ⟨d, hreported, hblocks, halone⟩ := h.alone
  rw [halone] at hblocks
  refine ⟨d, hreported, hblocks, ?_⟩
  rw [Dimension.total_eq hinv hblocks]
  refine sum_map_le_sumBy h.live.distinct fun record hmem => ?_
  obtain ⟨record', found, hmemory⟩ := hchain record hmem
  rcases hlife record hmem with ⟨old, hold, hcharge⟩ | hgone
  · obtain rfl := Option.some.inj (hold.symm.trans found)
    exact ⟨old, hold, d.weight_le q hcharge hmemory⟩
  · rw [hgone.live] at found
    simp at found

/-- What a request was refused for when the section left `σ`: its ancestors alone blocked it then, and in
every continuation in which they stay undiminished no request with its needs is runnable, because they
block the reported dimension. -/
structure RefusedFor (g : Governor) (caller : Caller) (σ : g.System) (q : ScopeAssessment) (parent : PermitId)
    (chain : List PermitRecord) (held : HeldCapacity) : Prop where
  moment : ∃ s, Moves g caller .growing s σ.state ∧ CertainWait g s q parent chain held
  live : LiveChain σ.state chain
  blocked : ∀ trace σ', Runs.Run g.step σ trace σ' → Undiminished chain σ'.state →
    (∃ d : Dimension, d.reported g q = some held ∧ d.Blocks g q (d.byChain q chain) ∧
      d.byChain q chain ≤ d.total σ'.state q) ∧
    ∀ q', SameNeeds q q' → assessScope σ'.state g.policy q' ≠ .runnable

theorem CertainWait.refusedFor {parent : PermitId} (h : CertainWait g s q parent chain held)
    (hmoves : Moves g caller .growing s σ.state) (hlive : LiveChain σ.state chain) (hinv : SysInv σ) :
    RefusedFor g caller σ q parent chain held := by
  refine ⟨⟨s, hmoves, h⟩, hlive, fun trace σ' hrun hchain => ?_⟩
  have hinv' : SysInv σ' := hrun.invariant (P := SysInv) (fun _ _ _ _ hinv hstep => hinv.step hstep) hinv
  have hblocks := h.blocks hinv'.state (fun record hmem => (hinv.run_life (hlive.live record hmem) hrun).2.2) hchain
  refine ⟨hblocks, fun q' hsame => ?_⟩
  obtain ⟨d, _, hfull, hle⟩ := hblocks
  exact (hfull.mono hle).not_runnable hsame

/-! ## Refusals at intake -/

/-- What an intake assessment reads of a request. -/
def intakeNeeds (policy : ClassPolicy) (c : TaskClass) (request : AdmissionRequest) (queuedBehind : Bool) :
    ScopeAssessment where
  rootOperationId := request.spec.rootOperationId
  scope := request.spec.scope
  parentPermitId := none
  taskClass := c
  maxInflight := policy.maxInflight.toNat
  cost := resolveCost policy
  capabilities := request.capabilities
  queuedBehind := queuedBehind

/-- What a promotion pass reads of a queued request. -/
def pendingNeeds (policy : ClassPolicy) (r : PendingRequest) : ScopeAssessment where
  rootOperationId := r.rootOperationId
  scope := r.scope
  parentPermitId := r.parentPermitId
  taskClass := r.taskClass
  maxInflight := policy.maxInflight.toNat
  cost := r.cost
  capabilities := r.capabilities
  queuedBehind := false

/-- A request that an intake refuses for a nested wait is blocked by its ancestors alone. -/
theorem SysInv.step_certain (hinv : SysInv σ) {ids : Ids}
    (h : g.step σ a = some (σ', .decided ids (.rejected (.nestedWaitCycle held)))) :
    ∃ (i : Nat) (intake : Intake g.policy) (sampledMs : Nat) (c : TaskClass) (policy : ClassPolicy) (behind : Bool)
      (parent : PermitId) (chain : List PermitRecord), a = .enter i ∧
      σ.threads[i]? = some (.admitting intake sampledMs ids) ∧ EffectiveClass g intake.request c ∧
      g.policy.classPolicy c = some policy ∧ WaitsIn (intakeNeeds policy c intake.request behind) parent chain ∧
      CertainWait g σ'.state (intakeNeeds policy c intake.request behind) parent chain held := by
  have hinv' := hinv.step h
  have htells := step_tells h
  cases a with
  | enter i =>
    obtain ⟨intake, sampledMs, ids', decision, hthread, heq, hentered⟩ := hinv.step_entered h
    obtain ⟨rfl, rfl⟩ := Event.decided.inj heq
    generalize hdecided : AdmissionDecision.rejected (.nestedWaitCycle held) = answer at hentered
    generalize hlast : σ'.state = s' at hentered
    cases hentered with
    | granted accepted runnable => simp at hdecided
    | queued accepted blocked sound room => simp at hdecided
    | refused cycle =>
      obtain rfl := AdmissionDecision.rejected.inj hdecided
      obtain ⟨c, policy, witness, hpassed, hassess, hhead⟩ := cycle held rfl
      rw [← hlast] at hassess
      have hneeds : assessScope σ'.state g.policy (intakeNeeds policy c intake.request
          (queuedBehind σ'.state policy c intake.request.capabilities)) = .irreversibleWaitCycle witness := hassess
      obtain ⟨parent, hwaits, hcertain⟩ := assessScope_certain hinv'.state.occupancy hneeds (List.mem_of_head? hhead)
      exact ⟨i, intake, sampledMs, c, policy, _, parent, _, rfl, hthread, hpassed.effective, hpassed.known, hwaits,
        hlast ▸ hcertain⟩
  | settle i panicked => cases panicked <;> simp [Action.tells] at htells
  | finishClaim i panicked => cases panicked <;> simp [Action.tells] at htells
  | _ => simp [Action.tells] at htells

theorem SysInv.step_nestedWait (hinv : SysInv σ) {ids : Ids}
    (h : g.step σ a = some (σ', .decided ids (.rejected (.nestedWaitCycle held)))) :
    ∃ (i : Nat) (intake : Intake g.policy) (sampledMs : Nat) (c : TaskClass) (policy : ClassPolicy) (behind : Bool)
      (parent : PermitId) (chain : List PermitRecord), a = .enter i ∧
      σ.threads[i]? = some (.admitting intake sampledMs ids) ∧ EffectiveClass g intake.request c ∧
      g.policy.classPolicy c = some policy ∧ WaitsIn (intakeNeeds policy c intake.request behind) parent chain ∧
      RefusedFor g (callerOf σ a) σ' (intakeNeeds policy c intake.request behind) parent chain held := by
  obtain ⟨i, intake, sampledMs, c, policy, behind, parent, chain, hentered, hthread, hclass, hknown, hwaits, hcertain⟩ :=
    hinv.step_certain h
  exact ⟨i, intake, sampledMs, c, policy, behind, parent, chain, hentered, hthread, hclass, hknown, hwaits,
    hcertain.refusedFor .refl hcertain.live (hinv.step h)⟩

/-! ## Refusals in a promotion pass -/

/-- The ticket waits, was given up, or was answered with an accounting fault. -/
def StillQueued (s : GovernedState) (t : Ticket) : Prop :=
  (∃ c, s.tickets[t]? = some (.queued c)) ∨ s.tickets[t]? = none ∨ s.tickets[t]? = some .faulted

/-- The outcome of another ticket leaves a queued ticket alone. -/
theorem queued_recorded (hi : TicketInv s) (hseq : s.terminalSeq < u64Max) {t' : Ticket} (reason : TerminalReason)
    (hheld : s.tickets[t']? = some (.granted p) ∨ s.tickets[t']? = some (.claiming p))
    (ht : s.tickets[t]? = some (.queued c)) :
    (s.book.recordTerminal t' reason).tickets[t]? = some (.queued c) := by
  have hold : isTerminal s.book.tickets[t']? = false := isTerminal_active (Or.inr ⟨p, hheld⟩)
  have hne : t ≠ t' := by
    rintro rfl
    rw [ht] at hheld
    simp at hheld
  exact ((recordTerminal_spec hi.retains hi.bounded hold hseq).2.2.2.live hne rfl).mpr ht

/-- The first half of a section ends no wait with a wait cycle. -/
theorem Move.stillQueued (h : Move g caller .shrinking s s') (hids : ∀ ids, ¬ caller.ids ids) (hinv : StateInv g s)
    (hseq : s.terminalSeq < u64Max) (hq : StillQueued s t) : StillQueued s' t := by
  rcases hq with ⟨c, ht⟩ | hover
  · have hsame : s'.book = s.book → StillQueued s' t := by
      intro hbook
      have htickets : s'.tickets = s.tickets := congrArg TicketBook.tickets hbook
      exact Or.inl ⟨c, by rw [htickets, ht]⟩
    have herased : ∀ {t' : Ticket}, s'.tickets = s.tickets.erase t' → StillQueued s' t := by
      intro t' htickets
      by_cases heq : t' = t
      · subst heq
        exact Or.inr (Or.inl (by rw [htickets]; simp))
      · refine Or.inl ⟨c, ?_⟩
        rw [htickets, ExtTreeMap.getElem?_erase]
        simpa [heq] using ht
    have hrecorded : ∀ {t' : Ticket} {p : PermitId} (reason : TerminalReason),
        (s.tickets[t']? = some (.granted p) ∨ s.tickets[t']? = some (.claiming p)) →
        s'.book = s.book.recordTerminal t' reason → StillQueued s' t := by
      intro t' p reason hheld hbook
      refine Or.inl ⟨c, ?_⟩
      show s'.book.tickets[t]? = _
      rw [hbook]
      exact queued_recorded hinv.tickets hseq reason hheld ht
    cases h with
    | rescheduled h => exact hsame h.tickets
    | flagged _ pending => exact hsame rfl
    | closed => exact hsame rfl
    | faulted _ what allowed => exact hsame (memoryOnly_recordAccountingFault s what).tickets
    | enqueued waker nowMs tags allowed accepted blocked room hres sound => exact absurd allowed (hids _)
    | @cancelled _ c' index r ticket h found same owner =>
      have hbook := book_vacateOf ((s.removedPending c' index r).removeTicket ticket) r
      exact herased (congrArg TicketBook.tickets hbook)
    | lost h missing owner => exact herased rfl
    | @faultedHead _ c' r found =>
      have hbook := book_vacateOf (s.removedPending c' 0 r) r
      have htickets : (((s.removedPending c' 0 r).vacateOf r).setTicket r.ticket .faulted).tickets =
          s.tickets.insert r.ticket .faulted :=
        congrArg (fun book : TicketBook => book.tickets.insert r.ticket .faulted) hbook
      by_cases heq : r.ticket = t
      · exact Or.inr (Or.inr (by rw [htickets, heq]; simp))
      · refine Or.inl ⟨c, ?_⟩
        rw [htickets, ExtTreeMap.getElem?_insert]
        simpa [heq] using ht
    | @unwound _ _ q record reason effects effects' found ends h =>
      unfold GovernedState.unwind at h
      rw [found] at h
      simp only at h
      cases hticket : record.pendingTicket with
      | none =>
        rw [hticket] at h
        simp only [Option.some.injEq, Prod.mk.injEq] at h
        exact hsame (by rw [← h.1]; rfl)
      | some t' =>
        rw [hticket] at h
        simp only [Option.some.injEq, Prod.mk.injEq] at h
        exact hrecorded _ ((hinv.tickets.held t' q).mpr ⟨record, found, hticket⟩) (by rw [← h.1]; rfl)
    | @claimBegun _ ticket q record nowMs h found owner =>
      have hne : ticket ≠ t := by
        rintro rfl
        rw [ht] at h
        simp at h
      refine Or.inl ⟨c, ?_⟩
      show (s.tickets.insert ticket (.claiming q))[t]? = _
      rw [ExtTreeMap.getElem?_insert]
      simpa [hne] using ht
    | transferred nowMs h found owner => exact herased rfl
    | @detached _ ticket q record h found leased =>
      refine hrecorded .claimDeliveryFailed (Or.inr h) ?_
      unfold Governor.detachTicket
      rw [found]
      rfl
    | expired h gone => exact hrecorded .released (Or.inr h) rfl
    | orphaned h gone owner => exact herased rfl
    | forgot _ ticket owner =>
      refine Or.inl ⟨c, ((forgetTerminal_spec (t := ticket) hinv.tickets.retains).2.2 t).trans ?_⟩
      rw [if_neg]
      · exact ht
      · rintro ⟨rfl, hfinal⟩
        have hticket : s.book.tickets[t]? = some (.queued c) := ht
        rw [hticket] at hfinal
        simp [isFinal] at hfinal
    | advanced nonces found later => exact hsame rfl
    | @recharged _ q record ledger allowed found change =>
      exact hsame (memoryOnly_rechargePermit s q record ledger).tickets
  · right
    have heffect := (h.ticketStep hinv.queues hinv.occupancy hinv.tickets hseq).2
    refine heffect.ticket_rule (Q := fun state => state = none ∨ state = some .faulted) ?_
      (fun _ _ _ => Or.inl rfl) hover
    rintro old new hlife (rfl | rfl)
    · rcases hlife.of_none with hnew | ⟨ids, hbrought, _⟩
      · exact Or.inl hnew
      · exact absurd hbrought (hids ids)
    · cases hlife with
      | ended reason hheld => simp at hheld
      | forgotten final owner => exact Or.inl rfl

/-- If the ticket was answered with a wait cycle, it belonged to a request that waited in `s₀`, and its
ancestors alone blocked it at some moment of the pass. -/
def CertainlyAnswered (g : Governor) (caller : Caller) (s₀ s : GovernedState) (t : Ticket) : Prop :=
  ∀ held, s.tickets[t]? = some (.terminal (.irreversibleWaitCycle held)) →
    ∃ c r policy parent chain s₁, r ∈ s₀.waiting c ∧ r.ticket = t ∧ g.policy.classPolicy c = some policy ∧
      WaitsIn (pendingNeeds policy r) parent chain ∧ LiveChain s chain ∧ Moves g caller .growing s₁ s ∧
      CertainWait g s₁ (pendingNeeds policy r) parent chain held ∧ StateInv g s₁ ∧ ticketLoad s₁ < u64Max

/-- The requests of the ticket that wait now waited in `s₀`. -/
def WaitedBefore (s₀ s : GovernedState) (t : Ticket) : Prop :=
  ∀ c r, r ∈ s.waiting c → r.ticket = t → r ∈ s₀.waiting c

theorem Effect.waitedBefore {s₀ : GovernedState} (h : Effect g caller s s') (hids : ∀ ids, ¬ caller.ids ids)
    (hw : WaitedBefore s₀ s t) : WaitedBefore s₀ s' t := by
  intro c r hr hticket
  rcases h.mem_waiting hr with hr | ⟨ids, hbrought, _⟩
  · exact hw c r hr hticket
  · exact absurd hbrought (hids ids)

theorem LiveChain.grows (hlive : LiveChain s chain) (h : Move g caller .growing s s') (hids : ∀ ids, ¬ caller.ids ids)
    (hinv : StateInv g s) : LiveChain s' chain :=
  ⟨fun record hmem => h.keeps_record hids hinv (hlive.live record hmem), hlive.distinct⟩

theorem Move.certainlyAnswered {s₀ : GovernedState} (h : Move g caller .growing s s')
    (hids : ∀ ids, ¬ caller.ids ids) (hinv : StateInv g s) (hload : ticketLoad s < u64Max)
    (hw : WaitedBefore s₀ s t) (hc : CertainlyAnswered g caller s₀ s t) : CertainlyAnswered g caller s₀ s' t := by
  have hmove := h
  have hseq : s.terminalSeq < u64Max := Nat.lt_of_le_of_lt (terminalSeq_le_load _) hload
  have hsame : s'.tickets[t]? = s.tickets[t]? → CertainlyAnswered g caller s₀ s' t := by
    intro htickets held hanswer
    rw [htickets] at hanswer
    obtain ⟨c, r, policy, parent, chain, s₁, hr, hticket, hknown, hwaits, hlive, hmoves, hcertain⟩ := hc held hanswer
    exact ⟨c, r, policy, parent, chain, s₁, hr, hticket, hknown, hwaits, hlive.grows hmove hids hinv,
      hmoves.tail hmove, hcertain⟩
  cases h with
  | rescheduled h => exact hsame (congrArg (fun book : TicketBook => book.tickets[t]?) h.tickets)
  | flagged _ pending => exact hsame rfl
  | admitted nowMs allowed accepted runnable => exact absurd allowed (hids _)
  | promoted nowMs h =>
    obtain ⟨c, policy, index, r, head, chosen, served, hpromotes⟩ := promoteStep_some h
    have htickets : s'.tickets = s.tickets.insert head.ticket (.granted head.permitId) :=
      congrArg TicketBook.tickets hpromotes.book
    by_cases heq : head.ticket = t
    · intro held hanswer
      rw [htickets, heq] at hanswer
      simp at hanswer
    · refine hsame ?_
      rw [htickets, ExtTreeMap.getElem?_insert]
      simp [heq]
  | @cycled _ c index witness r held₁ hfind found first =>
    have hactive : isTerminal s.book.tickets[r.ticket]? = false :=
      isTerminal_active (Or.inl ⟨c, hinv.tickets.ticket_of_entry found⟩)
    have hchange : TicketBook.Changed s.book (s.book.recordTerminal r.ticket (.irreversibleWaitCycle held₁)) r.ticket
        (some (.terminal (.irreversibleWaitCycle held₁))) :=
      (recordTerminal_spec hinv.tickets.retains hinv.tickets.bounded hactive hseq).2.2.2
    have hbook : (g.terminalizeCycle (s.removedPending c index r) c r held₁).book =
        s.book.recordTerminal r.ticket (.irreversibleWaitCycle held₁) := by
      have hbase : (g.unserved (s.removedPending c index r) c).book = s.book :=
        (rescheduled_unserved g (s.removedPending c index r) c).tickets
      show (g.unserved (s.removedPending c index r) c).book.recordTerminal _ _ = _
      rw [hbase]
    rw [← hbook] at hchange
    by_cases heq : r.ticket = t
    · intro held hanswer
      subst heq
      obtain rfl : held₁ = held := by
        have hwritten : (g.terminalizeCycle (s.removedPending c index r) c r held₁).tickets[r.ticket]? =
            some (.terminal (.irreversibleWaitCycle held₁)) := hchange.written
        rw [hwritten] at hanswer
        simpa using hanswer
      obtain ⟨policy, r', hknown, found', _, hassess⟩ := findCycle_spec hfind
      obtain rfl := Option.some.inj (found'.symm.trans found)
      have hneeds : assessScope s g.policy (pendingNeeds policy r'.untagged) = .irreversibleWaitCycle witness :=
        hassess
      obtain ⟨parent, hwaits, hcertain⟩ := assessScope_certain hinv.occupancy hneeds (List.mem_of_head? first)
      exact ⟨c, r'.untagged, policy, parent, _, s, hw c r'.untagged (mem_waiting_of_getElem found) rfl, rfl, hknown,
        hwaits, hcertain.live.grows hmove hids hinv, Moves.single hmove, hcertain, hinv, hload⟩
    · rcases hchange.others t (fun h => heq h.symm) with hkept | ⟨_, hevicted⟩
      · exact hsame hkept
      · intro held hanswer
        have hgone : (g.terminalizeCycle (s.removedPending c index r) c r held₁).tickets[t]? = none := hevicted
        rw [hgone] at hanswer
        simp at hanswer

/-- A submission ends no other wait. -/
theorem Entered.queued_kept {request : AdmissionRequest} {ids : Ids} {waker : Option Waker} {nowMs : Nat}
    {decision : AdmissionDecision} (h : Entered g s request ids waker nowMs s' decision)
    (ht : s.tickets[t]? = some (.queued c)) : ∃ c', s'.tickets[t]? = some (.queued c') := by
  cases h with
  | refused cycle => exact ⟨c, ht⟩
  | granted accepted runnable => exact ⟨c, ht⟩
  | @queued policy c₁ blockers accepted blocked sound room =>
    have hres := rescheduled_enqueueTags s c₁ policy (resolveCost policy).cpuUnits nowMs
    obtain ⟨htickets, _⟩ := tickets_commitPending hres (pendingRequest s policy c₁ request waker ids
      nowMs blockers.primary (enqueueTags s c₁ policy (resolveCost policy).cpuUnits nowMs).2)
    rw [htickets, ExtTreeMap.getElem?_insert]
    split
    · exact ⟨_, rfl⟩
    · exact ⟨c, ht⟩

/-- A wait that ends with a wait cycle, somewhere in the growing half of a section, was blocked by its ancestors
alone at a moment of that half. -/
theorem SysInv.cycled_within (hinv : SysInv σ) {trailing : Caller} {middle : GovernedState}
    (hids : ∀ ids, ¬ (callerOf σ a).ids ids) (hidsTrailing : ∀ ids, ¬ trailing.ids ids)
    (hshrinks : Moves g (callerOf σ a) .shrinking σ.state middle) (hgrows : Moves g trailing .growing middle s)
    (ht : σ.state.tickets[t]? = some (.queued c))
    (ht' : s.tickets[t]? = some (.terminal (.irreversibleWaitCycle held))) :
    ∃ r policy parent chain s₁, r ∈ σ.state.waiting c ∧ r.ticket = t ∧ g.policy.classPolicy c = some policy ∧
      WaitsIn (pendingNeeds policy r) parent chain ∧ LiveChain s chain ∧ Moves g trailing .growing s₁ s ∧
      CertainWait g s₁ (pendingNeeds policy r) parent chain held ∧ StateInv g s₁ ∧ ticketLoad s₁ < u64Max := by
  obtain ⟨⟨hqueued, hwaited⟩, hinv₁, hload₁⟩ := hshrinks.rule hids hinv.state hinv.terminalSeq_lt
    (P := fun s => StillQueued s t ∧ WaitedBefore σ.state s t)
    (fun _ _ hm hinv hload hP => ⟨hm.stillQueued hids hinv (Nat.lt_of_le_of_lt (terminalSeq_le_load _) hload) hP.1,
      (hm.effect hinv.queues).waitedBefore hids hP.2⟩)
    ⟨Or.inl ⟨c, ht⟩, fun _ _ hr _ => hr⟩
  have hnotyet : CertainlyAnswered g trailing σ.state middle t := by
    intro held' hanswer
    rcases hqueued with ⟨c', hqueued⟩ | hnone | hfaulted
    · rw [hqueued] at hanswer
      simp at hanswer
    · rw [hnone] at hanswer
      simp at hanswer
    · rw [hfaulted] at hanswer
      simp at hanswer
  obtain ⟨⟨hanswered, _⟩, _, _⟩ := hgrows.rule hidsTrailing hinv₁ hload₁
    (P := fun s => CertainlyAnswered g trailing σ.state s t ∧ WaitedBefore σ.state s t)
    (fun _ _ hm hinv hload hP => ⟨hm.certainlyAnswered hidsTrailing hinv hload hP.2 hP.1,
      (hm.effect hinv.queues).waitedBefore hidsTrailing hP.2⟩)
    ⟨hnotyet, hwaited⟩
  obtain ⟨c', r, policy, parent, chain, s₁, hr, hticket, hknown, hwaits, hmoment⟩ := hanswered held ht'
  obtain rfl : c' = c := by
    have hnamed := (hinv.state.tickets.queued t c').mpr ⟨r, hr, hticket⟩
    rw [ht] at hnamed
    simpa using hnamed.symm
  exact ⟨r, policy, parent, chain, s₁, hr, hticket, hknown, hwaits, hmoment⟩

/-- A submission answers no other wait with a wait cycle. -/
theorem SysInv.step_not_enter (hinv : SysInv σ) (h : g.step σ a = some (σ', e))
    (ht : σ.state.tickets[t]? = some (.queued c))
    (ht' : σ'.state.tickets[t]? = some (.terminal (.irreversibleWaitCycle held))) : ∀ i, a ≠ .enter i := by
  rintro i rfl
  obtain ⟨intake, sampledMs, ids, decision, _, _, hentered⟩ := hinv.step_entered h
  have hqueued : (σ.state.commitTime sampledMs).tickets[t]? = some (.queued c) := ht
  obtain ⟨c', hkept⟩ := hentered.queued_kept hqueued
  rw [hkept] at ht'
  simp at ht'

/-- A wait that a step ends with a wait cycle was blocked by its ancestors alone. -/
theorem SysInv.step_cycled (hinv : SysInv σ) (h : g.step σ a = some (σ', e))
    (ht : σ.state.tickets[t]? = some (.queued c))
    (ht' : σ'.state.tickets[t]? = some (.terminal (.irreversibleWaitCycle held))) :
    ∃ r policy parent chain, r ∈ σ.state.waiting c ∧ r.ticket = t ∧ g.policy.classPolicy c = some policy ∧
      WaitsIn (pendingNeeds policy r) parent chain ∧
      RefusedFor g (callerOf σ a) σ' (pendingNeeds policy r) parent chain held := by
  have hids := no_ids (σ := σ) (hinv.step_not_enter h ht ht')
  obtain ⟨middle, hshrinks, hgrows⟩ := step_path hinv.ready h
  obtain ⟨r, policy, parent, chain, s₁, hr, hticket, hknown, hwaits, hlive, hmoves, hcertain, _⟩ :=
    hinv.cycled_within hids hids hshrinks hgrows ht ht'
  exact ⟨r, policy, parent, chain, hr, hticket, hknown, hwaits, hcertain.refusedFor hmoves hlive (hinv.step h)⟩

/-- A request is refused for a nested wait, at intake or in its queue, only when its awaited ancestors alone
hold a dimension it lacks; and then nothing with its needs is runnable in any continuation in which those
ancestors are still live with the memory they were charged for. -/
theorem nested_wait_certain (g : Governor) (σ : g.System) (h : g.Reachable σ) (a : Action) (σ' : g.System)
    (e : Event) (hstep : g.step σ a = some (σ', e)) (held : HeldCapacity) :
    (∀ ids, e = .decided ids (.rejected (.nestedWaitCycle held)) →
      ∃ (i : Nat) (intake : Intake g.policy) (sampledMs : Nat) (c : TaskClass) (policy : ClassPolicy) (behind : Bool)
        (parent : PermitId) (chain : List PermitRecord), a = .enter i ∧
        σ.threads[i]? = some (.admitting intake sampledMs ids) ∧ EffectiveClass g intake.request c ∧
        g.policy.classPolicy c = some policy ∧ WaitsIn (intakeNeeds policy c intake.request behind) parent chain ∧
        RefusedFor g (callerOf σ a) σ' (intakeNeeds policy c intake.request behind) parent chain held) ∧
    ∀ t c, σ.state.tickets[t]? = some (.queued c) →
      σ'.state.tickets[t]? = some (.terminal (.irreversibleWaitCycle held)) →
      ∃ r policy parent chain, r ∈ σ.state.waiting c ∧ r.ticket = t ∧ g.policy.classPolicy c = some policy ∧
        WaitsIn (pendingNeeds policy r) parent chain ∧
        RefusedFor g (callerOf σ a) σ' (pendingNeeds policy r) parent chain held := by
  have hinv := SysInv.of_reachable h
  refine ⟨?_, fun t c ht ht' => hinv.step_cycled hstep ht ht'⟩
  rintro ids rfl
  exact hinv.step_nestedWait hstep

namespace Sample

/-- The first task runs, and has submitted a child of its class that it waits for. -/
def awaiting : governor.System :=
  (Runs.replay governor.step governor.init
    (admission (.admitSpec (task "a")) ++
      [.call (.admitSpec { childTask with scope := .child "a" ⟨"spawn"⟩ true }) 5,
        .allocate 0, .allocate 0, .allocate 0])).getD governor.init

theorem awaiting_refused : ∃ σ', governor.step awaiting (.enter 0) =
    some (σ', .decided ⟨⟨7, 2⟩, ⟨7, 2⟩, 2⟩ (.rejected (.nestedWaitCycle (.classInflight ⟨"work"⟩)))) := by
  have hrefused : ((governor.step awaiting (.enter 0)).any fun next =>
      decide (next.2 = .decided ⟨⟨7, 2⟩, ⟨7, 2⟩, 2⟩
        (.rejected (.nestedWaitCycle (.classInflight ⟨"work"⟩))))) = true := by decide +kernel
  obtain ⟨⟨σ', e⟩, hstep, hevent⟩ := (Option.any_eq_true _ _).mp hrefused
  obtain rfl := of_decide_eq_true hevent
  exact ⟨σ', hstep⟩

end Sample

/-- In the sample the child is refused, and nothing like it is runnable as long as its parent is live. -/
theorem sample_nested_wait : ∃ σ' q parent chain,
    Sample.governor.step Sample.awaiting (.enter 0) =
      some (σ', .decided ⟨⟨7, 2⟩, ⟨7, 2⟩, 2⟩ (.rejected (.nestedWaitCycle (.classInflight ⟨"work"⟩)))) ∧
    WaitsIn q parent chain ∧
    RefusedFor Sample.governor (callerOf Sample.awaiting (.enter 0)) σ' q parent chain
      (.classInflight ⟨"work"⟩) := by
  obtain ⟨σ', hstep⟩ := Sample.awaiting_refused
  obtain ⟨_, _, _, _, _, _, parent, chain, _, _, _, _, hwaits, hfor⟩ :=
    (nested_wait_certain Sample.governor Sample.awaiting (Runs.reachable_replay Sample.governor.init _) _ _ _ hstep
      (.classInflight ⟨"work"⟩)).1 _ rfl
  exact ⟨σ', _, parent, chain, hstep, hwaits, hfor⟩

end Taskmesh
