import Taskmesh.Engine.Proofs.CapacityProofs
import Taskmesh.Engine.Proofs.ChoiceProofs
import Taskmesh.Engine.Proofs.NestedWaitProofs
import Taskmesh.Engine.Proofs.OrderProofs

/-!
# Every grant of a step

A permit is granted directly, in the section of its admission, or by one round of a promotion pass. What holds
of the states a step leads to holds at each of these grants too: the limits are kept one by one, a request
that waits at the moment of a grant is not overtaken by it, and none is granted that its own ancestors block.
-/

namespace Taskmesh

open Std MachineInt ExtTreeMap Governor

variable {g : Governor} {s s' t : GovernedState} {σ : g.System} {a : Action} {c : TaskClass} {r : PendingRequest}
  {grant : GrantRequest} {nowMs : Nat}

/-! ## Inside a pass -/

/-- A section that ends with a pass admits nobody. -/
theorem not_enter_of_promotes {prepared : g.Prepared} (h : Governor.prepare σ a = some prepared)
    (hpass : prepared.sec.promotes = true) : ∀ i, a ≠ .enter i := by
  rintro i rfl
  simp only [Governor.prepare] at h
  split at h
  · obtain rfl := Option.some.inj h
    simp [Governor.enter] at hpass
  · simp at h

/-- What every move keeps from a sound state on, every state of a pass keeps. -/
theorem SysInv.section_rule (hinv : SysInv σ) {prepared : g.Prepared} (h : Governor.prepare σ a = some prepared)
    (hpasses : prepared.sec.promotes = true) {P : GovernedState → Prop}
    (hmove : ∀ caller trend s₁ s₂, (∀ ids, ¬ caller.ids ids) → Move g caller trend s₁ s₂ → StateInv g s₁ →
      s₁.terminalSeq < u64Max → P s₁ → P s₂)
    (hs : P σ.state) (hmoves : Moves g Caller.nobody .growing prepared.sec.state t) :
    P t ∧ StateInv g t ∧ ticketLoad t < u64Max := by
  have hids := no_ids (σ := σ) (not_enter_of_promotes h hpasses)
  have hrule : ∀ {caller : Caller} {trend : Trend} {s₁ s₂}, (∀ ids, ¬ caller.ids ids) → Moves g caller trend s₁ s₂ →
      P s₁ ∧ StateInv g s₁ ∧ ticketLoad s₁ < u64Max → P s₂ ∧ StateInv g s₂ ∧ ticketLoad s₂ < u64Max :=
    fun hids₁ hmoves₁ ⟨hP, hinv₁, hload⟩ => hmoves₁.rule hids₁ hinv₁ hload (fun s₁ s₂ hm hinv₂ hload₂ =>
      hmove _ _ s₁ s₂ hids₁ hm hinv₂ (Nat.lt_of_le_of_lt (terminalSeq_le_load _) hload₂)) hP
  obtain ⟨middle, hshrinks, hgrows⟩ := prepare_path hinv.ready h
  have hmiddle := hrule hids hshrinks ⟨hs, hinv.state, hinv.terminalSeq_lt⟩
  exact hrule (fun _ => id) hmoves (hrule hids hgrows hmiddle)

/-- The states in which a pass asks for a selection are among its states. -/
theorem PassState.moves {caller : Caller} (h : PassState g nowMs s t) : Moves g caller .growing s t := by
  induction h with
  | first => exact terminalizeWaitCycle_moves g s {}
  | next _ granted ih => exact ih.tail (Move.promoted nowMs granted)

/-- What every move keeps from a sound state on, every state keeps in which a pass asks for a selection. -/
theorem SysInv.pass_rule (hinv : SysInv σ) {prepared : g.Prepared} (h : Governor.prepare σ a = some prepared)
    (hpasses : prepared.sec.promotes = true) {P : GovernedState → Prop}
    (hmove : ∀ caller trend s₁ s₂, (∀ ids, ¬ caller.ids ids) → Move g caller trend s₁ s₂ → StateInv g s₁ →
      s₁.terminalSeq < u64Max → P s₁ → P s₂)
    (hs : P σ.state) (hpass : PassState g prepared.nowMs prepared.sec.state t) :
    P t ∧ StateInv g t ∧ ticketLoad t < u64Max :=
  hinv.section_rule h hpasses hmove hs hpass.moves

/-! ## The limits -/

/-- Memory is within its budget, where there is one. -/
def MemoryWithin (g : Governor) (s : GovernedState) : Prop :=
  g.policy.resources.maxMemoryUnits.toNat ≠ 0 → s.memoryUnitsHeld ≤ g.policy.resources.maxMemoryUnits.toNat

/-- A round of a pass grants within every limit, the memory budget included. -/
theorem StateInv.round_within (hinv : StateInv g s) (hload : ticketLoad s < u64Max)
    (h : g.promoteStep nowMs s = (s', some grant)) : WithinLimits g s' ∧ MemoryWithin g s' := by
  have hmove : Move g Caller.nobody .growing s s' := Move.promoted nowMs h
  have hseq : s.terminalSeq < u64Max := Nat.lt_of_le_of_lt (terminalSeq_le_load s) hload
  refine ⟨(hmove.stateInv hinv hseq).withinLimits, fun hbudget => ?_⟩
  obtain ⟨c, policy, index, r, head, chosen, served, hpromotes⟩ := promoteStep_some h
  have hroom := (hpromotes.grantFits hinv.queues).room.2.2.1 hbudget
  have hread : s'.memoryUnitsHeld = s.memoryUnitsHeld + grant.cost.memoryUnits := by
    rw [hpromotes.result, ← hpromotes.ledger.memory]
    rfl
  rwa [hread]

/-- Capacity is exceeded by no grant. In every reachable state the inflight count and the queue of every class,
the use of every bounded pool and the processor units held are within their limits, and so they are after every
round of every promotion pass; a grant, direct or in a pass, leaves memory within its budget; and memory rises
beyond the budget only by a reconcile that answers `Applied` with a larger charge than before. -/
theorem grants_within_limits (g : Governor) (σ : g.System) (h : g.Reachable σ) :
    WithinLimits g σ.state ∧
    (∀ i σ' ids p, g.step σ (.enter i) = some (σ', .decided ids (.admitted p)) → MemoryWithin g σ'.state) ∧
    (∀ a prepared, Governor.prepare σ a = some prepared → prepared.sec.promotes = true →
      ∀ t, PassState g prepared.nowMs prepared.sec.state t → ∀ t' grant,
        g.promoteStep prepared.nowMs t = (t', some grant) → WithinLimits g t' ∧ MemoryWithin g t') ∧
    ∀ a σ' e, g.step σ a = some (σ', e) → ¬ MemoryWithin g σ'.state →
      σ'.state.memoryUnitsHeld ≤ σ.state.memoryUnitsHeld ∨
        ∃ p record units, e = .reconciled p (.applied units) ∧ σ.state.permits[p]? = some record ∧
          record.ledger.effectiveUnits < units := by
  have hinv := SysInv.of_reachable h
  refine ⟨hinv.state.withinLimits, fun i σ' ids p hstep hbudget => ?_,
    fun a prepared hp hpasses t hpass t' grant hround => ?_, fun a σ' e hstep hover => ?_⟩
  · obtain ⟨intake, sampledMs, ids', decision, _, heq, hentered⟩ := hinv.step_entered hstep
    obtain ⟨rfl, rfl⟩ := Event.decided.inj heq
    generalize hlast : σ'.state = after at hentered
    cases hentered with
    | @granted policy c accepted runnable =>
      exact (accepted.grantFits runnable _).room.2.2.1 hbudget
  · obtain ⟨_, hinv', hload⟩ := hinv.pass_rule hp hpasses (P := fun _ => True)
      (fun _ _ _ _ _ _ _ _ _ => trivial) trivial hpass
    exact hinv'.round_within hload hround
  · have hbudget : g.policy.resources.maxMemoryUnits.toNat ≠ 0 := fun hnone => hover fun hbudget => absurd hnone hbudget
    exact (hinv.step_memory hstep).rises hbudget (Nat.lt_of_not_le fun hle => hover fun _ => hle)

namespace Sample

/-- The state in which the pass after the first task ends asks for its first selection. -/
def passing (prepared : governor.Prepared) : GovernedState := (governor.terminalizeWaitCycle prepared.sec.state {}).state

theorem crowded_reachable : governor.Reachable crowded := by
  obtain ⟨trace, hrun⟩ : Runs.Reachable governor.step busy crowded := Runs.reachable_replay busy _
  exact Runs.Reachable.run (Runs.Reachable.of_restrict busy_reachable) hrun

/-- In the pass after the first task ends the second one is granted, while the third one waits. -/
theorem crowded_pass : ∃ (prepared : governor.Prepared) (t' : GovernedState) (grant : GrantRequest) (r : PendingRequest),
    Governor.prepare crowded (.releaseLeased ⟨⟨7, 1⟩, 1⟩ 5) = some prepared ∧
    prepared.sec.promotes = true ∧ governor.promoteStep prepared.nowMs (passing prepared) = (t', some grant) ∧
    grant.taskClass = ⟨"work"⟩ ∧ grant.permitId = ⟨7, 2⟩ ∧ r ∈ crowded.state.waiting ⟨"work"⟩ ∧
    r.permitId = ⟨7, 3⟩ ∧ r ∈ (passing prepared).waiting ⟨"work"⟩ ∧
    r.capabilities.intersects grant.capabilities = true := by
  have hruns : (Governor.prepare crowded (.releaseLeased ⟨⟨7, 1⟩, 1⟩ 5)).any (fun prepared => prepared.sec.promotes &&
      (governor.promoteStep prepared.nowMs (passing prepared)).2.any fun grant =>
        decide (grant.taskClass = ⟨"work"⟩) && decide (grant.permitId = ⟨7, 2⟩) &&
        (crowded.state.waiting ⟨"work"⟩).any fun r => decide (r.permitId = ⟨7, 3⟩) &&
          ((passing prepared).waiting ⟨"work"⟩).contains r && r.capabilities.intersects grant.capabilities) = true := by
    decide +kernel
  obtain ⟨prepared, hprepared, hchecks⟩ := (Option.any_eq_true _ _).mp hruns
  obtain ⟨hpromotes, hgrants⟩ := Bool.and_eq_true_iff.mp hchecks
  obtain ⟨grant, hgrant, hchecks⟩ := (Option.any_eq_true _ _).mp hgrants
  simp only [Bool.and_eq_true, decide_eq_true_eq, List.any_eq_true, List.contains_iff_mem] at hchecks
  obtain ⟨⟨hclass, hid⟩, r, hr, ⟨hthird, hwaits⟩, hdomain⟩ := hchecks
  exact ⟨prepared, _, grant, r, hprepared, hpromotes, Prod.ext rfl hgrant, hclass, hid, hr, hthird, hwaits, hdomain⟩

end Sample

/-- In the sample the grant to the second task keeps the limits. -/
theorem sample_grants : ∃ prepared t' grant, Governor.prepare Sample.crowded (.releaseLeased ⟨⟨7, 1⟩, 1⟩ 5) = some prepared ∧
    Sample.governor.promoteStep prepared.nowMs (Sample.passing prepared) = (t', some grant) ∧
    grant.permitId = ⟨7, 2⟩ ∧ WithinLimits Sample.governor t' ∧ MemoryWithin Sample.governor t' := by
  obtain ⟨prepared, t', grant, _, hprepared, hpromotes, hround, _, hid, _⟩ := Sample.crowded_pass
  exact ⟨prepared, t', grant, hprepared, hround, hid, (grants_within_limits Sample.governor Sample.crowded
    Sample.crowded_reachable).2.2.1 _ prepared hprepared hpromotes _ .first t' grant hround⟩

/-! ## The order within a class -/

/-- A promotion takes the first waiting request of its domain: no other one is granted while a request waits
that was queued before it. -/
theorem StateInv.round_in_order {s₀ : GovernedState} (hinv : StateInv g s) (hordered : KeptBehind s₀ s c r)
    (hr : r ∈ s.waiting c) (h : g.promoteStep nowMs s = (s', some grant)) (hclass : grant.taskClass = c)
    (hdomain : r.capabilities.intersects grant.capabilities = true) :
    ∃ r₂, r₂ ∈ s₀.waiting c ∧ r₂.permitId = grant.permitId ∧ (r₂ = r ∨ r₂.queueOrder < r.queueOrder) := by
  obtain ⟨c', policy, index, r₁, head, chosen, served, hpromotes⟩ := promoteStep_some h
  have hgrants := hpromotes.grants
  obtain rfl : c' = c := by
    rw [← hclass, hgrants]
    rfl
  have hcaps : grant.capabilities = r₁.capabilities := by
    have hsame : head.capabilities = r₁.capabilities := (congrArg PendingRequest.capabilities hpromotes.same :)
    rw [hgrants]
    exact hsame
  have hid : r₁.untagged.permitId = grant.permitId := by
    have hsame : head.permitId = r₁.permitId := (congrArg PendingRequest.permitId hpromotes.same :)
    rw [hgrants]
    exact hsame.symm
  rw [hcaps] at hdomain
  have hle := hpromotes.first hinv.queues hr hdomain
  have hmem := mem_waiting_of_getElem hpromotes.queued
  rcases Nat.lt_or_eq_of_le hle with hlt | heq
  · -- An earlier request was there when `r` began to wait: what came later is behind it.
    rcases hordered.queue hr r₁.untagged hmem with hstart | hlater
    · exact ⟨r₁.untagged, hstart, hid, Or.inr hlt⟩
    · rw [PendingRequest.untagged_queueOrder] at hlater
      omega
  · obtain rfl : r₁.untagged = r := List.inj_on_of_nodup_map (hinv.queues.indexed c').orders_nodup hmem hr heq
    rcases hordered.queue hr r₁.untagged hr with hstart | hlater
    · exact ⟨r₁.untagged, hstart, hid, Or.inl rfl⟩
    · exact absurd hlater (Nat.lt_irrefl _)

/-- Within a class and a domain requests are granted in the order they were queued. Along any run from a state in
which a request waits: at a moment at which it still waits nobody of its class and domain is admitted directly, and
a round of a promotion pass grants none of them but itself and those that were queued before it. -/
theorem domain_fifo (g : Governor) (σ σ' : g.System) (trace : List (Action × Event)) (h : g.Reachable σ)
    (hrun : Runs.Run g.step σ trace σ') (c : TaskClass) (r : PendingRequest) (hr : r ∈ σ.state.waiting c) :
    (∀ i σ'' ids p record, g.step σ' (.enter i) = some (σ'', .decided ids (.admitted p)) →
      σ''.state.permits[p]? = some record → record.taskClass = c → r ∈ σ'.state.waiting c →
        r.capabilities.intersects record.capabilities = false) ∧
    ∀ a prepared, Governor.prepare σ' a = some prepared → prepared.sec.promotes = true →
      ∀ t, PassState g prepared.nowMs prepared.sec.state t → r ∈ t.waiting c → ∀ t' grant,
        g.promoteStep prepared.nowMs t = (t', some grant) → grant.taskClass = c →
          r.capabilities.intersects grant.capabilities = true →
            ∃ r₂, r₂ ∈ σ.state.waiting c ∧ r₂.permitId = grant.permitId ∧
              (r₂ = r ∨ r₂.queueOrder < r.queueOrder) := by
  have hinv := SysInv.of_reachable h
  obtain ⟨hinv', hordered⟩ := hrun.invariant (P := fun τ : g.System => SysInv τ ∧ KeptBehind σ.state τ.state c r)
    (fun τ a τ' e ⟨hinv₁, hordered⟩ hstep => ⟨hinv₁.step hstep, hinv₁.step_rule hstep
      (P := fun s => KeptBehind σ.state s c r)
      (fun _ _ _ hm hinv₂ hseq hbefore => hm.inOrder hinv₂ (hm.stateInv hinv₂ hseq) hbefore) hordered⟩)
    ⟨hinv, KeptBehind.refl hinv.state.queues hr⟩
  refine ⟨fun i σ'' ids p record hstep found hclass hwaits => ?_, fun a prepared hp hpasses t hpass hwaits t' grant
    hround hclass hdomain => ?_⟩
  · obtain ⟨intake, sampledMs, ids', decision, _, heq, hentered⟩ := hinv'.step_entered hstep
    obtain ⟨rfl, hadmitted⟩ := Event.decided.inj heq
    generalize hlast : σ''.state = after at hentered
    cases hentered with
    | refused cycle => simp at hadmitted
    | queued accepted blocked sound room => simp at hadmitted
    | @granted policy c' accepted runnable =>
      obtain rfl := AdmissionDecision.admitted.inj hadmitted
      have hnew : record = (directGrant (σ'.state.commitTime sampledMs) policy c' intake.request ids
          (σ'.state.commitTime sampledMs).commitWatermarkMs).record := by
        rw [hlast] at found
        have hself : ((σ'.state.commitTime sampledMs).grant (directGrant (σ'.state.commitTime sampledMs) policy c'
          intake.request ids (σ'.state.commitTime sampledMs).commitWatermarkMs)).permits[ids.permitId]? =
            some _ := ExtTreeMap.getElem?_insert_self
        exact Option.some.inj (found.symm.trans hself)
      subst hnew
      obtain rfl : c' = c := hclass
      exact (hinv'.committed sampledMs).1.queues.direct_apart runnable hwaits
  · obtain ⟨hkept, hinv₁, _⟩ := hinv'.pass_rule hp hpasses (P := fun s => KeptBehind σ.state s c r)
      (fun _ _ _ _ _ hm hinv₂ hseq hbefore => hm.inOrder hinv₂ (hm.stateInv hinv₂ hseq) hbefore) hordered hpass
    exact hinv₁.round_in_order hkept hwaits hround hclass hdomain

/-- In the sample the second task, which is granted while the third one waits, was queued before it. -/
theorem sample_fifo : ∃ (prepared : Sample.governor.Prepared) (t' : GovernedState) (grant : GrantRequest)
    (r r₂ : PendingRequest), Governor.prepare Sample.crowded (.releaseLeased ⟨⟨7, 1⟩, 1⟩ 5) = some prepared ∧
    Sample.governor.promoteStep prepared.nowMs (Sample.passing prepared) = (t', some grant) ∧
    grant.permitId = ⟨7, 2⟩ ∧ r.permitId = ⟨7, 3⟩ ∧ r₂ ∈ Sample.crowded.state.waiting ⟨"work"⟩ ∧
    r₂.permitId = grant.permitId ∧ r₂.queueOrder < r.queueOrder := by
  obtain ⟨prepared, t', grant, r, hprepared, hpromotes, hround, hclass, hid, hr, hthird, hwaits, hdomain⟩ :=
    Sample.crowded_pass
  obtain ⟨r₂, hr₂, hid₂, horder⟩ := (domain_fifo Sample.governor Sample.crowded Sample.crowded [] Sample.crowded_reachable
    (Runs.Run.nil _) ⟨"work"⟩ r hr).2 _ prepared hprepared hpromotes _ .first hwaits t' grant hround hclass hdomain
  refine ⟨prepared, t', grant, r, r₂, hprepared, hround, hid, hthird, hr₂, hid₂, horder.resolve_left ?_⟩
  rintro rfl
  rw [hid, hthird] at hid₂
  simp at hid₂

/-! ## Requests that wait for their ancestors -/

/-- The states in which requests are assessed after the moment `s₀` of a pass that ended in `σ`: in the rest of the
pass, and in every continuation by an observer, at an intake or in a pass. -/
inductive Assessed (g : Governor) (s₀ : GovernedState) (σ : g.System) : GovernedState → Prop
  | rest {s : GovernedState} (after : Moves g Caller.nobody .growing s₀ s)
      (before : Moves g Caller.nobody .growing s σ.state) : Assessed g s₀ σ s
  | observed {trace : List (Action × Event)} {σ' : g.System} (run : Runs.Run g.step σ trace σ') :
      Assessed g s₀ σ σ'.state
  | intake {trace : List (Action × Event)} {σ' : g.System} (run : Runs.Run g.step σ trace σ') (sampledMs : Nat) :
      Assessed g s₀ σ (σ'.state.commitTime sampledMs)
  | pass {trace : List (Action × Event)} {σ' : g.System} {a : Action} {prepared : g.Prepared} {s : GovernedState}
      (run : Runs.Run g.step σ trace σ') (prepares : Governor.prepare σ' a = some prepared)
      (promotes : prepared.sec.promotes = true) (moves : Moves g Caller.nobody .growing prepared.sec.state s) :
      Assessed g s₀ σ s

/-- At some moment of the pass that ended in `σ`, or right after an intake, the ancestors of the request alone
blocked it; and wherever a request with its needs is assessed from then on while they are undiminished, they block
the reported dimension by themselves, so that it is not runnable. -/
def NeverRuns (g : Governor) (σ : g.System) (q : ScopeAssessment) (parent : PermitId) (chain : List PermitRecord)
    (held : HeldCapacity) : Prop :=
  ∃ s₀, Moves g Caller.nobody .growing s₀ σ.state ∧ CertainWait g s₀ q parent chain held ∧
    ∀ s, Assessed g s₀ σ s → Undiminished chain s →
      (∃ d : Dimension, d.reported g q = some held ∧ d.Blocks g q (d.byChain q chain) ∧
        d.byChain q chain ≤ d.total s q) ∧
      ∀ q', SameNeeds q q' → assessScope s g.policy q' ≠ .runnable

/-- Where a request is assessed, the state is sound and no permit of the chain was charged anew. -/
theorem Assessed.sound {s₀ : GovernedState} {chain : List PermitRecord} (h : Assessed g s₀ σ s) (hinv : SysInv σ)
    (hinv₀ : StateInv g s₀) (hload : ticketLoad s₀ < u64Max) (hlive₀ : LiveChain s₀ chain)
    (hlive : LiveChain σ.state chain) :
    StateInv g s ∧ ∀ record ∈ chain, ChargedOrGone record record.permitId s := by
  have hnobody : ∀ ids, ¬ Caller.nobody.ids ids := fun _ => id
  cases h with
  | rest after before =>
    obtain ⟨hkept, hinv', _⟩ := after.rule hnobody hinv₀ hload (P := fun s => LiveChain s chain)
      (fun _ _ hm hinv₁ _ hlive₁ => hlive₁.grows hm hnobody hinv₁) hlive₀
    exact ⟨hinv', fun record hmem => Or.inl ⟨record, hkept.live record hmem, SameCharge.refl record⟩⟩
  | observed run =>
    have hinv' := run.invariant (P := SysInv) (fun _ _ _ _ hinv₁ hstep => hinv₁.step hstep) hinv
    exact ⟨hinv'.state, fun record hmem => (hinv.run_life (hlive.live record hmem) run).2.2⟩
  | @intake trace σ' run sampledMs =>
    have hinv' := run.invariant (P := SysInv) (fun _ _ _ _ hinv₁ hstep => hinv₁.step hstep) hinv
    have hmove : Move g Caller.nobody .growing σ'.state (σ'.state.commitTime sampledMs) :=
      Move.rescheduled (rescheduled_commitTime σ'.state sampledMs)
    refine ⟨(hinv'.committed sampledMs).1, fun record hmem => ?_⟩
    exact hmove.chargedOrGone hinv'.state (Nat.lt_of_le_of_lt (terminalSeq_le_load _) hinv'.terminalSeq_lt)
      (fun ids hids => absurd hids (hnobody ids)) (hinv.run_life (hlive.live record hmem) run).2.2
  | pass run prepares promotes moves =>
    have hinv' := run.invariant (P := SysInv) (fun _ _ _ _ hinv₁ hstep => hinv₁.step hstep) hinv
    refine ⟨(hinv'.section_rule prepares promotes (P := fun _ => True) (fun _ _ _ _ _ _ _ _ _ => trivial) trivial
      moves).2.1, fun record hmem => ?_⟩
    obtain ⟨_, _, hlife⟩ := hinv.run_life (hlive.live record hmem) run
    exact (hinv'.section_rule prepares promotes (P := ChargedOrGone record record.permitId)
      (fun _ _ _ _ hids hm hinv₁ hseq => hm.chargedOrGone hinv₁ hseq fun ids hids₁ => absurd hids₁ (hids ids))
      hlife moves).1

theorem CertainWait.neverRuns {q : ScopeAssessment} {parent : PermitId} {chain : List PermitRecord}
    {held : HeldCapacity} (h : CertainWait g s q parent chain held) (hinv : SysInv σ) (hinv₀ : StateInv g s)
    (hload : ticketLoad s < u64Max) (hlive : LiveChain σ.state chain)
    (hmoves : Moves g Caller.nobody .growing s σ.state) : NeverRuns g σ q parent chain held := by
  refine ⟨s, hmoves, h, fun t hassessed hchain => ?_⟩
  obtain ⟨hinv', hlife⟩ := hassessed.sound hinv hinv₀ hload h.live hlive
  have hblocks := h.blocks hinv' hlife hchain
  refine ⟨hblocks, fun q' hsame => ?_⟩
  obtain ⟨d, _, hfull, hle⟩ := hblocks
  exact (hfull.mono hle).not_runnable hsame

/-- A move that brings nobody is a move of the governor itself. -/
theorem Move.by_nobody {caller : Caller} (h : Move g caller .growing s s') (hids : ∀ ids, ¬ caller.ids ids) :
    Move g Caller.nobody .growing s s' := by
  cases h with
  | rescheduled h => exact Move.rescheduled h
  | flagged _ pending => exact Move.flagged s pending
  | admitted nowMs allowed accepted runnable => exact absurd allowed (hids _)
  | promoted nowMs h => exact Move.promoted nowMs h
  | cycled h found first => exact Move.cycled h found first

theorem Moves.by_nobody {caller : Caller} (h : Moves g caller .growing s s') (hids : ∀ ids, ¬ caller.ids ids) :
    Moves g Caller.nobody .growing s s' := by
  induction h with
  | refl => exact .refl
  | tail _ hm ih => exact ih.tail (hm.by_nobody hids)

/-- The states that the pass of a step from `σ` to `σ'` goes through, and the last one. -/
inductive Passes (g : Governor) (σ : g.System) (a : Action) (σ' : g.System) : GovernedState → Prop
  | during {prepared : g.Prepared} {s : GovernedState} (prepares : Governor.prepare σ a = some prepared)
      (promotes : prepared.sec.promotes = true) (before : Moves g Caller.nobody .growing prepared.sec.state s)
      (after : Moves g Caller.nobody .growing s σ'.state) : Passes g σ a σ' s
  | last : Passes g σ a σ' σ'.state

/-- A wait that a pass ends with a wait cycle is for a request that never runs while its ancestors stay. -/
theorem SysInv.pass_cycled (hinv : SysInv σ) (h : g.step σ a = some (σ', e)) (hpasses : Passes g σ a σ' s)
    {t : Ticket} {held : HeldCapacity} (ht : σ.state.tickets[t]? = some (.queued c))
    (ht' : s.tickets[t]? = some (.terminal (.irreversibleWaitCycle held))) :
    ∃ r policy parent chain, r ∈ σ.state.waiting c ∧ r.ticket = t ∧ g.policy.classPolicy c = some policy ∧
      WaitsIn (pendingNeeds policy r) parent chain ∧ NeverRuns g σ' (pendingNeeds policy r) parent chain held := by
  have hnobody : ∀ ids, ¬ Caller.nobody.ids ids := fun _ => id
  have hreached : ∃ middle, (∀ ids, ¬ (callerOf σ a).ids ids) ∧ Moves g (callerOf σ a) .shrinking σ.state middle ∧
      Moves g Caller.nobody .growing middle s ∧ Moves g Caller.nobody .growing s σ'.state := by
    cases hpasses with
    | during prepares promotes before after =>
      have hids := no_ids (σ := σ) (not_enter_of_promotes prepares promotes)
      obtain ⟨middle, hshrinks, hgrows⟩ := prepare_path hinv.ready prepares
      exact ⟨middle, hids, hshrinks, (hgrows.by_nobody hids).trans before, after⟩
    | last =>
      have hids := no_ids (σ := σ) (hinv.step_not_enter h ht ht')
      obtain ⟨middle, hshrinks, hgrows⟩ := step_path hinv.ready h
      exact ⟨middle, hids, hshrinks, hgrows.by_nobody hids, .refl⟩
  obtain ⟨middle, hids, hshrinks, hgrows, hrest⟩ := hreached
  obtain ⟨r, policy, parent, chain, s₁, hr, hticket, hknown, hwaits, hlive, hmoves, hcertain, hinv₁, hload₁⟩ :=
    hinv.cycled_within hids hnobody hshrinks hgrows ht ht'
  have hall : Moves g Caller.nobody .growing s₁ σ'.state := hmoves.trans hrest
  have hkept := hall.rule hnobody hinv₁ hload₁ (P := fun s => LiveChain s chain)
    (fun _ _ hm hinv₂ _ hlive₂ => hlive₂.grows hm hnobody hinv₂) hcertain.live
  exact ⟨r, policy, parent, chain, hr, hticket, hknown, hwaits,
    hcertain.neverRuns (hinv.step h) hinv₁ hload₁ hkept.1 hall⟩

/-- Refusals of nested waits are sound. A request that an intake rejects with a wait cycle, or whose ticket any pass
of a step answers with one, is an awaited child whose parent is live, and at that moment its awaited ancestors alone
held a dimension it lacked; and wherever a request of its class, cost and requirements is assessed from then on, in
the rest of that pass or in any continuation, it is not runnable as long as those ancestors are live with the memory
they were charged for. -/
theorem nested_wait_sound (g : Governor) (σ : g.System) (h : g.Reachable σ) (a : Action) (σ' : g.System) (e : Event)
    (hstep : g.step σ a = some (σ', e)) (held : HeldCapacity) :
    (∀ ids, e = .decided ids (.rejected (.nestedWaitCycle held)) →
      ∃ (i : Nat) (intake : Intake g.policy) (sampledMs : Nat) (c : TaskClass) (policy : ClassPolicy) (behind : Bool)
        (parent : PermitId) (chain : List PermitRecord), a = .enter i ∧
        σ.threads[i]? = some (.admitting intake sampledMs ids) ∧ EffectiveClass g intake.request c ∧
        g.policy.classPolicy c = some policy ∧ WaitsIn (intakeNeeds policy c intake.request behind) parent chain ∧
        NeverRuns g σ' (intakeNeeds policy c intake.request behind) parent chain held) ∧
    ∀ t c, σ.state.tickets[t]? = some (.queued c) → ∀ s, Passes g σ a σ' s →
      s.tickets[t]? = some (.terminal (.irreversibleWaitCycle held)) →
      ∃ r policy parent chain, r ∈ σ.state.waiting c ∧ r.ticket = t ∧ g.policy.classPolicy c = some policy ∧
        WaitsIn (pendingNeeds policy r) parent chain ∧
        NeverRuns g σ' (pendingNeeds policy r) parent chain held := by
  have hinv := SysInv.of_reachable h
  have hinv' := hinv.step hstep
  refine ⟨?_, fun t c ht s hpasses ht' => hinv.pass_cycled hstep hpasses ht ht'⟩
  rintro ids rfl
  obtain ⟨i, intake, sampledMs, c, policy, behind, parent, chain, hentered, hthread, hclass, hknown, hwaits, hcertain⟩ :=
    hinv.step_certain hstep
  exact ⟨i, intake, sampledMs, c, policy, behind, parent, chain, hentered, hthread, hclass, hknown, hwaits,
    hcertain.neverRuns hinv' hinv'.state hinv'.terminalSeq_lt hcertain.live .refl⟩

/-- In the sample the child whose class its parent fills never runs while the parent is live. -/
theorem sample_nested_sound : ∃ σ' q parent chain,
    Sample.governor.step Sample.awaiting (.enter 0) =
      some (σ', .decided ⟨⟨7, 2⟩, ⟨7, 2⟩, 2⟩ (.rejected (.nestedWaitCycle (.classInflight ⟨"work"⟩)))) ∧
    WaitsIn q parent chain ∧ NeverRuns Sample.governor σ' q parent chain (.classInflight ⟨"work"⟩) := by
  obtain ⟨σ', hstep⟩ := Sample.awaiting_refused
  obtain ⟨_, _, _, _, _, _, parent, chain, _, _, _, _, hwaits, hfor⟩ :=
    (nested_wait_sound Sample.governor Sample.awaiting (Runs.reachable_replay Sample.governor.init _) _ _ _ hstep
      (.classInflight ⟨"work"⟩)).1 _ rfl
  exact ⟨σ', _, parent, chain, hstep, hwaits, hfor⟩

end Taskmesh
