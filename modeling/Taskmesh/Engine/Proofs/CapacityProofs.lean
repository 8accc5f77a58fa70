import Taskmesh.Engine.Proofs.SoundProofs
import Taskmesh.Engine.Proofs.FaultProofs

/-!
# Limits over whole runs

No interleaving exceeds a limit of the policy. The memory budget is the one limit that measurement can
pass: a grant leaves memory within the budget, and beyond it memory only falls, except for a reading
that charges a permit more than before.
-/

namespace Taskmesh

open Std MachineInt ExtTreeMap Governor

variable {g : Governor} {caller : Caller} {s s' s'' : GovernedState} {σ σ' : g.System} {a : Action} {e : Event}
  {p : PermitId} {record : PermitRecord}

/-- Every limit of the policy is kept. -/
structure WithinLimits (g : Governor) (s : GovernedState) : Prop where
  inflight : ∀ c policy, g.policy.classPolicy c = some policy → s.inflight c ≤ policy.maxInflight.toNat
  depth : ∀ c policy, g.policy.classPolicy c = some policy →
    (s.cls c).queue.length ≤ policy.maxQueueDepth.toNat
  pools : ∀ id limit, PoolLimit g id limit → s.inUse id ≤ limit
  cpu : g.policy.resources.maxCpuUnits.toNat ≠ 0 →
    s.cpuUnitsHeld ≤ g.policy.resources.maxCpuUnits.toNat

theorem StateInv.withinLimits (h : StateInv g s) : WithinLimits g s where
  inflight := h.capacity.inflight
  depth c policy hpolicy := by
    have hdepth := h.queues.depth c policy hpolicy
    unfold GovernedState.waiting ClassState.queueHalf at hdepth
    rwa [List.length_map] at hdepth
  pools id limit hlimit := (h.capacity.pools id limit hlimit).2
  cpu := h.capacity.cpu

/-! ## The memory budget -/

/-- No permit is new in the second state. -/
def NoNewPermit (s s' : GovernedState) : Prop := ∀ p : PermitId, s.permits[p]? = none → s'.permits[p]? = none

/-- What happens to memory under a budget when nothing is measured: a grant leaves it within the budget,
and beyond the budget it does not rise. -/
structure Budgeted (g : Governor) (s s' : GovernedState) : Prop where
  grants : g.policy.resources.maxMemoryUnits.toNat ≠ 0 → ¬ NoNewPermit s s' →
    s'.memoryUnitsHeld ≤ g.policy.resources.maxMemoryUnits.toNat
  falls : g.policy.resources.maxMemoryUnits.toNat ≠ 0 →
    g.policy.resources.maxMemoryUnits.toNat < s'.memoryUnitsHeld → s'.memoryUnitsHeld ≤ s.memoryUnitsHeld

theorem Budgeted.refl (s : GovernedState) : Budgeted g s s :=
  ⟨fun _ hnew => absurd (fun _ h => h) hnew, fun _ _ => Nat.le_refl _⟩

theorem Budgeted.trans (h : Budgeted g s s') (h' : Budgeted g s' s'') : Budgeted g s s'' where
  grants hbudget hnew := by
    by_cases hsecond : NoNewPermit s' s''
    · have hfirst : ¬ NoNewPermit s s' := fun hfirst => hnew fun p hp => hsecond p (hfirst p hp)
      have hwithin := h.grants hbudget hfirst
      by_contra hover
      have hfalls := h'.falls hbudget (by omega)
      omega
    · exact h'.grants hbudget hsecond
  falls hbudget hover := by
    have hle := h'.falls hbudget hover
    have hle' := h.falls hbudget (by omega)
    omega

/-- Nothing was granted and nothing charged. -/
theorem Budgeted.of_le (hnew : NoNewPermit s s') (hle : s'.memoryUnitsHeld ≤ s.memoryUnitsHeld) : Budgeted g s s' :=
  ⟨fun _ h => absurd hnew h, fun _ _ => hle⟩

theorem noNewPermit_congr (h : s'.permits = s.permits) : NoNewPermit s s' := by
  intro p hp
  rwa [h]

/-- Writing the record of a live permit makes no permit new. -/
theorem noNewPermit_insert {record' : PermitRecord} (found : s.permits[p]? = some record)
    (h : s'.permits = s.permits.insert p record') : NoNewPermit s s' := by
  intro q hq
  rw [h, ExtTreeMap.getElem?_insert]
  split
  · rename_i heq
    obtain rfl := compare_eq_iff_eq.mp heq
    rw [found] at hq
    simp at hq
  · exact hq

theorem budgeted_same (h : s.SameLedger s') : Budgeted g s s' :=
  Budgeted.of_le (noNewPermit_congr h.permits) (Nat.le_of_eq h.memory)

/-- A grant over the same ledger finds room for its memory. -/
theorem budgeted_grant {base : GovernedState} {grant : GrantRequest} {policy : ClassPolicy}
    (hledger : s.SameLedger base) (fits : GrantFits g s grant policy) : Budgeted g s (base.grant grant) := by
  obtain ⟨_, _, hmemory, _, _⟩ := fits.room
  have hread : (base.grant grant).memoryUnitsHeld = s.memoryUnitsHeld + grant.cost.memoryUnits := by
    show base.memoryUnitsHeld + grant.cost.memoryUnits = _
    rw [hledger.memory]
  refine ⟨fun hbudget _ => ?_, fun hbudget hover => ?_⟩
  · rw [hread]
    exact hmemory hbudget
  · have hroom := hmemory hbudget
    omega

/-- A move that reports no memory keeps to the budget. -/
theorem Effect.budgeted (h : Effect g caller s s') (hmemory : ∀ p, ¬ caller.memory p) : Budgeted g s s' := by
  cases h with
  | kept queues ledger guards => exact budgeted_same ledger
  | queued waker nowMs tags allowed accepted pushed identities ledger guards sound => exact budgeted_same ledger
  | dropped removed identities ledger guards => exact budgeted_same ledger
  | admitted nowMs allowed accepted fits result =>
    subst result
    exact budgeted_grant (.refl s) fits
  | promoted nowMs fits removed identities ledger guards result =>
    subst result
    exact budgeted_grant ledger fits
  | @ended p record found ends queues ledger guards =>
    have hgone : NoNewPermit s (s.discharge p record) := by
      intro q hq
      show (s.permits.erase p)[q]? = none
      rw [ExtTreeMap.getElem?_erase]
      split
      · rfl
      · exact hq
    have hdischarged : Budgeted g s (s.discharge p record) := Budgeted.of_le hgone (Nat.sub_le _ _)
    exact hdischarged.trans (budgeted_same ledger)
  | @touched p record record' found similar queues ledger guards =>
    exact Budgeted.of_le (noNewPermit_insert found ledger.permits) (Nat.le_of_eq ledger.memory)
  | @advanced p record phase nonces found later result =>
    subst result
    exact Budgeted.of_le (noNewPermit_insert found rfl) (Nat.le_refl _)
  | recharged allowed found change result => exact absurd allowed (hmemory _)

theorem Path.budgeted (h : Path g Caller.nobody s s') (hinv : StateInv g s) (hload : ticketLoad s < u64Max) :
    Budgeted g s s' := by
  refine (h.invariant (P := fun x => (StateInv g x ∧ ticketLoad x ≤ ticketLoad s) ∧ Budgeted g s x) ?_
    ⟨⟨hinv, Nat.le_refl _⟩, Budgeted.refl s⟩).2
  rintro trend s₁ s₂ hm ⟨⟨hinv₁, hle⟩, hbudgeted⟩
  have hseq : s₁.terminalSeq < u64Max := by
    have := terminalSeq_le_load s₁
    omega
  refine ⟨⟨hm.stateInv hinv₁ hseq, ?_⟩, hbudgeted.trans ((hm.effect hinv₁.queues).budgeted fun _ => id)⟩
  have hle' := hm.load_le (fun _ => id) hinv₁ hseq
  omega

/-- A new charge of a live permit moves the total by the difference. -/
theorem memory_recharged {ledger : PermitLedger} (hb : Books s) (found : s.permits[p]? = some record)
    (change : LedgerChange record.ledger ledger) :
    (s.rechargePermit p record ledger).memoryUnitsHeld + record.ledger.effectiveUnits =
      s.memoryUnitsHeld + ledger.effectiveUnits := by
  have hafter := (hb.recharged found change).memory
  have hsum := heldBy_replace found { record with ledger := ledger } memoryOf
  rw [(memoryOnly_rechargePermit s p record ledger).permits] at hafter
  rw [hafter, hb.memory]
  exact hsum

/-- The state after a report of one permit. -/
theorem SysInv.reported (hinv : SysInv σ) {sampledMs : Nat} {middle : GovernedState}
    (h : Move g (Caller.reporting p) .shrinking (σ.state.commitTime sampledMs) middle) :
    StateInv g middle ∧ ticketLoad middle < u64Max := by
  obtain ⟨hinv₀, hseq⟩ := hinv.committed sampledMs
  have hbefore : ticketLoad (σ.state.commitTime sampledMs) = ticketLoad σ.state := rfl
  have hlt := hinv.terminalSeq_lt
  refine ⟨h.stateInv hinv₀ hseq, ?_⟩
  have hle := h.load_le (fun _ => id) hinv₀ hseq
  omega

/-- A section that changed the charge of one permit, with the promotion pass after it. -/
theorem SysInv.recharged_budgeted {ledger : PermitLedger} {α : Type} {sec : Section α} {sampledMs : Nat}
    (hinv : SysInv σ) (hsec : sec.state = (σ.state.commitTime sampledMs).rechargePermit p record ledger)
    (found : σ.state.permits[p]? = some record) (change : LedgerChange record.ledger ledger) (nowMs : Nat) :
    Budgeted g sec.state (g.commit sec nowMs).1 ∧ NoNewPermit σ.state sec.state ∧
      sec.state.memoryUnitsHeld + record.ledger.effectiveUnits = σ.state.memoryUnitsHeld + ledger.effectiveUnits := by
  have hmove : Move g (Caller.reporting p) .shrinking (σ.state.commitTime sampledMs) sec.state := by
    rw [hsec]
    exact Move.recharged rfl found change
  obtain ⟨hinv', hload⟩ := hinv.reported hmove
  refine ⟨Path.budgeted ⟨sec.state, .refl, commit_grows g sec nowMs⟩ hinv' hload, ?_, ?_⟩
  · rw [hsec]
    have hpermits := (memoryOnly_rechargePermit (σ.state.commitTime sampledMs) p record ledger).permits
    exact noNewPermit_insert found hpermits
  · rw [hsec]
    exact memory_recharged (hinv.committed sampledMs).1.books found change

/-- A fault recorded after a report charges nothing. -/
theorem SysInv.faulted_budgeted (hinv : SysInv σ) (p : PermitId) (sampledMs : Nat) (what : String) :
    Budgeted g σ.state
      (g.terminalizeQueuedForAccountingFault ((σ.state.commitTime sampledMs).recordAccountingFault what) {}).1 := by
  have hmove : Move g (Caller.reporting p) .shrinking (σ.state.commitTime sampledMs)
      ((σ.state.commitTime sampledMs).recordAccountingFault what) := Move.faulted _ _ ⟨p, rfl⟩
  obtain ⟨hinv', hload⟩ := hinv.reported hmove
  have hmemory : ((σ.state.commitTime sampledMs).recordAccountingFault what).memoryUnitsHeld =
      σ.state.memoryUnitsHeld := by
    unfold GovernedState.recordAccountingFault
    split <;> rfl
  have hpermits := (memoryOnly_recordAccountingFault (σ.state.commitTime sampledMs) what).permits
  have hfaulted : Budgeted g σ.state ((σ.state.commitTime sampledMs).recordAccountingFault what) :=
    Budgeted.of_le (noNewPermit_congr hpermits) (Nat.le_of_eq hmemory)
  exact hfaulted.trans (Path.budgeted (Path.of_shrinking (terminalizeQueued_moves g _ {})) hinv' hload)

/-- A step that is not a memory report keeps to the budget. -/
theorem SysInv.step_budgeted (hinv : SysInv σ) (h : g.step σ a = some (σ', e))
    (hmemory : ∀ p, ¬ (callerOf σ a).memory p) : Budgeted g σ.state σ'.state :=
  hinv.step_rule h (P := Budgeted g σ.state)
    (fun _ _ _ hm hinv₁ _ hbudgeted => hbudgeted.trans ((hm.effect hinv₁.queues).budgeted hmemory))
    (Budgeted.refl σ.state)

/-- What a memory report does to memory under a budget. -/
inductive MemoryReport (g : Governor) (s s' : GovernedState) (p : PermitId) (e : Event) : Prop
  /-- Nothing was charged. -/
  | kept (budgeted : Budgeted g s s')
  /-- One permit is charged differently, and a promotion pass follows. -/
  | recharged {record : PermitRecord} {ledger : PermitLedger} {middle : GovernedState}
      (found : s.permits[p]? = some record)
      (lower : ledger.effectiveUnits ≤ record.ledger.effectiveUnits ∨
        e = .reconciled p (.applied ledger.effectiveUnits))
      (same : NoNewPermit s middle)
      (total : middle.memoryUnitsHeld + record.ledger.effectiveUnits = s.memoryUnitsHeld + ledger.effectiveUnits)
      (budgeted : Budgeted g middle s')

theorem SysInv.reconcile_report (hinv : SysInv σ) {measuredBytes : UInt64} {epoch : Option UInt64}
    {sampledMs : UInt64} (h : g.step σ (.reconcileMemory p measuredBytes epoch sampledMs) = some (σ', e)) :
    MemoryReport g σ.state σ'.state p e := by
  obtain ⟨prepared, hp, rfl, rfl⟩ := step_eq_some h
  obtain rfl := Option.some.inj hp
  obtain ⟨hinv₀, hseq⟩ := hinv.committed sampledMs.toNat
  rw [state_operationUnless]
  rcases reconcileMemory_cases g (σ.state.commitTime sampledMs.toNat) p measuredBytes.toNat
    (epoch.map UInt64.toNat) (σ.state.commitTime sampledMs.toNat).commitWatermarkMs with ⟨outcome, heq, _⟩ |
    ⟨error, heq⟩ | ⟨record, ledger, found, hchange, heq, _⟩
  · rw [heq]
    exact .kept (budgeted_same (rescheduled_commitTime σ.state sampledMs.toNat).ledger)
  · rw [heq]
    exact .kept (hinv.faulted_budgeted p sampledMs.toNat _)
  · have hsec := hinv.recharged_budgeted (congrArg Section.state heq) found hchange
      (σ.state.commitTime sampledMs.toNat).commitWatermarkMs
    have htold : Event.reconciled p (g.reconcileMemory (σ.state.commitTime sampledMs.toNat) p measuredBytes.toNat
        (epoch.map UInt64.toNat) (σ.state.commitTime sampledMs.toNat).commitWatermarkMs).outcome =
        .reconciled p (.applied ledger.effectiveUnits) := by rw [heq]
    exact .recharged found (Or.inr htold) hsec.2.1 hsec.2.2 hsec.1

theorem SysInv.stage_report (hinv : SysInv σ) {freedUnits : UInt32} {sequence : Option UInt64}
    {sampledMs : UInt64} (h : g.step σ (.releaseStageMemory p freedUnits sequence sampledMs) = some (σ', e)) :
    MemoryReport g σ.state σ'.state p e := by
  obtain ⟨prepared, hp, rfl, rfl⟩ := step_eq_some h
  obtain rfl := Option.some.inj hp
  obtain ⟨hinv₀, hseq⟩ := hinv.committed sampledMs.toNat
  have hcommitted : Budgeted g σ.state (σ.state.commitTime sampledMs.toNat) :=
    budgeted_same (rescheduled_commitTime σ.state sampledMs.toNat).ledger
  rw [state_operationUnless]
  have hcases : (g.releaseStage (σ.state.commitTime sampledMs.toNat) p freedUnits.toNat (sequence.map UInt64.toNat)
      (σ.state.commitTime sampledMs.toNat).commitWatermarkMs).state = σ.state.commitTime sampledMs.toNat ∨
      ∃ record ledger, σ.state.permits[p]? = some record ∧ LedgerChange record.ledger ledger ∧
        ledger.effectiveUnits ≤ record.ledger.effectiveUnits ∧
        (g.releaseStage (σ.state.commitTime sampledMs.toNat) p freedUnits.toNat (sequence.map UInt64.toNat)
          (σ.state.commitTime sampledMs.toNat).commitWatermarkMs).state =
          (σ.state.commitTime sampledMs.toNat).rechargePermit p record ledger := by
    unfold Governor.releaseStage
    split
    · exact Or.inl rfl
    · split
      · exact Or.inl rfl
      · rename_i policy _
        rcases releaseStageMemory_cases (σ.state.commitTime sampledMs.toNat) p freedUnits.toNat
          policy.memoryReleasePolicy (sequence.map UInt64.toNat)
          (σ.state.commitTime sampledMs.toNat).commitWatermarkMs with heq | ⟨record, ledger, found, hchange, hle, heq, _⟩
        · exact Or.inl heq
        · exact Or.inr ⟨record, ledger, found, hchange, hle, heq⟩
  rcases hcases with heq | ⟨record, ledger, found, hchange, hle, heq⟩
  · have hload : ticketLoad (σ.state.commitTime sampledMs.toNat) < u64Max := hinv.terminalSeq_lt
    have hgrows := commit_grows g (g.releaseStage (σ.state.commitTime sampledMs.toNat) p freedUnits.toNat
      (sequence.map UInt64.toNat) (σ.state.commitTime sampledMs.toNat).commitWatermarkMs)
      (σ.state.commitTime sampledMs.toNat).commitWatermarkMs
    rw [heq] at hgrows
    exact .kept (hcommitted.trans (Path.budgeted ⟨_, .refl, hgrows⟩ hinv₀ hload))
  · have hsec := hinv.recharged_budgeted heq found hchange (σ.state.commitTime sampledMs.toNat).commitWatermarkMs
    exact .recharged found (Or.inl hle) hsec.2.1 hsec.2.2 hsec.1

/-- What a step does to memory under a budget: one that grants leaves it within the budget, and only a
reading that charges a permit more than before raises it beyond. -/
structure MemoryStep (g : Governor) (s s' : GovernedState) (e : Event) : Prop where
  grants : g.policy.resources.maxMemoryUnits.toNat ≠ 0 →
    (∃ p : PermitId, s.permits[p]? = none ∧ s'.permits[p]? ≠ none) →
      s'.memoryUnitsHeld ≤ g.policy.resources.maxMemoryUnits.toNat
  rises : g.policy.resources.maxMemoryUnits.toNat ≠ 0 →
    g.policy.resources.maxMemoryUnits.toNat < s'.memoryUnitsHeld →
      s'.memoryUnitsHeld ≤ s.memoryUnitsHeld ∨
        ∃ p record units, e = .reconciled p (.applied units) ∧ s.permits[p]? = some record ∧
          record.ledger.effectiveUnits < units

theorem Budgeted.memoryStep (hb : Budgeted g s s') (e : Event) : MemoryStep g s s' e := by
  refine ⟨fun hbudget ⟨q, hnone, hsome⟩ => ?_, fun hbudget hover => Or.inl (hb.falls hbudget hover)⟩
  exact hb.grants hbudget fun hsame => hsome (hsame q hnone)

theorem MemoryReport.memoryStep (h : MemoryReport g s s' p e) : MemoryStep g s s' e := by
  cases h with
  | kept hb => exact hb.memoryStep e
  | @recharged record ledger middle found lower same total hb =>
    refine ⟨fun hbudget ⟨q, hnone, hsome⟩ => ?_, fun hbudget hover => ?_⟩
    · exact hb.grants hbudget fun hmiddle => hsome (hmiddle q (same q hnone))
    · have hfalls := hb.falls hbudget hover
      by_cases hle : ledger.effectiveUnits ≤ record.ledger.effectiveUnits
      · left
        omega
      · exact Or.inr ⟨p, record, _, lower.resolve_left hle, found, by omega⟩

theorem SysInv.step_memory (hinv : SysInv σ) (h : g.step σ a = some (σ', e)) :
    MemoryStep g σ.state σ'.state e := by
  cases a with
  | reconcileMemory p measuredBytes epoch sampledMs => exact (hinv.reconcile_report h).memoryStep
  | releaseStageMemory p freedUnits sequence sampledMs => exact (hinv.stage_report h).memoryStep
  | _ => exact (hinv.step_budgeted h (by simp [callerOf])).memoryStep e

/-- No limit of the policy is exceeded in any reachable state, and every step from it keeps memory to its
budget as far as grants go. -/
theorem capacity_never_exceeded (g : Governor) (σ : g.System) (h : g.Reachable σ) :
    WithinLimits g σ.state ∧ ∀ a σ' e, g.step σ a = some (σ', e) → MemoryStep g σ.state σ'.state e := by
  have hinv := SysInv.of_reachable h
  exact ⟨hinv.state.withinLimits, fun a σ' e hstep => hinv.step_memory hstep⟩

theorem sample_capacity : WithinLimits Sample.governor Sample.busy.state :=
  (capacity_never_exceeded _ _ (Runs.Reachable.of_restrict Sample.busy_reachable)).1

end Taskmesh
