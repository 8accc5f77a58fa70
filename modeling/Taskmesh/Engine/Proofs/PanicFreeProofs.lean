import Taskmesh.Engine.Proofs.PanicPromotionProofs
import Taskmesh.Engine.Proofs.RequirementProofs

/-!
# No panic in any reachable state

Every step of a governor whose policy passed validation, whatever the interleaving that led to it:
no `expect` misses, no debug assertion fails, and no unchecked sum leaves its width.
-/

namespace Taskmesh

open Std MachineInt SetIndex QueueFamily ExtTreeMap Faults

variable {g : Governor} {s s' : GovernedState} {n : Nat} {c : TaskClass}

namespace Panicky

/-! ## Claim, abandon and release -/

theorem releaseWithProof_ok (hs : Sound g n s) (p : PermitId) (proof : Option Nat) :
    releaseWithProof s p proof = .ok (Governor.releaseWithProof s p proof) := by
  unfold releaseWithProof
  rw [releaseWithProofReason_ok hs]
  rfl

/-- Compensating a claim panics nowhere in a sound state. -/
theorem compensateClaim_ok (hs : Sound g n s) (ticket : Ticket) (p : PermitId) :
    compensateClaim s ticket p = .ok (Governor.compensateClaim s ticket p) := by
  unfold compensateClaim Governor.compensateClaim
  cases s.tickets[ticket]? with
  | none => rfl
  | some state =>
    cases state with
    | claiming p' =>
      simp only
      rw [releaseWithProofReason_ok hs, ok_bind]
      generalize s.releaseWithProofReason p none .claimDeliveryFailed {} = released
      obtain ⟨s', effects, outcome⟩ := released
      cases outcome <;> rfl
    | queued c => rfl
    | granted p' => rfl
    | terminal reason => rfl
    | faulted => rfl

/-- The position a cancellation found is still there. -/
theorem cancelQueued_ok (hs : Sound g n s) (c : TaskClass) (ticket : Ticket) :
    cancelQueued s c ticket = .ok (Governor.cancelQueued s c ticket) := by
  unfold cancelQueued Governor.cancelQueued
  cases hindex : (s.cls c).queue.findIdx? fun r => r.ticket = ticket with
  | none => rfl
  | some index =>
    obtain ⟨hlt, _, _⟩ := List.findIdx?_eq_some_iff_getElem.mp hindex
    have hr : (s.cls c).queue[index]? = some (s.cls c).queue[index] := List.getElem?_eq_getElem hlt
    simp only
    rw [removePending_ok hs, GovernedState.removePending_of_getElem hr]
    rfl

/-- Abandoning a grant panics nowhere in a sound state. -/
theorem abandonGranted_ok (hs : Sound g n s) (ticket : Ticket) (p : PermitId) :
    abandonGranted s ticket p = .ok (Governor.abandonGranted s ticket p) := by
  unfold abandonGranted Governor.abandonGranted
  rw [releaseWithProofReason_ok hs, ok_bind]
  generalize s.releaseWithProofReason p none .abandoned {} = released
  obtain ⟨s', effects, outcome⟩ := released
  cases outcome <;> rfl

/-- A queued ticket names a class the policy knows. -/
theorem abandon_ok (hs : Sound g n s) (ticket : Ticket) : abandon g s ticket = .ok (g.abandon s ticket) := by
  unfold abandon Governor.abandon
  cases hticket : s.tickets[ticket]? with
  | none => rfl
  | some state =>
    cases state with
    | granted p => exact abandonGranted_ok hs ticket p
    | claiming p => exact abandonGranted_ok hs ticket p
    | terminal reason => rfl
    | faulted => rfl
    | queued c =>
      obtain ⟨r, hr, _⟩ := hs.inv.tickets.entry_queued hticket
      obtain ⟨index, hindex⟩ := List.mem_iff_getElem?.mp hr
      have hmoves : Moves g Caller.releasing .shrinking s (Governor.cancelQueued s c ticket).1 :=
        cancelQueued_moves hticket trivial
      have hs' := hmoves.sound_shrinking Caller.plain_releasing hs
      simp only
      rw [cancelQueued_ok hs, ok_bind]
      rw [unserved_ok (hs.inv.queues.class_known hindex) (hs'.inv.queues.smallCosts c)]
      rfl

/-! ## Memory -/

/-- Draining a queue after a fault panics nowhere; each removal keeps the state sound for the next. -/
theorem faultQueue_ok (hs : Sound g n s) (c : TaskClass) (rounds : Nat) (effects : TransitionEffects) :
    faultQueue c rounds s effects = .ok (Governor.faultQueue c rounds s effects) := by
  induction rounds generalizing s effects with
  | zero => rfl
  | succ rounds ih =>
    unfold faultQueue Governor.faultQueue
    rw [removePending_ok hs, ok_bind]
    cases h : s.removePending c 0 with
    | none => rfl
    | some removed =>
      obtain ⟨s', r⟩ := removed
      obtain ⟨hr, rfl⟩ := GovernedState.removePending_spec h
      have hmove : Move g Caller.nobody .shrinking s
          (((s.removedPending c 0 r).vacateOf r).setTicket r.ticket .faulted) := Move.faultedHead hr
      exact ih (hmove.sound_shrinking Caller.plain_nobody hs) _

theorem faultClass_ok {acc : GovernedState × TransitionEffects} (hs : Sound g n acc.1) (c : TaskClass) :
    faultClass g acc c = .ok (g.faultClass acc c) := by
  have hmoves : Moves g Caller.nobody .shrinking acc.1
      (Governor.faultQueue c (acc.1.cls c).queue.length acc.1 acc.2).1 := faultQueue_moves c _ acc.1 acc.2
  have hs' := hmoves.sound_shrinking Caller.plain_nobody hs
  unfold faultClass Governor.faultClass
  simp only
  rw [faultQueue_ok hs, ok_bind]
  by_cases hempty : (acc.1.cls c).queue.length = 0
  · simp only [if_pos hempty]
    rfl
  · have hlt : 0 < (acc.1.cls c).queue.length := by omega
    have hhead : (acc.1.cls c).queue[0]? = some (acc.1.cls c).queue[0] := List.getElem?_eq_getElem hlt
    simp only [if_neg hempty]
    rw [unserved_ok (hs.inv.queues.class_known hhead) (hs'.inv.queues.smallCosts c)]
    rfl

/-- Draining every queue after a fault panics nowhere. -/
theorem terminalizeQueuedForAccountingFault_ok (hs : Sound g n s) (effects : TransitionEffects) :
    terminalizeQueuedForAccountingFault g s effects = .ok (g.terminalizeQueuedForAccountingFault s effects) := by
  have hfold : foldEach (faultClass g) (s, effects) s.classes.keys =
      .ok (s.classes.keys.foldl g.faultClass (s, effects)) := by
    refine foldEach_ok (I := fun acc => Sound g n acc.1) hs fun acc c hacc _ => ⟨faultClass_ok hacc c, ?_⟩
    have hmoves : Moves g Caller.nobody .shrinking acc.1 (g.faultClass acc c).1 := faultClass_moves g acc c
    exact hmoves.sound_shrinking Caller.plain_nobody hacc
  unfold terminalizeQueuedForAccountingFault
  rw [hfold]
  rfl

/-- A reconcile does not panic, and its section ends in a sound state. -/
theorem reconcileMemory_ok (hs : Sound g n s) (p : PermitId) (measuredBytes : Nat) (epoch : Option Nat)
    (nowMs : Nat) :
    reconcileMemory g s p measuredBytes epoch nowMs = .ok (g.reconcileMemory s p measuredBytes epoch nowMs) ∧
      Sound g n (g.reconcileMemory s p measuredBytes epoch nowMs).state := by
  unfold reconcileMemory Governor.reconcileMemory
  cases found : s.permits[p]? with
  | none => exact ⟨rfl, hs⟩
  | some record =>
    simp only
    cases hpolicy : g.policy.classPolicy record.taskClass with
    | none => exact ⟨rfl, hs⟩
    | some policy =>
      simp only
      cases hsequence : Governor.measurementSequence epoch record with
      | error outcome => exact ⟨rfl, hs⟩
      | ok sequence =>
        obtain ⟨hok, hs'⟩ := reconcile_ok hs p measuredBytes sequence policy.memoryPermitMode
          g.policy.resources.memoryUnitScale nowMs
        simp only
        rw [hok, ok_bind]
        generalize Taskmesh.reconcile s p measuredBytes sequence policy.memoryPermitMode
          g.policy.resources.memoryUnitScale nowMs = reconciled at hs'
        obtain ⟨s', outcome⟩ := reconciled
        cases outcome with
        | conversionFailed error =>
          have hmoves : Moves g Caller.nobody .shrinking s' (g.terminalizeQueuedForAccountingFault s' {}).1 :=
            terminalizeQueued_moves g s' {}
          simp only
          rw [terminalizeQueuedForAccountingFault_ok hs']
          exact ⟨rfl, hmoves.sound_shrinking Caller.plain_nobody hs'⟩
        | applied units => exact ⟨rfl, hs'⟩
        | unknownPermit => exact ⟨rfl, hs'⟩
        | staleEpoch epoch => exact ⟨rfl, hs'⟩
        | epochExhausted epoch => exact ⟨rfl, hs'⟩

/-- A stage release does not panic, and its section ends in a sound state. -/
theorem releaseStage_ok (hs : Sound g n s) (p : PermitId) (freedUnits : Nat) (sequence : Option Nat)
    (nowMs : Nat) :
    releaseStage g s p freedUnits sequence nowMs = .ok (g.releaseStage s p freedUnits sequence nowMs) ∧
      Sound g n (g.releaseStage s p freedUnits sequence nowMs).state := by
  unfold releaseStage Governor.releaseStage
  cases found : s.permits[p]? with
  | none => exact ⟨rfl, hs⟩
  | some record =>
    simp only
    cases hpolicy : g.policy.classPolicy record.taskClass with
    | none => exact ⟨rfl, hs⟩
    | some policy =>
      obtain ⟨hok, hs'⟩ := releaseStageMemory_ok hs p freedUnits policy.memoryReleasePolicy sequence nowMs
      simp only
      rw [hok]
      exact ⟨rfl, hs'⟩

/-- Reclaiming stale reservations panics nowhere. -/
theorem reapLeaksWith_ok (hs : Sound g n s) (staleAfterMs nowMs : Nat) :
    reapLeaksWith g s staleAfterMs nowMs = .ok (g.reapLeaksWith s staleAfterMs nowMs) := by
  unfold reapLeaksWith
  rw [reapLeaks_ok hs]
  rfl

end Panicky

/-! ## Preflight -/

/-- What a pool resolves to is the id the policy's own authority issued for it. -/
theorem resolveCapability_ok {policies : PolicySet} {pool : String} {r : ResolvedCapability}
    (h : policies.resolveCapability pool = .ok r) : r = .registered ⟨pool, policies.capabilityAuthority⟩ := by
  unfold PolicySet.resolveCapability at h
  split at h
  · simp at h
  · split at h
    · rename_i id hid
      obtain rfl := Except.ok.inj h
      have hkey := List.mem_of_find?_eq_some hid
      have hname : id.name = pool := by simpa using List.find?_some hid
      rw [ExtTreeMap.mem_keys, ExtTreeMap.mem_iff_isSome_getElem?] at hkey
      obtain ⟨record, hrecord⟩ := Option.isSome_iff_exists.mp hkey
      obtain ⟨_, hauthority⟩ := policies.issued id record hrecord
      rw [← hname, ← hauthority]
    · simp at h

/-- A substrate that executes work names a pool that resolves. -/
theorem resolves_substrate (g : Governor) {name pool : String} {record : SubstrateRecord}
    (found : g.policy.substrates[name]? = some record) (hprovides : providesCapability record pool = true) :
    g.policy.resolveCapability pool = .ok (.registered ⟨pool, g.policy.capabilityAuthority⟩) := by
  have hinventory := (bind_eq_ok g.valid).1
  obtain ⟨_, hinventory⟩ := bind_eq_ok hinventory
  obtain ⟨_, hinventory⟩ := bind_eq_ok hinventory
  obtain ⟨_, hinventory⟩ := bind_eq_ok hinventory
  have hrecord := checkAll_ok hinventory (a := (name, record)) (mem_toList.mpr found)
  unfold providesCapability at hprovides
  simp only [Bool.and_eq_true, decide_eq_true_eq] at hprovides
  obtain ⟨hkind, hpool⟩ := hprovides
  simp only [hpool] at hrecord
  have hresolved : ∃ r, g.policy.resolveCapability pool = .ok r := by
    cases hresolve : g.policy.resolveCapability pool with
    | ok r => exact ⟨r, rfl⟩
    | error error =>
      rw [hresolve] at hrecord
      cases hk : record.kind with
      | authorityOnly => exact absurd hk hkind
      | _ => simp at hrecord
  obtain ⟨r, hr⟩ := hresolved
  rw [hr, resolveCapability_ok hr]

/-- A built-in substrate is registered as it was built in. -/
theorem resolves_builtin (g : Governor) {record : SubstrateRecord} {pool : String}
    (hrecord : record ∈ builtinRecords) (hprovides : providesCapability record pool = true) :
    g.policy.resolveCapability pool = .ok (.registered ⟨pool, g.policy.capabilityAuthority⟩) := by
  have hinventory := (bind_eq_ok g.valid).1
  obtain ⟨_, hinventory⟩ := bind_eq_ok hinventory
  obtain ⟨hbuiltin, _⟩ := bind_eq_ok hinventory
  have hcheck := checkAll_ok hbuiltin hrecord
  cases hfound : g.policy.substrates[record.name]? with
  | none => simp [hfound] at hcheck
  | some found =>
    simp only [hfound] at hcheck
    have hsame := failIf_ok hcheck
    simp only [Bool.or_eq_false_iff, decide_eq_false_iff_not, not_not] at hsame
    refine resolves_substrate g hfound ?_
    unfold providesCapability at hprovides ⊢
    rw [hsame.1, hsame.2]
    exact hprovides

/-- The pool a substrate hint names is built in. -/
theorem SubstrateHint.builtin {hint : SubstrateHint} {pool : String} (h : hint.capabilityPool = some pool) :
    ∃ record ∈ builtinRecords, providesCapability record pool = true := by
  cases hint <;> simp [SubstrateHint.capabilityPool, builtinRecords, providesCapability] at h ⊢ <;> simp [← h]

/-- What a stage declares by its hint under a validated policy. -/
def hintCapability (policies : PolicySet) (d : StageDescriptor) : ResolvedCapability :=
  match d.substrateHint.capabilityPool with
  | none => .ungated
  | some pool => .registered ⟨pool, policies.capabilityAuthority⟩

theorem declaredCapability_ok (g : Governor) (d : StageDescriptor) :
    declaredCapability g.policy d = .ok (hintCapability g.policy d) := by
  unfold declaredCapability hintCapability
  cases hpool : d.substrateHint.capabilityPool with
  | none => rfl
  | some pool =>
    obtain ⟨record, hrecord, hprovides⟩ := SubstrateHint.builtin hpool
    exact resolves_builtin g hrecord hprovides

/-- The ids of the built-in pools. -/
def builtinIds (policies : PolicySet) : List CapabilityId :=
  builtinRecords.map fun record => ⟨record.name, policies.capabilityAuthority⟩

/-- Whatever a plan declares by hints, it needs built-in pools only: far below the bound of a set. -/
theorem fromResolved_hints (policies : PolicySet) (stages : List StageDescriptor) :
    ∃ set, CapabilityRequirementSet.fromResolved (stages.map (hintCapability policies)) = .ok set := by
  have hsub : (registeredIds (stages.map (hintCapability policies))).dedup ⊆ builtinIds policies := by
    intro id hid
    rw [List.mem_dedup] at hid
    obtain ⟨r, hr, hid⟩ := List.mem_filterMap.mp hid
    obtain ⟨d, _, rfl⟩ := List.mem_map.mp hr
    unfold hintCapability at hid
    cases hhint : d.substrateHint <;>
      simp [hhint, SubstrateHint.capabilityPool] at hid <;> simp [← hid, builtinIds, builtinRecords]
  have hlength := (List.subperm_of_subset (List.nodup_dedup _) hsub).length_le
  have hfive : (builtinIds policies).length = 5 := rfl
  rw [fromResolved_eq, dif_pos]
  · exact ⟨_, rfl⟩
  · rw [length_insertAll]
    simp only [maxCapabilityRequirements]
    omega

namespace Panicky

/-- Collecting the requirements of a task panics nowhere, whatever the task declares. -/
theorem declaredRequirements_ok (g : Governor) (spec : TaskSpec) :
    ∃ set, declaredRequirements g.policy spec = .ok set := by
  obtain ⟨set, hset⟩ := fromResolved_hints g.policy spec.stages
  have hresolved : mapEach (fun d => expect Panic.unresolvedHint (declaredCapability g.policy d).toOption)
      spec.stages = .ok (spec.stages.map (hintCapability g.policy)) := by
    refine mapEach_ok fun d _ => ?_
    rw [declaredCapability_ok]
    rfl
  refine ⟨set, ?_⟩
  unfold declaredRequirements
  rw [hresolved, ok_bind, hset]
  rfl

theorem validatedRequirements_ok (g : Governor) (spec : TaskSpec) :
    validatedRequirements g.policy spec = .ok () := by
  obtain ⟨set, hset⟩ := declaredRequirements_ok g spec
  unfold validatedRequirements
  split
  · rw [hset]
    rfl
  · rfl

/-- The hints of every submission resolve. -/
theorem preflight_ok (g : Governor) (entry : AdmitCall) : preflight g.policy entry = .ok () := by
  cases entry with
  | admitSpec spec => exact validatedRequirements_ok g spec
  | admitValidated plan => exact validatedRequirements_ok g plan.spec
  | admitWaitable spec waker => exact validatedRequirements_ok g spec
  | admitResolved spec capability waker => rfl
  | admitValidatedRequirements plan requirements waker => rfl

/-! ## Steps -/

section Steps

variable {σ : g.System} {sampledMs : Nat}

/-- A lock section that panics nowhere commits as the total one does. -/
theorem locked_ok {section₁ : GovernedState → Nat → Panicky (Governor.Section Event)}
    {section₂ : GovernedState → Nat → Governor.Section Event}
    (h : section₁ (σ.state.commitTime sampledMs) (σ.state.commitTime sampledMs).commitWatermarkMs =
      .ok (section₂ (σ.state.commitTime sampledMs) (σ.state.commitTime sampledMs).commitWatermarkMs))
    (resume : TransitionEffects → List (Thread g.policy)) :
    locked σ sampledMs section₁ resume = .ok (Governor.locked σ sampledMs section₂ resume) := by
  unfold locked
  simp only
  rw [h]
  rfl

theorem report_ok {α : Type} (event : α → Event) {run : Panicky (Governor.Section α)} {sec : Governor.Section α}
    (h : run = .ok sec) :
    report event run = .ok ⟨sec.state, sec.effects, event sec.outcome, sec.promotes⟩ := by
  unfold report
  rw [h]
  rfl

theorem operation_ok {α : Type} {section₁ : GovernedState → Nat → Panicky (Governor.Section α)}
    {section₂ : GovernedState → Nat → Governor.Section α} (event : α → Event)
    (h : section₁ (σ.state.commitTime sampledMs) (σ.state.commitTime sampledMs).commitWatermarkMs =
      .ok (section₂ (σ.state.commitTime sampledMs) (σ.state.commitTime sampledMs).commitWatermarkMs)) :
    operation σ sampledMs section₁ event = .ok (Governor.operation σ sampledMs section₂ event) :=
  locked_ok (report_ok event h) _

theorem operationUnless_ok {α : Type} {section₁ : GovernedState → Nat → Panicky (Governor.Section α)}
    {section₂ : GovernedState → Nat → Governor.Section α} (event : α → Event) (early : α → Bool)
    (h : section₁ (σ.state.commitTime sampledMs) (σ.state.commitTime sampledMs).commitWatermarkMs =
      .ok (section₂ (σ.state.commitTime sampledMs) (σ.state.commitTime sampledMs).commitWatermarkMs)) :
    operationUnless σ sampledMs section₁ event early =
      .ok (Governor.operationUnless σ sampledMs section₂ event early) := by
  unfold operationUnless
  simp only
  rw [h, ok_bind, operation_ok event h]
  rfl

end Steps

end Panicky

/-! ## The invariant of the system -/

open Governor

/-- A sound state, with a ticket still to be taken for every request it may count from now on. -/
structure SoundSys (σ : g.System) : Prop where
  inv : SysInv σ
  counted : ∃ n, Sound g n σ.state ∧ n + (heldTickets σ).length < σ.nextTicket

variable {σ σ' : g.System} {a : Action} {e : Event}

/-- A fresh engine is sound. -/
theorem soundSys_init (g : Governor) : SoundSys g.init where
  inv := sysInv_init g
  counted := ⟨0, sound_init g, by simp [Governor.init, heldTickets]⟩

theorem Sound.commitTime (hs : Sound g n s) (sampledMs : Nat) : Sound g n (s.commitTime sampledMs) :=
  hs.rescheduled (rescheduled_commitTime s sampledMs)

/-- The call that enters the lock holds a ticket, so there is room for its request. -/
theorem SysInv.roomy (hinv : SysInv σ) (hs : Sound g n σ.state)
    (hcounted : n + (heldTickets σ).length < σ.nextTicket) {intake : Intake g.policy} {sampledMs : Nat}
    {ids : Ids} (hthread : Thread.admitting intake sampledMs ids ∈ σ.threads) :
    Roomy g n (σ.state.commitTime sampledMs) := by
  have hheld : 0 < (heldTickets σ).length := List.length_pos_of_mem (mem_heldTickets hthread rfl)
  have hload := hinv.load
  have hcounter := hinv.counter
  have hsame : ticketLoad (σ.state.commitTime sampledMs) = ticketLoad σ.state := rfl
  exact ⟨hs.commitTime sampledMs, by omega, by omega⟩

/-- The section of a step leads to a sound state; it counts a request only if its caller brings one. -/
theorem SoundSys.prepared (hinv : SysInv σ) (hs : Sound g n σ.state)
    (hcounted : n + (heldTickets σ).length < σ.nextTicket) {p : g.Prepared}
    (hp : Governor.prepare σ a = some p) (hfew : p.sec.state.permits.size < 2 ^ 32) :
    Sound g n p.sec.state ∨ (∃ ids, (callerOf σ a).ids ids) ∧ Sound g (n + 1) p.sec.state := by
  have hplain : (∀ i, a ≠ .enter i) → (∀ permitId, ¬ (callerOf σ a).memory permitId) → Sound g n p.sec.state := by
    intro henter hmemory
    refine (prepare_path hinv.ready hp).sound ⟨fun ids hids => ?_, hmemory⟩ hs hfew
    obtain ⟨i, _, _, rfl, _⟩ := hids
    exact henter i rfl
  cases a with
  | enter i =>
    simp only [Governor.prepare] at hp
    split at hp
    · rename_i intake sampledMs ids hthread
      obtain rfl := Option.some.inj hp
      have hmem := List.mem_of_getElem? hthread
      have hroomy := hinv.roomy hs hcounted hmem
      have hentered := admit_entered intake ((hinv.fresh hmem).commitTime sampledMs)
        (σ.state.commitTime sampledMs).commitWatermarkMs {}
      refine Or.inr ⟨⟨ids, i, intake, sampledMs, rfl, hthread⟩, ?_⟩
      have hids : Caller.entering.ids ids := trivial
      rcases hentered.move hids with hsame | ⟨trend, hmove⟩
      · have heq : (Governor.enter σ i intake sampledMs ids).sec.state = σ.state.commitTime sampledMs := hsame
        rw [heq]
        exact hroomy.sound.mono (Nat.le_succ n) hroomy.bounded
      · exact hmove.sound_roomy hroomy hfew
    · simp at hp
  | reconcileMemory permitId measuredBytes epoch sampledMs =>
    obtain rfl := Option.some.inj hp
    exact Or.inl (Panicky.reconcileMemory_ok (hs.commitTime _) _ _ _ _).2
  | releaseStageMemory permitId freedUnits sequence sampledMs =>
    obtain rfl := Option.some.inj hp
    exact Or.inl (Panicky.releaseStage_ok (hs.commitTime _) _ _ _ _).2
  | _ => exact Or.inl (hplain (by simp) (by simp [callerOf]))

/-- A step that leads to a state with few permits ends in a sound system again. -/
theorem SoundSys.step (h : SoundSys σ) (hstep : g.step σ a = some (σ', e)) (hfew : g.fewLive σ' = true) :
    SoundSys σ' := by
  obtain ⟨n, hs, hcounted⟩ := h.counted
  obtain ⟨p, old, new, rest, hp, rfl, hthreads⟩ := step_threads hstep
  obtain ⟨given, hheld, hgiven⟩ := hthreads.given
  have hsize : (Governor.finish p).state.permits.size < 2 ^ 32 := by simpa [Governor.fewLive] using hfew
  have hgrows := commit_grows g p.sec p.nowMs
  have hprepared := SoundSys.prepared h.inv hs hcounted hp (few_of_moves hgrows hsize)
  have hlength := hheld.tickets.length
  refine ⟨h.inv.step hstep, ?_⟩
  rcases hprepared with hsec | ⟨⟨ids, hids⟩, hsec⟩
  · exact ⟨n, hgrows.sound_growing Caller.plain_nobody hsec hsize, by omega⟩
  · rw [(hgiven ids hids).2.1] at hlength
    simp only [Option.toList_some, List.length_singleton] at hlength
    exact ⟨n + 1, hgrows.sound_growing Caller.plain_nobody hsec hsize, by omega⟩

/-- Every state of a run with fewer than `2 ^ 32` live permits is sound. -/
theorem SoundSys.of_reachable (h : g.ReachableFewLive σ) : SoundSys σ :=
  Runs.Reachable.invariant h (soundSys_init g) fun _ _ _ _ hinv hstep =>
    have hrestricted := Runs.restrict_eq_some.mp hstep
    hinv.step hrestricted.1 hrestricted.2

namespace Panicky

open Governor

/-- A step that is enabled runs its section without a panic. -/
theorem prepare_ok (hinv : SysInv σ) (hs : Sound g n σ.state) (hcounted : n + (heldTickets σ).length < σ.nextTicket)
    {p : g.Prepared} (hp : Governor.prepare σ a = some p) (hfew : p.sec.state.permits.size < 2 ^ 32) :
    prepare σ a = some (.ok p) := by
  have hlocked := fun sampledMs => hs.commitTime sampledMs
  unfold prepare
  rw [hp]
  cases a with
  | call entry sampledMs =>
    obtain rfl := Option.some.inj hp
    show some (call σ entry sampledMs.toNat) = _
    unfold call
    rw [preflight_ok]
    rfl
  | enter i =>
    simp only [Governor.prepare] at hp
    split at hp
    · rename_i intake sampledMs ids hthread
      obtain rfl := Option.some.inj hp
      have hmem := List.mem_of_getElem? hthread
      have hadmitted := admitRequest_ok (hinv.roomy hs hcounted hmem) intake
        ((hinv.fresh hmem).commitTime sampledMs) hfew
      simp only [Option.map_some, hthread]
      unfold enter
      simp only
      rw [hadmitted]
      rfl
    · simp at hp
  | settle i panicked =>
    simp only [Governor.prepare] at hp
    split at hp
    · rename_i decision effects sampledMs hthread
      split at hp
      · simp at hp
      · obtain rfl := Option.some.inj hp
        simp only [Option.map_some, hthread]
        unfold settle
        cases panicked with
        | false => rfl
        | true =>
          cases decision with
          | admitted permitId =>
            refine congrArg some (?_ : locked σ sampledMs
              (fun s _ => report (fun _ => .panicked) (releaseWithProof s permitId none)) _ =
                .ok (Governor.locked σ sampledMs (fun s _ =>
                  ⟨(Governor.releaseWithProof s permitId none).state,
                    (Governor.releaseWithProof s permitId none).effects, .panicked,
                    (Governor.releaseWithProof s permitId none).promotes⟩) _))
            exact locked_ok (report_ok _ (releaseWithProof_ok (hlocked _) _ _)) _
          | queued ticket => rfl
          | rejected verdict => rfl
    · simp at hp
  | finishClaim i panicked =>
    simp only [Governor.prepare] at hp
    split at hp
    · rename_i ticket permitId effects sampledMs hthread
      split at hp
      · simp at hp
      · obtain rfl := Option.some.inj hp
        simp only [Option.map_some, hthread]
        unfold endClaim
        cases panicked with
        | false => rfl
        | true =>
          refine congrArg some (?_ : locked σ sampledMs
            (fun s _ => report (fun _ => .panicked) (compensateClaim s ticket permitId)) _ =
              .ok (Governor.locked σ sampledMs (fun s _ =>
                ⟨(Governor.compensateClaim s ticket permitId).state,
                  (Governor.compensateClaim s ticket permitId).effects, .panicked,
                  (Governor.compensateClaim s ticket permitId).promotes⟩) _))
          exact locked_ok (report_ok _ (compensateClaim_ok (hlocked _) _ _)) _
    · simp at hp
  | abandon ticket sampledMs =>
    obtain rfl := Option.some.inj hp
    exact congrArg some (operation_ok _ (abandon_ok (hlocked _) ticket))
  | release permitId sampledMs =>
    obtain rfl := Option.some.inj hp
    exact congrArg some (operation_ok _ (releaseWithProof_ok (hlocked _) permitId none))
  | releaseLeased token sampledMs =>
    obtain rfl := Option.some.inj hp
    exact congrArg some (operation_ok _ (releaseWithProof_ok (hlocked _) token.permitId (some token.nonce)))
  | advancePhase permitId phase =>
    obtain rfl := Option.some.inj hp
    show some (advance σ permitId phase) = _
    unfold advance
    rw [advancePhase_ok hs]
    rfl
  | reconcileMemory permitId measuredBytes epoch sampledMs =>
    obtain rfl := Option.some.inj hp
    exact congrArg some (operationUnless_ok _ _ (reconcileMemory_ok (hlocked _) permitId _ _ _).1)
  | releaseStageMemory permitId freedUnits sequence sampledMs =>
    obtain rfl := Option.some.inj hp
    exact congrArg some (operationUnless_ok _ _ (releaseStage_ok (hlocked _) permitId _ _ _).1)
  | reapLeaks staleAfterMs sampledMs =>
    obtain rfl := Option.some.inj hp
    exact congrArg some (operation_ok _ (reapLeaksWith_ok (hlocked _) _ _))
  | allocate i => rfl
  | claim ticket sampledMs => rfl
  | closeAdmission => rfl
  | drain i => rfl
  | mintElsewhere => rfl

/-- A step of a sound system to a state with few permits does not panic. -/
theorem step_ok (h : SoundSys σ) (hclasses : g.policy.FewClasses) (hstep : g.step σ a = some (σ', e))
    (hfew : g.fewLive σ' = true) : step g σ a = some (.ok (σ', e)) := by
  obtain ⟨n, hs, hcounted⟩ := h.counted
  obtain ⟨p, hp, rfl, rfl⟩ := step_eq_some hstep
  have hsize : (Governor.finish p).state.permits.size < 2 ^ 32 := by simpa [Governor.fewLive] using hfew
  have hgrows := commit_grows g p.sec p.nowMs
  have hfewSec := few_of_moves hgrows hsize
  have hsec : ∃ m, Sound g m p.sec.state := by
    rcases SoundSys.prepared h.inv hs hcounted hp hfewSec with hsec | ⟨_, hsec⟩
    · exact ⟨n, hsec⟩
    · exact ⟨n + 1, hsec⟩
  obtain ⟨m, hsec⟩ := hsec
  unfold step
  rw [prepare_ok h.inv hs hcounted hp hfewSec, Option.map_some, ok_bind, commit_ok hsec hclasses hsize]
  rfl

/-- Where the total step is not enabled, neither is the panicking one. -/
theorem step_none (h : g.step σ a = none) : step g σ a = none := by
  unfold Governor.step at h
  rw [Option.map_eq_none_iff] at h
  unfold step prepare
  rw [h]
  rfl

/-- The steps that can panic are the steps that cannot, under any interleaving that so far left fewer than
`2^32` permits live, unless this step leaves as many; the policy has fewer than `2^63` classes. -/
theorem reachable_step_eq (g : Governor) (hclasses : g.policy.FewClasses) (σ : g.System)
    (h : g.ReachableFewLive σ) (a : Action) :
    step g σ a = (g.step σ a).map .ok ∨
      ∃ σ' e, g.step σ a = some (σ', e) ∧ 2 ^ 32 ≤ σ'.state.permits.size := by
  cases hstep : g.step σ a with
  | none => exact Or.inl (step_none hstep)
  | some result =>
    obtain ⟨σ', e⟩ := result
    by_cases hfew : g.fewLive σ' = true
    · exact Or.inl (step_ok (SoundSys.of_reachable h) hclasses hstep hfew)
    · refine Or.inr ⟨σ', e, rfl, ?_⟩
      simpa [Governor.fewLive] using hfew

/-! ## Its own runs -/

end Panicky

theorem Sample.fewClasses : governor.policy.FewClasses := by
  unfold PolicySet.FewClasses
  decide +kernel

theorem sample_step_eq : Sample.governor.policy.FewClasses ∧
    (Panicky.step Sample.governor Sample.busy (.reapLeaks 0 0) =
        (Sample.governor.step Sample.busy (.reapLeaks 0 0)).map .ok ∨
      ∃ σ' e, Sample.governor.step Sample.busy (.reapLeaks 0 0) = some (σ', e) ∧
        2 ^ 32 ≤ σ'.state.permits.size) :=
  ⟨Sample.fewClasses, Panicky.reachable_step_eq _ Sample.fewClasses _ Sample.busy_reachable _⟩

namespace Sample

end Sample

end Taskmesh
