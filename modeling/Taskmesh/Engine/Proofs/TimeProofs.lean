import Taskmesh.Engine.Proofs.ClassMoveProofs
import Taskmesh.Engine.Proofs.CustodyProofs

/-!
# Logical time

Every stamp is taken from the committed time, which never goes back whatever the clock samples were.
So a permit is leased, touched and looked at in that order, and every queue is in the order of its
stamps.
-/

namespace Taskmesh

open Std MachineInt GovernedState

variable {g : Governor} {s s' : GovernedState} {c : TaskClass} {p : PermitId}

/-! ## Permits -/

/-- The committed time went on; what is live was live before and was touched at most now, or is new. -/
structure Aged (s s' : GovernedState) : Prop where
  later : s.commitWatermarkMs ≤ s'.commitWatermarkMs
  permits : ∀ (p : PermitId) record', s'.permits[p]? = some record' →
    (∃ record, s.permits[p]? = some record ∧
      record'.ledger.leasedAtMs = record.ledger.leasedAtMs ∧
      record.ledger.lastTouchedMs ≤ record'.ledger.lastTouchedMs ∧
      record'.ledger.lastTouchedMs ≤ max record.ledger.lastTouchedMs s'.commitWatermarkMs) ∨
    (record'.ledger.leasedAtMs = s'.commitWatermarkMs ∧ record'.ledger.lastTouchedMs = s'.commitWatermarkMs)

theorem Ages.aged (h : Ages s s') : Aged s s' := by
  refine ⟨Nat.le_of_eq h.watermark.symm, fun p record' found' => Or.inl ?_⟩
  rw [h.watermark]
  exact h.permits p record' found'

/-- A new permit is leased and touched now. -/
theorem aged_insert {q : PermitId} {new : PermitRecord} (hwatermark : s'.commitWatermarkMs = s.commitWatermarkMs)
    (hpermits : s'.permits = s.permits.insert q new) (hleased : new.ledger.leasedAtMs = s.commitWatermarkMs)
    (htouched : new.ledger.lastTouchedMs = s.commitWatermarkMs) : Aged s s' := by
  refine ⟨Nat.le_of_eq hwatermark.symm, fun p record' found' => ?_⟩
  rw [hpermits, ExtTreeMap.getElem?_insert] at found'
  split at found'
  · obtain rfl := Option.some.inj found'
    rw [hwatermark]
    exact Or.inr ⟨hleased, htouched⟩
  · exact Or.inl ⟨record', found', rfl, Nat.le_refl _, Nat.le_max_left _ _⟩

/-- No move takes the watermark or a stamp back. -/
theorem ScheduleMove.aged {event : ScheduleEvent} (h : ScheduleMove g s event s') : Aged s s' := by
  have hwatermark := h.watermark_eq
  cases h with
  | ticked sampledMs =>
    exact ⟨Nat.le_max_right sampledMs s.commitWatermarkMs,
      fun p record found => Or.inl ⟨record, found, rfl, Nat.le_refl _, Nat.le_max_left _ _⟩⟩
  | other same ages => exact ages.aged
  | granted known => exact aged_insert rfl rfl rfl rfl
  | @enqueued policy c request waker ids blockedOn known enabled =>
    refine (Ages.of_permits (hwatermark (by simp)) ?_).aged
    refine Eq.trans ?_ (rescheduled_enqueueTags s c policy (resolveCost policy).cpuUnits
      s.commitWatermarkMs).ledger.permits
    unfold enqueuedAt GovernedState.commitPending
    simp only
    split <;> rfl
  | dispatched chosen promoted =>
    obtain ⟨hsame, hpermits, hnow⟩ := promoteStep_frame promoted
    exact aged_insert hsame hpermits hnow hnow
  | dropped known found same ages => exact ages.aged
  | emptied same ages => exact ages.aged

/-- Every permit is leased, touched and looked at in that order. -/
def PermitTimes (s : GovernedState) : Prop :=
  ∀ (p : PermitId) record, s.permits[p]? = some record →
    record.ledger.leasedAtMs ≤ record.ledger.lastTouchedMs ∧
      record.ledger.lastTouchedMs ≤ s.commitWatermarkMs

/-- The stamps of the permits stay at or below the watermark. -/
theorem PermitTimes.step (h : PermitTimes s) (haged : Aged s s') : PermitTimes s' := by
  intro p record' found'
  have hlater := haged.later
  rcases haged.permits p record' found' with ⟨record, found, hleased, htouched, hbound⟩ | ⟨hleased, htouched⟩
  · obtain ⟨hle, hle'⟩ := h p record found
    omega
  · omega

/-- Committed time `t` is past, and the permit, while it is live, was touched since. -/
structure TouchedSince (t : Nat) (p : PermitId) (s : GovernedState) : Prop where
  past : t ≤ s.commitWatermarkMs
  touched : ∀ record, s.permits[p]? = some record → t ≤ record.ledger.lastTouchedMs

/-- A permit that was touched after a moment stays so. -/
theorem TouchedSince.step {t : Nat} (h : TouchedSince t p s) (haged : Aged s s') : TouchedSince t p s' := by
  refine ⟨h.past.trans haged.later, fun record' found' => ?_⟩
  rcases haged.permits p record' found' with ⟨record, found, _, htouched, _⟩ | ⟨_, htouched⟩
  · exact (h.touched record found).trans htouched
  · rw [htouched]
    exact h.past.trans haged.later

/-! ## Queues -/

/-- The deadline of a request that is queued at `nowMs`. -/
def deadlineAt (nowMs : Nat) : FairnessPolicy → Nat
  | .deadlineAware slackMs => saturatingAdd u64Max nowMs slackMs.toNat
  | _ => u64Max

/-- A queue in the order of its stamps, with the deadlines of its discipline. -/
structure QueueTimes (g : Governor) (s : GovernedState) (c : TaskClass) : Prop where
  past : ∀ r ∈ (s.cls c).schedule.waiting, r.enqueuedAtMs ≤ s.commitWatermarkMs
  ordered : (s.cls c).schedule.waiting.Pairwise fun r r' => r.enqueuedAtMs ≤ r'.enqueuedAtMs
  deadlines : ∀ policy, g.policy.classPolicy c = some policy →
    ∀ r ∈ (s.cls c).schedule.waiting, r.deadlineMs = deadlineAt r.enqueuedAtMs policy.fairness

/-- A request is stamped with the committed time as it is queued. -/
theorem last_enqueuedAt_stamped (s : GovernedState) (policy : ClassPolicy) (c : TaskClass)
    (request : AdmissionRequest) (waker : Option Waker) (ids : Ids) (blockedOn : CapacityBlock)
    {r : PendingRequest}
    (hlast : ((enqueuedAt s policy c request waker ids blockedOn).cls c).queue.getLast? = some r) :
    r.enqueuedAtMs = s.commitWatermarkMs ∧
      r.deadlineMs = deadlineAt s.commitWatermarkMs policy.fairness := by
  have hdeadline : (enqueueTags s c policy (resolveCost policy).cpuUnits s.commitWatermarkMs).2.2.2 =
      deadlineAt s.commitWatermarkMs policy.fairness := by
    unfold enqueueTags
    cases policy.fairness <;> rfl
  unfold enqueuedAt at hlast
  generalize enqueueTags s c policy (resolveCost policy).cpuUnits s.commitWatermarkMs = tagging at hdeadline hlast
  obtain ⟨tagged, tags⟩ := tagging
  have hqueue := congrArg ClassSchedule.queue ((schedule_commitPending tagged (pendingRequest s policy c request
    waker ids s.commitWatermarkMs blockedOn tags) c).trans (if_pos rfl))
  have hr : tagged.arrived (pendingRequest s policy c request waker ids s.commitWatermarkMs blockedOn tags) = r :=
    Option.some.inj ((List.getLast?_concat.symm.trans (congrArg List.getLast? hqueue).symm).trans hlast)
  rw [← hr]
  exact ⟨rfl, hdeadline⟩

/-- A queue stays ordered by the time of arrival. -/
theorem QueueTimes.step {event : ScheduleEvent} (h : QueueTimes g s c) (hmove : ScheduleMove g s event s') :
    QueueTimes g s' c := by
  have hlater := hmove.aged.later
  rcases (hmove.class_cases c).waiting_cases with hsub | ⟨policy, tagged, r, rfl, hknown, harrives, hwaiting⟩
  · refine ⟨?_, h.ordered.sublist hsub, ?_⟩
    · intro r hr
      exact (h.past r (hsub.subset hr)).trans hlater
    · intro policy hknown r hr
      exact h.deadlines policy hknown r (hsub.subset hr)
  · have hsame : s'.commitWatermarkMs = s.commitWatermarkMs := hmove.watermark_eq (by simp)
    have hstamp : r.enqueuedAtMs = s.commitWatermarkMs ∧
        r.deadlineMs = deadlineAt s.commitWatermarkMs policy.fairness := by
      have hlast : (s'.cls c).queue.getLast? = some r := by
        have hown := congrArg ClassSchedule.queue harrives.own
        exact (congrArg List.getLast? hown).trans List.getLast?_concat
      cases hmove with
      | @enqueued policy' _ request waker ids blockedOn known enabled =>
        obtain rfl : policy' = policy := Option.some.inj (known.symm.trans hknown)
        exact last_enqueuedAt_stamped s policy' c request waker ids blockedOn hlast
    refine ⟨?_, ?_, ?_⟩
    · intro r' hr'
      rw [hwaiting] at hr'
      rw [hsame]
      rcases List.mem_append.mp hr' with hr' | hr'
      · exact h.past r' hr'
      · rw [List.mem_singleton.mp hr']
        exact Nat.le_of_eq hstamp.1
    · rw [hwaiting, List.pairwise_append]
      refine ⟨h.ordered, List.pairwise_singleton _ _, ?_⟩
      intro r' hr' last hlast
      rw [List.mem_singleton.mp hlast]
      exact (h.past r' hr').trans (Nat.le_of_eq hstamp.1.symm)
    · intro policy' hknown' r' hr'
      obtain rfl : policy = policy' := Option.some.inj (hknown.symm.trans hknown')
      rw [hwaiting] at hr'
      rcases List.mem_append.mp hr' with hr' | hr'
      · exact h.deadlines policy hknown r' hr'
      · rw [List.mem_singleton.mp hr']
        show r.deadlineMs = deadlineAt r.enqueuedAtMs policy.fairness
        rw [hstamp.1]
        exact hstamp.2

theorem saturatingAdd_mono {bound a b n : Nat} (h : a ≤ b) : saturatingAdd bound a n ≤ saturatingAdd bound b n := by
  unfold saturatingAdd
  omega

/-- A later request has a later deadline. -/
theorem deadlineAt_mono {a b : Nat} (h : a ≤ b) (fairness : FairnessPolicy) :
    deadlineAt a fairness ≤ deadlineAt b fairness := by
  cases fairness with
  | deadlineAware slackMs => exact saturatingAdd_mono h
  | _ => exact Nat.le_refl _

/-! ## Clock samples -/

/-- Every sample fits its word, those of the calls in progress and the committed one. -/
structure Clocked (σ : g.System) : Prop where
  committed : σ.state.commitWatermarkMs ≤ u64Max
  threads : ∀ th ∈ σ.threads, th.sampledMs ≤ u64Max

variable {σ σ' : g.System} {a : Action} {e : Event}

theorem UInt64.toNat_le_max (n : UInt64) : n.toNat ≤ u64Max := Nat.le_of_lt_succ n.toNat_lt

theorem Clocked.sample (h : Clocked σ) {sampledMs : Nat} (hsample : a.sample σ.threads = some sampledMs) :
    sampledMs ≤ u64Max := by
  have hthread : ∀ i : Nat, σ.threads[i]?.map Thread.sampledMs = some sampledMs → sampledMs ≤ u64Max := by
    intro i hi
    obtain ⟨th, hth, rfl⟩ := Option.map_eq_some_iff.mp hi
    exact h.threads th (List.mem_of_getElem? hth)
  cases a with
  | allocate i | enter i | settle i panicked | finishClaim i panicked | drain i => exact hthread i hsample
  | advancePhase | closeAdmission | mintElsewhere => simp [Action.sample] at hsample
  | _ =>
    obtain rfl := Option.some.inj hsample
    exact UInt64.toNat_le_max _

/-- Where a call in progress after a step comes from. -/
inductive NextThread (σ : g.System) (a : Action) (th : Thread g.policy) : Prop
  | waits (same : th ∈ σ.threads)
  | called {entry : AdmitCall} {sampledMs : UInt64} {intake : Intake g.policy}
      (call : a = .call entry sampledMs) (checked : preflight g.policy entry = .ok intake)
      (opened : th = .allocating intake sampledMs.toNat .nothing)
  | goesOn {i : Nat} {old : Thread g.policy} (turn : σ.threads[i]? = some old)
      (sampled : a.sample σ.threads = some th.sampledMs) (same : th.intake = none ∨ th.intake = old.intake)
  | operates (sampled : a.sample σ.threads = some th.sampledMs) (decided : th.intake = none)

/-- A call goes on with the sample and the submission it was made with. -/
theorem prepare_next {prepared : g.Prepared} (h : Governor.prepare σ a = some prepared)
    {effects : TransitionEffects} {th : Thread g.policy} (hmem : th ∈ prepared.resume effects) :
    NextThread σ a th := by
  have hpush : ∀ new : Thread g.policy, th ∈ σ.threads ++ [new] → a.sample σ.threads = some new.sampledMs →
      new.intake = none → NextThread σ a th := by
    intro new hth hsample hdecided
    rcases List.mem_append.mp hth with hth | hth
    · exact .waits hth
    · obtain rfl := List.mem_singleton.mp hth
      exact .operates hsample hdecided
  have hset : ∀ (i : Nat) (old new : Thread g.policy), σ.threads[i]? = some old → th ∈ σ.threads.set i new →
      a.sample σ.threads = some new.sampledMs → new.intake = none ∨ new.intake = old.intake →
      NextThread σ a th := by
    intro i old new hthread hth hsample hsame
    rcases List.mem_or_eq_of_mem_set hth with hth | rfl
    · exact .waits hth
    · exact .goesOn hthread hsample hsame
  cases a with
  | call entry sampledMs =>
    obtain rfl := Option.some.inj h
    unfold Governor.call at hmem
    split at hmem
    · exact .waits hmem
    · rename_i intake hchecked
      rcases List.mem_append.mp hmem with hmem | hmem
      · exact .waits hmem
      · exact .called rfl hchecked (List.mem_singleton.mp hmem)
  | allocate i =>
    simp only [Governor.prepare] at h
    split at h
    · rename_i intake sampledMs taken hthread
      have hsample := congrArg (Option.map Thread.sampledMs) hthread
      obtain rfl := Option.some.inj h
      unfold Governor.allocate at hmem
      split at hmem <;> simp only at hmem <;> split at hmem
      all_goals first
        | exact .waits (List.mem_of_mem_eraseIdx hmem)
        | exact hset i _ _ hthread hmem hsample (Or.inr rfl)
    · simp at h
  | enter i =>
    simp only [Governor.prepare] at h
    split at h
    · rename_i intake sampledMs ids hthread
      obtain rfl := Option.some.inj h
      exact hset i _ _ hthread hmem (congrArg (Option.map Thread.sampledMs) hthread) (Or.inl rfl)
    · simp at h
  | settle i panicked =>
    simp only [Governor.prepare] at h
    split at h
    · rename_i decision effects sampledMs hthread
      split at h
      · simp at h
      · obtain rfl := Option.some.inj h
        unfold Governor.settle at hmem
        split at hmem
        · exact .waits (List.mem_of_mem_eraseIdx hmem)
        · exact hset i _ _ hthread hmem (congrArg (Option.map Thread.sampledMs) hthread) (Or.inl rfl)
        · exact .waits (List.mem_of_mem_eraseIdx hmem)
    · simp at h
  | claim ticket sampledMs =>
    obtain rfl := Option.some.inj h
    simp only [Governor.startClaim] at hmem
    split at hmem
    · exact .waits hmem
    · exact hpush _ hmem rfl rfl
  | finishClaim i panicked =>
    simp only [Governor.prepare] at h
    split at h
    · rename_i ticket permit effects sampledMs hthread
      split at h
      · simp at h
      · obtain rfl := Option.some.inj h
        unfold Governor.endClaim at hmem
        split at hmem
        · exact hset i _ _ hthread hmem (congrArg (Option.map Thread.sampledMs) hthread) (Or.inl rfl)
        · exact .waits (List.mem_of_mem_eraseIdx hmem)
    · simp at h
  | drain i =>
    simp only [Governor.prepare] at h
    split at h
    · rename_i effects sampledMs hthread
      obtain rfl := Option.some.inj h
      unfold Governor.drain at hmem
      split at hmem
      · exact hset i _ _ hthread hmem (congrArg (Option.map Thread.sampledMs) hthread) (Or.inl rfl)
      · exact .waits (List.mem_of_mem_eraseIdx hmem)
    · simp at h
  | abandon | release | releaseLeased | reapLeaks =>
    obtain rfl := Option.some.inj h
    exact hpush _ hmem rfl rfl
  | reconcileMemory | releaseStageMemory =>
    obtain rfl := Option.some.inj h
    simp only [Governor.operationUnless] at hmem
    split at hmem
    · exact .waits hmem
    · exact hpush _ hmem rfl rfl
  | advancePhase | closeAdmission | mintElsewhere =>
    obtain rfl := Option.some.inj h
    exact .waits hmem

theorem StartedBy.watermark {start : GovernedState} (h : StartedBy σ a start) (hclocked : Clocked σ) :
    start.commitWatermarkMs ≤ u64Max := by
  rcases h with rfl | ⟨sampledMs, hsample, rfl⟩
  · exact hclocked.committed
  · exact max_le (hclocked.sample hsample) hclocked.committed

/-- One action keeps every sampled time within `u64`. -/
theorem Clocked.step (hinv : SysInv σ) (hclocked : Clocked σ) (h : g.step σ a = some (σ', e)) : Clocked σ' := by
  obtain ⟨prepared, hp, rfl, _⟩ := step_eq_some h
  refine ⟨?_, ?_⟩
  · by_cases henter : ∃ i, a = .enter i
    · obtain ⟨i, rfl⟩ := henter
      obtain ⟨start, hstart, hsame | ⟨event, hmove, hevent⟩⟩ := step_arrives hinv h
      · rw [hsame]
        exact hstart.watermark hclocked
      · have hnot : event ≠ .ticked := by
          obtain ⟨c, rfl | rfl⟩ := hevent <;> simp
        rw [hmove.watermark_eq hnot]
        exact hstart.watermark hclocked
    · obtain ⟨start, hstart, hreschedules⟩ := step_reschedules hinv h fun i heq => henter ⟨i, heq⟩
      rw [hreschedules.watermark_eq]
      exact hstart.watermark hclocked
  · intro th hth
    cases prepare_next hp hth with
    | waits same => exact hclocked.threads th same
    | @called entry sampledMs intake call checked opened =>
      rw [opened]
      exact UInt64.toNat_le_max sampledMs
    | goesOn turn sampled same => exact hclocked.sample sampled
    | operates sampled decided => exact hclocked.sample sampled

/-- In every reachable state the sampled times are within `u64`. -/
theorem Clocked.of_reachable (h : g.Reachable σ) : Clocked σ := by
  have hboth : SysInv σ ∧ Clocked σ := by
    refine Runs.Reachable.invariant (P := fun σ : g.System => SysInv σ ∧ Clocked σ) h
      ⟨sysInv_init g, Nat.zero_le _, fun th hth => by simp [Governor.init] at hth⟩ ?_
    rintro σ a σ' e ⟨hinv, hclocked⟩ hstep
    exact ⟨hinv.step hstep, hclocked.step hinv hstep⟩
  exact hboth.2

/-! ## Sweeps -/

/-- The permit's class detects leaks, nothing was dispatched under it, and its lease is stale. -/
structure Leaked (policies : PolicySet) (nowMs staleAfterMs : Nat) (record : PermitRecord) : Prop where
  detected : ∃ policy, policies.classPolicy record.taskClass = some policy ∧
    policy.memoryReleasePolicy = .leakDetecting
  reserved : record.phase = .dispatchReserved
  stale : saturatingAdd u64Max record.ledger.lastTouchedMs staleAfterMs < nowMs

/-- A leaked permit is what the reaper's own test picks. -/
theorem leaked_iff {policies : PolicySet} {nowMs staleAfterMs : Nat} {record : PermitRecord} :
    Leaked policies nowMs staleAfterMs record ↔
      (isSuspected policies nowMs staleAfterMs record && decide (record.phase = .dispatchReserved)) = true := by
  have hdetected : ((policies.classPolicy record.taskClass).any fun p =>
        decide (p.memoryReleasePolicy = .leakDetecting)) = true ↔
      ∃ policy, policies.classPolicy record.taskClass = some policy ∧
        policy.memoryReleasePolicy = .leakDetecting := by
    cases policies.classPolicy record.taskClass <;> simp
  unfold isSuspected isStale
  rw [Bool.and_eq_true, Bool.and_eq_true, hdetected, decide_eq_true_eq, decide_eq_true_eq]
  exact ⟨fun h => ⟨⟨h.detected, h.stale⟩, h.reserved⟩, fun h => ⟨h.1.1, h.2, h.1.2⟩⟩

theorem unwind_none {reason : TerminalReason} {effects : TransitionEffects}
    (h : s.unwind p reason effects = none) : s.permits[p]? = none := by
  cases found : s.permits[p]? with
  | none => rfl
  | some record =>
    obtain ⟨s', effects', hunwind⟩ := unwind_isSome found reason effects
    simp [h] at hunwind

/-- The listed permits end, and no others. -/
theorem reclaimAll_permits (permits : List PermitId) (s : GovernedState) (effects : TransitionEffects)
    (count : Nat) (q : PermitId) :
    (reclaimAll permits s effects count).1.permits[q]? = if q ∈ permits then none else s.permits[q]? := by
  induction permits generalizing s effects count with
  | nil => simp [reclaimAll]
  | cons p rest ih =>
    unfold reclaimAll
    cases h : s.unwind p .reclaimed effects with
    | none =>
      have hnone := unwind_none h
      simp only [ih, List.mem_cons]
      by_cases hq : q = p
      · subst hq
        simp [hnone]
      · simp [hq]
    | some next =>
      obtain ⟨s', effects'⟩ := next
      simp only [ih, List.mem_cons, permits_unwind h, ExtTreeMap.getElem?_erase]
      by_cases hq : q = p
      · subst hq
        simp
      · simp [hq, Ne.symm hq]

/-- Each of them is counted. -/
theorem reclaimAll_count {permits : List PermitId} (hnodup : permits.Nodup) {s : GovernedState}
    (hlive : ∀ p ∈ permits, s.permits[p]? ≠ none) (effects : TransitionEffects) {count : Nat}
    (hfits : count + permits.length ≤ u32Max) :
    (reclaimAll permits s effects count).2.2 = count + permits.length := by
  induction permits generalizing s effects count with
  | nil => rfl
  | cons p rest ih =>
    obtain ⟨hfresh, hrest⟩ := List.nodup_cons.mp hnodup
    rw [List.length_cons] at hfits ⊢
    unfold reclaimAll
    cases h : s.unwind p .reclaimed effects with
    | none => exact absurd (unwind_none h) (hlive p List.mem_cons_self)
    | some next =>
      obtain ⟨s', effects'⟩ := next
      have hcount : wrappingAdd u32Max count 1 = count + 1 := wrappingAdd_of_le (by omega)
      simp only [hcount]
      rw [ih hrest ?_ effects' (by omega)]
      · omega
      · intro q hq
        rw [permits_unwind h, ExtTreeMap.getElem?_erase]
        have hne : p ≠ q := by
          rintro rfl
          exact hfresh hq
        simpa [hne] using hlive q (List.mem_cons_of_mem _ hq)

section Reclaimable

variable {policies : PolicySet} {nowMs staleAfterMs : Nat}

/-- The reaper collects exactly the leaked permits. -/
theorem mem_reclaimable (hkeys : ∀ (p : PermitId) record, s.permits[p]? = some record → record.permitId = p) :
    p ∈ reclaimable s policies nowMs staleAfterMs ↔
      ∃ record, s.permits[p]? = some record ∧ Leaked policies nowMs staleAfterMs record := by
  unfold reclaimable
  rw [List.mem_map]
  constructor
  · rintro ⟨⟨q, record⟩, hmem, rfl⟩
    obtain ⟨hentry, hleaked⟩ := List.mem_filter.mp hmem
    have found := ExtTreeMap.mem_toList.mp hentry
    rw [hkeys q record found]
    exact ⟨record, found, leaked_iff.mpr hleaked⟩
  · rintro ⟨record, found, hleaked⟩
    exact ⟨(p, record), List.mem_filter.mpr ⟨ExtTreeMap.mem_toList.mpr found, leaked_iff.mp hleaked⟩,
      hkeys p record found⟩

/-- The reaper collects no permit twice. -/
theorem nodup_reclaimable (hkeys : ∀ (p : PermitId) record, s.permits[p]? = some record → record.permitId = p) :
    (reclaimable s policies nowMs staleAfterMs).Nodup := by
  have hkeyed : (s.permits.toList.map fun entry => entry.2.permitId) = s.permits.toList.map Prod.fst := by
    refine List.map_congr_left fun entry hentry => ?_
    exact hkeys _ _ (ExtTreeMap.mem_toList.mp hentry)
  have hnodup : (s.permits.toList.map fun entry => entry.2.permitId).Nodup := by
    rw [hkeyed]
    exact (ExtTreeMap.distinct_keys_toList (t := s.permits)).map _ fun a b h heq => h (by simpa using heq)
  exact hnodup.sublist (List.filter_sublist.map _)

end Reclaimable

/-- What a sweep does: the leaked permits end and no others, and every suspect is reclaimed or retained. -/
structure SweepExact (g : Governor) (s s' : GovernedState) (nowMs staleAfterMs : Nat)
    (report : LeakSweepReport) : Prop where
  ended : ∀ (p : PermitId) record, s.permits[p]? = some record →
    Leaked g.policy nowMs staleAfterMs record → s'.permits[p]? = none
  kept : ∀ (p : PermitId) record, s.permits[p]? = some record →
    ¬ Leaked g.policy nowMs staleAfterMs record → s'.permits[p]? = some record
  none_new : ∀ (p : PermitId), s.permits[p]? = none → s'.permits[p]? = none
  report : s.permits.size < 2 ^ 32 → report.suspectedLeaks = report.reclaimedPermits + report.retainedActive

/-- A sweep reclaims what has leaked, reports it and leaves the rest. -/
theorem sweepExact (g : Governor) (s : GovernedState) (nowMs staleAfterMs : Nat)
    (hkeys : ∀ (p : PermitId) record, s.permits[p]? = some record → record.permitId = p) :
    SweepExact g s (g.reapLeaksWith s staleAfterMs nowMs).state nowMs staleAfterMs
      (g.reapLeaksWith s staleAfterMs nowMs).outcome := by
  have hpermits := reclaimAll_permits (reclaimable s g.policy nowMs staleAfterMs) s {} 0
  refine ⟨?_, ?_, ?_, ?_⟩
  · intro p record found hleaked
    exact (hpermits p).trans (if_pos ((mem_reclaimable hkeys).mpr ⟨record, found, hleaked⟩))
  · intro p record found hkept
    refine (hpermits p).trans ((if_neg ?_).trans found)
    rintro hmem
    obtain ⟨record', found', hleaked⟩ := (mem_reclaimable hkeys).mp hmem
    obtain rfl := Option.some.inj (found.symm.trans found')
    exact hkept hleaked
  · intro p hnone
    rw [show (g.reapLeaksWith s staleAfterMs nowMs).state.permits[p]? = _ from hpermits p, hnone]
    split <;> rfl
  · intro hsize
    have hlength : s.permits.toList.length < 2 ^ 32 := by rwa [ExtTreeMap.length_toList]
    have hsuspected := List.countP_le_length (l := s.permits.toList)
      (p := fun entry => isSuspected g.policy nowMs staleAfterMs entry.2)
    have hsplit : s.permits.toList.countP (fun entry => isSuspected g.policy nowMs staleAfterMs entry.2) =
        (reclaimable s g.policy nowMs staleAfterMs).length +
          s.permits.toList.countP fun entry => isSuspected g.policy nowMs staleAfterMs entry.2 &&
            decide (entry.2.phase ≠ .dispatchReserved) := by
      rw [List.countP_eq_countP_filter_add _ _ fun entry => decide (entry.2.phase = .dispatchReserved),
        List.countP_filter, List.countP_filter, reclaimable, List.length_map, List.countP_eq_length_filter]
      simp
    have hnodup : (reclaimable s g.policy nowMs staleAfterMs).Nodup := nodup_reclaimable hkeys
    have hcount : (reclaimAll (reclaimable s g.policy nowMs staleAfterMs) s {} 0).2.2 =
        0 + (reclaimable s g.policy nowMs staleAfterMs).length := reclaimAll_count hnodup ?_ {} ?_
    · show min _ u32Max = (reclaimAll (reclaimable s g.policy nowMs staleAfterMs) s {} 0).2.2 + min _ u32Max
      have hu32 : u32Max = 2 ^ 32 - 1 := rfl
      rw [hcount]
      omega
    · intro p hp
      obtain ⟨record, found, _⟩ := (mem_reclaimable hkeys).mp hp
      simp [found]
    · have hu32 : u32Max = 2 ^ 32 - 1 := rfl
      omega

end Taskmesh
