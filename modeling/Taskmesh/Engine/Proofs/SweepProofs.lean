import Taskmesh.Engine.Proofs.TimeProofs
import Taskmesh.Engine.Proofs.HandoverProofs

/-!
# Leak sweeps and claims

A sweep ends exactly the leaked permits, and its promotion pass neither ends another nor brings one of
them back. A claim touches its permit, so that no sweep reclaims it before the window has passed.
-/

namespace Taskmesh

open Std MachineInt GovernedState

variable {g : Governor} {s s' : GovernedState} {caller : Caller} {σ σ' : g.System} {a : Action} {e : Event}
  {p : PermitId}

/-! ## The promotion pass after a sweep -/

theorem Moves.keeps_live (h : Moves g caller .growing s s') (hlive : s.permits[p]? ≠ none) :
    s'.permits[p]? ≠ none := by
  induction h with
  | refl => exact hlive
  | tail _ hmove ih =>
    rcases hmove.grows_permits with hsame | ⟨q, new, hinsert⟩
    · rwa [hsame]
    · rw [hinsert, ExtTreeMap.getElem?_insert]
      split
      · simp
      · exact ih

/-- The promotion pass brings no identity back. -/
theorem promote_gone (hids : ∀ ids, ¬ caller.ids ids) (hstate : StateInv g s) (hload : ticketLoad s < u64Max)
    (nowMs : Nat) (hgone : Gone s p) : Gone (g.promote s nowMs).1 p := by
  have hpass : Handovers g caller False .growing (s, {}) (g.promote s nowMs) := promote_handovers g s nowMs
  refine (hpass.rule hids hstate hload (P := fun x => Gone x.1 p) ?_ hgone).1
  intro x y hstep hinv hseq hgone
  exact (hstep.move.effect hinv.queues).gone hinv.occupancy (hstep.move.stateInv hinv hseq).occupancy
    (fun ids hallowed => absurd hallowed (hids ids)) hgone

/-- A section leaves a permit live, or gives its identity up. -/
theorem SysInv.section_permit (hinv : SysInv σ) {prepared : g.Prepared}
    (h : Governor.prepare σ a = some prepared) (hother : ∀ i, a ≠ .enter i)
    {record : PermitRecord} (found : σ.state.permits[p]? = some record) :
    (prepared.sec.state.permits[p]? ≠ none ∨ Gone prepared.sec.state p) ∧
      StateInv g prepared.sec.state ∧ ticketLoad prepared.sec.state < u64Max := by
  have hids := no_ids (σ := σ) hother
  refine (hinv.prepare_handovers h hother).rule hids hinv.state hinv.terminalSeq_lt
    (P := fun x => x.1.permits[p]? ≠ none ∨ Gone x.1 p) ?_ (Or.inl (by simp [found]))
  rintro x y hstep hinv hseq (hlive | hgone)
  · obtain ⟨record, found⟩ := Option.ne_none_iff_exists'.mp hlive
    rcases (hstep.move.effect hinv.queues).permit hinv.occupancy found with ⟨record', found', _⟩ | ⟨hgone, _⟩
    · exact Or.inl (by simp [found'])
    · exact Or.inr hgone
  · exact Or.inr ((hstep.move.effect hinv.queues).gone hinv.occupancy
      (hstep.move.stateInv hinv hseq).occupancy (fun ids hallowed => absurd hallowed (hids ids)) hgone)

/-- One sweep of the system: its section, and the state after its promotion pass. -/
structure Sweep (g : Governor) (σ σ' : g.System) (staleAfterMs : UInt64) (start swept : GovernedState)
    (report : LeakSweepReport) : Prop where
  swept : SweepExact g start swept start.commitWatermarkMs staleAfterMs.toNat report
  committed : σ'.state.commitWatermarkMs = start.commitWatermarkMs
  ended_iff : ∀ (p : PermitId) record, σ.state.permits[p]? = some record →
    (σ'.state.permits[p]? = none ↔ Leaked g.policy start.commitWatermarkMs staleAfterMs.toNat record)

theorem watermark_reapLeaksWith (g : Governor) (s : GovernedState) (staleAfterMs nowMs : Nat) :
    (g.reapLeaksWith s staleAfterMs nowMs).state.commitWatermarkMs = s.commitWatermarkMs :=
  (reclaimAll_reschedules (g := g) (reclaimable s g.policy nowMs staleAfterMs) s {} 0).watermark_eq

theorem watermark_promote (g : Governor) (s : GovernedState) :
    (g.promote s s.commitWatermarkMs).1.commitWatermarkMs = s.commitWatermarkMs :=
  (promote_reschedules g s).watermark_eq

/-- The state an operation ends in, when its section promotes. -/
theorem state_operation {α : Type} (section_ : GovernedState → Nat → Governor.Section α) (event : α → Event)
    {sampledMs : Nat} (hpromotes : ∀ s now, (section_ s now).promotes = true) (start : GovernedState)
    (hstart : start = σ.state.commitTime sampledMs) :
    (Governor.finish (Governor.operation σ sampledMs section_ event)).state =
      (g.promote (section_ start start.commitWatermarkMs).state start.commitWatermarkMs).1 := by
  subst hstart
  unfold Governor.finish Governor.commit
  rw [if_pos (show (Governor.operation σ sampledMs section_ event).sec.promotes = true from hpromotes _ _)]
  rfl

theorem section_operation {α : Type} (section_ : GovernedState → Nat → Governor.Section α) (event : α → Event)
    {sampledMs : Nat} (start : GovernedState) (hstart : start = σ.state.commitTime sampledMs) :
    (Governor.operation σ sampledMs section_ event).sec.state = (section_ start start.commitWatermarkMs).state ∧
      (Governor.operation σ sampledMs section_ event).sec.outcome =
        event (section_ start start.commitWatermarkMs).outcome := by
  subst hstart
  exact ⟨rfl, rfl⟩

theorem step_sweep (hinv : SysInv σ) {staleAfterMs sampledMs : UInt64}
    (h : g.step σ (.reapLeaks staleAfterMs sampledMs) = some (σ', e)) :
    ∃ swept report, e = .swept report ∧
      Sweep g σ σ' staleAfterMs (σ.state.commitTime sampledMs.toNat) swept report := by
  obtain ⟨prepared, hp, hσ', he⟩ := step_eq_some h
  have hother : ∀ i, Action.reapLeaks staleAfterMs sampledMs ≠ .enter i := by simp
  have hids := no_ids (σ := σ) hother
  have hsections := fun p record (found : σ.state.permits[p]? = some record) =>
    hinv.section_permit hp hother found
  obtain rfl := Option.some.inj hp
  have hkeys : ∀ (p : PermitId) record, (σ.state.commitTime sampledMs.toNat).permits[p]? = some record →
      record.permitId = p := hinv.state.occupancy.keys
  have hlive : (σ.state.commitTime sampledMs.toNat).permits = σ.state.permits := rfl
  generalize hstart : σ.state.commitTime sampledMs.toNat = start at hkeys hlive ⊢
  have hsec := section_operation (fun s now => g.reapLeaksWith s staleAfterMs.toNat now) Event.swept start hstart.symm
  have hstate := state_operation (fun s now => g.reapLeaksWith s staleAfterMs.toNat now) Event.swept
    (fun s now => by simp [Governor.reapLeaksWith]) start hstart.symm
  rw [hsec.1] at hsections
  rw [hsec.2] at he
  rw [← hσ'] at hstate
  have hsweep := sweepExact g start start.commitWatermarkMs staleAfterMs.toNat hkeys
  have hwatermark := watermark_reapLeaksWith g start staleAfterMs.toNat start.commitWatermarkMs
  generalize g.reapLeaksWith start staleAfterMs.toNat start.commitWatermarkMs = sec at *
  refine ⟨sec.state, sec.outcome, he, hsweep, ?_, ?_⟩
  · have hpass := watermark_promote g sec.state
    rw [hwatermark, ← hstate] at hpass
    exact hpass
  · intro p record found
    obtain ⟨hsection, hinvsec, hload⟩ := hsections p record found
    rw [← hlive] at found
    rw [hstate]
    constructor
    · intro hended
      by_contra hkept
      have hstays := hsweep.kept p record found hkept
      have hpass : Moves g (callerOf σ (.reapLeaks staleAfterMs sampledMs)) .growing sec.state
          (g.promote sec.state start.commitWatermarkMs).1 := promote_moves g sec.state start.commitWatermarkMs
      refine hpass.keeps_live ?_ hended
      simp [hstays]
    · intro hleaked
      have hended := hsweep.ended p record found hleaked
      have hgone := hsection.resolve_left (not_not_intro hended)
      exact (promote_gone hids hinvsec hload start.commitWatermarkMs hgone).live

/-! ## Claims -/

/-- The step begins the claim of a permit, or hands the permit over. -/
def ClaimsPermit (p : PermitId) (a : Action) (e : Event) (s' : GovernedState) : Prop :=
  (∃ ticket, e = .claimed ticket (.ready p)) ∨
  ∃ ticket sampledMs, a = .claim ticket sampledMs ∧ e = .progressed ∧ s'.tickets[ticket]? = some (.claiming p)

/-- A permit that is written back with a touch was touched since now. -/
theorem touchedSince_insert {record' : PermitRecord} (hpermits : s'.permits = s.permits.insert p record')
    (htouched : s'.commitWatermarkMs ≤ record'.ledger.lastTouchedMs) :
    TouchedSince s'.commitWatermarkMs p s' := by
  refine ⟨Nat.le_refl _, fun record found => ?_⟩
  rw [hpermits, ExtTreeMap.getElem?_insert_self] at found
  rw [← Option.some.inj found]
  exact htouched

theorem beginClaim_cases (s : GovernedState) (ticket : Ticket) (nowMs : Nat) :
    (∃ outcome, (Governor.beginClaim s ticket nowMs).2.2 = .answered outcome ∧ ∀ p, outcome ≠ .ready p) ∨
    ∃ q record, (Governor.beginClaim s ticket nowMs).2.2 = .claiming q ∧
      (Governor.beginClaim s ticket nowMs).1.tickets[ticket]? = some (.claiming q) ∧
      (Governor.beginClaim s ticket nowMs).1.commitWatermarkMs = s.commitWatermarkMs ∧
      (Governor.beginClaim s ticket nowMs).1.permits =
        s.permits.insert q (Governor.claimedRecord record nowMs) := by
  unfold Governor.beginClaim
  cases ht : s.tickets[ticket]? with
  | none => exact Or.inl ⟨_, rfl, by simp⟩
  | some entry =>
    cases entry with
    | granted q =>
      simp only
      cases found : s.permits[q]? with
      | none => exact Or.inl ⟨_, rfl, by simp⟩
      | some record =>
        refine Or.inr ⟨q, record, rfl, ?_, rfl, rfl⟩
        show (s.tickets.insert ticket (.claiming q))[ticket]? = _
        simp
    | _ => exact Or.inl ⟨_, rfl, by simp⟩

theorem finishClaim_touches {ticket : Ticket}
    (hready : (Governor.finishClaim s ticket s.commitWatermarkMs).2 = .ready p) :
    TouchedSince (Governor.finishClaim s ticket s.commitWatermarkMs).1.commitWatermarkMs p
      (Governor.finishClaim s ticket s.commitWatermarkMs).1 := by
  unfold Governor.finishClaim at hready ⊢
  cases ht : s.tickets[ticket]? with
  | none => simp [ht] at hready
  | some entry =>
    cases entry with
    | claiming q =>
      rw [ht] at hready
      simp only at hready ⊢
      cases found : s.permits[q]? with
      | none => simp [found] at hready
      | some record =>
        rw [found] at hready
        obtain rfl := ClaimOutcome.ready.inj hready
        exact touchedSince_insert rfl (Nat.le_max_right _ _)
    | _ => simp [ht] at hready

theorem finish_startClaim (σ : g.System) (ticket : Ticket) (sampledMs : Nat) {start : GovernedState}
    (hstart : start = σ.state.commitTime sampledMs) :
    (Governor.finish (Governor.startClaim σ ticket sampledMs)).state =
        (Governor.beginClaim start ticket start.commitWatermarkMs).1 ∧
      (Governor.startClaim σ ticket sampledMs).sec.outcome =
        match (Governor.beginClaim start ticket start.commitWatermarkMs).2.2 with
        | .answered outcome => .claimed ticket outcome
        | .claiming _ => .progressed := by
  subst hstart
  unfold Governor.finish
  rw [commit_of_not_promotes _ _ rfl]
  exact ⟨rfl, rfl⟩

theorem finish_endClaim (σ : g.System) (i : Nat) (ticket : Ticket) (q : PermitId) (sampledMs : Nat)
    {start : GovernedState} (hstart : start = σ.state.commitTime sampledMs) :
    (Governor.finish (Governor.endClaim σ i ticket q sampledMs false)).state =
        (Governor.finishClaim start ticket start.commitWatermarkMs).1 ∧
      (Governor.endClaim σ i ticket q sampledMs false).sec.outcome =
        .claimed ticket (Governor.finishClaim start ticket start.commitWatermarkMs).2 := by
  subst hstart
  unfold Governor.finish
  rw [commit_of_not_promotes _ _ rfl]
  exact ⟨rfl, rfl⟩

/-- A claim touches its permit, in both of its sections. -/
theorem step_claims (h : g.step σ a = some (σ', e)) (hclaims : ClaimsPermit p a e σ'.state) :
    TouchedSince σ'.state.commitWatermarkMs p σ'.state := by
  have htells := step_tells h
  obtain ⟨prepared, hp, rfl, he⟩ := step_eq_some h
  rcases hclaims with ⟨ticket, rfl⟩ | ⟨ticket, sampledMs, rfl, rfl, hticket⟩
  · cases a with
    | claim ticket' sampledMs =>
      obtain rfl := Option.some.inj hp
      rw [(finish_startClaim σ ticket' sampledMs.toNat rfl).2] at he
      rcases beginClaim_cases (σ.state.commitTime sampledMs.toNat) ticket'
        (σ.state.commitTime sampledMs.toNat).commitWatermarkMs with ⟨outcome, heq, hnot⟩ | ⟨q, record, heq, _⟩
      · rw [heq] at he
        exact absurd (Event.claimed.inj he).2.symm (hnot p)
      · rw [heq] at he
        simp at he
    | finishClaim i panicked =>
      simp only [Governor.prepare] at hp
      split at hp
      · rename_i ticket' q effects sampledMs hthread
        split at hp
        · simp at hp
        · obtain rfl := Option.some.inj hp
          cases panicked with
          | true => simp [Action.tells] at htells
          | false =>
            obtain ⟨hstate, houtcome⟩ := finish_endClaim σ i ticket' q sampledMs rfl
            rw [houtcome] at he
            rw [hstate]
            exact finishClaim_touches (Event.claimed.inj he).2.symm
      · simp at hp
    | settle i panicked => cases panicked <;> simp [Action.tells] at htells
    | _ => simp [Action.tells] at htells
  · obtain rfl := Option.some.inj hp
    obtain ⟨hstate, houtcome⟩ := finish_startClaim σ ticket sampledMs.toNat rfl
    rw [hstate] at hticket ⊢
    rw [houtcome] at he
    rcases beginClaim_cases (σ.state.commitTime sampledMs.toNat) ticket
      (σ.state.commitTime sampledMs.toNat).commitWatermarkMs with
      ⟨outcome, heq, _⟩ | ⟨q, record, _, hclaiming, hwatermark, hpermits⟩
    · rw [heq] at he
      simp at he
    · obtain rfl := TicketState.claiming.inj (Option.some.inj (hclaiming.symm.trans hticket))
      refine touchedSince_insert hpermits ?_
      rw [hwatermark]
      exact Nat.le_max_right _ _

/-! ## Logical time -/

/-- Every permit and every queue is in the order of committed time. -/
structure LogicalTime (g : Governor) (s : GovernedState) : Prop where
  permits : ∀ (p : PermitId) record, s.permits[p]? = some record →
    record.ledger.leasedAtMs ≤ record.ledger.lastTouchedMs ∧
      record.ledger.lastTouchedMs ≤ s.commitWatermarkMs
  enqueued : ∀ c, (s.cls c).queue.Pairwise fun r r' => r.enqueuedAtMs ≤ r'.enqueuedAtMs
  deadlines : ∀ c policy slackMs, g.policy.classPolicy c = some policy →
    policy.fairness = .deadlineAware slackMs →
      (s.cls c).queue.Pairwise fun r r' => r.deadlineMs ≤ r'.deadlineMs

theorem LogicalTime.of_times (hpermits : PermitTimes s) (hqueues : ∀ c, QueueTimes g s c) : LogicalTime g s := by
  have hordered : ∀ c, (s.cls c).queue.Pairwise fun r r' => r.enqueuedAtMs ≤ r'.enqueuedAtMs := by
    intro c
    have hwaiting : ((s.cls c).queue.map PendingRequest.untagged).Pairwise
        fun r r' => r.enqueuedAtMs ≤ r'.enqueuedAtMs := (hqueues c).ordered
    rw [List.pairwise_map] at hwaiting
    exact hwaiting
  refine ⟨hpermits, hordered, ?_⟩
  intro c policy slackMs hknown _
  have hdeadline : ∀ r ∈ (s.cls c).queue, r.deadlineMs = deadlineAt r.enqueuedAtMs policy.fairness := by
    intro r hr
    exact (hqueues c).deadlines policy hknown r.untagged (List.mem_map_of_mem hr)
  refine (hordered c).imp_of_mem ?_
  intro r r' hr hr' hle
  rw [hdeadline r hr, hdeadline r' hr']
  exact deadlineAt_mono hle policy.fairness

theorem LogicalTime.of_reachable (h : g.Reachable σ) : LogicalTime g σ.state := by
  have hboth : PermitTimes σ.state ∧ ∀ c, QueueTimes g σ.state c := by
    refine reachable_of_schedule (P := fun s => PermitTimes s ∧ ∀ c, QueueTimes g s c) ⟨?_, ?_⟩ ?_ h
    · intro p record found
      simp at found
    · intro c
      refine ⟨?_, ?_, ?_⟩ <;> simp [GovernedState.cls, default, ClassState.schedule, ClassSchedule.waiting]
    · rintro s event s' ⟨hpermits, hqueues⟩ hmove
      exact ⟨hpermits.step hmove.aged, fun c => (hqueues c).step hmove⟩
  exact LogicalTime.of_times hboth.1 hboth.2

/-- What ageing keeps, every run keeps. -/
theorem run_aged {P : GovernedState → Prop} (haged : ∀ s s', Aged s s' → P s → P s') (hinv : SysInv σ)
    {trace : List (Action × Event)} (hrun : Runs.Run g.step σ trace σ') (h : P σ.state) : P σ'.state := by
  refine hrun.invariant_of (I := SysInv) (P := fun σ => P σ.state) (Q := fun _ => True) ?_ ?_ ?_ hinv h
  · intro σ a σ' e hinv hstep
    exact hinv.step hstep
  · intro σ a σ' e hinv hP _ hstep
    obtain ⟨tr, htrace⟩ := step_trace hinv hstep
    exact htrace.invariant (fun s event s' hP hmove => haged s s' hmove.aged hP) hP
  · intro l _
    trivial

/-- A permit is not leaked within the window that follows its last touch. -/
theorem TouchedSince.not_leaked {t nowMs staleAfterMs : Nat} {policies : PolicySet} {record : PermitRecord}
    (h : TouchedSince t p s) (found : s.permits[p]? = some record) (hwithin : nowMs ≤ t + staleAfterMs)
    (hword : nowMs ≤ u64Max) : ¬ Leaked policies nowMs staleAfterMs record := by
  intro hleaked
  have hstale := hleaked.stale
  have htouched := h.touched record found
  unfold saturatingAdd at hstale
  omega

/-- Committed time orders every stamp and never goes back; a sweep ends exactly the leaked permits; and no
sweep reclaims a permit within the window that follows its claim. -/
theorem logical_time (g : Governor) :
    (∀ σ : g.System, g.Reachable σ → LogicalTime g σ.state) ∧
    (∀ (σ σ' : g.System) trace, g.Reachable σ → Runs.Run g.step σ trace σ' →
      σ.state.commitWatermarkMs ≤ σ'.state.commitWatermarkMs ∧
        ∀ (p : PermitId) record record', σ.state.permits[p]? = some record → σ'.state.permits[p]? = some record' →
          record.ledger.lastTouchedMs ≤ record'.ledger.lastTouchedMs) ∧
    (∀ (σ σ' : g.System) staleAfterMs sampledMs e, g.Reachable σ →
      g.step σ (.reapLeaks staleAfterMs sampledMs) = some (σ', e) →
      ∃ swept report, e = .swept report ∧
        Sweep g σ σ' staleAfterMs (σ.state.commitTime sampledMs.toNat) swept report) ∧
    ∀ (σ σ₁ σ₂ σ₃ : g.System) a e p trace staleAfterMs sampledMs e', g.Reachable σ →
      g.step σ a = some (σ₁, e) → ClaimsPermit p a e σ₁.state → Runs.Run g.step σ₁ trace σ₂ →
      g.step σ₂ (.reapLeaks staleAfterMs sampledMs) = some (σ₃, e') →
      σ₃.state.commitWatermarkMs ≤ σ₁.state.commitWatermarkMs + staleAfterMs.toNat →
      σ₂.state.permits[p]? ≠ none → σ₃.state.permits[p]? ≠ none := by
  refine ⟨fun σ h => LogicalTime.of_reachable h, ?_, ?_, ?_⟩
  · intro σ σ' trace hreach hrun
    have hinv := SysInv.of_reachable hreach
    have htimes := LogicalTime.of_reachable hreach
    refine ⟨?_, ?_⟩
    · exact run_aged (P := fun s => σ.state.commitWatermarkMs ≤ s.commitWatermarkMs)
        (fun s s' haged hle => hle.trans haged.later) hinv hrun (Nat.le_refl _)
    · intro p record record' found found'
      refine (run_aged (P := TouchedSince record.ledger.lastTouchedMs p) (fun s s' haged h => h.step haged) hinv
        hrun ⟨(htimes.permits p record found).2, ?_⟩).touched record' found'
      intro record'' found''
      exact Nat.le_of_eq (congrArg (fun r => r.ledger.lastTouchedMs)
        (Option.some.inj (found.symm.trans found'')))
  · intro σ σ' staleAfterMs sampledMs e hreach hstep
    exact step_sweep (SysInv.of_reachable hreach) hstep
  · intro σ σ₁ σ₂ σ₃ a e p trace staleAfterMs sampledMs e' hreach hclaim hclaims hrun hsweep hwithin hlive
    have hreach₁ : g.Reachable σ₁ := Runs.Reachable.next hreach hclaim
    have hreach₂ : g.Reachable σ₂ := Runs.Reachable.run hreach₁ hrun
    have hreach₃ : g.Reachable σ₃ := Runs.Reachable.next hreach₂ hsweep
    have htouched := run_aged (fun s s' haged h => h.step haged) (SysInv.of_reachable hreach₁) hrun
      (step_claims hclaim hclaims)
    obtain ⟨swept, report, _, hswept⟩ := step_sweep (SysInv.of_reachable hreach₂) hsweep
    obtain ⟨record, found⟩ := Option.ne_none_iff_exists'.mp hlive
    intro hended
    refine htouched.not_leaked found ?_ ?_ ((hswept.ended_iff p record found).mp hended)
    · rw [← hswept.committed]
      exact hwithin
    · rw [← hswept.committed]
      exact (Clocked.of_reachable hreach₃).committed

namespace LeakSample

/-- A class whose abandoned reservations are reclaimed. -/
def classPolicy : ClassPolicy := { Sample.classPolicy with memoryReleasePolicy := .leakDetecting }

def policy : PolicySet :=
  PolicySet.new ⟨4, 8, 0, 0, ⟨0⟩⟩ ((∅ : BTreeMap TaskClass ClassPolicy).insert ⟨"work"⟩ classPolicy) 1

def governor : Governor := ⟨7, policy, by decide +kernel⟩

/-- One permit is reserved, and nothing is dispatched under it. -/
def reserved : governor.System :=
  (Runs.replay governor.step governor.init (Sample.admission (.admitSpec (Sample.task "a")))).getD governor.init

theorem reserved_reachable : governor.Reachable reserved := Runs.reachable_replay governor.init _

end LeakSample

/-- In the sample the reservation is reclaimed once it has been idle for longer than the window. -/
theorem sample_swept : ∃ σ' e, LeakSample.governor.step LeakSample.reserved (.reapLeaks 5 10) = some (σ', e) ∧
    σ'.state.permits[(⟨7, 1⟩ : PermitId)]? = none := by
  have hstep : (LeakSample.governor.step LeakSample.reserved (.reapLeaks 5 10)).isSome = true := rfl
  obtain ⟨⟨σ', e⟩, hnext⟩ := Option.isSome_iff_exists.mp hstep
  have hleaked : ((LeakSample.reserved.state.permits[(⟨7, 1⟩ : PermitId)]?).any fun record =>
      isSuspected LeakSample.policy 10 5 record && decide (record.phase = .dispatchReserved)) = true := by
    decide +kernel
  obtain ⟨record, found, hrecord⟩ := (Option.any_eq_true _ _).mp hleaked
  obtain ⟨swept, report, _, hsweep⟩ := (logical_time LeakSample.governor).2.2.1 LeakSample.reserved σ' 5 10 e
    LeakSample.reserved_reachable hnext
  exact ⟨σ', e, hnext, (hsweep.ended_iff _ record found).mpr (leaked_iff.mpr hrecord)⟩

end Taskmesh
