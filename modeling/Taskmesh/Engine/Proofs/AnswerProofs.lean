import Taskmesh.Engine.Proofs.RetentionProofs
import Taskmesh.Engine.Proofs.SweepProofs
import Taskmesh.Engine.Proofs.TicketLifeProofs

/-!
# One answer for a ticket, one owner for a permit

Any number of callers may poll, claim and give up the same ticket at once. A final answer takes the
ticket away with it, so there is one at most; and a permit is given to one caller only, to the one that
was admitted or to the one that claimed it.
-/

namespace Taskmesh

open Std MachineInt QueueFamily ExtTreeMap TicketBook Allocation Governor

variable {g : Governor} {caller : Caller} {s s' : GovernedState} {σ σ' : g.System} {a : Action} {e : Event}
  {t : Ticket} {p : PermitId} {record record' : PermitRecord}

/-- The answer of a claim after which the ticket is spent. -/
def ClaimOutcome.final : ClaimOutcome → Bool
  | .ready _ | .terminal _ => true
  | .pending | .invalid => false

def AbandonOutcome.final : AbandonOutcome → Bool
  | .abandoned | .terminalDiscarded => true
  | .invalid | .heldByLease _ => false

/-- The event answers a claim or an abandonment of the ticket. -/
def answers (t : Ticket) : Event → Bool
  | .claimed t' _ | .abandoned t' _ => decide (t' = t)
  | _ => false

/-- The same, with a final answer. -/
def answersFinally (t : Ticket) : Event → Bool
  | .claimed t' outcome => decide (t' = t) && outcome.final
  | .abandoned t' outcome => decide (t' = t) && outcome.final
  | _ => false

/-- The answers that say the ticket is not known. -/
def answersUnknown (t : Ticket) (e : Event) : Prop := e = .claimed t .invalid ∨ e = .abandoned t .invalid

/-! ## The sections that answer -/

/-- A ticket with a final outcome is gone once the outcome is read. -/
theorem tickets_forgotten (hi : TicketInv s) (hfinal : isFinal s.tickets[t]? = true) :
    (s.forgetTerminalTicket t).tickets[t]? = none :=
  ((forgetTerminal_spec (t := t) hi.retains).2.2 t).trans (if_pos ⟨rfl, hfinal⟩)

theorem beginClaim_final (hi : TicketInv s) {nowMs : Nat} {outcome : ClaimOutcome}
    (h : (beginClaim s t nowMs).2.2 = .answered outcome) (hfinal : outcome.final = true) :
    s.tickets[t]? ≠ none ∧ (beginClaim s t nowMs).1.tickets[t]? = none := by
  unfold Governor.beginClaim at h ⊢
  cases ht : s.tickets[t]? with
  | none =>
    simp only [ht] at h
    obtain rfl := ClaimStart.answered.inj h
    simp [ClaimOutcome.final] at hfinal
  | some state =>
    refine ⟨by simp, ?_⟩
    cases state with
    | granted q =>
      simp only [ht] at h ⊢
      obtain ⟨old, found, _⟩ := hi.permit_live (Or.inl ht)
      simp only [found] at h
      simp at h
    | queued c =>
      simp only [ht] at h
      obtain rfl := ClaimStart.answered.inj h
      simp [ClaimOutcome.final] at hfinal
    | claiming q =>
      simp only [ht] at h
      obtain rfl := ClaimStart.answered.inj h
      simp [ClaimOutcome.final] at hfinal
    | terminal reason => exact tickets_forgotten hi (by rw [ht]; rfl)
    | faulted => exact tickets_forgotten hi (by rw [ht]; rfl)

theorem beginClaim_absent {nowMs : Nat} (h : s.tickets[t]? = none) :
    (beginClaim s t nowMs).2.2 = .answered .invalid := by
  unfold Governor.beginClaim
  rw [h]

theorem finishClaim_final (hi : TicketInv s) {nowMs : Nat} (h : (finishClaim s t nowMs).2.final = true) :
    s.tickets[t]? ≠ none ∧ (finishClaim s t nowMs).1.tickets[t]? = none := by
  unfold Governor.finishClaim at h ⊢
  cases ht : s.tickets[t]? with
  | none =>
    rw [ht] at h
    simp [ClaimOutcome.final] at h
  | some state =>
    refine ⟨by simp, ?_⟩
    cases state with
    | claiming q =>
      obtain ⟨old, found, _⟩ := hi.permit_live (Or.inr ht)
      simp only [found]
      show (s.tickets.erase t)[t]? = none
      simp
    | granted q =>
      rw [ht] at h
      simp [ClaimOutcome.final] at h
    | queued c =>
      rw [ht] at h
      simp [ClaimOutcome.final] at h
    | terminal reason => exact tickets_forgotten hi (by rw [ht]; rfl)
    | faulted => exact tickets_forgotten hi (by rw [ht]; rfl)

theorem finishClaim_absent {nowMs : Nat} (h : s.tickets[t]? = none) : (finishClaim s t nowMs).2 = .invalid := by
  unfold Governor.finishClaim
  rw [h]

/-- The permit that is handed over is the one the ticket names. -/
theorem finishClaim_ready {nowMs : Nat} (h : (finishClaim s t nowMs).2 = .ready p) :
    s.tickets[t]? = some (.claiming p) ∧ ∃ record, s.permits[p]? = some record ∧
      (finishClaim s t nowMs).1.permits[p]? = some (transferredRecord record nowMs) := by
  unfold Governor.finishClaim at h ⊢
  cases ht : s.tickets[t]? with
  | none => simp [ht] at h
  | some state =>
    cases state with
    | claiming q =>
      rw [ht] at h
      simp only at h ⊢
      cases found : s.permits[q]? with
      | none => simp [found] at h
      | some old =>
        rw [found] at h
        obtain rfl := ClaimOutcome.ready.inj h
        refine ⟨rfl, old, found, ?_⟩
        show (s.permits.insert q _)[q]? = _
        simp
    | _ => simp [ht] at h

theorem tickets_cancelQueued (s : GovernedState) (c : TaskClass) (t : Ticket) :
    (cancelQueued s c t).1.tickets[t]? = none := by
  have hgone : ∀ s₁ : GovernedState, (s₁.removeTicket t).tickets[t]? = none := by
    intro s₁
    show (s₁.tickets.erase t)[t]? = none
    simp
  unfold Governor.cancelQueued
  split
  · exact hgone s
  · split
    · exact hgone s
    · rename_i s₁ r _
      simp only
      split
      · exact hgone s₁
      · exact hgone s₁

theorem abandon_final (hinv : StateInv g s) (hseq : s.terminalSeq < u64Max)
    (h : (g.abandon s t).outcome.final = true) :
    s.tickets[t]? ≠ none ∧ (g.abandon s t).state.tickets[t]? = none := by
  have hi := hinv.tickets
  have hheld : ∀ q, (s.tickets[t]? = some (.granted q) ∨ s.tickets[t]? = some (.claiming q)) →
      (abandonGranted s t q).outcome.final = true → (abandonGranted s t q).state.tickets[t]? = none := by
    intro q hticket hfinal
    obtain ⟨old, found, hcases⟩ := abandonGranted_cases hi hticket
    rcases hcases with ⟨hleased, _⟩ | ⟨_, _, hfreed⟩
    · unfold Governor.abandonGranted at hfinal
      rcases releaseWithProofReason_cases s q none .abandoned {} with ⟨_, heq⟩ | ⟨_, _, _, heq⟩ |
        ⟨old', _, _, found', hfree, _⟩
      · rw [heq] at hfinal
        simp [AbandonOutcome.final] at hfinal
      · rw [heq] at hfinal
        simp [AbandonOutcome.final] at hfinal
      · obtain rfl := Option.some.inj (found.symm.trans found')
        exact absurd hfree hleased
    · have hold : isTerminal s.book.tickets[t]? = false := isTerminal_active (Or.inr ⟨q, hticket⟩)
      have hrecorded : (s.book.recordTerminal t .abandoned).Retains ∧ Changed s.book
          (s.book.recordTerminal t .abandoned) t (some (.terminal .abandoned)) := by
        obtain ⟨hretains, _, _, hchanged⟩ := recordTerminal_spec hi.retains hi.bounded hold hseq
        exact ⟨hretains, hchanged⟩
      obtain ⟨hretains, hchanged⟩ := hrecorded
      rw [hfreed]
      show ((s.book.recordTerminal t .abandoned).forgetTerminal t).tickets[t]? = none
      rw [(forgetTerminal_spec (t := t) hretains).2.2 t, hchanged.written]
      simp [isFinal]
  unfold Governor.abandon at h ⊢
  cases ht : s.tickets[t]? with
  | none =>
    rw [ht] at h
    simp [AbandonOutcome.final] at h
  | some state =>
    refine ⟨by simp, ?_⟩
    cases state with
    | granted q =>
      rw [ht] at h
      exact hheld q (Or.inl ht) h
    | claiming q =>
      rw [ht] at h
      exact hheld q (Or.inr ht) h
    | queued c =>
      have hbook := (rescheduled_unserved g (cancelQueued s c t).1 c).tickets
      have htickets : (g.unserved (cancelQueued s c t).1 c).tickets = (cancelQueued s c t).1.tickets :=
        congrArg TicketBook.tickets hbook
      show (g.unserved (cancelQueued s c t).1 c).tickets[t]? = none
      rw [htickets]
      exact tickets_cancelQueued s c t
    | terminal reason => exact tickets_forgotten hi (by rw [ht]; rfl)
    | faulted => exact tickets_forgotten hi (by rw [ht]; rfl)

/-! ## A ticket that was answered -/

/-- A promotion pass brings back no ticket. -/
theorem promote_absent (hinv : StateInv g s) (hload : ticketLoad s < u64Max) (nowMs : Nat)
    (hnone : s.tickets[t]? = none) : (g.promote s nowMs).1.tickets[t]? = none := by
  have hids : ∀ ids, ¬ Caller.nobody.ids ids := fun _ => id
  have hpass : Handovers g Caller.nobody False .growing (s, {}) (g.promote s nowMs) := promote_handovers g s nowMs
  refine (hpass.rule hids hinv hload (P := fun x => x.1.tickets[t]? = none) ?_ hnone).1
  intro x y hstep hinv₁ hseq hx
  have heffect := (hstep.move.ticketStep hinv₁.queues hinv₁.occupancy hinv₁.tickets hseq).2
  refine heffect.ticket_rule (Q := fun state => state = none) ?_ (fun _ _ _ => rfl) hx
  intro old new hlife hold
  subst hold
  rcases hlife.of_none with hnew | ⟨ids, hbrought, _⟩
  · exact hnew
  · exact absurd hbrought (hids ids)

/-- The answer of a claim is the answer of one of its two sections. -/
theorem step_claimed {outcome : ClaimOutcome} (h : g.step σ a = some (σ', .claimed t outcome)) :
    (∃ sampledMs : UInt64, a = .claim t sampledMs ∧
        (beginClaim (σ.state.commitTime sampledMs.toNat) t
          (σ.state.commitTime sampledMs.toNat).commitWatermarkMs).2.2 = .answered outcome ∧
        σ'.state = (beginClaim (σ.state.commitTime sampledMs.toNat) t
          (σ.state.commitTime sampledMs.toNat).commitWatermarkMs).1) ∨
      ∃ i sampledMs, a = .finishClaim i false ∧
        (finishClaim (σ.state.commitTime sampledMs) t (σ.state.commitTime sampledMs).commitWatermarkMs).2 = outcome ∧
        σ'.state =
          (finishClaim (σ.state.commitTime sampledMs) t (σ.state.commitTime sampledMs).commitWatermarkMs).1 := by
  have htells := step_tells h
  obtain ⟨prepared, hp, rfl, he⟩ := step_eq_some h
  cases a with
  | claim ticket sampledMs =>
    obtain rfl := Option.some.inj hp
    have hticket : ticket = t := by simpa [Action.tells] using htells
    subst hticket
    obtain ⟨hstate, houtcome⟩ := finish_startClaim σ ticket sampledMs.toNat rfl
    rw [houtcome] at he
    refine Or.inl ⟨sampledMs, rfl, ?_, hstate⟩
    cases hbegin : (beginClaim (σ.state.commitTime sampledMs.toNat) ticket
        (σ.state.commitTime sampledMs.toNat).commitWatermarkMs).2.2 with
    | answered outcome' =>
      rw [hbegin] at he
      rw [(Event.claimed.inj he).2]
    | claiming q =>
      rw [hbegin] at he
      simp at he
  | finishClaim i panicked =>
    simp only [Governor.prepare] at hp
    split at hp
    · rename_i ticket q effects sampledMs hthread
      split at hp
      · simp at hp
      · obtain rfl := Option.some.inj hp
        cases panicked with
        | true => simp [Action.tells] at htells
        | false =>
          obtain ⟨hstate, houtcome⟩ := finish_endClaim σ i ticket q sampledMs rfl
          rw [houtcome] at he
          obtain ⟨rfl, hsame⟩ := Event.claimed.inj he
          exact Or.inr ⟨i, sampledMs, rfl, hsame.symm, hstate⟩
    · simp at hp
  | settle i panicked => cases panicked <;> simp [Action.tells] at htells
  | _ => simp [Action.tells] at htells

theorem step_abandons {outcome : AbandonOutcome} (h : g.step σ a = some (σ', .abandoned t outcome)) :
    ∃ sampledMs : UInt64, a = .abandon t sampledMs ∧
      (g.abandon (σ.state.commitTime sampledMs.toNat) t).outcome = outcome := by
  have htells := step_tells h
  obtain ⟨prepared, hp, rfl, he⟩ := step_eq_some h
  cases a with
  | abandon ticket sampledMs =>
    obtain rfl := Option.some.inj hp
    obtain ⟨rfl, hsame⟩ := Event.abandoned.inj he
    exact ⟨sampledMs, rfl, hsame.symm⟩
  | settle i panicked => cases panicked <;> simp [Action.tells] at htells
  | finishClaim i panicked => cases panicked <;> simp [Action.tells] at htells
  | _ => simp [Action.tells] at htells

/-- A final answer takes the ticket away. -/
theorem SysInv.step_final (hinv : SysInv σ) (h : g.step σ a = some (σ', e)) (hfinal : answersFinally t e = true) :
    σ.state.tickets[t]? ≠ none ∧ σ'.state.tickets[t]? = none := by
  cases e with
  | claimed t' outcome =>
    simp only [answersFinally, Bool.and_eq_true, decide_eq_true_eq] at hfinal
    obtain ⟨rfl, hfinal⟩ := hfinal
    rcases step_claimed h with ⟨sampledMs, _, hbegin, hstate⟩ | ⟨i, sampledMs, _, hfinish, hstate⟩
    · obtain ⟨hinv₀, _⟩ := hinv.committed sampledMs.toNat
      rw [hstate]
      exact beginClaim_final hinv₀.tickets hbegin hfinal
    · obtain ⟨hinv₀, _⟩ := hinv.committed sampledMs
      rw [hstate]
      exact finishClaim_final hinv₀.tickets (by rw [hfinish]; exact hfinal)
  | abandoned t' outcome =>
    simp only [answersFinally, Bool.and_eq_true, decide_eq_true_eq] at hfinal
    obtain ⟨rfl, hfinal⟩ := hfinal
    obtain ⟨sampledMs, rfl, houtcome⟩ := step_abandons h
    have hab := hinv.abandons h
    obtain ⟨hpresent, hgone⟩ := abandon_final hab.start hab.seq (by rw [houtcome]; exact hfinal)
    refine ⟨by rwa [hab.tickets] at hpresent, ?_⟩
    cases hpromotes : (g.abandon (σ.state.commitTime sampledMs.toNat) t').promotes with
    | true =>
      have hlast := congrArg TicketBook.tickets (hab.passed hpromotes)
      show σ'.state.book.tickets[t']? = none
      rw [hlast]
      exact promote_absent hab.middle hab.load _ hgone
    | false =>
      rw [hab.quiet hpromotes]
      exact hgone
  | _ => simp [answersFinally] at hfinal

/-- A ticket that is not there is not known to a claim or an abandonment. -/
theorem step_answersUnknown (h : g.step σ a = some (σ', e)) (hnone : σ.state.tickets[t]? = none)
    (hanswers : answers t e = true) : answersUnknown t e := by
  cases e with
  | claimed t' outcome =>
    simp only [answers, decide_eq_true_eq] at hanswers
    subst hanswers
    rcases step_claimed h with ⟨sampledMs, _, hbegin, _⟩ | ⟨i, sampledMs, _, hfinish, _⟩
    · have habsent : (σ.state.commitTime sampledMs.toNat).tickets[t']? = none := hnone
      rw [beginClaim_absent habsent] at hbegin
      obtain rfl := ClaimStart.answered.inj hbegin
      exact Or.inl rfl
    · have habsent : (σ.state.commitTime sampledMs).tickets[t']? = none := hnone
      rw [finishClaim_absent habsent] at hfinish
      subst hfinish
      exact Or.inl rfl
  | abandoned t' outcome =>
    simp only [answers, decide_eq_true_eq] at hanswers
    subst hanswers
    obtain ⟨sampledMs, _, houtcome⟩ := step_abandons h
    have habsent : (σ.state.commitTime sampledMs.toNat).tickets[t']? = none := hnone
    unfold Governor.abandon at houtcome
    rw [habsent] at houtcome
    subst houtcome
    exact Or.inr rfl
  | _ => simp [answers] at hanswers

/-- Every answer after a final one says that the ticket is not known. -/
theorem SysInv.unknown_after (hinv : SysInv σ) (h : g.step σ a = some (σ', e)) (hfinal : answersFinally t e = true)
    {trace : List (Action × Event)} {σ'' : g.System} (hrun : Runs.Run g.step σ' trace σ'') :
    ∀ l ∈ trace, answers t l.2 = true → answersUnknown t l.2 := by
  obtain ⟨hpresent, hgone⟩ := hinv.step_final h hfinal
  have hspent : SpentTicket σ t := hinv.tickets.spent_of_used ⟨t, hpresent, rfl⟩
  have hspent' := spentTicket_step hspent h
  induction hrun with
  | nil => simp
  | @snoc u v before b ev hbefore hstep ih =>
    intro l hl hanswers
    rcases List.mem_append.mp hl with hl | hl
    · exact ih l hl hanswers
    · obtain rfl := List.mem_singleton.mp hl
      exact step_answersUnknown hstep ((hinv.step h).absent_run hspent' hgone hbefore) hanswers

/-! ## A permit that was given out -/

/-- The event gives the permit to its caller: admitted at once, or claimed with a ticket. -/
def handsOut (p : PermitId) : Event → Bool
  | .decided _ (.admitted q) | .claimed _ (.ready q) => decide (q = p)
  | _ => false

/-- Nobody waits for the permit: it is not queued, and if it is live no ticket leads to it. -/
structure Unawaited (s : GovernedState) (p : PermitId) : Prop where
  queues : ∀ c r, r ∈ s.waiting c → r.permitId ≠ p
  permits : ∀ record, s.permits[p]? = some record → record.pendingTicket = none

/-- A record written over another permit, or one that has no ticket, leaves the permit unawaited. -/
theorem Unawaited.insert (h : Unawaited s p) {q : PermitId} {new : PermitRecord}
    (hpermits : s'.permits = s.permits.insert q new) (hqueues : ∀ c r, r ∈ s'.waiting c → r ∈ s.waiting c)
    (hnew : q ≠ p ∨ new.pendingTicket = none) : Unawaited s' p := by
  refine ⟨fun c r hr => h.queues c r (hqueues c r hr), fun record' found' => ?_⟩
  rw [hpermits, ExtTreeMap.getElem?_insert] at found'
  split at found'
  · rename_i hcmp
    obtain rfl := LawfulEqOrd.eq_of_compare hcmp
    obtain rfl := Option.some.inj found'
    exact hnew.resolve_left (fun hne => hne rfl)
  · exact h.permits record' found'

/-- No move makes anybody wait for a permit that nobody waits for, unless it brings its identity. -/
theorem Effect.unawaited (h : Effect g caller s s') (hids : ∀ ids, caller.ids ids → ids.permitId ≠ p)
    (hp : Unawaited s p) : Unawaited s' p := by
  have hsame : s'.permits = s.permits → (∀ c r, r ∈ s'.waiting c → r ∈ s.waiting c) → Unawaited s' p := by
    intro hpermits hqueues
    refine ⟨fun c r hr => hp.queues c r (hqueues c r hr), fun record' found' => ?_⟩
    rw [hpermits] at found'
    exact hp.permits record' found'
  have hkept : s.SameQueues s' → ∀ c r, r ∈ s'.waiting c → r ∈ s.waiting c := by
    intro hqueues c r hr
    rwa [hqueues.waiting_eq] at hr
  -- A live record that is written back keeps its ticket or loses it.
  have hlive : ∀ {q : PermitId} {old new : PermitRecord}, s.permits[q]? = some old →
      (new.pendingTicket = old.pendingTicket ∨ new.pendingTicket = none) → q ≠ p ∨ new.pendingTicket = none := by
    intro q old new found hticket
    by_cases hq : q = p
    · subst hq
      right
      rcases hticket with heq | hnone
      · rw [heq]
        exact hp.permits old found
      · exact hnone
    · exact Or.inl hq
  cases h with
  | kept queues ledger guards => exact hsame ledger.permits (hkept queues)
  | queued waker nowMs tags allowed accepted pushed identities ledger guards sound =>
    refine ⟨fun c r hr => ?_, fun record' found' => ?_⟩
    · rcases pushed.mem_iff.mp hr with hr | ⟨_, rfl⟩
      · exact hp.queues c r hr
      · exact hids _ allowed
    · rw [ledger.permits] at found'
      exact hp.permits record' found'
  | dropped removed identities ledger guards => exact hsame ledger.permits fun c r hr => removed.mem_of_mem hr
  | admitted nowMs allowed accepted fits result =>
    subst result
    exact hp.insert rfl (hkept (GovernedState.sameQueues_grant s _)) (Or.inl (hids _ allowed))
  | @promoted policy c index head base nowMs fits removed identities ledger guards result =>
    subst result
    have hqueues := GovernedState.sameQueues_grant base (promotedGrant base c head nowMs)
    have hpermits : (base.grant (promotedGrant base c head nowMs)).permits =
        s.permits.insert head.permitId (promotedGrant base c head nowMs).record := by
      show base.permits.insert _ _ = _
      rw [ledger.permits]
      rfl
    refine hp.insert hpermits (fun c' r hr => ?_) (Or.inl (hp.queues c head.untagged removed.mem))
    rw [hqueues.waiting_eq] at hr
    exact removed.mem_of_mem hr
  | @ended q old foundq ends queues ledger guards =>
    have hpermits : s'.permits = s.permits.erase q := ledger.permits
    refine ⟨fun c r hr => hp.queues c r (hkept queues c r hr), fun record' found' => ?_⟩
    rw [hpermits, ExtTreeMap.getElem?_erase] at found'
    split at found'
    · simp at found'
    · exact hp.permits record' found'
  | touched foundq similar queues ledger guards =>
    exact hp.insert ledger.permits (hkept queues) (hlive foundq similar.ticket)
  | advanced nonces foundq later result =>
    subst result
    exact hp.insert rfl (hkept (GovernedState.sameQueues_advancedTo s _ _ _ _)) (hlive foundq (Or.inl rfl))
  | @recharged q old ledger allowed foundq change result =>
    subst result
    refine hp.insert (memoryOnly_rechargePermit s q old ledger).permits
      (hkept (sameQueues_rechargePermit s q old ledger)) (hlive foundq (Or.inl rfl))

theorem SysInv.step_unawaited (hinv : SysInv σ) (h : g.step σ a = some (σ', e)) (hspent : SpentPermit σ p)
    (hp : Unawaited σ.state p) : Unawaited σ'.state p :=
  hinv.step_rule h (P := fun s => Unawaited s p)
    (fun _ _ _ hm hinv₁ _ hs => (hm.effect hinv₁.queues).unawaited (fun _ hids => hspent.not_brought hids) hs) hp

/-- What an event that gives a permit out says of the states around it. -/
structure GivenOut (σ σ' : g.System) (p : PermitId) : Prop where
  awaited : SpentPermit σ p → ¬ Unawaited σ.state p
  spent : SpentPermit σ' p
  alone : Unawaited σ'.state p
  live : σ'.state.permits[p]? ≠ none

theorem SysInv.step_handsOut (hinv : SysInv σ) (h : g.step σ a = some (σ', e)) (hout : handsOut p e = true) :
    GivenOut σ σ' p := by
  have hinv' := hinv.step h
  -- The permit is live without a ticket afterwards; so its identity is spent and nothing waits for it.
  have hafter : ∀ record', σ'.state.permits[p]? = some record' → record'.pendingTicket = none →
      SpentPermit σ' p ∧ Unawaited σ'.state p ∧ σ'.state.permits[p]? ≠ none := by
    intro record' found' hnone
    refine ⟨hinv'.spent_live found', ⟨fun c r hr heq => ?_, fun record found => ?_⟩, by simp [found']⟩
    · have hfree := hinv'.state.occupancy.not_live hr
      rw [heq, found'] at hfree
      simp at hfree
    · obtain rfl := Option.some.inj (found'.symm.trans found)
      exact hnone
  cases e with
  | decided ids decision =>
    cases decision with
    | admitted q =>
      simp only [handsOut, decide_eq_true_eq] at hout
      subst hout
      have htells := step_tells h
      cases a with
      | enter i =>
        obtain ⟨intake, sampledMs, ids', decision, hthread, heq, hentered⟩ := hinv.step_entered h
        obtain ⟨rfl, rfl⟩ := Event.decided.inj heq
        generalize hdecided : AdmissionDecision.admitted q = answer at hentered
        generalize hlast : σ'.state = s' at hentered
        cases hentered with
        | refused cycle => simp at hdecided
        | queued accepted blocked sound room => simp at hdecided
        | granted accepted runnable =>
          obtain rfl := AdmissionDecision.admitted.inj hdecided
          have found' : ∃ record', σ'.state.permits[ids.permitId]? = some record' ∧
              record'.pendingTicket = none := by
            rw [hlast]
            refine ⟨_, ExtTreeMap.getElem?_insert_self, rfl⟩
          obtain ⟨record', found', hnone⟩ := found'
          obtain ⟨hspent, halone, hlive⟩ := hafter record' found' hnone
          refine ⟨fun hheld _ => ?_, hspent, halone, hlive⟩
          exact hheld.2 (mem_heldPermits (List.mem_of_getElem? hthread) rfl)
      | settle i panicked => cases panicked <;> simp [Action.tells] at htells
      | finishClaim i panicked => cases panicked <;> simp [Action.tells] at htells
      | _ => simp [Action.tells] at htells
    | _ => simp [handsOut] at hout
  | claimed t outcome =>
    cases outcome with
    | ready q =>
      simp only [handsOut, decide_eq_true_eq] at hout
      subst hout
      rcases step_claimed h with ⟨sampledMs, _, hbegin, _⟩ | ⟨i, sampledMs, _, hfinish, hstate⟩
      · rcases beginClaim_cases (σ.state.commitTime sampledMs.toNat) t
          (σ.state.commitTime sampledMs.toNat).commitWatermarkMs with ⟨outcome, heq, hnot⟩ | ⟨_, _, heq, _⟩
        · rw [heq] at hbegin
          exact absurd (ClaimStart.answered.inj hbegin) (hnot q)
        · rw [heq] at hbegin
          simp at hbegin
      · obtain ⟨hclaiming, old, found, found'⟩ := finishClaim_ready hfinish
        rw [← hstate] at found'
        obtain ⟨hspent, halone, hlive⟩ := hafter _ found' rfl
        refine ⟨fun _ hp => ?_, hspent, halone, hlive⟩
        obtain ⟨old', hold', hticket⟩ := hinv.state.tickets.permit_live (Or.inr hclaiming)
        rw [hp.permits old' hold'] at hticket
        simp at hticket
    | _ => simp [handsOut] at hout
  | _ => simp [handsOut] at hout

/-- A permit was not given out yet, or it was given out once and nobody waits for it any more. -/
inductive CustodyLife (σ : g.System) (p : PermitId) : Nat → Prop
  | notYet : CustodyLife σ p 0
  | givenOut (spent : SpentPermit σ p) (alone : Unawaited σ.state p) : CustodyLife σ p 1

theorem CustodyLife.step (hinv : SysInv σ) (h : g.step σ a = some (σ', e)) {n : Nat} (hlife : CustodyLife σ p n) :
    CustodyLife σ' p (n + if handsOut p e then 1 else 0) := by
  cases hout : handsOut p e with
  | true =>
    have hgiven := hinv.step_handsOut h hout
    cases hlife with
    | notYet => exact .givenOut hgiven.spent hgiven.alone
    | givenOut spent alone => exact absurd alone (hgiven.awaited spent)
  | false =>
    simp only [Bool.false_eq_true, if_false, Nat.add_zero]
    cases hlife with
    | notYet => exact .notYet
    | givenOut spent alone => exact .givenOut (spent.step h) (hinv.step_unawaited h spent alone)

theorem CustodyLife.of_run {trace : List (Action × Event)} (h : Runs.Run g.step g.init trace σ) (p : PermitId) :
    CustodyLife σ p (trace.countP fun l => handsOut p l.2) := by
  generalize hinit : g.init = start at h
  induction h with
  | nil => exact .notYet
  | snoc hrun hstep ih =>
    subst hinit
    have hinv := SysInv.of_reachable ⟨_, hrun⟩
    rw [List.countP_append, List.countP_singleton]
    exact ih.step hinv hstep

/-- Over any run, a permit is given to one caller at most, live and with no ticket left that leads to it;
and once a ticket was answered finally, every later claim or abandonment of it hears that it is not
known, whoever asks. -/
theorem answered_once (g : Governor) (trace : List (Action × Event)) (σ : g.System)
    (h : Runs.Run g.step g.init trace σ) :
    (∀ p, trace.countP (fun l => handsOut p l.2) ≤ 1) ∧
    (∀ t before a e after, trace = before ++ (a, e) :: after → answersFinally t e = true →
      ∀ l ∈ after, answers t l.2 = true → answersUnknown t l.2) ∧
    ∀ a σ' e p, g.step σ a = some (σ', e) → handsOut p e = true →
      (∃ record, σ'.state.permits[p]? = some record ∧ record.pendingTicket = none) ∧
      ∀ t : Ticket, σ'.state.tickets[t]? ≠ some (.granted p) ∧ σ'.state.tickets[t]? ≠ some (.claiming p) := by
  have hinv := SysInv.of_reachable ⟨trace, h⟩
  refine ⟨fun p => ?_, ?_, ?_⟩
  · generalize hn : trace.countP (fun l => handsOut p l.2) = n
    have hlife := CustodyLife.of_run h p
    rw [hn] at hlife
    cases hlife <;> omega
  · rintro t before a e after rfl hfinal
    obtain ⟨σ₁, σ₂, hbefore, hstep, hafter⟩ := h.split_at
    exact (SysInv.of_reachable ⟨before, hbefore⟩).unknown_after hstep hfinal hafter
  · intro a σ' e p hstep hout
    have hgiven := hinv.step_handsOut hstep hout
    have hinv' := hinv.step hstep
    obtain ⟨record, found⟩ := Option.ne_none_iff_exists'.mp hgiven.live
    have hnone := hgiven.alone.permits record found
    have hnobody : ∀ t : Ticket, ¬ (σ'.state.tickets[t]? = some (.granted p) ∨
        σ'.state.tickets[t]? = some (.claiming p)) := by
      intro t hticket
      obtain ⟨record', found', hpending⟩ := hinv'.state.tickets.permit_live hticket
      rw [hgiven.alone.permits record' found'] at hpending
      simp at hpending
    exact ⟨⟨record, found, hnone⟩, fun t => ⟨fun h => hnobody t (Or.inl h), fun h => hnobody t (Or.inr h)⟩⟩

namespace Sample

/-- The first task of the busy sample is done, and the waiter of the second one is claiming it. -/
def claiming : governor.System :=
  (Runs.replay governor.step busy [.releaseLeased ⟨⟨7, 1⟩, 1⟩ 5, .drain 0, .claim ⟨7, 2⟩ 6]).getD busy

end Sample

/-- In the sample the permit is handed over, and its ticket is gone. -/
theorem sample_answered : ∃ σ', Sample.governor.step Sample.claiming (.finishClaim 0 false) =
      some (σ', .claimed ⟨7, 2⟩ (.ready ⟨7, 2⟩)) ∧
    σ'.state.tickets[(⟨7, 2⟩ : Ticket)]? ≠ some (.claiming ⟨7, 2⟩) := by
  have hready : ((Sample.governor.step Sample.claiming (.finishClaim 0 false)).any fun next =>
      decide (next.2 = .claimed ⟨7, 2⟩ (.ready ⟨7, 2⟩))) = true := by decide +kernel
  obtain ⟨⟨σ', e⟩, hstep, hevent⟩ := (Option.any_eq_true _ _).mp hready
  obtain rfl := of_decide_eq_true hevent
  obtain ⟨trace, hrun⟩ : Runs.Reachable Sample.governor.step Sample.busy Sample.claiming :=
    Runs.reachable_replay Sample.busy _
  obtain ⟨whole, hwhole⟩ := (Runs.Reachable.of_restrict Sample.busy_reachable).run hrun
  have hout : handsOut ⟨7, 2⟩ (.claimed ⟨7, 2⟩ (.ready ⟨7, 2⟩)) = true := rfl
  exact ⟨σ', hstep, (((answered_once Sample.governor whole Sample.claiming hwhole).2.2 _ _ _ _ hstep hout).2
    ⟨7, 2⟩).2⟩

end Taskmesh
