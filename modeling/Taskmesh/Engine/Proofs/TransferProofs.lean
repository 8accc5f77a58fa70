import Taskmesh.Engine.Proofs.AnswerProofs

/-!
# The transfer of custody

A claim runs in two sections with host code between them, and anybody else may step in the gap. Whatever they
do, a ticket hands its permit over once; a claim whose permit ended in the gap reports what was recorded for its
ticket; and a claim that a host panic cut short refunds its permit only if no worker leased it.
-/

namespace Taskmesh

open Std MachineInt SetIndex ExtTreeMap TicketBook Governor

variable {g : Governor} {s s' : GovernedState} {σ σ' : g.System} {a : Action} {e : Event} {t : Ticket} {p : PermitId}
  {record : PermitRecord} {i : Nat} {effects : TransitionEffects} {sampledMs : Nat} {nowMs : Nat}

/-! ## Handed over once -/

/-- A claim of the ticket is answered with a permit. -/
def handsOver (t : Ticket) : Event → Bool
  | .claimed t' (.ready _) => decide (t' = t)
  | _ => false

theorem answersFinally_of_handsOver (h : handsOver t e = true) : answersFinally t e = true := by
  cases e with
  | claimed t' outcome =>
    cases outcome with
    | ready p => simpa [handsOver, answersFinally, ClaimOutcome.final] using h
    | _ => simp [handsOver] at h
  | _ => simp [handsOver] at h

/-- A ticket did not hand its permit over yet, or it did once and is gone. -/
inductive TransferLife (σ : g.System) (t : Ticket) : Nat → Prop
  | notYet : TransferLife σ t 0
  | handedOver (spent : SpentTicket σ t) (gone : σ.state.tickets[t]? = none) : TransferLife σ t 1

theorem TransferLife.step (hinv : SysInv σ) (h : g.step σ a = some (σ', e)) {n : Nat} (hlife : TransferLife σ t n) :
    TransferLife σ' t (n + if handsOver t e then 1 else 0) := by
  cases hover : handsOver t e with
  | true =>
    obtain ⟨hpresent, hgone⟩ := hinv.step_final h (answersFinally_of_handsOver hover)
    cases hlife with
    | notYet => exact .handedOver (spentTicket_step (hinv.tickets.spent_of_used ⟨t, hpresent, rfl⟩) h) hgone
    | handedOver spent gone => exact absurd gone hpresent
  | false =>
    simp only [Bool.false_eq_true, if_false, Nat.add_zero]
    cases hlife with
    | notYet => exact .notYet
    | handedOver spent gone =>
      exact .handedOver (spentTicket_step spent h) (hinv.absent_run spent gone (.snoc (.nil σ) h))

theorem TransferLife.of_run {trace : List (Action × Event)} (h : Runs.Run g.step g.init trace σ) (t : Ticket) :
    TransferLife σ t (trace.countP fun l => handsOver t l.2) := by
  generalize hinit : g.init = start at h
  induction h with
  | nil => exact .notYet
  | snoc hrun hstep ih =>
    subst hinit
    have hinv := SysInv.of_reachable ⟨_, hrun⟩
    rw [List.countP_append, List.countP_singleton]
    exact ih.step hinv hstep

/-! ## After the transfer -/

/-- A claim or an abandonment of a ticket that is not there changes nothing but the watermark. -/
theorem step_absent (h : g.step σ a = some (σ', e)) (howner : (callerOf σ a).tickets t)
    (hnone : σ.state.tickets[t]? = none) : ∃ sampledMs, σ'.state = σ.state.commitTime sampledMs := by
  obtain ⟨prepared, hp, rfl, _⟩ := step_eq_some h
  rcases howner with ⟨sampled, rfl⟩ | ⟨sampled, rfl⟩ | ⟨i, panicked, q, effects, sampledMs, rfl, hthread⟩
  · obtain rfl := Option.some.inj hp
    obtain ⟨hstate, _⟩ := finish_startClaim σ t sampled.toNat rfl
    have habsent : (σ.state.commitTime sampled.toNat).tickets[t]? = none := hnone
    refine ⟨sampled.toNat, ?_⟩
    rw [hstate]
    unfold Governor.beginClaim
    rw [habsent]
  · refine ⟨sampled.toNat, ?_⟩
    have habsent : (σ.state.commitTime sampled.toNat).tickets[t]? = none := hnone
    have hnothing : g.abandon (σ.state.commitTime sampled.toNat) t =
        ⟨σ.state.commitTime sampled.toNat, {}, .invalid, false⟩ := by
      unfold Governor.abandon
      rw [habsent]
    rw [step_abandoned h, hnothing]
    rfl
  · refine ⟨sampledMs, ?_⟩
    have habsent : (σ.state.commitTime sampledMs).tickets[t]? = none := hnone
    simp only [Governor.prepare, hthread] at hp
    split at hp
    · simp at hp
    · obtain rfl := Option.some.inj hp
      cases panicked with
      | false =>
        obtain ⟨hstate, _⟩ := finish_endClaim σ i t q sampledMs rfl
        rw [hstate]
        unfold Governor.finishClaim
        rw [habsent]
      | true =>
        have hnothing : compensateClaim (σ.state.commitTime sampledMs) t q =
            ⟨σ.state.commitTime sampledMs, {}, (), false⟩ := by
          unfold Governor.compensateClaim
          rw [habsent]
        unfold Governor.finish Governor.endClaim Governor.locked
        simp only [hnothing, if_true]
        rfl

/-- What a claim that was answered with a permit leaves behind: the permit is live and nobody waits for it, the
ticket is gone, and in every continuation no claim or abandonment of it changes anything but the watermark. -/
structure HandedOver (g : Governor) (σ σ' : g.System) (t : Ticket) (p : PermitId) : Prop where
  awaited : ∃ record, σ.state.permits[p]? = some record ∧ record.pendingTicket = some t
  live : ∃ record, σ'.state.permits[p]? = some record ∧ record.pendingTicket = none
  gone : σ'.state.tickets[t]? = none
  untouched : ∀ trace σ₁, Runs.Run g.step σ' trace σ₁ → ∀ a σ₂ e, (callerOf σ₁ a).tickets t →
    g.step σ₁ a = some (σ₂, e) → ∃ sampledMs, σ₂.state = σ₁.state.commitTime sampledMs

theorem SysInv.handedOver (hinv : SysInv σ) (h : g.step σ a = some (σ', .claimed t (.ready p))) :
    HandedOver g σ σ' t p := by
  obtain ⟨hpresent, hgone⟩ := hinv.step_final h (t := t) (by simp [answersFinally, ClaimOutcome.final])
  have hspent := spentTicket_step (hinv.tickets.spent_of_used ⟨t, hpresent, rfl⟩) h
  have hgiven := hinv.step_handsOut (p := p) h (by simp [handsOut])
  obtain ⟨record, found⟩ := Option.ne_none_iff_exists'.mp hgiven.live
  have hawaited : ∃ record, σ.state.permits[p]? = some record ∧ record.pendingTicket = some t := by
    rcases step_claimed h with ⟨sampledMs, _, hbegin, _⟩ | ⟨i, sampledMs, _, hfinish, _⟩
    · rcases beginClaim_cases (σ.state.commitTime sampledMs.toNat) t
        (σ.state.commitTime sampledMs.toNat).commitWatermarkMs with ⟨outcome, heq, hnot⟩ | ⟨_, _, heq, _⟩
      · rw [heq] at hbegin
        exact absurd (ClaimStart.answered.inj hbegin) (hnot p)
      · rw [heq] at hbegin
        simp at hbegin
    · obtain ⟨hclaiming, _⟩ := finishClaim_ready hfinish
      exact hinv.state.tickets.permit_live (Or.inr hclaiming)
  refine ⟨hawaited, ⟨record, found, hgiven.alone.permits record found⟩, hgone, ?_⟩
  intro trace σ₁ hrun a σ₂ e howner hstep
  exact step_absent hstep howner ((hinv.step h).absent_run hspent hgone hrun)

/-! ## The second section -/

/-- The answer of a claim whose second section finds the state: its permit if the ticket still leads to it, and
else what is recorded for the ticket, or that nothing is any more. -/
inductive Finalized (s : GovernedState) (t : Ticket) (p : PermitId) : ClaimOutcome → Prop
  | transferred {record : PermitRecord} (held : s.tickets[t]? = some (.claiming p))
      (live : s.permits[p]? = some record) (awaited : record.pendingTicket = some t) : Finalized s t p (.ready p)
  | ended {reason : TerminalReason} (recorded : s.tickets[t]? = some (.terminal reason)) :
      Finalized s t p (.terminal reason)
  | discarded (nothing : s.tickets[t]? = none) : Finalized s t p .invalid

theorem SysInv.finalized (hinv : SysInv σ) (hthread : σ.threads[i]? = some (.claiming t p effects sampledMs)) :
    ∃ σ' outcome, g.step σ (.finishClaim i false) = some (σ', .claimed t outcome) ∧ Finalized σ.state t p outcome := by
  have hfinds := (hinv.claims t p effects sampledMs (List.mem_of_getElem? hthread)).2
  have hprepared : Governor.prepare σ (.finishClaim i false) = some (endClaim σ i t p sampledMs false) := by
    simp [Governor.prepare, hthread]
  obtain ⟨_, houtcome⟩ := finish_endClaim σ i t p sampledMs rfl
  refine ⟨_, _, by rw [Governor.step, hprepared, Option.map_some, houtcome], ?_⟩
  rcases hfinds with hclaiming | hterminal | hnone
  · obtain ⟨record, found, hpending⟩ := hinv.state.tickets.permit_live (Or.inr hclaiming)
    have hheld : (σ.state.commitTime sampledMs).tickets[t]? = some (.claiming p) := hclaiming
    have hfound : (σ.state.commitTime sampledMs).permits[p]? = some record := found
    unfold Governor.finishClaim
    simp only [hheld, hfound]
    exact .transferred hclaiming found hpending
  · cases hticket : σ.state.tickets[t]? with
    | none =>
      rw [hticket] at hterminal
      simp [isTerminal] at hterminal
    | some state =>
      cases state with
      | terminal reason =>
        have hrecorded : (σ.state.commitTime sampledMs).tickets[t]? = some (.terminal reason) := hticket
        unfold Governor.finishClaim
        simp only [hrecorded]
        exact .ended hticket
      | _ =>
        rw [hticket] at hterminal
        simp [isTerminal] at hterminal
  · have habsent : (σ.state.commitTime sampledMs).tickets[t]? = none := hnone
    rw [finishClaim_absent habsent]
    exact .discarded hnone

/-! ## A claim cut short -/

theorem terminalSeq_granted (b : TicketBook) (grant : GrantRequest) : (b.granted grant).terminalSeq = b.terminalSeq := by
  unfold TicketBook.granted
  split <;> rfl

/-- A scan records one outcome at most. -/
theorem StateInv.seq_cycle (hinv : StateInv g s) (hload : ticketLoad s < u64Max) (effects : TransitionEffects) :
    (g.terminalizeWaitCycle s effects).state.terminalSeq ≤ s.terminalSeq + 1 := by
  have hseq : s.terminalSeq < u64Max := Nat.lt_of_le_of_lt (terminalSeq_le_load s) hload
  rcases terminalizeWaitCycle_cases g s effects with ⟨_, heq⟩ | ⟨c, index, witness, r, held, _, hr, _, heq⟩
  · rw [heq]
    exact Nat.le_succ _
  · have hactive : isTerminal s.book.tickets[r.ticket]? = false :=
      isTerminal_active (Or.inl ⟨c, hinv.tickets.ticket_of_entry hr⟩)
    have hbase : (g.unserved (s.removedPending c index r) c).book = s.book :=
      (rescheduled_unserved g (s.removedPending c index r) c).tickets
    rw [heq]
    show ((g.unserved (s.removedPending c index r) c).book.recordTerminal _ _).terminalSeq ≤ _
    rw [hbase]
    exact Nat.le_of_eq (recordTerminal_spec hinv.tickets.retains hinv.tickets.bounded hactive hseq).2.2.1

/-- A pass records two outcomes at most: one for each of its scans. -/
theorem StateInv.seq_promote (hinv : StateInv g s) (hload : ticketLoad s < u64Max) (nowMs : Nat) :
    (g.promote s nowMs).1.terminalSeq ≤ s.terminalSeq + 2 := by
  have hnobody : ∀ ids, ¬ Caller.nobody.ids ids := fun _ => id
  have hpass : Moves g Caller.nobody .growing s (g.grantPass s nowMs).state := grantPass_moves g s nowMs
  obtain ⟨_, hinv', hload'⟩ := hpass.rule hnobody hinv hload (P := fun _ => True) (fun _ _ _ _ _ _ => trivial) trivial
  have hfirst := hinv.seq_cycle hload {}
  have hgrants : (g.grantPass s nowMs).state.terminalSeq = (g.terminalizeWaitCycle s {}).state.terminalSeq :=
    book_promoteLoop TicketBook.terminalSeq terminalSeq_granted nowMs promotionBudget _ _ _
  have hlast : (g.lastScan (g.grantPass s nowMs)).state.terminalSeq ≤ (g.grantPass s nowMs).state.terminalSeq + 1 := by
    unfold Governor.lastScan
    split
    · exact hinv'.seq_cycle hload' _
    · exact Nat.le_succ _
  have hread : (g.promote s nowMs).1.terminalSeq = (g.lastScan (g.grantPass s nowMs)).state.terminalSeq := rfl
  omega

/-- A full record spans at least as many numbers as it holds outcomes. -/
theorem FullSince.span {b : TicketBook} {n : Nat} (h : b.FullSince n) (hr : b.Retains) :
    n + maxTerminalTickets < b.terminalSeq := by
  have hsubset : b.terminalOrder.keys.toFinset ⊆ Finset.Ioo n b.terminalSeq := by
    intro m hm
    have hmem : m ∈ b.terminalOrder := by simpa using hm
    obtain ⟨t, ht⟩ := Option.isSome_iff_exists.mp (ExtTreeMap.mem_iff_isSome_getElem?.mp hmem)
    exact Finset.mem_Ioo.mpr ⟨h.newer m t ht, hr.recent m t ht⟩
  have hcard := Finset.card_le_card hsubset
  rw [List.toFinset_card_of_nodup ExtTreeMap.nodup_keys, ExtTreeMap.length_keys, h.full, Nat.card_Ioo] at hcard
  have hmax : maxTerminalTickets = 4096 := rfl
  omega

/-- The outcome recorded right before a pass outlives it. -/
theorem StateInv.promote_keeps_newest (hinv : StateInv g s) (hload : ticketLoad s < u64Max) (nowMs : Nat)
    {reason : TerminalReason} (hterminal : s.tickets[t]? = some (.terminal reason)) {n : Nat}
    (hn : s.book.terminalOrder[n]? = some t) (hnewest : s.terminalSeq = n + 1) :
    (g.promote s nowMs).1.tickets[t]? = some (.terminal reason) := by
  have hnobody : ∀ ids, ¬ Caller.nobody.ids ids := fun _ => id
  have hpass : Moves g Caller.nobody .growing s (g.promote s nowMs).1 := promote_moves g s nowMs
  have hmove : ∀ s₁ s₂, Move g Caller.nobody .growing s₁ s₂ → StateInv g s₁ → ticketLoad s₁ < u64Max →
      s.book.Ages s₁.book ∧ (s₁.tickets[t]? = some (.terminal reason) ∨ s₁.tickets[t]? = none) →
      s.book.Ages s₂.book ∧ (s₂.tickets[t]? = some (.terminal reason) ∨ s₂.tickets[t]? = none) := by
    rintro s₁ s₂ hm hinv₁ hload₁ ⟨hages, hstays⟩
    have hseq₁ : s₁.terminalSeq < u64Max := Nat.lt_of_le_of_lt (terminalSeq_le_load s₁) hload₁
    refine ⟨hages.trans (hm.ages hinv₁.tickets hseq₁ fun _ => id), ?_⟩
    refine (hm.ticketStep hinv₁.queues hinv₁.occupancy hinv₁.tickets hseq₁).2.ticket_rule
      (Q := fun state => state = some (.terminal reason) ∨ state = none) ?_ (fun _ _ _ => Or.inr rfl) hstays
    rintro old new hlife (rfl | rfl)
    · cases hlife with
      | ended reason held => simp at held
      | forgotten final owner => exact Or.inr rfl
    · rcases hlife.of_none with hnew | ⟨ids, hids, _⟩
      · exact Or.inr hnew
      · exact absurd hids (hnobody ids)
  obtain ⟨⟨hages, hstays⟩, hinv', _⟩ := hpass.rule hnobody hinv hload hmove ⟨.of_eq rfl, Or.inl hterminal⟩
  have hseq := hinv.seq_promote hload nowMs
  rcases hages.kept n t hn with hkept | hfull
  · obtain ⟨reason', hreason'⟩ := hinv'.tickets.terminal_of_retained hkept
    rcases hstays with hstays | hgone
    · exact hstays
    · rw [hgone] at hreason'
      simp at hreason'
  · -- It is newer than all but the two outcomes of the pass, so those cannot have filled the record.
    have hspan := FullSince.span hfull hinv'.tickets.retains
    have hread : (g.promote s nowMs).1.book.terminalSeq = (g.promote s nowMs).1.terminalSeq := rfl
    have hmax : maxTerminalTickets = 4096 := rfl
    omega

/-- A claim that was cut short while its ticket leads to its permit: a worker that leased the permit keeps it, else
it ends; and the ticket is answered. -/
theorem compensateClaim_cases (hi : TicketInv s) (hheld : s.tickets[t]? = some (.claiming p)) :
    ∃ record, s.permits[p]? = some record ∧ record.pendingTicket = some t ∧
      ((record.leaseNonce ≠ none ∧ (compensateClaim s t p).promotes = false ∧
          (compensateClaim s t p).state = { s with
            permits := s.permits.insert p { record with pendingTicket := none } }.recordTerminalTicket t
              .claimDeliveryFailed) ∨
        (record.leaseNonce = none ∧ (compensateClaim s t p).promotes = true ∧
          (compensateClaim s t p).state = (s.discharge p record).recordTerminalTicket t .claimDeliveryFailed)) := by
  obtain ⟨record, found, hpending⟩ := hi.permit_live (Or.inr hheld)
  refine ⟨record, found, hpending, ?_⟩
  unfold Governor.compensateClaim
  simp only [hheld]
  rcases releaseWithProofReason_cases s p none .claimDeliveryFailed {} with ⟨hnone, _⟩ |
    ⟨record', found', hleased, heq⟩ | ⟨record', s', effects', found', hfree, hunwind, heq⟩
  · rw [found] at hnone
    simp at hnone
  · obtain rfl := Option.some.inj (found.symm.trans found')
    rw [heq]
    refine Or.inl ⟨hleased, rfl, ?_⟩
    show detachTicket s p t = _
    unfold Governor.detachTicket
    rw [found]
  · obtain rfl := Option.some.inj (found.symm.trans found')
    unfold GovernedState.unwind at hunwind
    simp only [found, hpending, Option.some.injEq, Prod.mk.injEq] at hunwind
    rw [heq, ← hunwind.1]
    exact Or.inr ⟨hfree, rfl, rfl⟩

/-- What the record says of a ticket whose answer was recorded last. -/
theorem TicketInv.recorded_newest (hi : TicketInv s) (s' : GovernedState) (hseq : s.terminalSeq < u64Max)
    (hheld : s.tickets[t]? = some (.claiming p)) (reason : TerminalReason)
    (hbook : s'.book = s.book.recordTerminal t reason) :
    s'.tickets[t]? = some (.terminal reason) ∧ s'.book.terminalOrder[s.terminalSeq]? = some t ∧
      s'.terminalSeq = s.terminalSeq + 1 := by
  have hactive : isTerminal s.book.tickets[t]? = false := isTerminal_active (Or.inr ⟨p, Or.inr hheld⟩)
  obtain ⟨_, _, hnext, hchange⟩ : (s.book.recordTerminal t reason).Retains ∧
      (s.book.recordTerminal t reason).terminalOrder.size ≤ maxTerminalTickets ∧
      (s.book.recordTerminal t reason).terminalSeq = s.book.terminalSeq + 1 ∧
      Changed s.book (s.book.recordTerminal t reason) t (some (.terminal reason)) :=
    recordTerminal_spec hi.retains hi.bounded hactive hseq
  rw [← hbook] at hnext hchange
  have hwritten : s'.book.tickets[t]? = some (.terminal reason) := hchange.written
  refine ⟨hwritten, ?_, hnext⟩
  rcases recordTerminal_cases reason hi.retains hi.bounded hactive hseq with ⟨_, heq⟩ | ⟨m, t₀, _, hm, _, heq⟩
  · rw [hbook, heq]
    exact (getElem_recorded hi.retains).mpr (Or.inl ⟨rfl, rfl⟩)
  · rw [hbook, heq]
    refine getElem_evicted.mpr ⟨fun hsame => ?_, (getElem_recorded hi.retains).mpr (Or.inl ⟨rfl, rfl⟩)⟩
    exact absurd (hi.retains.recent m t₀ hm) (hsame ▸ Nat.lt_irrefl _)

/-- The charges of a permit are returned, each once: the totals of the classes and of the governor sum the live
permits before and after, and so does every gauge of a pool and every attribution of a root that did before; the
permit alone is live no more. -/
structure Refunded (s s' : GovernedState) (p : PermitId) : Prop where
  permits : s'.permits = s.permits.erase p
  before : Books s
  after : Books s'
  pools : ∀ id, PoolExact s id → PoolExact s' id
  roots : ∀ root, RootBooks s root → RootBooks s' root

theorem StateInv.refunded (hinv : StateInv g s) (found : s.permits[p]? = some record) (reason : TerminalReason)
    (hinv' : StateInv g ((s.discharge p record).recordTerminalTicket t reason)) :
    Refunded s ((s.discharge p record).recordTerminalTicket t reason) p where
  permits := rfl
  before := hinv.books
  after := hinv'.books
  pools _ hexact := hexact.discharged found
  roots _ hbooks := (hbooks.discharged hinv.occupancy found).same rfl rfl

/-- A permit that is gone never comes back. -/
theorem SysInv.run_gone (hinv : SysInv σ) (hspent : SpentPermit σ p) (hgone : Gone σ.state p)
    {trace : List (Action × Event)} (hrun : Runs.Run g.step σ trace σ') : Gone σ'.state p := by
  refine (hrun.invariant (P := fun τ : g.System => SysInv τ ∧ SpentPermit τ p ∧ Gone τ.state p) ?_
    ⟨hinv, hspent, hgone⟩).2.2
  intro τ a υ e hτ hstep
  exact ⟨hτ.1.step hstep, hτ.2.1.step hstep, hτ.1.step_gone hstep hτ.2.1 hτ.2.2⟩

/-- What a claim does whose second section comes after a host panic. It refunds the permit if it is still reserved
for dispatch; a leased permit stays with its worker; in both cases the ticket answers that the delivery failed. If
the ticket leads to the permit no more, nothing changes but the watermark. -/
inductive CutShort (g : Governor) (σ σ' : g.System) (t : Ticket) (p : PermitId) : Prop
  | refunded {record : PermitRecord} {s : GovernedState} (held : σ.state.tickets[t]? = some (.claiming p))
      (found : σ.state.permits[p]? = some record) (reserved : record.phase = .dispatchReserved)
      (free : record.leaseNonce = none) (returned : Refunded σ.state s p)
      (passed : Moves g Caller.nobody .growing s σ'.state)
      (never : ∀ trace σ₁, Runs.Run g.step σ' trace σ₁ → σ₁.state.permits[p]? = none)
      (answered : σ'.state.tickets[t]? = some (.terminal .claimDeliveryFailed)) : CutShort g σ σ' t p
  | kept {record : PermitRecord} (held : σ.state.tickets[t]? = some (.claiming p))
      (found : σ.state.permits[p]? = some record) (leased : record.leaseNonce ≠ none)
      (stays : σ'.state.permits[p]? = some { record with pendingTicket := none })
      (answered : σ'.state.tickets[t]? = some (.terminal .claimDeliveryFailed)) : CutShort g σ σ' t p
  | settled (ended : σ.state.tickets[t]? ≠ some (.claiming p)) (sampledMs : Nat)
      (unchanged : σ'.state = σ.state.commitTime sampledMs) : CutShort g σ σ' t p

/-- The state after a claim that was cut short. -/
theorem step_cutShort (hthread : σ.threads[i]? = some (.claiming t p effects sampledMs))
    (h : g.step σ (.finishClaim i true) = some (σ', e)) :
    σ'.state = (g.commit (compensateClaim (σ.state.commitTime sampledMs) t p)
      (σ.state.commitTime sampledMs).commitWatermarkMs).1 := by
  obtain ⟨prepared, hp, rfl, _⟩ := step_eq_some h
  simp only [Governor.prepare, hthread] at hp
  split at hp
  · simp at hp
  · obtain rfl := Option.some.inj hp
    unfold Governor.finish Governor.endClaim Governor.locked Governor.commit
    rfl

theorem SysInv.cutShort (hinv : SysInv σ) (hthread : σ.threads[i]? = some (.claiming t p effects sampledMs))
    (h : g.step σ (.finishClaim i true) = some (σ', e)) : CutShort g σ σ' t p := by
  have hstate := step_cutShort hthread h
  obtain ⟨hinv₀, hseq₀⟩ := hinv.committed sampledMs
  by_cases hheld : σ.state.tickets[t]? = some (.claiming p)
  · obtain ⟨record, found, hpending, ⟨hleased, hpromotes, hsection⟩ | ⟨hfree, hpromotes, hsection⟩⟩ :=
      compensateClaim_cases hinv₀.tickets hheld
    · rw [commit_of_not_promotes _ _ hpromotes, hsection] at hstate
      obtain ⟨hanswered, _⟩ := hinv₀.tickets.recorded_newest ({ (σ.state.commitTime sampledMs) with
          permits := (σ.state.commitTime sampledMs).permits.insert p
            { record with pendingTicket := none } }.recordTerminalTicket t .claimDeliveryFailed)
        hseq₀ hheld .claimDeliveryFailed rfl
      refine .kept hheld found hleased ?_ (hstate ▸ hanswered)
      rw [hstate]
      exact ExtTreeMap.getElem?_insert_self
    · have hreserved : record.phase = .dispatchReserved := by
        obtain ⟨policy, hfits⟩ := hinv₀.permits p record found
        by_contra hphase
        simpa [hfree] using hfits.leased.mpr hphase
      have hunwind : (σ.state.commitTime sampledMs).unwind p .claimDeliveryFailed {} = some
          (((σ.state.commitTime sampledMs).discharge p record).recordTerminalTicket t .claimDeliveryFailed,
            ({} : TransitionEffects).pushWake record.claimWaker) := by
        unfold GovernedState.unwind
        simp only [found, hpending]
      generalize hfreed : ((σ.state.commitTime sampledMs).discharge p record).recordTerminalTicket t
        .claimDeliveryFailed = freed at hunwind hsection
      have hmove : Move g Caller.nobody .shrinking (σ.state.commitTime sampledMs) freed :=
        Move.unwound found (Or.inl hreserved) hunwind
      have hinv₁ := hmove.stateInv hinv₀ hseq₀
      have hload₁ : ticketLoad freed < u64Max :=
        Nat.lt_of_le_of_lt (hmove.load_le (fun _ => id) hinv₀ hseq₀) hinv.terminalSeq_lt
      have hcommit : σ'.state = (g.promote freed (σ.state.commitTime sampledMs).commitWatermarkMs).1 := by
        rw [hstate, Governor.commit, if_pos hpromotes, hsection]
      have hpassed : Moves g Caller.nobody .growing freed σ'.state := by
        rw [hcommit]
        exact promote_moves g _ _
      obtain ⟨hanswered, hplace, hnext⟩ := hinv₀.tickets.recorded_newest freed hseq₀ hheld .claimDeliveryFailed
        (by rw [← hfreed]; rfl)
      refine .refunded (s := freed) hheld found hreserved hfree ?_ hpassed ?_ ?_
      · subst hfreed
        have hreturned := hinv₀.refunded found .claimDeliveryFailed hinv₁
        exact ⟨hreturned.permits, hinv.state.books, hreturned.after, hreturned.pools,
          fun root hbooks => hreturned.roots root (hbooks.same rfl rfl)⟩
      · have hspent := (hinv.spent_live found).step h
        have hgone : Gone freed p := by
          rcases (hmove.effect hinv₀.queues).permit hinv₀.occupancy found with ⟨record', found', _⟩ | ⟨hgone, _⟩
          · rw [← hfreed] at found'
            have herased : (((σ.state.commitTime sampledMs).discharge p record).recordTerminalTicket t
                .claimDeliveryFailed).permits[p]? = none := ExtTreeMap.getElem?_erase_self
            rw [herased] at found'
            simp at found'
          · exact hgone
        have hover : Gone σ'.state p := (hpassed.rule (fun _ => id) hinv₁ hload₁ (P := fun s => Gone s p)
          (fun _ _ hm hinv₂ hload₂ hgone₂ => (hm.effect hinv₂.queues).gone hinv₂.occupancy
            (hm.stateInv hinv₂ (Nat.lt_of_le_of_lt (terminalSeq_le_load _) hload₂)).occupancy
            (fun ids hids => absurd hids id) hgone₂) hgone).1
        exact fun trace σ₁ hrun => ((hinv.step h).run_gone hspent hover hrun).live
      · rw [hcommit]
        exact hinv₁.promote_keeps_newest hload₁ _ hanswered hplace hnext
  · refine .settled hheld sampledMs ?_
    have hnot : (σ.state.commitTime sampledMs).tickets[t]? ≠ some (.claiming p) := hheld
    have hfinds := (hinv.claims t p effects sampledMs (List.mem_of_getElem? hthread)).2
    have hnothing : compensateClaim (σ.state.commitTime sampledMs) t p =
        ⟨σ.state.commitTime sampledMs, {}, (), false⟩ := by
      unfold Governor.compensateClaim
      split
      · rename_i q hclaiming
        have hclaiming' : σ.state.tickets[t]? = some (.claiming q) := hclaiming
        rcases hfinds with hp | hterminal | hnone
        · exact absurd hp hheld
        · rw [hclaiming'] at hterminal
          simp [isTerminal] at hterminal
        · rw [hclaiming'] at hnone
          simp at hnone
      · rfl
    rw [hstate, hnothing]
    rfl

/-! ## Over any run -/

/-- A ticket transfers custody at most once, whatever anybody does between the two sections of its claims. Over any
run one claim of it at most is answered with a permit, which is live then, while the ticket is gone and no later
claim or abandonment of it changes anything; the second section of a claim hands the permit over, or tells what is
recorded for the ticket, or that nothing is any more, but never that it is pending; and after a host panic it takes
back a permit that is still reserved for dispatch, with all its charges, and no other. -/
theorem custody_transfers_once (g : Governor) (trace : List (Action × Event)) (σ : g.System)
    (h : Runs.Run g.step g.init trace σ) :
    (∀ t, trace.countP (fun l => handsOver t l.2) ≤ 1) ∧
    (∀ a σ' t p, g.step σ a = some (σ', .claimed t (.ready p)) → HandedOver g σ σ' t p) ∧
    ∀ i t p effects sampledMs, σ.threads[i]? = some (.claiming t p effects sampledMs) →
      (∃ σ' outcome, g.step σ (.finishClaim i false) = some (σ', .claimed t outcome) ∧
        Finalized σ.state t p outcome) ∧
      ∀ σ' e, g.step σ (.finishClaim i true) = some (σ', e) → CutShort g σ σ' t p := by
  have hinv := SysInv.of_reachable ⟨trace, h⟩
  refine ⟨fun t => ?_, fun a σ' t p hstep => hinv.handedOver hstep, fun i t p effects sampledMs hthread =>
    ⟨hinv.finalized hthread, fun σ' e hstep => hinv.cutShort hthread hstep⟩⟩
  generalize hn : trace.countP (fun l => handsOver t l.2) = n
  have hlife := TransferLife.of_run h t
  rw [hn] at hlife
  cases hlife <;> omega

namespace Sample

/-- The first task is done; the second one, whose waiter is to be woken, was promoted and is being claimed. -/
def delivering : governor.System :=
  (Runs.replay governor.step governor.init
    (admission (.admitSpec (task "a")) ++ admission (.admitWaitable (task "b") ⟨9⟩) ++
      [.advancePhase ⟨7, 1⟩ .running, .releaseLeased ⟨⟨7, 1⟩, 1⟩ 5, .drain 0, .claim ⟨7, 2⟩ 6])).getD governor.init

/-- The call is between the two sections of a claim of the ticket for the permit. -/
def claims (t : Ticket) (p : PermitId) : Thread governor.policy → Bool
  | .claiming t' p' _ _ => decide (t' = t) && decide (p' = p)
  | _ => false

theorem delivering_claims : ∃ effects sampledMs,
    delivering.threads[0]? = some (.claiming ⟨7, 2⟩ ⟨7, 2⟩ effects sampledMs) := by
  have hclaims : (delivering.threads[0]?.any (claims ⟨7, 2⟩ ⟨7, 2⟩)) = true := by decide +kernel
  obtain ⟨thread, hthread, hclaiming⟩ := (Option.any_eq_true _ _).mp hclaims
  cases thread with
  | claiming t p effects sampledMs =>
    obtain ⟨rfl, rfl⟩ : t = ⟨7, 2⟩ ∧ p = ⟨7, 2⟩ := by simpa [claims] using hclaiming
    exact ⟨effects, sampledMs, hthread⟩
  | _ => simp [claims] at hclaiming

end Sample

/-- In the sample the claim in progress hands the permit over; a panic of the waiter refunds it instead. -/
theorem sample_transfer : ∃ σ' outcome σ'',
    Sample.governor.step Sample.delivering (.finishClaim 0 false) = some (σ', .claimed ⟨7, 2⟩ outcome) ∧
    Finalized Sample.delivering.state ⟨7, 2⟩ ⟨7, 2⟩ outcome ∧
    Sample.governor.step Sample.delivering (.finishClaim 0 true) = some (σ'', .panicked) ∧
    CutShort Sample.governor Sample.delivering σ'' ⟨7, 2⟩ ⟨7, 2⟩ ∧
    σ''.state.permits[(⟨7, 2⟩ : PermitId)]?.isNone = true := by
  obtain ⟨trace, hrun⟩ : Runs.Reachable Sample.governor.step Sample.governor.init Sample.delivering :=
    Runs.reachable_replay Sample.governor.init _
  obtain ⟨effects, sampledMs, hthread⟩ := Sample.delivering_claims
  obtain ⟨⟨σ', outcome, hstep, hfinalized⟩, hcut⟩ := (custody_transfers_once Sample.governor trace Sample.delivering
    hrun).2.2 0 ⟨7, 2⟩ ⟨7, 2⟩ effects sampledMs hthread
  have hpanics : ((Sample.governor.step Sample.delivering (.finishClaim 0 true)).any fun next =>
      decide (next.2 = .panicked) && next.1.state.permits[(⟨7, 2⟩ : PermitId)]?.isNone) = true := by decide +kernel
  obtain ⟨⟨σ'', e⟩, hpanic, hafter⟩ := (Option.any_eq_true _ _).mp hpanics
  obtain ⟨hevent, hgone⟩ := Bool.and_eq_true_iff.mp hafter
  obtain rfl := of_decide_eq_true hevent
  exact ⟨σ', outcome, σ'', hstep, hfinalized, hpanic, hcut σ'' _ hpanic, hgone⟩

end Taskmesh
