import Taskmesh.Engine.Proofs.BudgetProofs
import Taskmesh.Engine.Proofs.GateProofs
import Taskmesh.Engine.Proofs.IdleProofs

/-!
# The retention of terminal answers

An answer that its waiter has not looked at leaves the record only when newer answers fill it. Giving up a
granted ticket records an outcome and forgets it at once: when the record was full, that costs the oldest
answer and leaves the record one short, unless a wait cycle found by the promotion pass takes the place.
-/

namespace Taskmesh

open Std MachineInt QueueFamily ExtTreeMap TicketBook Governor

variable {g : Governor} {caller : Caller} {s s' : GovernedState} {σ σ' : g.System} {a : Action} {e : Event}
  {t : Ticket} {p : PermitId} {nowMs : Nat}

/-! ## Every move that forgets nothing -/

/-- An outcome recorded for a ticket that was not terminal. -/
theorem TicketInv.recorded_ages (hi : TicketInv s) (hseq : s.terminalSeq < u64Max)
    (hold : (∃ c, s.tickets[t]? = some (.queued c)) ∨
      ∃ p, s.tickets[t]? = some (.granted p) ∨ s.tickets[t]? = some (.claiming p))
    (reason : TerminalReason) (hbook : s'.book = s.book.recordTerminal t reason) : s.book.Ages s'.book := by
  have hactive : isTerminal s.book.tickets[t]? = false := isTerminal_active hold
  rw [hbook]
  exact recordTerminal_ages hi.retains hi.bounded hactive hseq

theorem ages_of_book (hbook : s'.book = s.book) : s.book.Ages s'.book :=
  .of_eq (congrArg TicketBook.terminalOrder hbook)

/-- A move on behalf of nobody's ticket lets the record age. -/
theorem Move.ages {trend : Trend} (h : Move g caller trend s s') (hi : TicketInv s)
    (hseq : s.terminalSeq < u64Max) (hsilent : ∀ t, ¬ caller.tickets t) : s.book.Ages s'.book := by
  cases h with
  | rescheduled h => exact ages_of_book h.tickets
  | flagged _ pending => exact .of_eq rfl
  | closed => exact .of_eq rfl
  | faulted _ what allowed => exact ages_of_book (memoryOnly_recordAccountingFault s what).tickets
  | admitted nowMs allowed accepted runnable => exact .of_eq rfl
  | @enqueued _ tagged policy c request ids blockers waker nowMs tags allowed accepted blocked room hres
      sound =>
    refine .of_eq ?_
    have horder : tagged.terminalOrder = s.terminalOrder := congrArg TicketBook.terminalOrder hres.tickets
    rw [← show tagged.terminalOrder = s.book.terminalOrder from horder]
    unfold GovernedState.commitPending
    simp only
    split <;> rfl
  | promoted nowMs h =>
    obtain ⟨c, policy, index, r, head, chosen, served, hpromotes⟩ := promoteStep_some h
    refine .of_eq ?_
    rw [hpromotes.book]
  | @cycled _ c index witness r held h found first =>
    refine hi.recorded_ages hseq (Or.inl ⟨c, hi.ticket_of_entry found⟩) (.irreversibleWaitCycle held) ?_
    have hbase : (g.unserved (s.removedPending c index r) c).book = s.book :=
      (rescheduled_unserved g (s.removedPending c index r) c).tickets
    show (g.unserved (s.removedPending c index r) c).book.recordTerminal _ _ = _
    rw [hbase]
  | @cancelled _ c index r ticket h found same owner => exact absurd owner (hsilent ticket)
  | lost h missing owner => exact absurd owner (hsilent _)
  | @faultedHead _ c r found =>
    refine .of_eq ?_
    show ((s.removedPending c 0 r).vacateOf r).book.terminalOrder = _
    rw [book_vacateOf]
    rfl
  | @unwound _ _ p record reason effects effects' found ends h =>
    unfold GovernedState.unwind at h
    rw [found] at h
    simp only at h
    cases hticket : record.pendingTicket with
    | none =>
      rw [hticket] at h
      simp only [Option.some.injEq, Prod.mk.injEq] at h
      rw [← h.1]
      exact .of_eq rfl
    | some t =>
      rw [hticket] at h
      simp only [Option.some.injEq, Prod.mk.injEq] at h
      rw [← h.1]
      exact hi.recorded_ages hseq (Or.inr ⟨p, (hi.held t p).mpr ⟨record, found, hticket⟩⟩) _ rfl
  | claimBegun nowMs h found owner => exact absurd owner (hsilent _)
  | transferred nowMs h found owner => exact absurd owner (hsilent _)
  | @detached _ ticket p record h found leased =>
    refine hi.recorded_ages hseq (Or.inr ⟨p, Or.inr h⟩) .claimDeliveryFailed ?_
    unfold Governor.detachTicket
    rw [found]
    rfl
  | expired h gone => exact hi.recorded_ages hseq (Or.inr ⟨_, Or.inr h⟩) .released rfl
  | orphaned h gone owner => exact absurd owner (hsilent _)
  | forgot _ ticket owner => exact absurd owner (hsilent ticket)
  | advanced nonces found later => exact .of_eq rfl
  | @recharged _ p record ledger allowed found change =>
    exact ages_of_book (memoryOnly_rechargePermit s p record ledger).tickets

/-- So does a whole path that takes no identity. -/
theorem Path.ages (h : Path g caller s s') (hids : ∀ ids, ¬ caller.ids ids)
    (hsilent : ∀ t, ¬ caller.tickets t) (hinv : StateInv g s) (hload : ticketLoad s < u64Max) :
    s.book.Ages s'.book := by
  refine (h.invariant (P := fun s' => (StateInv g s' ∧ ticketLoad s' ≤ ticketLoad s) ∧ s.book.Ages s'.book) ?_
    ⟨⟨hinv, Nat.le_refl _⟩, .of_eq rfl⟩).2
  rintro trend s₁ s₂ hmove ⟨⟨hinv₁, hle⟩, hages⟩
  have hseq : s₁.terminalSeq < u64Max := by
    have := terminalSeq_le_load s₁
    omega
  exact ⟨⟨hmove.stateInv hinv₁ hseq, Nat.le_trans (hmove.load_le hids hinv₁ hseq) hle⟩,
    hages.trans (hmove.ages hinv₁.tickets hseq hsilent)⟩

/-! ## Answers of other waiters -/

/-- What a step does to the answer of a waiter that neither claims nor abandons in it: the answer stays, or
newer answers fill the record. -/
def AnswersKept (σ : g.System) (a : Action) (σ' : g.System) : Prop :=
  ∀ (t : Ticket) reason, σ.state.tickets[t]? = some (.terminal reason) → ¬ (callerOf σ a).tickets t →
    σ'.state.tickets[t]? = some (.terminal reason) ∨
      σ'.state.tickets[t]? = none ∧
        ∃ n : Nat, σ.state.terminalIndex[t]? = some n ∧ σ'.state.book.FullSince n

/-- An answer stays as it is, or is gone. -/
theorem SysInv.step_answer (hinv : SysInv σ) (h : g.step σ a = some (σ', e)) {reason : TerminalReason}
    (hterminal : σ.state.tickets[t]? = some (.terminal reason)) :
    σ'.state.tickets[t]? = some (.terminal reason) ∨ σ'.state.tickets[t]? = none := by
  have hspent : SpentTicket σ t := hinv.tickets.spent_of_used ⟨t, by rw [hterminal]; simp, rfl⟩
  refine hinv.step_ticket h (Q := fun state => state = some (.terminal reason) ∨ state = none) ?_
    (fun _ _ _ => Or.inr rfl) (Or.inl hterminal)
  rintro old new hlife (rfl | rfl)
  · cases hlife with
    | ended reason held => simp at held
    | forgotten final owner => exact Or.inr rfl
  · rcases hlife.of_none with hnew | ⟨ids, hids, heq⟩
    · exact Or.inr hnew
    · exact absurd heq (SysInv.not_brought hspent hids)

/-- A final answer has its place in the record. -/
theorem TicketInv.terminal_index (hi : TicketInv s) {reason : TerminalReason}
    (hterminal : s.tickets[t]? = some (.terminal reason)) :
    ∃ n : Nat, s.terminalIndex[t]? = some n ∧ s.book.terminalOrder[n]? = some t := by
  have hindex : s.book.terminalIndex[t]? ≠ none := by
    rw [← hi.retains.terminal, show s.book.tickets[t]? = _ from hterminal]
    rfl
  obtain ⟨n, hn⟩ := Option.ne_none_iff_exists'.mp hindex
  exact ⟨n, hn, (hi.retains.inverse t n).mp hn⟩

/-- What has a number in the record is an answer. -/
theorem TicketInv.terminal_of_retained (hi : TicketInv s) {n : Nat} (hn : s.book.terminalOrder[n]? = some t) :
    ∃ reason, s.tickets[t]? = some (.terminal reason) := by
  have hterminal : isTerminal s.tickets[t]? = true := by
    refine (hi.retains.terminal t).mpr ?_
    rw [(hi.retains.inverse t n).mpr hn]
    simp
  revert hterminal
  cases s.tickets[t]? with
  | none => simp [isTerminal]
  | some state => cases state <;> simp [isTerminal]

/-- What holds of every number in the record holds of the answers. -/
theorem SysInv.answersKept (hinv : SysInv σ) (h : g.step σ a = some (σ', e))
    (hkept : ∀ (n : Nat) t, σ.state.terminalOrder[n]? = some t →
      σ'.state.terminalOrder[n]? = some t ∨ σ'.state.book.FullSince n) : AnswersKept σ a σ' := by
  intro t reason hterminal _
  obtain ⟨n, hindex, horder⟩ := hinv.state.tickets.terminal_index hterminal
  rcases hinv.step_answer h hterminal with hstays | hgone
  · exact Or.inl hstays
  · rcases hkept n t horder with hkept | hfull
    · obtain ⟨reason', hreason'⟩ := (hinv.step_state h).tickets.terminal_of_retained hkept
      rw [hgone] at hreason'
      simp at hreason'
    · exact Or.inr ⟨hgone, n, hindex, hfull⟩

/-- An answer that is out of a record with room left is lost. -/
theorem SysInv.answer_lost (hinv : SysInv σ) (h : g.step σ a = some (σ', e)) {n : Nat}
    (hn : σ.state.terminalOrder[n]? = some t) (howner : ¬ (callerOf σ a).tickets t)
    (hgone : ∀ m : Nat, σ'.state.terminalOrder[m]? ≠ some t)
    (hroom : σ'.state.terminalOrder.size ≠ maxTerminalTickets) : ¬ AnswersKept σ a σ' := by
  intro hkept
  obtain ⟨reason, hreason⟩ := hinv.state.tickets.terminal_of_retained hn
  rcases hkept t reason hreason howner with hstays | ⟨_, n', _, hfull⟩
  · obtain ⟨m, _, hm⟩ := (hinv.step_state h).tickets.terminal_index hstays
    exact hgone m hm
  · exact hroom hfull.full

/-! ## Steps that give up no ticket -/

/-- A step that owns no ticket keeps every answer, or fills the record with newer ones. -/
theorem SysInv.silent_kept (hinv : SysInv σ) (h : g.step σ a = some (σ', e))
    (hsilent : ∀ t, ¬ (callerOf σ a).tickets t) : AnswersKept σ a σ' :=
  hinv.answersKept h (hinv.step_rule h (P := fun s => σ.state.book.Ages s.book)
    (fun _ _ _ hm hinv₁ hseq hages => hages.trans (hm.ages hinv₁.tickets hseq hsilent)) (.of_eq rfl)).kept

/-! ## Claims -/

theorem tickets_forgetTerminalTicket (hi : TicketInv s) {t' : Ticket} (hne : t' ≠ t) :
    (s.forgetTerminalTicket t).tickets[t']? = s.tickets[t']? := by
  refine ((forgetTerminal_spec (t := t) hi.retains).2.2 t').trans (if_neg ?_)
  exact fun hboth => hne hboth.1

theorem tickets_setTicket {t' : Ticket} {state : TicketState} (hne : t' ≠ t) :
    (s.setTicket t state).tickets[t']? = s.tickets[t']? := by
  show (s.tickets.insert t state)[t']? = _
  simp [ExtTreeMap.getElem?_insert, Ne.symm hne]

theorem tickets_removeTicket {t' : Ticket} (hne : t' ≠ t) :
    (s.removeTicket t).tickets[t']? = s.tickets[t']? := by
  show (s.tickets.erase t)[t']? = _
  simp [ExtTreeMap.getElem?_erase, Ne.symm hne]

/-- The beginning of a claim touches its own ticket only. -/
theorem beginClaim_others (hi : TicketInv s) (nowMs : Nat) {t' : Ticket} (hne : t' ≠ t) :
    (beginClaim s t nowMs).1.tickets[t']? = s.tickets[t']? := by
  unfold Governor.beginClaim
  split
  · split
    · rfl
    · exact tickets_setTicket hne
  · rfl
  · rfl
  · exact tickets_forgetTerminalTicket hi hne
  · exact tickets_forgetTerminalTicket hi hne
  · rfl

/-- So does its end. -/
theorem finishClaim_others (hi : TicketInv s) (nowMs : Nat) {t' : Ticket} (hne : t' ≠ t) :
    (finishClaim s t nowMs).1.tickets[t']? = s.tickets[t']? := by
  unfold Governor.finishClaim
  split
  · rename_i p hclaiming
    obtain ⟨record, hrecord, _⟩ := hi.permit_live (Or.inr hclaiming)
    rw [hrecord]
    exact tickets_removeTicket hne
  · exact tickets_forgetTerminalTicket hi hne
  · exact tickets_forgetTerminalTicket hi hne
  · rfl
  · rfl
  · rfl

/-- A step that leaves every other ticket alone keeps every other answer. -/
theorem answersKept_of_others (howner : (callerOf σ a).tickets t)
    (hothers : ∀ t', t' ≠ t → σ'.state.tickets[t']? = σ.state.tickets[t']?) : AnswersKept σ a σ' := by
  intro t' reason hterminal hnot
  have hne : t' ≠ t := by
    rintro rfl
    exact hnot howner
  exact Or.inl ((hothers t' hne).trans hterminal)

/-- A claim takes its own answer at most. -/
theorem SysInv.claim_kept (hinv : SysInv σ) {sampledMs : UInt64}
    (h : g.step σ (.claim t sampledMs) = some (σ', e)) : AnswersKept σ (.claim t sampledMs) σ' := by
  obtain ⟨p, hp, rfl, rfl⟩ := step_eq_some h
  simp only [Governor.prepare, Option.some.injEq] at hp
  subst hp
  obtain ⟨hinv₁, _⟩ := hinv.committed sampledMs.toNat
  exact answersKept_of_others (Or.inl ⟨sampledMs, rfl⟩) fun t' hne => beginClaim_others hinv₁.tickets _ hne

/-- A claim that ends settles its own ticket only. -/
theorem SysInv.finishClaim_kept (hinv : SysInv σ) {i : Nat} {panicked : Bool}
    (h : g.step σ (.finishClaim i panicked) = some (σ', e)) : AnswersKept σ (.finishClaim i panicked) σ' := by
  have hstep := h
  obtain ⟨prepared, hp, rfl, rfl⟩ := step_eq_some h
  simp only [Governor.prepare] at hp
  split at hp
  · rename_i ticket p effects sampledMs hthread
    have howner : (callerOf σ (.finishClaim i panicked)).tickets ticket :=
      Or.inr (Or.inr ⟨i, panicked, p, effects, sampledMs, rfl, hthread⟩)
    obtain ⟨hinv₁, _⟩ := hinv.committed sampledMs
    split at hp
    · simp at hp
    · simp only [Option.some.injEq] at hp
      subst hp
      unfold Governor.endClaim
      cases panicked with
      | false => exact answersKept_of_others howner fun t' hne => finishClaim_others hinv₁.tickets _ hne
      | true =>
        -- The compensation ends a permit and records the outcome; it forgets nothing.
        have hpath : Path g { Caller.nobody with custody := fun _ proof => proof = none } σ.state
            (finish (endClaim σ i ticket p sampledMs true)).state := by
          refine commit_path _ _ (path_commitTime (compensateClaim_path ?_ rfl))
          exact hinv.ready.claims ticket p effects sampledMs (List.mem_of_getElem? hthread)
        exact hinv.answersKept hstep (hpath.ages (fun _ hids => hids) (fun _ howns => howns) hinv.state
          hinv.terminalSeq_lt).kept
  · simp at hp

/-! ## An abandoned ticket -/

/-- Neither scan of a promotion pass finds a wait cycle. -/
def EndsNoCycle (g : Governor) (s : GovernedState) (nowMs : Nat) : Prop :=
  g.findCycle s = none ∧
    ((g.grantPass s nowMs).changed = true → g.findCycle (g.grantPass s nowMs).state = none)

/-- Giving up the ticket takes an outcome out of a full record: its permit is granted and not leased, and no
wait cycle takes the place when the permit is gone. -/
def Displaces (g : Governor) (s : GovernedState) (t : Ticket) : Prop :=
  ∃ p record, (s.tickets[t]? = some (.granted p) ∨ s.tickets[t]? = some (.claiming p)) ∧
    s.permits[p]? = some record ∧ record.leaseNonce = none ∧ s.terminalOrder.size = maxTerminalTickets ∧
    EndsNoCycle g (s.discharge p record) s.commitWatermarkMs

theorem terminalOrder_granted (b : TicketBook) (grant : GrantRequest) :
    (b.granted grant).terminalOrder = b.terminalOrder := by
  unfold TicketBook.granted
  split <;> rfl

/-- Grants leave alone what they do not write in the tickets' book. -/
theorem book_promoteLoop {β : Type} (f : TicketBook → β) (hf : ∀ b grant, f (TicketBook.granted b grant) = f b)
    (nowMs slots : Nat) (s : GovernedState) (effects : TransitionEffects) (changed : Bool) :
    f (g.promoteLoop nowMs slots s effects changed).state.book = f s.book := by
  induction slots generalizing s effects changed with
  | zero => rfl
  | succ slots ih =>
    have hbook := book_promoteStep (g := g) nowMs s
    unfold Governor.promoteLoop
    cases hround : g.promoteStep nowMs s with
    | mk s₁ grant =>
      rw [hround] at hbook
      cases grant with
      | none => exact congrArg f hbook
      | some grant => exact (ih s₁ _ true).trans ((congrArg f hbook).trans (hf _ grant))

/-- Grants record no outcome. -/
theorem terminalOrder_promoteLoop (nowMs slots : Nat) (s : GovernedState) (effects : TransitionEffects)
    (changed : Bool) :
    (g.promoteLoop nowMs slots s effects changed).state.terminalOrder = s.terminalOrder :=
  book_promoteLoop TicketBook.terminalOrder terminalOrder_granted nowMs slots s effects changed

/-- The grants of a pass do not depend on the record of outcomes. -/
theorem promoteLoop_stamped (nowMs slots : Nat) (s : GovernedState) (book : TicketBook) (pending : Bool)
    (effects : TransitionEffects) (changed : Bool) :
    ∃ book', (g.promoteLoop nowMs slots (s.stamped book pending) effects changed).state =
        (g.promoteLoop nowMs slots s effects changed).state.stamped book' pending ∧
      (g.promoteLoop nowMs slots (s.stamped book pending) effects changed).changed =
        (g.promoteLoop nowMs slots s effects changed).changed := by
  induction slots generalizing s book effects changed with
  | zero => exact ⟨book, rfl, rfl⟩
  | succ slots ih =>
    unfold Governor.promoteLoop
    rw [promoteStep_stamped]
    cases hround : g.promoteStep nowMs s with
    | mk s₁ grant =>
      cases grant with
      | none => exact ⟨book, rfl, rfl⟩
      | some grant =>
        obtain ⟨book', hstate, hchanged⟩ := ih s₁ (book.granted grant) (effects.pushWake grant.claimWaker)
          true
        exact ⟨book', hstate, hchanged⟩

theorem terminalizeWaitCycle_of_none (hnone : g.findCycle s = none) (effects : TransitionEffects) :
    g.terminalizeWaitCycle s effects = ⟨s, effects, false⟩ := by
  unfold Governor.terminalizeWaitCycle
  rw [hnone]

/-- Without a cycle at its start a pass is its grant loop. -/
theorem grantPass_of_none (hnone : g.findCycle s = none) (nowMs : Nat) :
    g.grantPass s nowMs = g.promoteLoop nowMs promotionBudget s {} false := by
  unfold Governor.grantPass
  rw [terminalizeWaitCycle_of_none hnone]

/-- The two scans do not read the record. -/
theorem endsNoCycle_stamped (s : GovernedState) (book : TicketBook) (pending : Bool) (nowMs : Nat) :
    EndsNoCycle g (s.stamped book pending) nowMs ↔ EndsNoCycle g s nowMs := by
  unfold EndsNoCycle
  rw [findCycle_stamped]
  refine and_congr_right fun hnone => ?_
  have hnone' : g.findCycle (s.stamped book pending) = none := (findCycle_stamped s).trans hnone
  rw [grantPass_of_none hnone, grantPass_of_none hnone']
  obtain ⟨book', hstate, hchanged⟩ := promoteLoop_stamped (g := g) nowMs promotionBudget s book pending {} false
  rw [hstate, hchanged, findCycle_stamped]

/-- The grants of a pass leave the record alone; only its scans write it. -/
theorem book_promote (s : GovernedState) (nowMs : Nat) :
    (g.promote s nowMs).1.book = (g.lastScan (g.grantPass s nowMs)).state.book := rfl

/-- A pass that finds no cycle leaves the record as it is. -/
theorem EndsNoCycle.promote (h : EndsNoCycle g s nowMs) :
    (g.promote s nowMs).1.book.terminalOrder = s.book.terminalOrder := by
  have hloop : (g.grantPass s nowMs).state.terminalOrder = s.terminalOrder := by
    rw [grantPass_of_none h.1 nowMs]
    exact terminalOrder_promoteLoop nowMs promotionBudget s {} false
  have hlast : g.lastScan (g.grantPass s nowMs) =
      ⟨(g.grantPass s nowMs).state, (g.grantPass s nowMs).effects, false⟩ := by
    unfold Governor.lastScan
    split
    · rename_i hchanged
      exact terminalizeWaitCycle_of_none (h.2 hchanged) _
    · rfl
  rw [book_promote, hlast]
  exact hloop

/-- A wait cycle fills the place that was left. -/
theorem StateInv.fullSince_cycle (hinv : StateInv g s) (hseq : s.terminalSeq < u64Max)
    (hsize : s.terminalOrder.size + 1 = maxTerminalTickets) {n : Nat}
    (hnewer : ∀ (m : Nat) t, s.terminalOrder[m]? = some t → n < m) (hfound : g.findCycle s ≠ none)
    (effects : TransitionEffects) : (g.terminalizeWaitCycle s effects).state.book.FullSince n := by
  rcases terminalizeWaitCycle_cases g s effects with ⟨hnone, _⟩ | ⟨c, index, witness, r, held, _, hr, _, heq⟩
  · exact absurd hnone hfound
  · have hactive : isTerminal s.book.tickets[r.ticket]? = false :=
      isTerminal_active (Or.inl ⟨c, hinv.tickets.ticket_of_entry hr⟩)
    have hbase : (g.unserved (s.removedPending c index r) c).book = s.book :=
      (rescheduled_unserved g (s.removedPending c index r) c).tickets
    rw [heq]
    show ((g.unserved (s.removedPending c index r) c).book.recordTerminal _ _).FullSince n
    rw [hbase]
    exact fullSince_recordTerminal hinv.tickets.retains hsize hnewer hactive hseq

/-- A pass that ends a wait cycle fills a record that lacked one outcome. -/
theorem promote_of_cycle (hinv : StateInv g s) (hload : ticketLoad s < u64Max)
    (hsize : s.terminalOrder.size + 1 = maxTerminalTickets) {n : Nat}
    (hnewer : ∀ (m : Nat) t, s.terminalOrder[m]? = some t → n < m) (hends : ¬ EndsNoCycle g s nowMs) :
    (g.promote s nowMs).1.book.FullSince n := by
  have hseq : s.terminalSeq < u64Max := Nat.lt_of_le_of_lt (terminalSeq_le_load s) hload
  have hids : ∀ ids, ¬ Caller.nobody.ids ids := fun _ hids => hids
  by_cases hnone : g.findCycle s = none
  · -- The last scan finds the cycle: the grants left the record as it was.
    obtain ⟨hchanged, hfound⟩ : (g.grantPass s nowMs).changed = true ∧
        g.findCycle (g.grantPass s nowMs).state ≠ none := by
      by_contra hnot
      refine hends ⟨hnone, fun hchanged => ?_⟩
      by_contra hfound
      exact hnot ⟨hchanged, hfound⟩
    have horder : (g.grantPass s nowMs).state.terminalOrder = s.terminalOrder := by
      rw [grantPass_of_none hnone]
      exact terminalOrder_promoteLoop nowMs promotionBudget s {} false
    have hpath : Path g Caller.nobody s (g.grantPass s nowMs).state :=
      (Path.of_shrinking .refl).then_growing (grantPass_moves g s nowMs)
    obtain ⟨hinv', hload'⟩ := hpath.stateInv hids hinv hload
    have hseq' := Nat.lt_of_le_of_lt (terminalSeq_le_load (g.grantPass s nowMs).state)
      (Nat.lt_of_le_of_lt hload' hload)
    have hfull := hinv'.fullSince_cycle hseq' (horder ▸ hsize) (horder ▸ hnewer) hfound
      (g.grantPass s nowMs).effects
    have hlast : g.lastScan (g.grantPass s nowMs) =
        g.terminalizeWaitCycle (g.grantPass s nowMs).state (g.grantPass s nowMs).effects := by
      unfold Governor.lastScan
      rw [if_pos hchanged]
    rw [book_promote, hlast]
    exact hfull
  · -- The first scan finds it, and the rest of the pass lets the record age.
    have hfull := hinv.fullSince_cycle hseq hsize hnewer hnone {}
    have hfirst : Path g Caller.nobody s (g.terminalizeWaitCycle s {}).state :=
      (Path.of_shrinking .refl).then_growing (terminalizeWaitCycle_moves g s {})
    obtain ⟨hinv', hload'⟩ := hfirst.stateInv hids hinv hload
    have hrest : Path g Caller.nobody (g.terminalizeWaitCycle s {}).state (g.promote s nowMs).1 :=
      (Path.of_shrinking .refl).then_growing
        (((promoteLoop_moves g nowMs _ _ _ _).trans (lastScan_moves g _)).tail (Move.flagged _ _))
    exact (hrest.ages hids (fun _ howns => howns) hinv' (Nat.lt_of_le_of_lt hload' hload)).full n hfull

/-- Giving up a promoted permit: a worker that leased it keeps it, else it ends. -/
theorem abandonGranted_cases (hi : TicketInv s)
    (hticket : s.tickets[t]? = some (.granted p) ∨ s.tickets[t]? = some (.claiming p)) :
    ∃ record, s.permits[p]? = some record ∧
      ((record.leaseNonce ≠ none ∧ (abandonGranted s t p).state = s ∧
          (abandonGranted s t p).promotes = false) ∨
        (record.leaseNonce = none ∧ (abandonGranted s t p).promotes = true ∧
          (abandonGranted s t p).state = (s.discharge p record).stamped
            ((s.book.recordTerminal t .abandoned).forgetTerminal t) s.promotionPending)) := by
  obtain ⟨record, found, hpending⟩ := hi.permit_live hticket
  refine ⟨record, found, ?_⟩
  unfold Governor.abandonGranted
  rcases releaseWithProofReason_cases s p none .abandoned {} with ⟨hnone, _⟩ | ⟨record', found', hleased, heq⟩ |
    ⟨record', s', effects', found', hfree, hunwind, heq⟩
  · rw [found] at hnone
    simp at hnone
  · rw [found] at found'
    obtain rfl := Option.some.inj found'
    rw [heq]
    exact Or.inl ⟨hleased, rfl, rfl⟩
  · rw [found] at found'
    obtain rfl := Option.some.inj found'
    unfold GovernedState.unwind at hunwind
    simp only [found, hpending, Option.some.injEq, Prod.mk.injEq] at hunwind
    rw [heq, ← hunwind.1]
    exact Or.inr ⟨hfree, rfl, rfl⟩

theorem terminalOrder_cancelQueued (s : GovernedState) (c : TaskClass) (t : Ticket) :
    (cancelQueued s c t).1.terminalOrder = s.terminalOrder := by
  unfold Governor.cancelQueued
  split
  · rfl
  · rename_i index hindex
    obtain ⟨hlt, _, _⟩ := List.findIdx?_eq_some_iff_getElem.mp hindex
    rw [GovernedState.removePending_of_getElem (List.getElem?_eq_getElem hlt)]
    show (((s.removedPending c index _).removeTicket t).vacateOf _).book.terminalOrder = _
    rw [book_vacateOf]
    rfl

/-- Giving up a ticket without a permit: the other tickets stay, or a queued request leaves the queues, which
is followed by a pass. -/
theorem abandon_ungranted (hi : TicketInv s)
    (hnot : ∀ p, ¬ (s.tickets[t]? = some (.granted p) ∨ s.tickets[t]? = some (.claiming p))) :
    ((g.abandon s t).promotes = false ∧
        ∀ t', t' ≠ t → (g.abandon s t).state.tickets[t']? = s.tickets[t']?) ∨
      ((g.abandon s t).promotes = true ∧ (g.abandon s t).state.terminalOrder = s.terminalOrder) := by
  unfold Governor.abandon
  split
  · rename_i p hgranted
    exact absurd (Or.inl hgranted) (hnot p)
  · rename_i p hclaiming
    exact absurd (Or.inr hclaiming) (hnot p)
  · rename_i c _
    have hunserved : (g.unserved (cancelQueued s c t).1 c).book = (cancelQueued s c t).1.book :=
      (rescheduled_unserved g _ c).tickets
    exact Or.inr ⟨rfl, (congrArg TicketBook.terminalOrder hunserved).trans (terminalOrder_cancelQueued s c t)⟩
  · exact Or.inl ⟨rfl, fun t' hne => tickets_forgetTerminalTicket hi hne⟩
  · exact Or.inl ⟨rfl, fun t' hne => tickets_forgetTerminalTicket hi hne⟩
  · exact Or.inl ⟨rfl, fun _ _ => rfl⟩

/-- Giving up a granted ticket ends its permit. -/
theorem abandon_granted (hticket : s.tickets[t]? = some (.granted p) ∨ s.tickets[t]? = some (.claiming p)) :
    g.abandon s t = abandonGranted s t p := by
  unfold Governor.abandon
  rcases hticket with hticket | hticket <;> rw [hticket]

/-- An abandonment is its section and the pass after it. -/
theorem step_abandoned {sampledMs : UInt64} (h : g.step σ (.abandon t sampledMs) = some (σ', e)) :
    σ'.state = (g.commit (g.abandon (σ.state.commitTime sampledMs.toNat) t)
      (σ.state.commitTime sampledMs.toNat).commitWatermarkMs).1 := by
  obtain ⟨p, hp, rfl, rfl⟩ := step_eq_some h
  simp only [Governor.prepare, Option.some.injEq] at hp
  subst hp
  rfl

/-- What the step of an abandoned ticket is made of: its section on the state `s`, and a pass after it where
the section ends with one. -/
structure Abandons (σ σ' : g.System) (s : GovernedState) (t : Ticket) : Prop where
  tickets : s.tickets = σ.state.tickets
  order : s.terminalOrder = σ.state.terminalOrder
  start : StateInv g s
  seq : s.terminalSeq < u64Max
  middle : StateInv g (g.abandon s t).state
  load : ticketLoad (g.abandon s t).state < u64Max
  passed : (g.abandon s t).promotes = true →
    σ'.state.book = (g.promote (g.abandon s t).state s.commitWatermarkMs).1.book
  quiet : (g.abandon s t).promotes = false → σ'.state = (g.abandon s t).state

/-- What the proofs below need of the state in which a ticket is given up. -/
theorem SysInv.abandons (hinv : SysInv σ) {sampledMs : UInt64}
    (h : g.step σ (.abandon t sampledMs) = some (σ', e)) :
    Abandons σ σ' (σ.state.commitTime sampledMs.toNat) t := by
  have hstate := step_abandoned h
  obtain ⟨hs, hseq⟩ := hinv.committed sampledMs.toNat
  have hpath : Path g (callerOf σ (.abandon t sampledMs)) (σ.state.commitTime sampledMs.toNat)
      (g.abandon (σ.state.commitTime sampledMs.toNat) t).state :=
    abandon_path _ t (fun _ => Or.inl rfl) (Or.inr (Or.inl ⟨sampledMs, rfl⟩))
  obtain ⟨hmid, hload⟩ := hpath.stateInv (fun ids ⟨_, _, _, hcontra, _⟩ => by simp at hcontra) hs
    hinv.terminalSeq_lt
  refine ⟨rfl, rfl, hs, hseq, hmid, Nat.lt_of_le_of_lt hload hinv.terminalSeq_lt, fun hpromotes => ?_,
    fun hpromotes => ?_⟩
  · rw [hstate, Governor.commit, if_pos hpromotes]
  · rw [hstate, Governor.commit, hpromotes]
    rfl

/-- The pass after the section lets the record age. -/
theorem Abandons.kept (h : Abandons σ σ' s t) (hpromotes : (g.abandon s t).promotes = true) {m : Nat}
    {t' : Ticket} (hm : (g.abandon s t).state.terminalOrder[m]? = some t') :
    σ'.state.terminalOrder[m]? = some t' ∨ σ'.state.book.FullSince m := by
  have hpass : Path g Caller.nobody (g.abandon s t).state
      (g.promote (g.abandon s t).state s.commitWatermarkMs).1 :=
    (Path.of_shrinking .refl).then_growing (promote_moves g _ _)
  have hages := hpass.ages (fun _ hids => hids) (fun _ howns => howns) h.middle h.load
  rw [← h.passed hpromotes] at hages
  exact hages.kept m t' hm

/-- A section that leaves the record as it was keeps every answer. -/
theorem Abandons.unchanged (h : Abandons σ σ' s t) (hinv : SysInv σ) (hstep : g.step σ a = some (σ', e))
    (hpromotes : (g.abandon s t).promotes = true)
    (horder : (g.abandon s t).state.terminalOrder = s.terminalOrder) : AnswersKept σ a σ' := by
  refine hinv.answersKept hstep fun m t' hm => h.kept hpromotes ?_
  rw [horder, h.order]
  exact hm

/-- The oldest outcome of a full record is gone when the section of an abandoned permit is over. -/
structure Displaced (s s' : GovernedState) (n : Nat) (t₀ : Ticket) : Prop where
  full : s.terminalOrder.size = maxTerminalTickets
  oldest : s.terminalOrder[n]? = some t₀
  first : ∀ (m : Nat) t', s.terminalOrder[m]? = some t' → n ≤ m
  erased : s'.terminalOrder = s.terminalOrder.erase n

/-- All outcomes but the oldest are still there. -/
theorem Displaced.retained {n m : Nat} {t₀ t' : Ticket} (h : Displaced s s' n t₀) :
    s'.terminalOrder[m]? = some t' ↔ n ≠ m ∧ s.terminalOrder[m]? = some t' := by
  have hevicted : (s.book.evicted n t₀).terminalOrder[m]? = some t' ↔ n ≠ m ∧ s.terminalOrder[m]? = some t' :=
    getElem_evicted
  rw [h.erased]
  exact hevicted

/-- A record that gave up its oldest outcome has room for one. -/
theorem Displaced.size {n : Nat} {t₀ : Ticket} (h : Displaced s s' n t₀) :
    s'.terminalOrder.size + 1 = maxTerminalTickets := by
  rw [h.erased, ← h.full]
  exact size_evicted (b := s.book) h.oldest

/-- What is left is newer than the one given up. -/
theorem Displaced.newer {n : Nat} {t₀ : Ticket} (h : Displaced s s' n t₀) (m : Nat) (t' : Ticket)
    (hm : s'.terminalOrder[m]? = some t') : n < m := by
  obtain ⟨hne, hm⟩ := h.retained.mp hm
  exact Nat.lt_of_le_of_ne (h.first m t' hm) hne

/-- Without a wait cycle in the pass the oldest answer is lost, and the record is one short. -/
theorem Abandons.lost (h : Abandons σ σ' s t) {n : Nat} {t₀ : Ticket}
    (hpromotes : (g.abandon s t).promotes = true) (hd : Displaced s (g.abandon s t).state n t₀)
    (hends : EndsNoCycle g (g.abandon s t).state s.commitWatermarkMs) :
    σ.state.terminalOrder[n]? = some t₀ ∧ (∀ m : Nat, σ'.state.terminalOrder[m]? ≠ some t₀) ∧
      σ'.state.terminalOrder.size + 1 = maxTerminalTickets := by
  have hlast : σ'.state.terminalOrder = (g.abandon s t).state.terminalOrder :=
    (congrArg TicketBook.terminalOrder (h.passed hpromotes)).trans hends.promote
  refine ⟨h.order ▸ hd.oldest, fun m hm => ?_, hlast ▸ hd.size⟩
  rw [hlast] at hm
  obtain ⟨hne, hm⟩ := hd.retained.mp hm
  have hindex := (h.start.tickets.retains.inverse t₀ n).mpr hd.oldest
  rw [(h.start.tickets.retains.inverse t₀ m).mpr hm] at hindex
  exact hne (Option.some.inj hindex).symm

/-- A wait cycle in the pass fills the record again: then the lost answer made room for it. -/
theorem Abandons.filled (h : Abandons σ σ' s t) (hinv : SysInv σ) (hstep : g.step σ a = some (σ', e))
    {n : Nat} {t₀ : Ticket} (hpromotes : (g.abandon s t).promotes = true)
    (hd : Displaced s (g.abandon s t).state n t₀)
    (hends : ¬ EndsNoCycle g (g.abandon s t).state s.commitWatermarkMs) : AnswersKept σ a σ' := by
  have hfilled : σ'.state.book.FullSince n := by
    rw [h.passed hpromotes]
    exact promote_of_cycle h.middle h.load hd.size hd.newer hends
  refine hinv.answersKept hstep fun m t' hm => ?_
  by_cases hnm : n = m
  · exact Or.inr (hnm ▸ hfilled)
  · exact h.kept hpromotes (hd.retained.mpr ⟨hnm, h.order ▸ hm⟩)

/-- The section of an abandoned permit that no worker leased. -/
theorem abandon_freed (hinv : StateInv g s) (hseq : s.terminalSeq < u64Max)
    (hticket : s.tickets[t]? = some (.granted p) ∨ s.tickets[t]? = some (.claiming p)) {record : PermitRecord}
    (hfreed : (g.abandon s t).state = (s.discharge p record).stamped
      ((s.book.recordTerminal t .abandoned).forgetTerminal t) s.promotionPending) :
    (s.terminalOrder.size < maxTerminalTickets ∧ (g.abandon s t).state.terminalOrder = s.terminalOrder) ∨
      ∃ n t₀, Displaced s (g.abandon s t).state n t₀ := by
  have hold : isTerminal s.book.tickets[t]? = false := isTerminal_active (Or.inr ⟨p, hticket⟩)
  rw [hfreed]
  rcases forgetTerminal_recordTerminal .abandoned hinv.tickets.retains hinv.tickets.bounded hold hseq
    with ⟨hroom, horder⟩ | ⟨n, t₀, hfull, hn, hfirst, horder⟩
  · exact Or.inl ⟨hroom, horder⟩
  · exact Or.inr ⟨n, t₀, hfull, hn, hfirst, horder⟩

/-- The condition speaks about the permit of the ticket, whichever way it is found. -/
theorem Displaces.unique {record : PermitRecord} (h : Displaces g s t)
    (hticket : s.tickets[t]? = some (.granted p) ∨ s.tickets[t]? = some (.claiming p))
    (found : s.permits[p]? = some record) :
    record.leaseNonce = none ∧ s.terminalOrder.size = maxTerminalTickets ∧
      EndsNoCycle g (s.discharge p record) s.commitWatermarkMs := by
  obtain ⟨p', record', hticket', found', hrest⟩ := h
  obtain rfl : p' = p := by
    rcases hticket with hticket | hticket <;> rcases hticket' with hticket' | hticket' <;>
      · rw [hticket] at hticket'
        simpa using hticket'.symm
  rw [found] at found'
  obtain rfl := Option.some.inj found'
  exact hrest

/-- The caller of an abandoned ticket gives up that ticket alone. -/
theorem abandon_owner {sampledMs : UInt64} {t' : Ticket}
    (h : (callerOf σ (.abandon t sampledMs)).tickets t') : t' = t := by
  rcases h with ⟨_, hclaim⟩ | ⟨_, habandon⟩ | ⟨_, _, _, _, _, hfinish, _⟩
  · simp at hclaim
  · simpa using (Action.abandon.inj habandon).1.symm
  · simp at hfinish

/-- An abandoned permit takes an answer out of a full record. -/
theorem SysInv.displaces_lost (hinv : SysInv σ) {sampledMs : UInt64}
    (h : g.step σ (.abandon t sampledMs) = some (σ', e))
    (hd : Displaces g (σ.state.commitTime sampledMs.toNat) t) :
    ∃ (n : Nat) (t₀ : Ticket), t₀ ≠ t ∧ σ.state.terminalOrder[n]? = some t₀ ∧
      (∀ m : Nat, σ'.state.terminalOrder[m]? ≠ some t₀) ∧
      σ'.state.terminalOrder.size + 1 = maxTerminalTickets := by
  have hab := hinv.abandons h
  obtain ⟨p, record, hticket, found, hfree, hfull, hends⟩ := hd
  obtain ⟨record', found', hcases⟩ := abandonGranted_cases hab.start.tickets hticket
  rw [found] at found'
  obtain rfl := Option.some.inj found'
  rw [← abandon_granted (g := g) hticket] at hcases
  rcases hcases with ⟨hleased, _⟩ | ⟨_, hpromotes, hfreed⟩
  · exact absurd hfree hleased
  · rcases abandon_freed hab.start hab.seq hticket hfreed with ⟨hroom, _⟩ | ⟨n, t₀, hdisplaced⟩
    · exact absurd hfull (Nat.ne_of_lt hroom)
    · have hends' : EndsNoCycle g (g.abandon (σ.state.commitTime sampledMs.toNat) t).state
          (σ.state.commitTime sampledMs.toNat).commitWatermarkMs := by
        rw [hfreed]
        exact (endsNoCycle_stamped _ _ _ _).mpr hends
      refine ⟨n, t₀, ?_, hab.lost hpromotes hdisplaced hends'⟩
      rintro rfl
      have hold := isTerminal_active (Or.inr ⟨p, hticket⟩)
      exact hab.start.tickets.retains.not_retained hold n hdisplaced.oldest

/-- Every other abandonment keeps the answers of the other waiters. -/
theorem SysInv.abandon_kept (hinv : SysInv σ) {sampledMs : UInt64}
    (h : g.step σ (.abandon t sampledMs) = some (σ', e))
    (hnot : ¬ Displaces g (σ.state.commitTime sampledMs.toNat) t) :
    AnswersKept σ (.abandon t sampledMs) σ' := by
  have hab := hinv.abandons h
  have howner : (callerOf σ (.abandon t sampledMs)).tickets t := Or.inr (Or.inl ⟨sampledMs, rfl⟩)
  generalize σ.state.commitTime sampledMs.toNat = s at hab hnot
  by_cases hgranted : ∃ p, s.tickets[t]? = some (.granted p) ∨ s.tickets[t]? = some (.claiming p)
  · obtain ⟨p, hticket⟩ := hgranted
    obtain ⟨record, found, hcases⟩ := abandonGranted_cases hab.start.tickets hticket
    rw [← abandon_granted (g := g) hticket] at hcases
    rcases hcases with ⟨_, hstays, hquiet⟩ | ⟨hfree, hpromotes, hfreed⟩
    · refine answersKept_of_others howner fun t' _ => ?_
      rw [hab.quiet hquiet, hstays, hab.tickets]
    · rcases abandon_freed hab.start hab.seq hticket hfreed with ⟨_, horder⟩ | ⟨n, t₀, hdisplaced⟩
      · exact hab.unchanged hinv h hpromotes horder
      · refine hab.filled hinv h hpromotes hdisplaced fun hends => hnot ?_
        rw [hfreed] at hends
        exact ⟨p, record, hticket, found, hfree, hdisplaced.full, (endsNoCycle_stamped _ _ _ _).mp hends⟩
  · rcases abandon_ungranted (g := g) hab.start.tickets fun p hp => hgranted ⟨p, hp⟩ with ⟨hquiet, hothers⟩ |
      ⟨hpromotes, horder⟩
    · refine answersKept_of_others howner fun t' hne => ?_
      rw [hab.quiet hquiet, hothers t' hne, hab.tickets]
    · exact hab.unchanged hinv h hpromotes horder

/-! ## Every operation -/

/-- In every reachable state, an operation keeps the answers of the waiters that neither claim nor abandon in
it, or drops them for newer ones that fill the record, exactly when it does not give up an unleased permit
while the record is full and no wait cycle takes the place. -/
theorem answers_kept_iff (g : Governor) (σ : g.System) (hreach : g.Reachable σ) (a : Action) (σ' : g.System)
    (e : Event) (h : g.step σ a = some (σ', e)) :
    AnswersKept σ a σ' ↔
      ¬ ∃ t sampledMs, a = .abandon t sampledMs ∧ Displaces g (σ.state.commitTime sampledMs.toNat) t := by
  have hinv := SysInv.of_reachable hreach
  constructor
  · rintro hkept ⟨t, sampledMs, rfl, hd⟩
    obtain ⟨n, t₀, hne, hn, hgone, hsize⟩ := hinv.displaces_lost h hd
    refine hinv.answer_lost h hn (fun howns => hne (abandon_owner howns)) hgone ?_ hkept
    omega
  · intro hnot
    by_cases hsilent : ∀ t, ¬ (callerOf σ a).tickets t
    · exact hinv.silent_kept h hsilent
    · push Not at hsilent
      obtain ⟨t, ⟨sampledMs, rfl⟩ | ⟨sampledMs, rfl⟩ | ⟨i, panicked, p, effects, sampledMs, rfl, _⟩⟩ := hsilent
      · exact hinv.claim_kept h
      · exact hinv.abandon_kept h fun hd => hnot ⟨t, sampledMs, rfl, hd⟩
      · exact hinv.finishClaim_kept h

/-- Without awaited children no pass finds a wait cycle. -/
theorem NoneAwaited.endsNoCycle (h : NoneAwaited s) (nowMs : Nat) : EndsNoCycle g s nowMs := by
  refine ⟨h.findCycle, fun _ => ?_⟩
  rw [grantPass_of_none h.findCycle]
  exact (h.loop promotionBudget {} false).findCycle

/-! ## The next in line -/

/-- Nothing is granted where nobody waits. -/
theorem promoteStep_of_empty (hempty : ∀ c, s.waiting c = []) (nowMs : Nat) :
    g.promoteStep nowMs s = (s, none) := by
  rcases promoteStep_cases g nowMs s with ⟨_, heq⟩ | ⟨_, _, c, _, _, _, _, _, _, _, hpromotes⟩
  · exact heq
  · have hmem := mem_waiting_of_getElem hpromotes.queued
    rw [hempty c] at hmem
    simp at hmem

/-- An empty queue awaits nobody. -/
theorem noneAwaited_of_empty (hempty : ∀ c, s.waiting c = []) : NoneAwaited s := by
  refine noneAwaited_iff.mpr fun c r hr => ?_
  rw [hempty c] at hr
  simp at hr

/-- In an idle state with a single waiting request one grant empties the queues. -/
theorem Idle.hands_over (hidle : Idle s) (hinv : StateInv g s) (hfault : s.accountingFault = none)
    {c : TaskClass} {r : PendingRequest} (hqueue : (s.cls c).queue = [r])
    (hothers : ∀ c', c' ≠ c → (s.cls c').queue = []) (nowMs : Nat) :
    ∃ granted grant policy index head chosen served,
      Promotes g nowMs s granted grant c policy index r head chosen served ∧
      g.GrantsAll nowMs s [grant] granted ∧ ∀ c', granted.waiting c' = [] := by
  have hrun : hasRunnable s g.policy = true :=
    hinv.queues.hasRunnable_iff.mpr ⟨c, r, hidle.runnable hinv hfault hqueue⟩
  rcases promoteStep_cases g nowMs s with ⟨hstuck, _⟩ | ⟨granted, grant, c₀, policy, index, r₀, head, chosen,
    served, hround, hpromotes⟩
  · rw [hrun] at hstuck
    simp at hstuck
  · have hqueued := hpromotes.queued
    obtain rfl : c₀ = c := by
      by_contra hc
      rw [hothers c₀ hc] at hqueued
      simp at hqueued
    rw [hqueue] at hqueued
    obtain ⟨rfl, rfl⟩ : index = 0 ∧ r = r₀ := by simpa [List.getElem?_singleton] using hqueued
    have hempty : ∀ c', granted.waiting c' = [] := by
      intro c'
      have hremoved := hpromotes.removed
      rw [← hpromotes.waiting_eq] at hremoved
      by_cases hc : c' = c₀
      · subst hc
        rw [hremoved.rest]
        simp [GovernedState.waiting, ClassState.queueHalf, hqueue]
      · rw [hremoved.other c' hc]
        simp [GovernedState.waiting, ClassState.queueHalf, hothers c' hc]
    exact ⟨granted, grant, policy, 0, head, chosen, served, hpromotes,
      .grant hround (.done (promoteStep_of_empty hempty nowMs)), hempty⟩

/-- A release that ends its permit, and its pass. -/
theorem step_release_ends (sampledMs : UInt64) {freed : GovernedState} {effects : TransitionEffects}
    (hsection : releaseWithProof (σ.state.commitTime sampledMs.toNat) p none = ⟨freed, effects, .released, true⟩) :
    g.step σ (.release p sampledMs) = some
      ({ σ with
          state := (g.promote freed (σ.state.commitTime sampledMs.toNat).commitWatermarkMs).1
          threads := σ.threads ++ [.draining (effects.absorb
            (g.promote freed (σ.state.commitTime sampledMs.toNat).commitWatermarkMs).2) sampledMs.toNat] },
        .released p .released) := by
  have hprepared : Governor.prepare σ (.release p sampledMs) = some (operation σ sampledMs.toNat
      (fun s _ => releaseWithProof s p none) (.released p)) := rfl
  unfold Governor.step
  rw [hprepared]
  unfold Governor.operation Governor.locked Governor.finish Governor.commit
  simp only [hsection, Option.map_some, if_true]

/-- What the end of a permit leaves alone, and what it records. -/
theorem unwind_records {record : PermitRecord} (found : s.permits[p]? = some record) {reason : TerminalReason}
    {effects effects' : TransitionEffects} (h : s.unwind p reason effects = some (s', effects')) :
    s.SameFlags s' ∧ effects'.moreRunnable = effects.moreRunnable ∧
      s'.book = match record.pendingTicket with
        | some t => s.book.recordTerminal t reason
        | none => s.book := by
  unfold GovernedState.unwind at h
  simp only [found] at h
  cases hticket : record.pendingTicket with
  | none =>
    simp only [hticket, Option.some.injEq, Prod.mk.injEq] at h
    obtain ⟨rfl, rfl⟩ := h
    exact ⟨⟨rfl, rfl, rfl⟩, rfl, rfl⟩
  | some t =>
    simp only [hticket, Option.some.injEq, Prod.mk.injEq] at h
    obtain ⟨rfl, rfl⟩ := h
    exact ⟨⟨rfl, rfl, rfl⟩, rfl, rfl⟩

/-- A release that no other call interrupts: the permit ends, the pass makes every grant there is, and the
call has nothing left to do. -/
structure ReleasedAlone (g : Governor) (σ : g.System) (p : PermitId) (freed : GovernedState) : Prop where
  unwinds : ∃ effects, (σ.state.commitTime 0).unwind p .released {} = some (freed, effects)
  path : Path g { Caller.nobody with custody := fun _ proof => proof = none } (σ.state.commitTime 0) freed
  inv : StateInv g freed
  passes : ∀ grants granted, NoneAwaited freed → grants.length ≤ promotionBudget →
    g.GrantsAll (σ.state.commitTime 0).commitWatermarkMs freed grants granted →
      (∃ σ', g.step σ (.release p 0) = some (σ', .released p .released) ∧ σ'.state = granted.flagged false) ∧
        g.Reachable { σ with state := granted.flagged false }

/-- A permit that nobody leased can be released in one step, and its pass makes every grant there is. -/
theorem released_alone (p : PermitId) (record : PermitRecord) (hreach : g.Reachable σ) (hthreads : σ.threads = [])
    (found : σ.state.permits[p]? = some record) (hfree : record.leaseNonce = none) :
    ∃ freed, ReleasedAlone g σ p freed := by
  have hinv := SysInv.of_reachable hreach
  obtain ⟨hstart, _⟩ := hinv.committed 0
  have hfound : (σ.state.commitTime 0).permits[p]? = some record := found
  obtain ⟨freed, effects, hunwind⟩ := unwind_isSome hfound .released {}
  have hsection : releaseWithProof (σ.state.commitTime 0) p none = ⟨freed, effects, .released, true⟩ := by
    unfold Governor.releaseWithProof GovernedState.releaseWithProofReason
    simp only [hfound, hfree, hunwind]
    rfl
  have hpath : Path g { Caller.nobody with custody := fun _ proof => proof = none } (σ.state.commitTime 0)
      freed := by
    have hreleased : Path g { Caller.nobody with custody := fun _ proof => proof = none } (σ.state.commitTime 0)
        (Governor.releaseWithProof (σ.state.commitTime 0) p none).state := releaseWithProof_path _ _ _ rfl
    rw [hsection] at hreleased
    exact hreleased
  obtain ⟨hfreed, _⟩ := hpath.stateInv (fun _ hids => hids) hstart hinv.terminalSeq_lt
  refine ⟨freed, ⟨effects, hunwind⟩, hpath, hfreed, ?_⟩
  intro grants granted hnone hlength hall
  obtain ⟨cut, _, _, hrest, hstate, hpass⟩ := hnone.promoteWithin hall promotionBudget
  have hcut : ¬ promotionBudget < grants.length := Nat.not_lt.mpr hlength
  rw [List.drop_of_length_le hlength] at hrest
  cases hrest
  simp only [hcut, decide_false] at hstate hpass
  obtain ⟨_, hmore, _⟩ := unwind_records hfound hunwind
  let last : TransitionEffects :=
    effects.absorb (g.promote freed (σ.state.commitTime 0).commitWatermarkMs).2
  let returning : g.System := { σ with state := granted.flagged false, threads := [.draining last 0] }
  have hstep : g.step σ (.release p 0) = some (returning, .released p .released) := by
    have hends := step_release_ends 0 hsection
    have hstate' : (g.promote freed (σ.state.commitTime 0).commitWatermarkMs).1 = granted.flagged false := hstate
    simp only [UInt64.toNat_zero, hstate', hthreads, List.nil_append] at hends
    exact hends
  have hlast : last.moreRunnable = false := by
    show (effects.moreRunnable || (g.promote freed _).2.moreRunnable) = false
    rw [hmore]
    exact hpass
  have hdone : g.step returning (.drain 0) = some ({ returning with threads := [] }, .progressed) :=
    step_drain_done rfl hlast
  refine ⟨⟨returning, hstep, rfl⟩, ?_⟩
  have hreached := (hreach.next hstep).next hdone
  rw [← hthreads] at hreached
  exact hreached

/-- When the only live permit is released, the only waiting request gets one, and nothing is left to do. -/
theorem hands_over (p : PermitId) (record : PermitRecord) (hreach : g.Reachable σ) (hthreads : σ.threads = [])
    (found : σ.state.permits[p]? = some record) (halone : ∀ q ∈ σ.state.permits, q = p)
    (hfree : record.leaseNonce = none) (hfault : σ.state.accountingFault = none) {c : TaskClass}
    {r : PendingRequest} (hqueue : σ.state.waiting c = [r])
    (hothers : ∀ c', c' ≠ c → σ.state.waiting c' = []) (hroot : r.scope.isAwaitedChild = false) :
    ∃ freed granted grant nowMs policy index first head chosen served,
      (∃ effects, (σ.state.commitTime 0).unwind p .released {} = some (freed, effects)) ∧
      Promotes g nowMs freed granted grant c policy index first head chosen served ∧ first.untagged = r ∧
      (∀ c', granted.waiting c' = []) ∧ g.Reachable { σ with state := granted.flagged false } := by
  obtain ⟨freed, hreleased⟩ := released_alone p record hreach hthreads found hfree
  obtain ⟨effects, hunwind⟩ := hreleased.unwinds
  have hidle : Idle freed := by
    intro q hq
    rw [permits_unwind hunwind, ExtTreeMap.mem_erase] at hq
    obtain rfl : q = p := halone q hq.2
    simp at hq
  have hqueues : ∀ c', freed.waiting c' = σ.state.waiting c' := fun c' => (sameQueues_unwind hunwind).waiting_eq c'
  have hfound : (σ.state.commitTime 0).permits[p]? = some record := found
  obtain ⟨hflags, _, _⟩ := unwind_records hfound hunwind
  obtain ⟨first, hfirst, hsame⟩ : ∃ first, (freed.cls c).queue = [first] ∧ first.untagged = r := by
    have hmap : (freed.cls c).queue.map PendingRequest.untagged = [r] := (hqueues c).trans hqueue
    simpa [List.map_eq_singleton_iff] using hmap
  have hrest : ∀ c', c' ≠ c → (freed.cls c').queue = [] := fun c' hc =>
    List.map_eq_nil_iff.mp ((hqueues c').trans (hothers c' hc))
  have hnone : NoneAwaited freed := by
    refine noneAwaited_iff.mpr fun c' r' hr' => ?_
    rw [hqueues c'] at hr'
    by_cases hc : c' = c
    · subst hc
      rw [hqueue, List.mem_singleton] at hr'
      rw [hr', hroot]
    · rw [hothers c' hc] at hr'
      simp at hr'
  obtain ⟨granted, grant, policy, index, head, chosen, served, hpromotes, hall, hempty⟩ :=
    hidle.hands_over hreleased.inv (hflags.fault.trans hfault) hfirst hrest _
  obtain ⟨_, hreached⟩ := hreleased.passes [grant] granted hnone (by simp [promotionBudget]) hall
  exact ⟨freed, granted, grant, _, policy, index, first, head, chosen, served, ⟨effects, hunwind⟩, hpromotes,
    hsame, hempty, hreached⟩

/-! ## A full record of unclaimed permits -/

namespace Relay

/-- The names of tasks that follow each other. -/
def operationOf (m : Nat) : String := if m % 2 = 0 then "a" else "b"

def work : TaskClass := ⟨"work"⟩

theorem operationOf_succ (m : Nat) : operationOf (m + 1) ≠ operationOf m := by
  unfold operationOf
  rcases Nat.mod_two_eq_zero_or_one m with hm | hm
  · have hnext : (m + 1) % 2 = 1 := by omega
    simp [hm, hnext]
  · have hnext : (m + 1) % 2 = 0 := by omega
    simp [hm, hnext]

theorem valid_task (m : Nat) : validateTaskSpec (Sample.task (operationOf m)) = .ok () := by
  unfold operationOf
  split <;> decide +kernel

/-- What the admission of the `m`-th task hands to the lock. -/
def intake (m : Nat) : Intake Sample.governor.policy where
  request := ⟨Sample.task (operationOf m), CapabilityRequirementSet.empty⟩
  waker := none
  valid := valid_task m
  registered := registeredWith_empty _

theorem preflight_task (m : Nat) :
    preflight Sample.governor.policy (.admitSpec (Sample.task (operationOf m))) = .ok (intake m) :=
  preflight_admitSpec (valid_task m) rfl (registeredWith_empty _)

/-- The permit of the `m`-th task: all but the first come from a queue, and nobody claimed them. -/
structure IsHolder (m : Nat) (record : PermitRecord) : Prop where
  operation : record.operation = operationOf m
  root : record.rootOperationId = operationOf m
  taskClass : record.taskClass = work
  lease : record.leaseNonce = none
  ticket : record.pendingTicket = if m = 1 then none else some ⟨7, m⟩

/-- Nothing is in progress, queued or owed; the `m`-th task holds the only permit, and the outcomes of those
before it, but for the first one, are in the record. -/
structure Held (m : Nat) (σ : Sample.governor.System) : Prop where
  reached : Sample.governor.Reachable σ
  threads : σ.threads = []
  empty : ∀ c, σ.state.waiting c = []
  isOpen : σ.state.admissionClosed = false
  sound : σ.state.accountingFault = none
  owes : σ.state.promotionPending = false
  permit : σ.nextPermit = m + 1
  ticket : σ.nextTicket = m + 1
  seq : σ.nextSeq = m + 1
  holder : ∃ record, σ.state.permits[(⟨7, m⟩ : PermitId)]? = some record ∧ IsHolder m record
  alone : ∀ q ∈ σ.state.permits, q = ⟨7, m⟩
  recorded : σ.state.terminalOrder.size = m - 2

variable {m : Nat} {σ : Sample.governor.System}

theorem Held.countersLeft (h : Held m σ) (hm : m < 2 ^ 32) : CountersLeft σ := by
  have hpermit := h.permit
  have hticket := h.ticket
  have hseq := h.seq
  refine ⟨?_, ?_, ?_⟩ <;> simp only [u64Max] <;> omega

/-- The name of the next task is free. -/
theorem Held.identity (h : Held m σ) :
    σ.state.hasOperationIdentity (operationOf (m + 1)) (operationOf (m + 1)) = false := by
  have ho := (SysInv.of_reachable h.reached).state.occupancy
  unfold GovernedState.hasOperationIdentity
  rw [Bool.or_eq_false_iff]
  constructor
  · rw [Option.isSome_eq_false_iff, Option.isNone_iff_eq_none]
    by_contra hsome
    obtain ⟨p, hp⟩ := Option.ne_none_iff_exists'.mp hsome
    obtain ⟨record, found, hlabel⟩ := (ho.operations _ _ p).mp hp
    obtain rfl : p = ⟨7, m⟩ := h.alone p (by rw [ExtTreeMap.mem_iff_isSome_getElem?, found]; rfl)
    obtain ⟨record', found', hholder⟩ := h.holder
    rw [found] at found'
    obtain rfl := Option.some.inj found'
    have hname : record.operation = operationOf (m + 1) := by
      simpa [identityLabel] using congrArg (Option.map Prod.snd) hlabel
    exact operationOf_succ m (hname.symm.trans hholder.operation)
  · by_contra hsome
    rw [Bool.not_eq_false, any_contains_iff, ho.queuedOperations] at hsome
    obtain ⟨c, r, hr, _⟩ := hsome
    rw [h.empty c] at hr
    simp at hr

/-- The class of the next task is full. -/
theorem Held.full (h : Held m σ) : 1 ≤ σ.state.inflight work := by
  obtain ⟨record, found, hholder⟩ := h.holder
  have hbooks := ((SysInv.of_reachable h.reached).state.books.classes work).inflight
  rw [heldIn_erase found, if_pos hholder.taskClass] at hbooks
  have hinflight : σ.state.inflight work = (σ.state.cls work).inflight := rfl
  omega

/-- What queueing the next task does to the state. -/
structure Queued (m : Nat) (s s' : GovernedState) (r : PendingRequest) : Prop where
  pushed : Pushed s.waiting s'.waiting work r
  flags : s.SameFlags s'
  permits : s'.permits = s.permits
  order : s'.terminalOrder = s.terminalOrder
  operation : r.operation = operationOf m
  root : r.rootOperationId = operationOf m
  permitId : r.permitId = ⟨7, m⟩
  ticket : r.ticket = ⟨7, m⟩
  scope : r.scope = .root

/-- The state of a root task that was put into its queue. -/
theorem queued_commitPending {s tagged : GovernedState} (hres : s.Rescheduled tagged) {ids : Ids}
    (hpermit : ids.permitId = ⟨7, m⟩) (hticket : ids.ticket = ⟨7, m⟩) (nowMs : Nat) (tags : Nat × Nat × Nat) :
    ∃ r, Queued m s (tagged.commitPending (pendingRequest s Sample.classPolicy work (intake m).request none ids
      nowMs .inflight tags)) r := by
  refine ⟨_, pushed_commitPending hres, ⟨hres.flags.fault, hres.flags.closed, hres.flags.pending⟩,
    hres.ledger.permits, congrArg TicketBook.terminalOrder hres.tickets, rfl, rfl, hpermit, hticket, rfl⟩

theorem known_work : Sample.governor.policy.classPolicy work = some Sample.classPolicy := by decide +kernel

/-- The next task waits. -/
theorem Held.queues (h : Held m σ) (hm : m < 2 ^ 32) :
    ∃ after r, Queued (m + 1) σ.state after r ∧ Sample.governor.Reachable
      { σ with
        state := after
        nextPermit := σ.nextPermit + 1
        nextTicket := σ.nextTicket + 1
        nextSeq := σ.nextSeq + 1 } := by
  have hinv := SysInv.of_reachable h.reached
  obtain ⟨hstart, _⟩ := hinv.committed 0
  let s := σ.state.commitTime 0
  have hpermit : (nextIds σ).permitId = ⟨7, m + 1⟩ := congrArg (PermitId.mk 7) h.permit
  have hticket : (nextIds σ).ticket = ⟨7, m + 1⟩ := congrArg (Ticket.mk 7) h.ticket
  obtain ⟨blockers, hblocked, hprimary⟩ := assessIntake_of_full (g := Sample.governor) (s := s)
    Sample.classPolicy (intake (m + 1)).request rfl
    (not_queuedBehind hstart.queues (h.empty work) h.owes _) h.full h.sound (registeredWith_empty _)
  have hroom : s.queued work < Sample.classPolicy.maxQueueDepth.toNat := by
    have hlen : (s.cls work).queue = [] := List.map_eq_nil_iff.mp (h.empty work)
    show min (s.cls work).queue.length u32Max < 4
    rw [hlen]
    decide
  have hadmits := admitRequest_of_full (g := Sample.governor) (s := s) (intake (m + 1)).request
    h.isOpen known_work (by decide) h.identity rfl hblocked hprimary rfl hroom s.commitWatermarkMs none
    (nextIds σ) {}
  obtain ⟨r, hqueued⟩ := queued_commitPending (s := s) (rescheduled_enqueueTags s work Sample.classPolicy _ _)
    hpermit hticket s.commitWatermarkMs _
  have hreached := decided_alone h.reached h.threads (h.countersLeft hm) (preflight_task (m + 1)) hadmits
  exact ⟨_, r, ⟨hqueued.pushed, hqueued.flags, hqueued.permits, hqueued.order, hqueued.operation, hqueued.root,
    hqueued.permitId, hqueued.ticket, hqueued.scope⟩, hreached⟩

/-- The end of the permit records its outcome, unless it was the first. -/
theorem Held.records (h : Held m σ) {after freed : GovernedState} {r : PendingRequest}
    (hqueued : Queued (m + 1) σ.state after r) (hafter : StateInv Sample.governor (after.commitTime 0))
    (hseq : (after.commitTime 0).terminalSeq < u64Max) {record : PermitRecord}
    (found : (after.commitTime 0).permits[(⟨7, m⟩ : PermitId)]? = some record) (hholder : IsHolder m record)
    (hbook : freed.book = match record.pendingTicket with
      | some t => (after.commitTime 0).book.recordTerminal t .released
      | none => (after.commitTime 0).book)
    (hm : m < 2 ^ 12 + 2) (hpos : 1 ≤ m) : freed.terminalOrder.size = m + 1 - 2 := by
  have hbefore : (after.commitTime 0).terminalOrder.size = m - 2 :=
    (congrArg ExtTreeMap.size hqueued.order).trans h.recorded
  rw [hholder.ticket] at hbook
  rcases Nat.lt_or_ge 1 m with hlater | hfirst
  · rw [if_neg (by omega)] at hbook
    simp only at hbook
    have hheld : ticketLabel.Holds (after.commitTime 0) ⟨7, m⟩ ⟨7, m⟩ :=
      ⟨record, found, by rw [← show _ = some (⟨7, m⟩ : Ticket) from hholder.ticket.trans (if_neg (by omega))]; rfl⟩
    have hactive : isTerminal (after.commitTime 0).book.tickets[(⟨7, m⟩ : Ticket)]? = false :=
      isTerminal_active (Or.inr ⟨_, (hafter.tickets.held _ _).mpr hheld⟩)
    have hmax : maxTerminalTickets = 2 ^ 12 := rfl
    rcases recordTerminal_cases .released hafter.tickets.retains hafter.tickets.bounded hactive hseq
      with ⟨_, heq⟩ | ⟨_, _, hfull, _⟩
    · have hsize := size_recorded ⟨7, m⟩ .released hafter.tickets.retains
      have hstart : (after.commitTime 0).book.terminalOrder.size = m - 2 := hbefore
      have hend : freed.book.terminalOrder.size = m - 2 + 1 := by
        rw [hbook, heq, hsize, hstart]
      show freed.book.terminalOrder.size = _
      omega
    · have hstart : (after.commitTime 0).book.terminalOrder.size = m - 2 := hbefore
      omega
  · obtain rfl : m = 1 := by omega
    exact (congrArg (fun b => b.terminalOrder.size) hbook).trans hbefore

/-- When the permit before it ends, the next task gets one, and the outcome that nobody claimed is recorded. -/
theorem Held.next (h : Held m σ) (hm : m < 2 ^ 12 + 2) (hpos : 1 ≤ m) : ∃ σ', Held (m + 1) σ' := by
  obtain ⟨after, r, hqueued, hreached⟩ := h.queues (by omega)
  obtain ⟨record, found, hholder⟩ := h.holder
  have hqueue : after.waiting work = [r] := by
    rw [hqueued.pushed.back, h.empty]
    rfl
  have hothers : ∀ c, c ≠ work → after.waiting c = [] := fun c hc =>
    (hqueued.pushed.other c hc).trans (h.empty c)
  obtain ⟨freed, granted, grant, nowMs, policy, index, first, head, chosen, served, ⟨effects, hunwind⟩, hpromotes,
    hfirst, hempty, hlast⟩ := hands_over ⟨7, m⟩ record hreached h.threads
      (by rw [← found]; exact congrArg (fun permits => permits[_]?) hqueued.permits)
      (fun q hq => h.alone q (hqueued.permits ▸ hq)) hholder.lease (hqueued.flags.fault.trans h.sound) hqueue
      hothers (by rw [hqueued.scope]; rfl)
  have hfound : (after.commitTime 0).permits[(⟨7, m⟩ : PermitId)]? = some record := by
    rw [← found]
    exact congrArg (fun permits => permits[_]?) hqueued.permits
  obtain ⟨hflags, _, hbook⟩ := unwind_records hfound hunwind
  have hhead : head.untagged = r := hpromotes.same.trans hfirst
  have hid : head.permitId = ⟨7, m + 1⟩ := (congrArg PendingRequest.permitId hhead).trans hqueued.permitId
  have hpermits : granted.permits = ((after.commitTime 0).permits.erase ⟨7, m⟩).insert ⟨7, m + 1⟩ grant.record := by
    rw [hpromotes.permits, hid, permits_unwind hunwind]
  have horder : granted.terminalOrder = freed.terminalOrder :=
    congrArg TicketBook.terminalOrder hpromotes.book
  refine ⟨_, hlast, h.threads, hempty, ?_, ?_, rfl, ?_, ?_, ?_, ⟨grant.record, ?_, ?_⟩, fun q hq => ?_, ?_⟩
  · exact hpromotes.flags.closed.trans (hflags.closed.trans (hqueued.flags.closed.trans h.isOpen))
  · exact hpromotes.flags.fault.trans (hflags.fault.trans (hqueued.flags.fault.trans h.sound))
  · exact congrArg (· + 1) h.permit
  · exact congrArg (· + 1) h.ticket
  · exact congrArg (· + 1) h.seq
  · show granted.permits[_]? = _
    rw [hpermits]
    simp
  · rw [hpromotes.grants]
    refine ⟨?_, ?_, rfl, rfl, ?_⟩
    · exact (congrArg PendingRequest.operation hhead).trans hqueued.operation
    · exact (congrArg PendingRequest.rootOperationId hhead).trans hqueued.root
    · have hticket : head.ticket = ⟨7, m + 1⟩ := (congrArg PendingRequest.ticket hhead).trans hqueued.ticket
      have hlater : ¬ m + 1 = 1 := by omega
      rw [if_neg hlater, ← hticket]
      rfl
  · have hmem : q ∈ granted.permits := hq
    rw [hpermits, ExtTreeMap.mem_insert, ExtTreeMap.mem_erase] at hmem
    rcases hmem with heq | ⟨hne, hold⟩
    · exact (LawfulEqOrd.eq_of_compare heq).symm
    · have hgone : q = ⟨7, m⟩ := h.alone q (hqueued.permits ▸ hold)
      rw [hgone] at hne
      simp at hne
  · show granted.terminalOrder.size = m + 1 - 2
    rw [horder]
    obtain ⟨hafter, hseq⟩ := (SysInv.of_reachable hreached).committed 0
    exact h.records hqueued hafter hseq hfound hholder hbook hm hpos

/-- The first task is admitted at once. -/
theorem held_first : ∃ σ, Held 1 σ := by
  let s := Sample.governor.init.state.commitTime 0
  have hstart := (sysInv_init Sample.governor).committed 0
  have hidle : Idle s := fun p hp => by simp [s, Governor.init, GovernedState.commitTime] at hp
  have hrunnable : assessIntake s Sample.governor.policy Sample.classPolicy work (intake 1).request = .runnable := by
    unfold assessIntake assess assessScope
    rw [not_queuedBehind hstart.1.queues (waiting_init _) rfl]
    exact if_pos (hidle.room hstart.1 rfl known_work (by decide) (registeredWith_empty _))
  have hadmits := admitRequest_of_runnable (g := Sample.governor) (s := s) (intake 1).request rfl
    known_work (by decide) (by decide +kernel) rfl hrunnable s.commitWatermarkMs none (nextIds Sample.governor.init) {}
  have hreached := decided_alone (.refl _) rfl ⟨by decide, by decide, by decide⟩ (preflight_task 1) hadmits
  refine ⟨_, hreached, rfl, fun c => ?_, rfl, rfl, rfl, rfl, rfl, rfl,
    ⟨_, ExtTreeMap.getElem?_insert_self, ⟨rfl, rfl, rfl, rfl, (if_pos rfl).symm⟩⟩, fun q hq => ?_, rfl⟩
  · exact ((GovernedState.sameQueues_grant _ _).waiting_eq c).trans (waiting_init c)
  · have hmem : q ∈ (∅ : BTreeMap PermitId PermitRecord).insert (⟨7, 1⟩ : PermitId)
      (directGrant s Sample.classPolicy work (intake 1).request (nextIds Sample.governor.init)
        s.commitWatermarkMs).record := hq
    rw [ExtTreeMap.mem_insert] at hmem
    rcases hmem with heq | hnone
    · exact (LawfulEqOrd.eq_of_compare heq).symm
    · simp at hnone

/-- One hand-over after the other fills the record. -/
theorem exists_held (m : Nat) (hm : m ≤ 2 ^ 12 + 1) : ∃ σ, Held (m + 1) σ := by
  induction m with
  | zero => exact held_first
  | succ m ih =>
    obtain ⟨σ, hσ⟩ := ih (by omega)
    exact hσ.next (by omega) (by omega)

end Relay

/-- With 4096 unclaimed outcomes in the record, the next permit is released: the oldest answer makes room for
the new one. -/
theorem sample_answers : ∃ (σ σ' : Sample.governor.System) (e : Event) (t : Ticket) (reason : TerminalReason),
    σ.state.terminalOrder.size = 4096 ∧ Sample.governor.step σ (.release ⟨7, 4098⟩ 0) = some (σ', e) ∧
    σ.state.tickets[t]? = some (.terminal reason) ∧ σ'.state.tickets[t]? = none ∧
    AnswersKept σ (.release ⟨7, 4098⟩ 0) σ' := by
  obtain ⟨σ, h⟩ := Relay.exists_held 4097 (by decide)
  have hinv := SysInv.of_reachable h.reached
  obtain ⟨hstart, hseq⟩ := hinv.committed 0
  obtain ⟨record, found, hholder⟩ := h.holder
  obtain ⟨freed, hreleased⟩ := released_alone ⟨7, 4098⟩ record h.reached h.threads found hholder.lease
  obtain ⟨effects, hunwind⟩ := hreleased.unwinds
  have hempty : ∀ c, freed.waiting c = [] := fun c =>
    ((sameQueues_unwind hunwind).waiting_eq c).trans (h.empty c)
  obtain ⟨⟨σ', hstep, hstate⟩, _⟩ := hreleased.passes [] freed (noneAwaited_of_empty hempty) (by simp)
    (.done (promoteStep_of_empty hempty _))
  have hpending : record.pendingTicket = some ⟨7, 4098⟩ := hholder.ticket
  have hfound : (σ.state.commitTime 0).permits[(⟨7, 4098⟩ : PermitId)]? = some record := found
  obtain ⟨_, _, hbook⟩ := unwind_records hfound hunwind
  rw [hpending] at hbook
  have hactive : isTerminal (σ.state.commitTime 0).book.tickets[(⟨7, 4098⟩ : Ticket)]? = false :=
    isTerminal_active (Or.inr ⟨_, (hstart.tickets.held _ _).mpr ⟨record, found, hpending⟩⟩)
  have hmax : maxTerminalTickets = 4096 := rfl
  have hsize : (σ.state.commitTime 0).book.terminalOrder.size = 4096 := h.recorded
  rcases recordTerminal_cases .released hstart.tickets.retains hstart.tickets.bounded hactive hseq
    with ⟨hroom, _⟩ | ⟨n, t, _, holdest, _, heq⟩
  · omega
  · obtain ⟨reason, hreason⟩ := hinv.state.tickets.terminal_of_retained holdest
    have hkept := (answers_kept_iff Sample.governor σ h.reached _ σ' _ hstep).mpr (by simp)
    refine ⟨σ, σ', _, t, reason, h.recorded, hstep, hreason, ?_, hkept⟩
    have hgone : freed.book.tickets[t]? = none := by
      rw [hbook]
      show ((σ.state.commitTime 0).book.recordTerminal ⟨7, 4098⟩ .released).tickets[t]? = none
      rw [heq]
      exact ExtTreeMap.getElem?_erase_self
    rw [hstate]
    exact hgone

/-- With 4096 unclaimed outcomes in the record, the waiter of the next granted ticket gives it up: another
waiter loses its answer, and the record has room. -/
theorem relay_loses_answer : ∃ (σ σ' : Sample.governor.System) (e : Event) (t : Ticket) (reason : TerminalReason),
    Sample.governor.Reachable σ ∧ σ.state.terminalOrder.size = 4096 ∧
    Sample.governor.step σ (.abandon ⟨7, 4098⟩ 0) = some (σ', e) ∧ t ≠ ⟨7, 4098⟩ ∧
    σ.state.tickets[t]? = some (.terminal reason) ∧ σ'.state.tickets[t]? = none ∧
    σ'.state.terminalOrder.size = 4095 := by
  obtain ⟨σ, h⟩ := Relay.exists_held 4097 (by decide)
  have hinv := SysInv.of_reachable h.reached
  obtain ⟨record, found, hholder⟩ := h.holder
  have hpending : record.pendingTicket = some ⟨7, 4098⟩ := hholder.ticket
  have hticket := (hinv.state.tickets.held ⟨7, 4098⟩ ⟨7, 4098⟩).mpr ⟨record, found, hpending⟩
  have hempty : NoneAwaited ((σ.state.commitTime 0).discharge ⟨7, 4098⟩ record) :=
    noneAwaited_of_empty fun c => ((GovernedState.sameQueues_discharge _ _ _).waiting_eq c).trans (h.empty c)
  have hd : Displaces Sample.governor (σ.state.commitTime 0) ⟨7, 4098⟩ :=
    ⟨⟨7, 4098⟩, record, hticket, found, hholder.lease, h.recorded, hempty.endsNoCycle _⟩
  have hstep : Sample.governor.step σ (.abandon ⟨7, 4098⟩ 0) = some (_, _) := rfl
  obtain ⟨n, t, hne, hn, hgone, hsize⟩ := hinv.displaces_lost hstep hd
  obtain ⟨reason, hreason⟩ := hinv.state.tickets.terminal_of_retained hn
  refine ⟨σ, _, _, t, reason, h.reached, h.recorded, hstep, hne, hreason, ?_, ?_⟩
  · rcases hinv.step_answer hstep hreason with hstays | hnone
    · obtain ⟨m, _, hm⟩ := (hinv.step_state hstep).tickets.terminal_index hstays
      exact absurd hm (hgone m)
    · exact hnone
  · have hmax : maxTerminalTickets = 4096 := rfl
    omega

end Taskmesh
