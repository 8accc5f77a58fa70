import Taskmesh.Engine.Proofs.TicketProofs

/-!
# The invariant of the governed state

Everything a locked section may rely on and has to restore: queues, occupancy, books, capacity and
tickets. It is preserved by every move, so by every path. The retention sequence of terminal tickets
cannot wrap: every ticket is recorded at most once, and tickets come from a counter that never wraps.
-/

namespace Taskmesh

open Std MachineInt SetIndex QueueFamily ExtTreeMap TicketBook

/-- The invariant of the governed state. -/
structure StateInv (g : Governor) (s : GovernedState) : Prop where
  queues : QueueInv g s
  occupancy : Occupancy s
  books : Books s
  permits : PermitsFit g s
  capacity : Capacity g s
  tickets : TicketInv s

variable {g : Governor} {caller : Caller} {s s' : GovernedState}

theorem stateInv_init (g : Governor) : StateInv g {} where
  queues := queueInv_init g
  occupancy := occupancy_init
  books := books_init
  permits := by
    intro p record h
    simp at h
  capacity := capacity_init g
  tickets := by
    refine ⟨⟨fun t => ?_, fun t n => ?_, fun n t h => ?_⟩, ?_, fun t c => ?_, fun t p => ?_, ?_⟩
    · simp [GovernedState.book, isTerminal]
    · simp [GovernedState.book]
    · simp [GovernedState.book] at h
    · simp
    · simp [waiting_init]
    · simp [Label.Holds]
    · refine ⟨fun c c' r r' b hr => ?_, fun p p' b h => ?_, fun p b h => ?_⟩
      · simp [waiting_init] at hr
      · simp [Label.Holds] at h
      · simp [Label.Waits, waiting_init] at h

theorem Move.stateInv {trend : Trend} (h : Move g caller trend s s') (hinv : StateInv g s)
    (hseq : s.terminalSeq < u64Max) : StateInv g s' :=
  have heffect := h.effect hinv.queues
  ⟨h.queueInv hinv.queues, heffect.occupancy hinv.queues hinv.occupancy,
    heffect.books hinv.occupancy hinv.books, heffect.permitsFit hinv.permits,
    heffect.capacity hinv.occupancy hinv.capacity,
    (h.ticketStep hinv.queues hinv.occupancy hinv.tickets hseq).1⟩

/-! ## The retention sequence -/

/-- The ticket still has to end: it is queued, or its permit waits for its claim. -/
def TicketState.isActive : TicketState → Bool
  | .queued _ | .granted _ | .claiming _ => true
  | .terminal _ | .faulted => false

/-- How many tickets still have to end. -/
def activeTickets (tickets : BTreeMap Ticket TicketState) : Nat :=
  sumBy tickets fun _ state => if state.isActive then 1 else 0

/-- Every recorded outcome, and every ticket an outcome may still be recorded for. -/
def ticketLoad (s : GovernedState) : Nat := s.terminalSeq + activeTickets s.tickets

def activeWeight (state : Option TicketState) : Nat := if state.any TicketState.isActive then 1 else 0

theorem TicketBook.Changed.activeTickets_eq {b b' : TicketBook} {t : Ticket} {state : Option TicketState}
    (h : Changed b b' t state) :
    activeTickets b'.tickets + activeWeight b.tickets[t]? = activeTickets b.tickets + activeWeight state := by
  let f : Ticket → TicketState → Nat := fun _ x => if x.isActive then 1 else 0
  have hread : ∀ o : Option TicketState, f t (o.getD .faulted) = activeWeight o := by
    intro o
    cases o with
    | none => rfl
    | some x => rfl
  -- The book with that one ticket written, and no outcome evicted.
  have hcongr : ∀ m : BTreeMap Ticket TicketState, m[t]? = state →
      (∀ t' : Ticket, t' ≠ t → m[t']? = b.tickets[t']?) → sumBy b'.tickets f = sumBy m f := by
    intro m hm hother
    refine sumBy_congr_getD .faulted (fun _ => rfl) fun t' => ?_
    by_cases hne : t' = t
    · subst hne
      rw [h.written, hm]
    · rcases h.others t' hne with heq | ⟨hterminal, hnone⟩
      · rw [heq, hother t' hne]
      · rw [hother t' hne, hnone]
        revert hterminal
        cases b.tickets[t']? with
        | none => simp [isTerminal]
        | some x => cases x <;> simp [isTerminal, f, TicketState.isActive]
  have hother : ∀ t' : Ticket, t' ≠ t → ¬ t = t' := fun t' hne heq => hne heq.symm
  cases state with
  | some x =>
    have heq := hcongr (b.tickets.insert t x) (by simp) fun t' hne => by
      simp [ExtTreeMap.getElem?_insert, hother t' hne]
    have hupsert := sumBy_upsert b.tickets t .faulted x f rfl
    rw [← heq, hread] at hupsert
    exact hupsert
  | none =>
    have heq := hcongr (b.tickets.erase t) (by simp) fun t' hne => by
      simp [ExtTreeMap.getElem?_erase, hother t' hne]
    show sumBy b'.tickets f + _ = sumBy b.tickets f + 0
    rw [heq]
    cases hold : b.tickets[t]? with
    | some x =>
      rw [sumBy_erase hold]
      exact Nat.add_comm _ _
    | none =>
      have herase : b.tickets.erase t = b.tickets := by
        ext t' x
        rw [ExtTreeMap.getElem?_erase]
        by_cases htt : t = t'
        · subst htt
          simp [hold]
        · simp [htt]
      rw [herase]
      rfl

/-- A ticket counts once for its outcome, or once while an outcome may follow. -/
theorem TicketEffect.load_le (h : TicketEffect caller s s') :
    ticketLoad s' ≤ ticketLoad s ∨ (∃ ids, caller.ids ids) ∧ ticketLoad s' ≤ ticketLoad s + 1 := by
  cases h with
  | same h =>
    left
    have htickets : s'.tickets = s.tickets := congrArg TicketBook.tickets h
    have hseq : s'.terminalSeq = s.terminalSeq := congrArg TicketBook.terminalSeq h
    rw [ticketLoad, ticketLoad, htickets, hseq]
  | @changed t state step change seq =>
    have hactive : activeTickets s'.tickets + activeWeight s.tickets[t]? =
      activeTickets s.tickets + activeWeight state := change.activeTickets_eq
    unfold ticketLoad
    generalize s.tickets[t]? = old at step hactive
    cases step with
    | @enqueued ids c allowed same =>
      right
      refine ⟨⟨ids, allowed⟩, ?_⟩
      simp [activeWeight, isTerminal, TicketState.isActive] at hactive seq
      omega
    | promoted c p =>
      left
      simp [activeWeight, isTerminal, TicketState.isActive] at hactive seq
      omega
    | cycled c held =>
      left
      simp [activeWeight, isTerminal, TicketState.isActive] at hactive seq
      omega
    | cancelled c owner =>
      left
      simp [activeWeight, isTerminal, TicketState.isActive] at hactive seq
      omega
    | faulted c =>
      left
      simp [activeWeight, isTerminal, TicketState.isActive] at hactive seq
      omega
    | begun p owner =>
      left
      simp [activeWeight, isTerminal, TicketState.isActive] at hactive seq
      omega
    | ended reason held =>
      left
      rcases held with rfl | rfl <;>
      · simp [activeWeight, isTerminal, TicketState.isActive] at hactive seq
        omega
    | transferred p owner =>
      left
      simp [activeWeight, isTerminal, TicketState.isActive] at hactive seq
      omega
    | forgotten final owner =>
      left
      simp [activeWeight, isTerminal] at hactive seq
      omega

theorem terminalSeq_le_load (s : GovernedState) : s.terminalSeq ≤ ticketLoad s := Nat.le_add_right _ _

/-! ## Paths -/

/-- A move that takes no new identity does not raise the ticket load. -/
theorem Move.load_le {trend : Trend} (h : Move g caller trend s s') (hids : ∀ ids, ¬ caller.ids ids)
    (hinv : StateInv g s) (hseq : s.terminalSeq < u64Max) : ticketLoad s' ≤ ticketLoad s := by
  rcases (h.ticketStep hinv.queues hinv.occupancy hinv.tickets hseq).2.load_le with hle | ⟨⟨ids, hallowed⟩, _⟩
  · exact hle
  · exact absurd hallowed (hids ids)

/-- Every section that takes no new identity keeps the invariant and the ticket load. -/
theorem Path.stateInv (h : Path g caller s s') (hids : ∀ ids, ¬ caller.ids ids) (hinv : StateInv g s)
    (hload : ticketLoad s < u64Max) : StateInv g s' ∧ ticketLoad s' ≤ ticketLoad s := by
  refine h.invariant (P := fun s' => StateInv g s' ∧ ticketLoad s' ≤ ticketLoad s) ?_
    ⟨hinv, Nat.le_refl _⟩
  rintro trend s₁ s₂ hmove ⟨hinv₁, hle⟩
  have hseq : s₁.terminalSeq < u64Max := by
    have := terminalSeq_le_load s₁
    omega
  exact ⟨hmove.stateInv hinv₁ hseq, Nat.le_trans (hmove.load_le hids hinv₁ hseq) hle⟩

/-- What every move of one trend keeps from a sound state on, a sequence of them keeps. -/
theorem Moves.rule {trend : Trend} (h : Moves g caller trend s s') (hids : ∀ ids, ¬ caller.ids ids)
    (hinv : StateInv g s) (hload : ticketLoad s < u64Max) {P : GovernedState → Prop}
    (hmove : ∀ s₁ s₂, Move g caller trend s₁ s₂ → StateInv g s₁ → ticketLoad s₁ < u64Max → P s₁ → P s₂)
    (hs : P s) : P s' ∧ StateInv g s' ∧ ticketLoad s' < u64Max := by
  induction h with
  | refl => exact ⟨hs, hinv, hload⟩
  | tail _ hm ih =>
    obtain ⟨hP, hinv₁, hload₁⟩ := ih
    have hseq : _ < u64Max := Nat.lt_of_le_of_lt (terminalSeq_le_load _) hload₁
    exact ⟨hmove _ _ hm hinv₁ hload₁ hP, hm.stateInv hinv₁ hseq,
      Nat.lt_of_le_of_lt (hm.load_le hids hinv₁ hseq) hload₁⟩

/-! ## How many permits are live -/

theorem size_insert_live {permits : BTreeMap PermitId PermitRecord} {p : PermitId} {record : PermitRecord}
    (found : permits[p]? = some record) (record' : PermitRecord) :
    (permits.insert p record').size = permits.size := by
  have hmem : p ∈ permits := by
    rw [ExtTreeMap.mem_iff_isSome_getElem?, found]
    rfl
  rw [ExtTreeMap.size_insert, if_pos (ExtTreeMap.contains_iff_mem.mpr hmem)]

/-- The first part of a section grants nothing. -/
theorem Move.shrinks (h : Move g caller .shrinking s s') : s'.permits.size ≤ s.permits.size := by
  cases h with
  | rescheduled h => rw [h.ledger.permits]
  | flagged _ pending => exact Nat.le_refl _
  | closed => exact Nat.le_refl _
  | faulted _ what allowed => rw [(memoryOnly_recordAccountingFault s what).permits]
  | @enqueued _ tagged policy c request ids blockers waker nowMs tags allowed accepted blocked room hres
      sound =>
    have hpermits : (tagged.commitPending
        (pendingRequest s policy c request waker ids nowMs blockers.primary tags)).permits = s.permits := by
      rw [← hres.ledger.permits]
      unfold GovernedState.commitPending
      simp only
      split <;> rfl
    rw [hpermits]
  | @cancelled _ c index r ticket h found same owner =>
    exact Nat.le_of_eq (congrArg ExtTreeMap.size
      (sameLedger_vacateOf ((s.removedPending c index r).removeTicket ticket) r).permits)
  | lost h missing owner => exact Nat.le_refl _
  | @faultedHead _ c r found =>
    exact Nat.le_of_eq (congrArg ExtTreeMap.size (sameLedger_vacateOf (s.removedPending c 0 r) r).permits)
  | unwound found ends h =>
    rw [permits_unwind h]
    exact ExtTreeMap.size_erase_le
  | claimBegun nowMs h found owner => exact Nat.le_of_eq (size_insert_live found _)
  | transferred nowMs h found owner => exact Nat.le_of_eq (size_insert_live found _)
  | @detached _ ticket p record h found leased =>
    have hpermits : (Governor.detachTicket s p ticket).permits =
        s.permits.insert p { record with pendingTicket := none } := by
      unfold Governor.detachTicket
      rw [found]
      rfl
    rw [hpermits]
    exact Nat.le_of_eq (size_insert_live found _)
  | expired h gone => exact Nat.le_refl _
  | orphaned h gone owner => exact Nat.le_refl _
  | forgot _ ticket owner => exact Nat.le_refl _
  | advanced nonces found later => exact Nat.le_of_eq (size_insert_live found _)
  | @recharged _ p record ledger allowed found change =>
    rw [(memoryOnly_rechargePermit s p record ledger).permits]
    exact Nat.le_of_eq (size_insert_live found _)

/-- The second part of a section adds permits, one at a time, and ends none. -/
theorem Move.grows_permits (h : Move g caller .growing s s') :
    s'.permits = s.permits ∨ ∃ q new, s'.permits = s.permits.insert q new := by
  cases h with
  | rescheduled h => exact Or.inl h.ledger.permits
  | flagged _ pending => exact Or.inl rfl
  | admitted nowMs allowed accepted runnable => exact Or.inr ⟨_, _, rfl⟩
  | promoted nowMs h =>
    obtain ⟨c, policy, index, r, head, chosen, served, hpromotes⟩ := promoteStep_some h
    exact Or.inr ⟨_, _, hpromotes.permits⟩
  | @cycled _ c index witness r held h found first =>
    exact Or.inl (rescheduled_unserved g (s.removedPending c index r) c).ledger.permits

theorem Move.grows (h : Move g caller .growing s s') : s.permits.size ≤ s'.permits.size := by
  rcases h.grows_permits with hsame | ⟨q, new, hinsert⟩
  · rw [hsame]
  · rw [hinsert]
    exact ExtTreeMap.size_le_size_insert

/-- What both halves of a path keep within a bound that holds at its two ends: the first half only lowers what
is bounded, and the second one only raises it. -/
theorem Path.invariant_within {I P B : GovernedState → Prop} (h : Path g caller s s')
    (hinv : ∀ trend s₁ s₂, Move g caller trend s₁ s₂ → I s₁ → I s₂)
    (hshrinks : ∀ s₁ s₂, Move g caller .shrinking s₁ s₂ → I s₁ → B s₁ → B s₂)
    (hgrows : ∀ s₁ s₂, Move g caller .growing s₁ s₂ → I s₁ → B s₂ → B s₁)
    (hmove : ∀ trend s₁ s₂, Move g caller trend s₁ s₂ → I s₁ → P s₁ → B s₂ → P s₂)
    (hI : I s) (hs : P s) (hstart : B s) (hend : B s') : P s' := by
  obtain ⟨middle, hshrink, hgrow⟩ := h
  have hmiddle : I middle ∧ P middle := by
    have hall : I middle ∧ P middle ∧ B middle := by
      clear hgrow
      induction hshrink with
      | refl => exact ⟨hI, hs, hstart⟩
      | tail _ hm ih =>
        obtain ⟨hI₁, hP₁, hwithin₁⟩ := ih
        have hwithin := hshrinks _ _ hm hI₁ hwithin₁
        exact ⟨hinv _ _ _ hm hI₁, hmove _ _ _ hm hI₁ hP₁ hwithin, hwithin⟩
    exact ⟨hall.1, hall.2.1⟩
  have hafter : I s' ∧ (B s' → P s') := by
    clear hend
    induction hgrow with
    | refl => exact ⟨hmiddle.1, fun _ => hmiddle.2⟩
    | tail _ hm ih =>
      obtain ⟨hI₁, hP₁⟩ := ih
      exact ⟨hinv _ _ _ hm hI₁, fun hwithin => hmove _ _ _ hm hI₁ (hP₁ (hgrows _ _ hm hI₁ hwithin)) hwithin⟩
  exact hafter.2 hend

end Taskmesh
