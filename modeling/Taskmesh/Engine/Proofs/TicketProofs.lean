import Taskmesh.Engine.Proofs.TicketBookProofs

/-!
# The life of a ticket

A ticket is represented in five places: the ticket index, the queue entry, the record of its permit,
and the two maps of retained outcomes. The invariant says what each place knows; the lifecycle says
how a single ticket moves from one place to the next, and that nothing brings it back.
-/

namespace Taskmesh

open Std MachineInt SetIndex QueueFamily ExtTreeMap TicketBook

/-- The five representations of every ticket agree. -/
structure TicketInv (s : GovernedState) : Prop where
  retains : s.book.Retains
  bounded : s.terminalOrder.size ≤ maxTerminalTickets
  queued : ∀ (t : Ticket) c, s.tickets[t]? = some (.queued c) ↔ ∃ r ∈ s.waiting c, r.ticket = t
  held : ∀ (t : Ticket) p, (s.tickets[t]? = some (.granted p) ∨ s.tickets[t]? = some (.claiming p)) ↔
    ticketLabel.Holds s p t
  exclusive : ticketLabel.Exclusive s

/-- How one ticket moves on. -/
inductive Lifecycle (caller : Caller) (t : Ticket) : Option TicketState → Option TicketState → Prop
  | enqueued {ids : Ids} (c : TaskClass) (allowed : caller.ids ids) (same : ids.ticket = t) :
      Lifecycle caller t none (some (.queued c))
  | promoted (c : TaskClass) (p : PermitId) :
      Lifecycle caller t (some (.queued c)) (some (.granted p))
  | cycled (c : TaskClass) (held : HeldCapacity) :
      Lifecycle caller t (some (.queued c)) (some (.terminal (.irreversibleWaitCycle held)))
  | cancelled (c : TaskClass) (owner : caller.tickets t) : Lifecycle caller t (some (.queued c)) none
  | faulted (c : TaskClass) : Lifecycle caller t (some (.queued c)) (some .faulted)
  | begun (p : PermitId) (owner : caller.tickets t) :
      Lifecycle caller t (some (.granted p)) (some (.claiming p))
  | ended {old : Option TicketState} {p : PermitId} (reason : TerminalReason)
      (held : old = some (.granted p) ∨ old = some (.claiming p)) :
      Lifecycle caller t old (some (.terminal reason))
  | transferred (p : PermitId) (owner : caller.tickets t) : Lifecycle caller t (some (.claiming p)) none
  | forgotten {old : Option TicketState} (final : isFinal old = true) (owner : caller.tickets t) :
      Lifecycle caller t old none

/-- What a move does to the tickets: nothing, or one ticket moves on. Retained outcomes of other
tickets may be evicted. -/
inductive TicketEffect (caller : Caller) (s s' : GovernedState) : Prop
  | same (h : s'.book = s.book)
  | changed {t : Ticket} {state : Option TicketState}
      (step : Lifecycle caller t s.tickets[t]? state) (change : Changed s.book s'.book t state)
      (seq : s'.terminalSeq = s.terminalSeq + if isTerminal state then 1 else 0)

variable {g : Governor} {caller : Caller} {s s' : GovernedState} {t : Ticket} {p : PermitId}
  {record record' : PermitRecord} {state : Option TicketState}

/-! ## Reading a changed book -/

theorem TicketBook.Changed.live {b b' : TicketBook} (h : Changed b b' t state) {t' : Ticket}
    (hne : t' ≠ t) {x : TicketState} (hx : isTerminal (some x) = false) :
    b'.tickets[t']? = some x ↔ b.tickets[t']? = some x := by
  rcases h.others t' hne with heq | ⟨hterminal, hnone⟩
  · rw [heq]
  · rw [hnone]
    simp only [reduceCtorEq, false_iff]
    intro hsome
    rw [hsome, hx] at hterminal
    simp at hterminal

/-- The invariant after one ticket moved on. -/
theorem TicketInv.change (hi : TicketInv s) (hretains : s'.book.Retains)
    (hbounded : s'.terminalOrder.size ≤ maxTerminalTickets) (hchange : Changed s.book s'.book t state)
    (hx : ticketLabel.Exclusive s')
    (hwaits : ∀ c t', t' ≠ t →
      ((∃ r ∈ s'.waiting c, r.ticket = t') ↔ ∃ r ∈ s.waiting c, r.ticket = t'))
    (hqueued : ∀ c, state = some (.queued c) ↔ ∃ r ∈ s'.waiting c, r.ticket = t)
    (hholds : ∀ q t', t' ≠ t → (ticketLabel.Holds s' q t' ↔ ticketLabel.Holds s q t'))
    (hheld : ∀ q, (state = some (.granted q) ∨ state = some (.claiming q)) ↔ ticketLabel.Holds s' q t) :
    TicketInv s' := by
  have hlive : ∀ t' x, t' ≠ t → isTerminal (some x) = false →
      (s'.tickets[t']? = some x ↔ s.tickets[t']? = some x) := fun t' x hne hx => hchange.live hne hx
  have hwritten : s'.tickets[t]? = state := hchange.written
  refine ⟨hretains, hbounded, fun t' c => ?_, fun t' q => ?_, hx⟩
  · by_cases hne : t' = t
    · subst hne
      rw [hwritten]
      exact hqueued c
    · rw [hlive t' _ hne rfl, hwaits c t' hne]
      exact hi.queued t' c
  · by_cases hne : t' = t
    · subst hne
      rw [hwritten]
      exact hheld q
    · rw [hlive t' _ hne rfl, hlive t' _ hne rfl, hholds q t' hne]
      exact hi.held t' q

/-- The invariant when no ticket moved. -/
theorem TicketInv.same (hi : TicketInv s) (hbook : s'.book = s.book) (hwaiting : s'.waiting = s.waiting)
    (hholds : ∀ q t', ticketLabel.Holds s' q t' ↔ ticketLabel.Holds s q t')
    (hx : ticketLabel.Exclusive s') : TicketInv s' := by
  have htickets : s'.tickets = s.tickets := congrArg TicketBook.tickets hbook
  have horder : s'.terminalOrder = s.terminalOrder := congrArg TicketBook.terminalOrder hbook
  refine ⟨?_, ?_, fun t c => ?_, fun t q => ?_, hx⟩
  · rw [hbook]
    exact hi.retains
  · rw [horder]
    exact hi.bounded
  · rw [htickets, hwaiting]
    exact hi.queued t c
  · rw [htickets, hholds]
    exact hi.held t q

/-! ## What the invariant excludes -/

/-- A ticket that names a permit names a live one. -/
theorem TicketInv.permit_live (hi : TicketInv s)
    (h : s.tickets[t]? = some (.granted p) ∨ s.tickets[t]? = some (.claiming p)) :
    ∃ record, s.permits[p]? = some record ∧ record.pendingTicket = some t := (hi.held t p).mp h

/-- A queued ticket has its entry in the queue it names. -/
theorem TicketInv.entry_queued (hi : TicketInv s) {c : TaskClass}
    (h : s.tickets[t]? = some (.queued c)) : ∃ r ∈ (s.cls c).queue, r.ticket = t := by
  obtain ⟨r, hr, ht⟩ := (hi.queued t c).mp h
  obtain ⟨r', hr', rfl⟩ := List.mem_map.mp hr
  exact ⟨r', hr', ht⟩

theorem TicketInv.ticket_queued (hi : TicketInv s) {c : TaskClass} {r : PendingRequest}
    (hr : r ∈ s.waiting c) : s.tickets[r.ticket]? = some (.queued c) :=
  (hi.queued r.ticket c).mpr ⟨r, hr, rfl⟩

theorem TicketInv.ticket_of_entry (hi : TicketInv s) {c : TaskClass} {index : Nat} {r : PendingRequest}
    (found : (s.cls c).queue[index]? = some r) : s.tickets[r.ticket]? = some (.queued c) := by
  have := hi.ticket_queued (mem_waiting_of_getElem found)
  rwa [PendingRequest.untagged_ticket] at this

/-! ## The kinds of moves -/

/-- A request left its queue for good: its ticket is no longer queued. -/
theorem TicketInv.dropped (hi : TicketInv s) (hq : QueueInv g s) {c : TaskClass} {index : Nat}
    {r : PendingRequest} (removed : Removed s.waiting s'.waiting c index r)
    (hpermits : s'.permits = s.permits) (hretains : s'.book.Retains)
    (hbounded : s'.terminalOrder.size ≤ maxTerminalTickets)
    (hchange : Changed s.book s'.book r.ticket state) (hqueued : ∀ c, state ≠ some (.queued c))
    (hheld : ∀ q, state ≠ some (.granted q) ∧ state ≠ some (.claiming q)) : TicketInv s' := by
  have hmem : ∀ c' r', r' ∈ s'.waiting c' ↔ r' ∈ s.waiting c' ∧ r'.ticket ≠ r.ticket :=
    fun c' r' => removed.mem_iff hq.tickets
  refine hi.change hretains hbounded hchange (hi.exclusive.dropped removed hpermits)
    (fun c' t' hne => ?_) (fun c' => ?_) (fun q t' _ => Label.holds_congr hpermits q t') (fun q => ?_)
  · constructor
    · rintro ⟨r', hr', ht⟩
      exact ⟨r', ((hmem c' r').mp hr').1, ht⟩
    · rintro ⟨r', hr', ht⟩
      exact ⟨r', (hmem c' r').mpr ⟨hr', fun heq => hne (ht.symm.trans heq)⟩, ht⟩
  · refine iff_of_false (hqueued c') ?_
    rintro ⟨r', hr', ht⟩
    exact ((hmem c' r').mp hr').2 ht
  · refine iff_of_false (fun h => h.elim (hheld q).1 (hheld q).2) fun h => ?_
    rw [Label.holds_congr hpermits] at h
    exact hi.exclusive.apart q r.ticket ⟨c, r, removed.mem, rfl⟩ h

/-- A permit gave up its ticket, by ending or by handing it over. -/
theorem TicketInv.released (hi : TicketInv s) (hholder : ticketLabel.Holds s p t)
    (hwaiting : s'.waiting = s.waiting)
    (hholds : ∀ q t', ticketLabel.Holds s' q t' ↔ q ≠ p ∧ ticketLabel.Holds s q t')
    (hretains : s'.book.Retains) (hbounded : s'.terminalOrder.size ≤ maxTerminalTickets)
    (hchange : Changed s.book s'.book t state) (hqueued : ∀ c, state ≠ some (.queued c))
    (hheld : ∀ q, state ≠ some (.granted q) ∧ state ≠ some (.claiming q)) : TicketInv s' := by
  refine hi.change hretains hbounded hchange
    (hi.exclusive.of_less hwaiting fun q b h => ((hholds q b).mp h).2) (fun c t' _ => by rw [hwaiting])
    (fun c => ?_) (fun q t' hne => ?_) (fun q => ?_)
  · refine iff_of_false (hqueued c) ?_
    rintro ⟨r, hr, ht⟩
    rw [hwaiting] at hr
    exact hi.exclusive.apart p t ⟨c, r, hr, congrArg some ht⟩ hholder
  · rw [hholds]
    refine ⟨fun h => h.2, fun h => ⟨?_, h⟩⟩
    rintro rfl
    obtain ⟨record, hrecord, hb⟩ := h
    obtain ⟨record', hrecord', hb'⟩ := hholder
    rw [hrecord] at hrecord'
    obtain rfl := Option.some.inj hrecord'
    rw [hb] at hb'
    exact hne (Option.some.inj hb')
  · refine iff_of_false (fun h => h.elim (hheld q).1 (hheld q).2) fun h => ?_
    obtain ⟨hne, hq⟩ := (hholds q t).mp h
    exact hne (hi.exclusive.permits q p t hq hholder)

theorem changed_insert (b : TicketBook) (t : Ticket) (x : TicketState) :
    Changed b { b with tickets := b.tickets.insert t x } t (some x) := by
  refine ⟨by simp, fun t' hne => Or.inl ?_⟩
  simp [ExtTreeMap.getElem?_insert, Ne.symm hne]

theorem changed_erase (b : TicketBook) (t : Ticket) :
    Changed b { b with tickets := b.tickets.erase t } t none := by
  refine ⟨by simp, fun t' hne => Or.inl ?_⟩
  simp [ExtTreeMap.getElem?_erase, Ne.symm hne]

/-- A ticket that names a permit, or is queued, is not terminal. -/
theorem isTerminal_active {old : Option TicketState}
    (h : (∃ c, old = some (.queued c)) ∨ ∃ p, old = some (.granted p) ∨ old = some (.claiming p)) :
    isTerminal old = false := by
  rcases h with ⟨c, rfl⟩ | ⟨p, rfl | rfl⟩ <;> rfl

/-! ## Every move -/

/-- Neither the tickets nor the books they are read from changed. -/
theorem TicketInv.unchanged (hi : TicketInv s) (hbook : s'.book = s.book)
    (hwaiting : s'.waiting = s.waiting) (hpermits : s'.permits = s.permits) :
    TicketInv s' ∧ TicketEffect caller s s' :=
  ⟨hi.same hbook hwaiting (Label.holds_congr hpermits)
    (hi.exclusive.of_less hwaiting fun p b => (Label.holds_congr hpermits p b).mp), .same hbook⟩

/-- One record was replaced by another that keeps its ticket. -/
theorem TicketInv.replaced (hi : TicketInv s) (hbook : s'.book = s.book)
    (hwaiting : s'.waiting = s.waiting) (found : s.permits[p]? = some record)
    (hpermits : s'.permits = s.permits.insert p record')
    (hsame : record'.pendingTicket = record.pendingTicket) :
    TicketInv s' ∧ TicketEffect caller s s' := by
  have hholds := Label.holds_replace (l := ticketLabel) hpermits found hsame
  exact ⟨hi.same hbook hwaiting hholds
    (hi.exclusive.of_less hwaiting fun q b => (hholds q b).mp), .same hbook⟩

theorem book_vacateOf (s : GovernedState) (r : PendingRequest) : (s.vacateOf r).book = s.book := by
  unfold GovernedState.vacateOf
  split <;> rfl

theorem ticketStep_granted {grant : GrantRequest} (hi : TicketInv s)
    (hnew : s.permits[grant.permitId]? = none) (hticket : grant.pendingTicket = none) :
    TicketInv (s.grant grant) ∧ TicketEffect caller s (s.grant grant) := by
  have hbook : (s.grant grant).book = s.book := by
    have htickets : (s.grant grant).tickets = s.tickets := by
      unfold GovernedState.grant
      rw [hticket]
    show TicketBook.mk (s.grant grant).tickets _ _ _ = _
    rw [htickets]
    rfl
  have hwaiting : (s.grant grant).waiting = s.waiting :=
    funext (GovernedState.sameQueues_grant s grant).waiting_eq
  have hholds : ∀ q t', ticketLabel.Holds (s.grant grant) q t' ↔ ticketLabel.Holds s q t' := by
    intro q t'
    rw [Label.holds_insert (s := s) rfl]
    have hnone : ticketLabel.held grant.record = none := hticket
    simp only [hnone, reduceCtorEq, and_false, false_or]
    refine ⟨fun h => h.2, fun h => ⟨?_, h⟩⟩
    rintro rfl
    obtain ⟨record, hrecord, _⟩ := h
    rw [hnew] at hrecord
    simp at hrecord
  exact ⟨hi.same hbook hwaiting hholds (hi.exclusive.of_less hwaiting fun q b => (hholds q b).mp),
    .same hbook⟩

theorem ticketStep_queued (hi : TicketInv s) {policy : ClassPolicy} {c : TaskClass}
    {request : AdmissionRequest} {ids : Ids} {r : PendingRequest} (allowed : caller.ids ids)
    (accepted : Accepted g s policy c request ids) (hr : r.ticket = ids.ticket)
    (pushed : Pushed s.waiting s'.waiting c r) (hpermits : s'.permits = s.permits)
    (hbook : s'.book = { s.book with tickets := s.tickets.insert ids.ticket (.queued c) }) :
    TicketInv s' ∧ TicketEffect caller s s' := by
  have hnone : s.tickets[ids.ticket]? = none := accepted.fresh.ticket
  have hchange : Changed s.book s'.book ids.ticket (some (.queued c)) := by
    rw [hbook]
    exact changed_insert s.book ids.ticket _
  have hfree : ∀ q, ¬ ticketLabel.Holds s q ids.ticket := by
    intro q hq
    have := (hi.held ids.ticket q).mpr hq
    rw [hnone] at this
    simp at this
  have hidle : ∀ c', ¬ ∃ r ∈ s.waiting c', r.ticket = ids.ticket := by
    rintro c' ⟨r', hr', ht⟩
    exact (accepted.fresh.waiting c' r' hr').2.1 ht
  have hseq : s'.terminalSeq = s.terminalSeq := congrArg TicketBook.terminalSeq hbook
  constructor
  · refine hi.change ?_ ?_ hchange ?_ (fun c' t' hne => ?_) (fun c' => ?_) (fun q t' _ => ?_) (fun q => ?_)
    · rw [hbook]
      exact hi.retains.set (by rw [show s.book.tickets[ids.ticket]? = none from hnone]; rfl) rfl
    · have : s'.terminalOrder = s.terminalOrder := congrArg TicketBook.terminalOrder hbook
      rw [this]
      exact hi.bounded
    · refine hi.exclusive.pushed pushed hpermits fun b hb => ?_
      obtain rfl : ids.ticket = b := by
        rw [← hr]
        exact Option.some.inj hb
      rintro (⟨c', r', hr', hb'⟩ | ⟨q, hq⟩)
      · exact hidle c' ⟨r', hr', Option.some.inj hb'⟩
      · exact hfree q hq
    · constructor
      · rintro ⟨r', hr', ht⟩
        rcases pushed.mem_iff.mp hr' with hr' | ⟨rfl, rfl⟩
        · exact ⟨r', hr', ht⟩
        · exact absurd (ht.symm.trans hr) hne
      · rintro ⟨r', hr', ht⟩
        exact ⟨r', pushed.mem_iff.mpr (Or.inl hr'), ht⟩
    · constructor
      · intro heq
        have hc : c = c' := by simpa using heq
        subst hc
        exact ⟨r, pushed.mem_iff.mpr (Or.inr ⟨rfl, rfl⟩), hr⟩
      · rintro ⟨r', hr', ht⟩
        rcases pushed.mem_iff.mp hr' with hr' | ⟨rfl, rfl⟩
        · exact absurd ⟨r', hr', ht⟩ (hidle c')
        · rfl
    · exact Label.holds_congr hpermits q t'
    · refine iff_of_false (by simp) fun h => hfree q ?_
      exact (Label.holds_congr hpermits q ids.ticket).mp h
  · refine .changed (t := ids.ticket) ?_ hchange ?_
    · rw [hnone]
      exact .enqueued c allowed rfl
    · rw [hseq]
      rfl

theorem ticketStep_promoted {nowMs : Nat} {grant : GrantRequest} {c : TaskClass} {policy : ClassPolicy}
    {index : Nat} {r head : PendingRequest} {chosen served : GovernedState} (hi : TicketInv s)
    (hq : QueueInv g s) (ho : Occupancy s)
    (h : Promotes g nowMs s s' grant c policy index r head chosen served) :
    TicketInv s' ∧ TicketEffect caller s s' := by
  have hremoved := h.removed
  rw [← h.waiting_eq] at hremoved
  have hpermits := h.permits
  have hbook := h.book
  have hold := hi.ticket_queued hremoved.mem
  have hlive := ho.not_live hremoved.mem
  rw [PendingRequest.untagged_ticket] at hold
  rw [PendingRequest.untagged_permitId] at hlive
  have hheld : ticketLabel.held grant.record = some head.ticket := by
    rw [h.grants]
    rfl
  have hchange : Changed s.book s'.book head.ticket (some (.granted head.permitId)) := by
    rw [hbook]
    exact changed_insert s.book head.ticket _
  have hfree : ∀ q, ¬ ticketLabel.Holds s q head.ticket := fun q =>
    hi.exclusive.apart q head.ticket ⟨c, _, hremoved.mem, rfl⟩
  have hmem : ∀ c' r', r' ∈ s'.waiting c' ↔ r' ∈ s.waiting c' ∧ r'.ticket ≠ head.ticket :=
    fun c' r' => hremoved.mem_iff hq.tickets
  have hseq : s'.terminalSeq = s.terminalSeq := congrArg TicketBook.terminalSeq hbook
  have hholds := Label.holds_insert (l := ticketLabel) hpermits
  constructor
  · refine hi.change ?_ ?_ hchange ?_ (fun c' t' hne => ?_) (fun c' => ?_) (fun q t' hne => ?_) (fun q => ?_)
    · rw [hbook]
      exact hi.retains.set (by rw [show s.book.tickets[head.ticket]? = _ from hold]; rfl) rfl
    · have : s'.terminalOrder = s.terminalOrder := congrArg TicketBook.terminalOrder hbook
      rw [this]
      exact hi.bounded
    · have heffect : Effect g caller s s' := h.effect hq
      refine heffect.exclusive hq hi.exclusive fun _ _ request ids b accepted hb => ?_
      obtain rfl : ids.ticket = b := Option.some.inj hb
      rintro (⟨c', r', hr', hb'⟩ | ⟨q, hq⟩)
      · exact (accepted.fresh.waiting c' r' hr').2.1 (Option.some.inj hb')
      · have := (hi.held ids.ticket q).mpr hq
        rw [accepted.fresh.ticket] at this
        simp at this
    · constructor
      · rintro ⟨r', hr', ht⟩
        exact ⟨r', ((hmem c' r').mp hr').1, ht⟩
      · rintro ⟨r', hr', ht⟩
        exact ⟨r', (hmem c' r').mpr ⟨hr', fun heq => hne (ht.symm.trans heq)⟩, ht⟩
    · refine iff_of_false (by simp) ?_
      rintro ⟨r', hr', ht⟩
      exact ((hmem c' r').mp hr').2 ht
    · rw [hholds, hheld]
      constructor
      · rintro (⟨_, heq⟩ | ⟨_, h⟩)
        · exact absurd (Option.some.inj heq).symm hne
        · exact h
      · intro hq
        refine Or.inr ⟨?_, hq⟩
        rintro rfl
        obtain ⟨record, hrecord, _⟩ := hq
        rw [hlive] at hrecord
        simp at hrecord
    · rw [hholds, hheld]
      constructor
      · rintro (heq | heq)
        · have : head.permitId = q := by simpa using heq
          exact Or.inl ⟨this.symm, rfl⟩
        · simp at heq
      · rintro (⟨rfl, _⟩ | ⟨_, h⟩)
        · exact Or.inl rfl
        · exact absurd h (hfree q)
  · refine .changed (t := head.ticket) ?_ hchange ?_
    · rw [hold]
      exact .promoted c head.permitId
    · rw [hseq]
      rfl

/-- A request taken out of its queue whose ticket ends in `x`. -/
theorem ticketStep_dropped (hi : TicketInv s) (hq : QueueInv g s) {c : TaskClass} {index : Nat}
    {r : PendingRequest} (removed : Removed s.waiting s'.waiting c index r)
    (hpermits : s'.permits = s.permits) (hretains : s'.book.Retains)
    (hbounded : s'.terminalOrder.size ≤ maxTerminalTickets)
    (hchange : Changed s.book s'.book r.ticket state)
    (step : Lifecycle caller r.ticket (some (.queued c)) state)
    (hqueued : ∀ c, state ≠ some (.queued c))
    (hheld : ∀ q, state ≠ some (.granted q) ∧ state ≠ some (.claiming q))
    (hseq : s'.terminalSeq = s.terminalSeq + if isTerminal state then 1 else 0) :
    TicketInv s' ∧ TicketEffect caller s s' := by
  refine ⟨hi.dropped hq removed hpermits hretains hbounded hchange hqueued hheld,
    .changed ?_ hchange hseq⟩
  rw [hi.ticket_queued removed.mem]
  exact step

/-- A permit that gave up its ticket, whose outcome is recorded. -/
theorem ticketStep_recorded (hi : TicketInv s) (hseq : s.terminalSeq < u64Max)
    (hholder : ticketLabel.Holds s p t) (hwaiting : s'.waiting = s.waiting)
    (hholds : ∀ q t', ticketLabel.Holds s' q t' ↔ q ≠ p ∧ ticketLabel.Holds s q t')
    {reason : TerminalReason} (hbook : s'.book = s.book.recordTerminal t reason) :
    TicketInv s' ∧ TicketEffect caller s s' := by
  have hold := (hi.held t p).mpr hholder
  have hactive : isTerminal s.book.tickets[t]? = false := isTerminal_active (Or.inr ⟨p, hold⟩)
  obtain ⟨hretains, hbounded, hnext, hchange⟩ :=
    recordTerminal_spec hi.retains hi.bounded hactive hseq
  rw [← hbook] at hretains hbounded hnext hchange
  refine ⟨hi.released hholder hwaiting hholds hretains hbounded hchange (by simp) (by simp),
    .changed (.ended reason hold) hchange ?_⟩
  exact hnext

theorem holds_emptied (hpermits : s'.permits = s.permits.insert p record')
    (hnone : record'.pendingTicket = none) (q : PermitId) (t' : Ticket) :
    ticketLabel.Holds s' q t' ↔ q ≠ p ∧ ticketLabel.Holds s q t' := by
  rw [Label.holds_insert (l := ticketLabel) hpermits]
  have : ticketLabel.held record' = none := hnone
  simp [this]

theorem forgetTerminal_of_not_final {b : TicketBook} (h : b.Retains) (hfinal : isFinal b.tickets[t]? = false) :
    b.forgetTerminal t = b := by
  have hterminal : isTerminal b.tickets[t]? = false := by
    revert hfinal
    cases b.tickets[t]? with
    | none => simp [isTerminal]
    | some x => cases x <;> simp [isTerminal, isFinal]
  have hnone := h.not_indexed hterminal
  have hindex : b.terminalIndex.erase t = b.terminalIndex := by
    ext t' n
    rw [ExtTreeMap.getElem?_erase]
    by_cases heq : t = t'
    · subst heq
      simp [hnone]
    · simp [heq]
  unfold forgetTerminal
  simp [hfinal, hnone, hindex]

theorem ticketStep_forgot (hi : TicketInv s) (t : Ticket) (owner : caller.tickets t) :
    TicketInv (s.forgetTerminalTicket t) ∧ TicketEffect caller s (s.forgetTerminalTicket t) := by
  by_cases hfinal : isFinal s.book.tickets[t]? = true
  · obtain ⟨hretains, hsize, htickets⟩ := forgetTerminal_spec (t := t) hi.retains
    have hchange : Changed s.book (s.forgetTerminalTicket t).book t none := by
      refine ⟨?_, fun t' hne => Or.inl ?_⟩
      · exact (htickets t).trans (by simp [hfinal])
      · exact (htickets t').trans (by simp [hne])
    have hnot : ∀ x, s.tickets[t]? = some x → isFinal (some x) = true := by
      intro x hx
      have hx' : s.book.tickets[t]? = some x := hx
      rw [← hx']
      exact hfinal
    refine ⟨hi.change hretains (Nat.le_trans hsize hi.bounded) hchange ?_ (fun _ _ _ => Iff.rfl)
      (fun c => ?_) (fun _ _ _ => Iff.rfl) (fun q => ?_), .changed (.forgotten hfinal owner) hchange rfl⟩
    · exact ⟨hi.exclusive.queues, hi.exclusive.permits, hi.exclusive.apart⟩
    · refine iff_of_false (by simp) fun h => ?_
      have := hnot _ ((hi.queued t c).mpr h)
      simp [isFinal] at this
    · refine iff_of_false (by simp) fun h => ?_
      rcases (hi.held t q).mpr h with h | h
      · have := hnot _ h
        simp [isFinal] at this
      · have := hnot _ h
        simp [isFinal] at this
  · have hbook : (s.forgetTerminalTicket t).book = s.book :=
      forgetTerminal_of_not_final hi.retains (by simpa using hfinal)
    exact hi.unchanged hbook rfl rfl

/-- Every move keeps the representations of all tickets in step and moves at most one of them on. -/
theorem Move.ticketStep {trend : Trend} (h : Move g caller trend s s') (hq : QueueInv g s)
    (ho : Occupancy s) (hi : TicketInv s) (hseq : s.terminalSeq < u64Max) :
    TicketInv s' ∧ TicketEffect caller s s' := by
  cases h with
  | rescheduled h => exact hi.unchanged h.tickets (funext h.queues.waiting_eq) h.ledger.permits
  | flagged _ pending => exact hi.unchanged rfl rfl rfl
  | closed => exact hi.unchanged rfl rfl rfl
  | faulted _ what allowed =>
    have hm := memoryOnly_recordAccountingFault s what
    exact hi.unchanged hm.tickets (funext (sameQueues_recordAccountingFault s what).waiting_eq) hm.permits
  | admitted nowMs allowed accepted runnable => exact ticketStep_granted hi accepted.fresh.permit rfl
  | @enqueued _ tagged policy c request ids blockers waker nowMs tags allowed accepted blocked room hres
      sound =>
    have hbook : (tagged.commitPending
        (pendingRequest s policy c request waker ids nowMs blockers.primary tags)).book =
          { s.book with tickets := s.tickets.insert ids.ticket (.queued c) } := by
      have htickets : tagged.tickets = s.tickets := congrArg TicketBook.tickets hres.tickets
      rw [← hres.tickets, ← htickets]
      unfold GovernedState.commitPending
      simp only
      split <;> rfl
    have hpermits : (tagged.commitPending
        (pendingRequest s policy c request waker ids nowMs blockers.primary tags)).permits = s.permits := by
      rw [← hres.ledger.permits]
      unfold GovernedState.commitPending
      simp only
      split <;> rfl
    exact ticketStep_queued hi allowed accepted rfl (pushed_commitPending hres) hpermits hbook
  | promoted nowMs h =>
    obtain ⟨c, policy, index, r, head, chosen, served, hpromotes⟩ := promoteStep_some h
    exact ticketStep_promoted hi hq ho hpromotes
  | @cycled _ c index witness r held h found first =>
    have hactive : isTerminal s.book.tickets[r.ticket]? = false :=
      isTerminal_active (Or.inl ⟨c, hi.ticket_of_entry found⟩)
    obtain ⟨hretains, hbounded, hnext, hchange⟩ :=
      recordTerminal_spec hi.retains hi.bounded hactive hseq
    have hres := rescheduled_unserved g (s.removedPending c index r) c
    have hbook : (g.terminalizeCycle (s.removedPending c index r) c r held).book =
        s.book.recordTerminal r.ticket (.irreversibleWaitCycle held) := by
      have hbase : (g.unserved (s.removedPending c index r) c).book = s.book := hres.tickets
      show (g.unserved (s.removedPending c index r) c).book.recordTerminal _ _ = _
      rw [hbase]
    rw [← hbook] at hretains hbounded hnext hchange
    have hwaiting : (g.terminalizeCycle (s.removedPending c index r) c r held).waiting =
        (s.removedPending c index r).waiting :=
      funext (sameQueues_terminalizeCycle g _ c r held).waiting_eq
    have hremoved := GovernedState.removed_removedPending found
    rw [← hwaiting] at hremoved
    exact ticketStep_dropped hi hq hremoved hres.ledger.permits hretains hbounded hchange
      (.cycled c held) (by simp) (by simp) hnext
  | @cancelled _ c index r ticket h found same owner =>
    subst same
    have hactive : isTerminal s.book.tickets[r.ticket]? = false :=
      isTerminal_active (Or.inl ⟨c, hi.ticket_of_entry found⟩)
    have hbook : (((s.removedPending c index r).removeTicket r.ticket).vacateOf r).book =
        { s.book with tickets := s.tickets.erase r.ticket } := book_vacateOf _ r
    have hwaiting : (((s.removedPending c index r).removeTicket r.ticket).vacateOf r).waiting =
        (s.removedPending c index r).waiting :=
      funext (sameQueues_vacateOf ((s.removedPending c index r).removeTicket r.ticket) r).waiting_eq
    have hremoved := GovernedState.removed_removedPending found
    rw [← hwaiting] at hremoved
    refine ticketStep_dropped hi hq hremoved ?_ ?_ ?_ ?_ (.cancelled c owner) (by simp) (by simp) ?_
    · exact (sameLedger_vacateOf ((s.removedPending c index r).removeTicket r.ticket) r).permits
    · rw [hbook]
      exact hi.retains.unset hactive
    · exact Nat.le_trans (Nat.le_of_eq (congrArg (fun b => b.terminalOrder.size) hbook)) hi.bounded
    · rw [hbook]
      exact changed_erase s.book r.ticket
    · exact congrArg TicketBook.terminalSeq hbook
  | lost h missing owner =>
    obtain ⟨r, hr, ht⟩ := hi.entry_queued h
    exact absurd ht (missing r hr)
  | @faultedHead _ c r found =>
    have hactive : isTerminal s.book.tickets[r.ticket]? = false :=
      isTerminal_active (Or.inl ⟨c, hi.ticket_of_entry found⟩)
    have hbook : (((s.removedPending c 0 r).vacateOf r).setTicket r.ticket .faulted).book =
        { s.book with tickets := s.tickets.insert r.ticket .faulted } := by
      have hvacated : ((s.removedPending c 0 r).vacateOf r).book = s.book := book_vacateOf _ r
      rw [← hvacated]
      have htickets : ((s.removedPending c 0 r).vacateOf r).tickets = s.tickets :=
        congrArg TicketBook.tickets hvacated
      rw [← htickets]
      rfl
    have hwaiting : (((s.removedPending c 0 r).vacateOf r).setTicket r.ticket .faulted).waiting =
        (s.removedPending c 0 r).waiting :=
      funext (sameQueues_vacateOf (s.removedPending c 0 r) r).waiting_eq
    have hremoved := GovernedState.removed_removedPending found
    rw [← hwaiting] at hremoved
    refine ticketStep_dropped hi hq hremoved ?_ ?_ ?_ ?_ (.faulted c) (by simp) (by simp) ?_
    · exact (sameLedger_vacateOf (s.removedPending c 0 r) r).permits
    · rw [hbook]
      exact hi.retains.set hactive rfl
    · exact Nat.le_trans (Nat.le_of_eq (congrArg (fun b => b.terminalOrder.size) hbook)) hi.bounded
    · rw [hbook]
      exact changed_insert s.book r.ticket _
    · exact congrArg TicketBook.terminalSeq hbook
  | @unwound _ _ p record reason effects effects' found ends h =>
    have hpermits := permits_unwind h
    have hwaiting : s'.waiting = s.waiting := funext (sameQueues_unwind h).waiting_eq
    have hholds := Label.holds_erase (l := ticketLabel) hpermits
    unfold GovernedState.unwind at h
    rw [found] at h
    simp only at h
    cases hticket : record.pendingTicket with
    | none =>
      rw [hticket] at h
      simp only [Option.some.injEq, Prod.mk.injEq] at h
      have hbook : s'.book = s.book := by
        rw [← h.1]
        rfl
      have hsame : ∀ q t', ticketLabel.Holds s' q t' ↔ ticketLabel.Holds s q t' := by
        intro q t'
        rw [hholds]
        refine ⟨fun hq => hq.2, fun hq => ⟨?_, hq⟩⟩
        rintro rfl
        obtain ⟨holder, hholder, hb⟩ := hq
        rw [found] at hholder
        obtain rfl := Option.some.inj hholder
        have hb' : record.pendingTicket = some t' := hb
        rw [hticket] at hb'
        simp at hb'
      exact ⟨hi.same hbook hwaiting hsame (hi.exclusive.of_less hwaiting fun q b => (hsame q b).mp),
        .same hbook⟩
    | some t =>
      rw [hticket] at h
      simp only [Option.some.injEq, Prod.mk.injEq] at h
      have hbook : s'.book = s.book.recordTerminal t reason := by
        rw [← h.1]
        rfl
      exact ticketStep_recorded hi hseq ⟨record, found, hticket⟩ hwaiting hholds hbook
  | @claimBegun _ ticket p record nowMs h found owner =>
    have hchange := changed_insert s.book ticket (.claiming p)
    have hsame : ticketLabel.held (Governor.claimedRecord record nowMs) = ticketLabel.held record := rfl
    have hholds : ∀ q t', ticketLabel.Holds (GovernedState.setTicket
        { s with permits := s.permits.insert p (Governor.claimedRecord record nowMs) } ticket
        (.claiming p)) q t' ↔ ticketLabel.Holds s q t' :=
      Label.holds_replace rfl found hsame
    have hholder : ticketLabel.Holds s p ticket := (hi.held ticket p).mp (Or.inl h)
    refine ⟨hi.change ?_ hi.bounded hchange ?_ (fun _ _ _ => Iff.rfl)
      (fun c => ?_) (fun q t' _ => hholds q t') (fun q => ?_), .changed ?_ hchange rfl⟩
    · exact hi.retains.set (isTerminal_active (Or.inr ⟨p, Or.inl h⟩)) rfl
    · exact hi.exclusive.of_less rfl fun q b => (hholds q b).mp
    · refine iff_of_false (by simp) fun hr => ?_
      have := (hi.queued ticket c).mpr hr
      rw [h] at this
      simp at this
    · rw [hholds]
      constructor
      · rintro (heq | heq)
        · simp at heq
        · obtain rfl : p = q := by simpa using heq
          exact hholder
      · intro hq
        obtain rfl := hi.exclusive.permits q p ticket hq hholder
        exact Or.inr rfl
    · rw [h]
      exact .begun p owner
  | @transferred _ ticket p record nowMs h found owner =>
    have hchange := changed_erase s.book ticket
    refine ⟨hi.released (p := p) (t := ticket) ((hi.held ticket p).mp (Or.inr h)) rfl
      (holds_emptied rfl rfl) ?_ hi.bounded hchange (by simp) (by simp), .changed ?_ hchange rfl⟩
    · exact hi.retains.unset (isTerminal_active (Or.inr ⟨p, Or.inr h⟩))
    · rw [h]
      exact .transferred p owner
  | @detached _ ticket p record h found leased =>
    have heq : Governor.detachTicket s p ticket =
        GovernedState.recordTerminalTicket
          { s with permits := s.permits.insert p { record with pendingTicket := none } } ticket
          .claimDeliveryFailed := by
      unfold Governor.detachTicket
      rw [found]
    rw [heq]
    exact ticketStep_recorded hi hseq (p := p) (t := ticket) ((hi.held ticket p).mp (Or.inr h)) rfl
      (holds_emptied rfl rfl) rfl
  | expired h gone =>
    obtain ⟨record, hrecord, _⟩ := hi.permit_live (Or.inr h)
    rw [gone] at hrecord
    simp at hrecord
  | orphaned h gone owner =>
    obtain ⟨record, hrecord, _⟩ := hi.permit_live h
    rw [gone] at hrecord
    simp at hrecord
  | forgot _ ticket owner => exact ticketStep_forgot hi ticket owner
  | @advanced _ p record phase nonces found later =>
    exact hi.replaced rfl (funext (GovernedState.sameQueues_advancedTo s p record phase nonces).waiting_eq)
      found rfl rfl
  | @recharged _ p record ledger allowed found change =>
    have hm := memoryOnly_rechargePermit s p record ledger
    exact hi.replaced hm.tickets (funext (sameQueues_rechargePermit s p record ledger).waiting_eq) found
      hm.permits rfl

end Taskmesh
