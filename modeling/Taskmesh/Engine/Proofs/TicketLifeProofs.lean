import Taskmesh.Engine.Proofs.ConservationProofs

/-!
# Tickets in every reachable state

What the five representations of a ticket say about each other, read off the queues and permits
themselves; and that a ticket which is gone never comes back.
-/

namespace Taskmesh

open Std MachineInt QueueFamily ExtTreeMap TicketBook Governor

variable {g : Governor} {s : GovernedState} {σ σ' : g.System} {a : Action} {e : Event} {t : Ticket}

/-- Every queue entry with the ticket, over all queues. -/
def ticketEntries (s : GovernedState) (t : Ticket) : List (TaskClass × PendingRequest) :=
  s.classes.toList.flatMap fun entry =>
    (entry.2.queue.filter fun r => r.ticket = t).map fun r => (entry.1, r)

/-- The ticket index, the queues, the permits and the retained outcomes agree. -/
structure TicketsExact (s : GovernedState) : Prop where
  queued : ∀ (t : Ticket) c, s.tickets[t]? = some (.queued c) ↔
    ∃ r, ticketEntries s t = [(c, r)] ∧ r.taskClass = c
  held : ∀ (t : Ticket) p, (s.tickets[t]? = some (.granted p) ∨ s.tickets[t]? = some (.claiming p)) ↔
    ∃ record, s.permits[p]? = some record ∧ record.pendingTicket = some t
  single : ∀ (t t' : Ticket) p, (s.tickets[t]? = some (.granted p) ∨ s.tickets[t]? = some (.claiming p)) →
    (s.tickets[t']? = some (.granted p) ∨ s.tickets[t']? = some (.claiming p)) → t = t'
  terminal : ∀ t : Ticket, (∃ reason, s.tickets[t]? = some (.terminal reason)) ↔ t ∈ s.terminalIndex
  inverse : ∀ (t : Ticket) (n : Nat), s.terminalIndex[t]? = some n ↔ s.terminalOrder[n]? = some t
  sameSize : s.terminalOrder.size = s.terminalIndex.size
  bounded : s.terminalOrder.size ≤ maxTerminalTickets
  faulted : ∀ t : Ticket, s.tickets[t]? = some .faulted → ticketEntries s t = [] ∧
    (∀ (p : PermitId) record, s.permits[p]? = some record → record.pendingTicket ≠ some t) ∧
    t ∉ s.terminalIndex ∧ ∀ n : Nat, s.terminalOrder[n]? ≠ some t

theorem mem_ticketEntries {c : TaskClass} {r : PendingRequest} :
    (c, r) ∈ ticketEntries s t ↔ r ∈ (s.cls c).queue ∧ r.ticket = t := by
  unfold ticketEntries
  simp only [List.mem_flatMap, List.mem_map, List.mem_filter, decide_eq_true_eq, Prod.mk.injEq]
  constructor
  · rintro ⟨⟨c', cs⟩, hcs, r', ⟨hr, ht⟩, rfl, rfl⟩
    have hcls : s.cls c' = cs := by simp [GovernedState.cls, mem_toList.mp hcs]
    exact ⟨hcls ▸ hr, ht⟩
  · rintro ⟨hr, ht⟩
    cases hcs : s.classes[c]? with
    | none => simp [GovernedState.cls, hcs, default] at hr
    | some cs =>
      have hcls : s.cls c = cs := by simp [GovernedState.cls, hcs]
      exact ⟨(c, cs), mem_toList.mpr hcs, r, ⟨hcls ▸ hr, ht⟩, rfl, rfl⟩

theorem QueueInv.nodup_queue (hinv : QueueInv g s) (c : TaskClass) : (s.cls c).queue.Nodup := by
  have hnodup := hinv.tickets.within c
  simp only [GovernedState.waiting, ClassState.queueHalf, List.map_map] at hnodup
  exact hnodup.of_map _

theorem QueueInv.nodup_ticketEntries (hinv : QueueInv g s) (t : Ticket) : (ticketEntries s t).Nodup := by
  unfold ticketEntries
  rw [List.nodup_flatMap]
  constructor
  · rintro ⟨c, cs⟩ hcs
    have hcls : s.cls c = cs := by simp [GovernedState.cls, mem_toList.mp hcs]
    refine List.Nodup.map (fun r r' h => (Prod.mk.inj h).2) ?_
    exact (hcls ▸ hinv.nodup_queue c).filter _
  · refine (ExtTreeMap.distinct_keys_toList (t := s.classes)).imp ?_
    rintro ⟨c, cs⟩ ⟨c', cs'⟩ hne x hx hx'
    obtain ⟨r, _, rfl⟩ := List.mem_map.mp hx
    obtain ⟨r', _, heq⟩ := List.mem_map.mp hx'
    exact hne (by simpa using (Prod.mk.inj heq).1.symm)

/-- A queued ticket has exactly one entry, in the queue it names. -/
theorem StateInv.queued_iff (hinv : StateInv g s) (t : Ticket) (c : TaskClass) :
    s.tickets[t]? = some (.queued c) ↔ ∃ r, ticketEntries s t = [(c, r)] ∧ r.taskClass = c := by
  constructor
  · intro h
    obtain ⟨r, hr, ht⟩ := hinv.tickets.entry_queued h
    obtain ⟨policy, hfits⟩ := hinv.queues.fits c r.untagged (List.mem_map_of_mem hr)
    refine ⟨r, ?_, hfits.taskClass⟩
    have hall : ∀ x ∈ ticketEntries s t, x = (c, r) := by
      rintro ⟨c', r'⟩ hx
      obtain ⟨hr', ht'⟩ := mem_ticketEntries.mp hx
      obtain rfl : c' = c := hinv.queues.tickets.across c' c r'.untagged r.untagged
        (List.mem_map_of_mem hr') (List.mem_map_of_mem hr) (ht'.trans ht.symm)
      have hnodup := hinv.queues.tickets.within c'
      simp only [GovernedState.waiting, ClassState.queueHalf, List.map_map] at hnodup
      rw [List.inj_on_of_nodup_map hnodup hr' hr (ht'.trans ht.symm)]
    have hmem : (c, r) ∈ ticketEntries s t := mem_ticketEntries.mpr ⟨hr, ht⟩
    refine List.perm_singleton.mp ((List.perm_ext_iff_of_nodup (hinv.queues.nodup_ticketEntries t)
      (List.nodup_singleton _)).mpr fun x => ?_)
    rw [List.mem_singleton]
    exact ⟨hall x, fun hx => hx ▸ hmem⟩
  · rintro ⟨r, hentries, _⟩
    obtain ⟨hr, ht⟩ := mem_ticketEntries.mp (hentries ▸ List.mem_singleton_self (c, r))
    exact (hinv.tickets.queued t c).mpr ⟨r.untagged, List.mem_map_of_mem hr, ht⟩

theorem StateInv.ticketsExact (hinv : StateInv g s) : TicketsExact s := by
  have hretains := hinv.tickets.retains
  have hterminal : ∀ t : Ticket, (∃ reason, s.tickets[t]? = some (.terminal reason)) ↔
      t ∈ s.terminalIndex := by
    intro t
    rw [ExtTreeMap.mem_iff_isSome_getElem?, Option.isSome_iff_ne_none]
    have hiff : isTerminal s.tickets[t]? = true ↔ s.terminalIndex[t]? ≠ none := hretains.terminal t
    rw [← hiff]
    cases h : s.tickets[t]? with
    | none => simp [isTerminal]
    | some state => cases state <;> simp [isTerminal]
  refine ⟨hinv.queued_iff, hinv.tickets.held, fun t t' p h h' => ?_, hterminal, hretains.inverse,
    hretains.size_eq.symm, hinv.tickets.bounded, fun t h => ⟨?_, fun p record hp heq => ?_, fun hmem => ?_,
    fun n hn => ?_⟩⟩
  · obtain ⟨record, hrecord, ht⟩ := hinv.tickets.permit_live h
    obtain ⟨record', hrecord', ht'⟩ := hinv.tickets.permit_live h'
    rw [hrecord] at hrecord'
    obtain rfl := Option.some.inj hrecord'
    exact Option.some.inj (ht.symm.trans ht')
  · rw [List.eq_nil_iff_forall_not_mem]
    rintro ⟨c, r⟩ hx
    obtain ⟨hr, ht⟩ := mem_ticketEntries.mp hx
    have hqueued := (hinv.tickets.queued t c).mpr ⟨r.untagged, List.mem_map_of_mem hr, ht⟩
    rw [h] at hqueued
    simp at hqueued
  · have hheld := (hinv.tickets.held t p).mpr ⟨record, hp, heq⟩
    rw [h] at hheld
    simp at hheld
  · obtain ⟨reason, hreason⟩ := (hterminal t).mpr hmem
    rw [h] at hreason
    simp at hreason
  · have hindex : s.terminalIndex[t]? = some n := (hretains.inverse t n).mpr hn
    obtain ⟨reason, hreason⟩ := (hterminal t).mpr (by simp [ExtTreeMap.mem_iff_isSome_getElem?, hindex])
    rw [h] at hreason
    simp at hreason

/-! ## A ticket that is gone -/

/-- A ticket no call holds any more stays so. -/
theorem spentTicket_step (hspent : SpentTicket σ t) (h : g.step σ a = some (σ', e)) :
    SpentTicket σ' t := by
  obtain ⟨p, old, new, rest, hp, rfl, hthreads⟩ := step_threads h
  obtain ⟨given, hheld, _⟩ := hthreads.given
  exact Allocation.Spent.step hspent hheld.tickets

/-- A ticket that was taken and is not there never comes back. -/
theorem SysInv.absent_run (hinv : SysInv σ) (hspent : SpentTicket σ t) (hnone : σ.state.tickets[t]? = none)
    {trace : List (Action × Event)} (hrun : Runs.Run g.step σ trace σ') : σ'.state.tickets[t]? = none := by
  refine (hrun.invariant (P := fun σ : g.System => (SysInv σ ∧ SpentTicket σ t) ∧
    σ.state.tickets[t]? = none) ?_ ⟨⟨hinv, hspent⟩, hnone⟩).2
  rintro σ₁ a σ₂ e ⟨⟨hinv₁, hspent₁⟩, hnone₁⟩ hstep
  refine ⟨⟨hinv₁.step hstep, spentTicket_step hspent₁ hstep⟩, ?_⟩
  refine hinv₁.step_ticket hstep (Q := fun state => state = none) (fun old new hlife hold => ?_)
    (fun _ _ _ => rfl) hnone₁
  subst hold
  rcases hlife.of_none with hnew | ⟨ids, hids, heq⟩
  · exact hnew
  · exact absurd heq (SysInv.not_brought hspent₁ hids)

/-- In every reachable state the representations of every ticket agree, so a ticket that names a permit
names a live one and a queued ticket is found in its queue; and a ticket that was there and is gone
stays away in every continuation. -/
theorem reachable_tickets (g : Governor) (σ : g.System) (h : g.Reachable σ) :
    TicketsExact σ.state ∧
    (∀ (t : Ticket) p, (σ.state.tickets[t]? = some (.granted p) ∨
      σ.state.tickets[t]? = some (.claiming p)) → σ.state.permits[p]? ≠ none) ∧
    (∀ (t : Ticket) c, σ.state.tickets[t]? = some (.queued c) →
      ∃ index r, ((σ.state.cls c).queue.findIdx? fun r => r.ticket = t) = some index ∧
        σ.state.removePending c index = some (σ.state.removedPending c index r, r) ∧ r.ticket = t) ∧
    ∀ (t : Ticket) trace σ' trace' σ'', σ.state.tickets[t]? ≠ none → Runs.Run g.step σ trace σ' →
      σ'.state.tickets[t]? = none → Runs.Run g.step σ' trace' σ'' → σ''.state.tickets[t]? = none := by
  have hinv := SysInv.of_reachable h
  refine ⟨hinv.state.ticketsExact, fun t p hp => ?_, fun t c hqueued => ?_, ?_⟩
  · obtain ⟨record, hrecord, _⟩ := hinv.state.tickets.permit_live hp
    simp [hrecord]
  · obtain ⟨r, hr, ht⟩ := hinv.state.tickets.entry_queued hqueued
    cases hfound : (σ.state.cls c).queue.findIdx? fun r => r.ticket = t with
    | none =>
      have := List.findIdx?_eq_none_iff.mp hfound r hr
      simp [ht] at this
    | some index =>
      obtain ⟨hlt, hsame, _⟩ := List.findIdx?_eq_some_iff_getElem.mp hfound
      refine ⟨index, (σ.state.cls c).queue[index], rfl, ?_, by simpa using hsame⟩
      exact GovernedState.removePending_of_getElem (List.getElem?_eq_getElem hlt)
  · intro t trace σ' trace' σ'' hsome hrun hnone hrun'
    have hused := hinv.tickets.spent_of_used ⟨t, hsome, rfl⟩
    have hspent : SpentTicket σ' t := by
      refine hrun.invariant (P := fun σ : g.System => SpentTicket σ t) ?_ hused
      exact fun _ _ _ _ hspent hstep => spentTicket_step hspent hstep
    exact (SysInv.of_reachable (h.run hrun)).absent_run hspent hnone hrun'

/-- In the sample one ticket is queued. -/
theorem sample_tickets :
    Sample.busy.state.tickets[(⟨7, 2⟩ : Ticket)]? = some (.queued ⟨"work"⟩) ∧
      TicketsExact Sample.busy.state :=
  ⟨by decide +kernel, (reachable_tickets Sample.governor Sample.busy
    (Runs.Reachable.of_restrict Sample.busy_reachable)).1⟩

end Taskmesh
