import Taskmesh.Engine.Proofs.GateProofs
import Taskmesh.Engine.Proofs.RefusalProofs

/-!
# Where wakers are

A waiter is notified through a host reference: it lives in the queue entry of its request, then in the
record of its permit, and leaves the state through the effects of a transition. Every move that takes
a reference out of the state hands it over to the effects, and a ticket that moves on has its waker
among the references to be woken.
-/

namespace Taskmesh

open Std MachineInt SetIndex QueueFamily ExtTreeMap TicketBook Governor

variable {g : Governor} {caller : Caller} {dispatching : Prop} {s s' base : GovernedState} {w : Waker} {t : Ticket}
  {p : PermitId} {record record' : PermitRecord} {c : TaskClass} {index : Nat} {r : PendingRequest}

/-! ## Counting references -/

/-- How many entries of a queue refer to `w`. -/
def refsIn (queue : List PendingRequest) (w : Waker) : Nat :=
  queue.countP fun r => decide (r.waker = some w)

/-- Whether an optional reference is one to `w`. -/
def refTo (waker : Option Waker) (w : Waker) : Nat := if waker = some w then 1 else 0

/-- The references to `w` in the queues. -/
def queuedRefs (s : GovernedState) (w : Waker) : Nat := sumBy s.classes fun _ cs => refsIn cs.queue w

/-- The references to `w` in the records of live permits. -/
def liveRefs (s : GovernedState) (w : Waker) : Nat := heldBy s.permits fun record => refTo record.claimWaker w

/-- The references to `w` the state holds. -/
def heldRefs (s : GovernedState) (w : Waker) : Nat := queuedRefs s w + liveRefs s w

/-- The references to `w` in the records of permits that were not live in `base`. -/
def mintedRefs (base s : GovernedState) (w : Waker) : Nat :=
  sumBy s.permits fun p record => if p ∈ base.permits then 0 else refTo record.claimWaker w

/-- The references to `w` that effects carry out of the state. -/
def TransitionEffects.refs (effects : TransitionEffects) (w : Waker) : Nat :=
  effects.wake.count w + effects.retire.count w

theorem count_toList (waker : Option Waker) (w : Waker) : waker.toList.count w = refTo waker w := by
  cases waker with
  | none => simp [refTo]
  | some w' => simp [refTo, List.count_singleton]

@[simp] theorem count_pushWake (effects : TransitionEffects) (waker : Option Waker) (w : Waker) :
    (effects.pushWake waker).wake.count w = effects.wake.count w + refTo waker w := by
  simp only [TransitionEffects.pushWake, List.count_append, count_toList]

@[simp] theorem refs_pushWake (effects : TransitionEffects) (waker : Option Waker) (w : Waker) :
    (effects.pushWake waker).refs w = effects.refs w + refTo waker w := by
  simp only [TransitionEffects.refs, TransitionEffects.pushWake, List.count_append, count_toList]
  omega

@[simp] theorem refs_pushRetire (effects : TransitionEffects) (waker : Option Waker) (w : Waker) :
    (effects.pushRetire waker).refs w = effects.refs w + refTo waker w := by
  simp only [TransitionEffects.refs, TransitionEffects.pushRetire, List.count_append, count_toList]
  omega

@[simp] theorem refs_absorb (effects other : TransitionEffects) (w : Waker) :
    (effects.absorb other).refs w = effects.refs w + other.refs w := by
  simp only [TransitionEffects.refs, TransitionEffects.absorb, List.count_append]
  omega

@[simp] theorem refs_empty (w : Waker) : ({} : TransitionEffects).refs w = 0 := rfl

theorem refsIn_waiting (s : GovernedState) (c : TaskClass) (w : Waker) :
    refsIn (s.waiting c) w = refsIn (s.cls c).queue w := by
  unfold refsIn GovernedState.waiting ClassState.queueHalf
  rw [List.countP_map]
  rfl

/-- Only the queue of one class changed. -/
theorem queuedRefs_change (h : ∀ c', c' ≠ c → s'.waiting c' = s.waiting c') :
    queuedRefs s' w + refsIn (s.waiting c) w = queuedRefs s w + refsIn (s'.waiting c) w := by
  have hread : ∀ c' : TaskClass, refsIn (s'.classes[c']?.getD (default : ClassState)).queue w =
      refsIn ((s.classes.insert c (s'.cls c))[c']?.getD (default : ClassState)).queue w := by
    intro c'
    by_cases hc : c = c'
    · subst hc
      simp [GovernedState.cls]
    · have hsame := congrArg (refsIn · w) (h c' (Ne.symm hc))
      simp only [refsIn_waiting] at hsame
      simpa [ExtTreeMap.getElem?_insert, hc, GovernedState.cls] using hsame
  have hsum : queuedRefs s' w = sumBy (s.classes.insert c (s'.cls c)) fun _ cs => refsIn cs.queue w :=
    sumBy_congr_getD default (fun _ => rfl) hread
  have hupsert := sumBy_upsert s.classes c default (s'.cls c) (fun _ cs => refsIn cs.queue w) rfl
  rw [hsum, refsIn_waiting, refsIn_waiting]
  exact hupsert

theorem queuedRefs_same (h : s'.waiting = s.waiting) (w : Waker) : queuedRefs s' w = queuedRefs s w := by
  have hchange := queuedRefs_change (w := w) (c := ⟨""⟩) fun c' _ => congrFun h c'
  rw [h] at hchange
  omega

/-- A removal takes the references of the removed request and no others. -/
theorem queuedRefs_removed (h : Removed s.waiting s'.waiting c index r) (w : Waker) :
    queuedRefs s' w + refTo r.waker w = queuedRefs s w := by
  have hchange := queuedRefs_change (w := w) h.other
  obtain ⟨hlt, hget⟩ := List.getElem?_eq_some_iff.mp h.found
  have hperm := (List.getElem_cons_eraseIdx_perm hlt).countP_eq fun r => decide (r.waker = some w)
  rw [hget, List.countP_cons, ← h.rest] at hperm
  simp only [decide_eq_true_eq] at hperm
  unfold refsIn at hchange
  unfold refTo
  omega

/-- A push adds the references of the request that joins and no others. -/
theorem queuedRefs_pushed (h : Pushed s.waiting s'.waiting c r) (w : Waker) :
    queuedRefs s' w = queuedRefs s w + refTo r.waker w := by
  have hchange := queuedRefs_change (w := w) h.other
  unfold refsIn at hchange
  rw [h.back, List.countP_append, List.countP_singleton] at hchange
  simp only [decide_eq_true_eq] at hchange
  unfold refTo
  omega

/-- Where no permit is new, nothing was minted. -/
theorem mintedRefs_of_subset (h : ∀ p, p ∈ s.permits → p ∈ base.permits) (w : Waker) :
    mintedRefs base s w = 0 := by
  refine sumBy_eq_zero fun p record hp => if_pos (h p ?_)
  exact ExtTreeMap.mem_iff_isSome_getElem?.mpr (by simp [hp])

/-! ## Moves that hand references over -/

/-- A move together with what it hands to the effects. Only a section that dispatches changes the custody
of a permit. -/
inductive Handover (g : Governor) (caller : Caller) (dispatching : Prop) :
    Trend → GovernedState × TransitionEffects → GovernedState × TransitionEffects → Prop
  | kept {trend : Trend} {s s' : GovernedState} {effects effects' : TransitionEffects}
      (move : Move g caller trend s s') (waiting : s'.waiting = s.waiting)
      (permits : s'.permits = s.permits) (wake : effects'.wake = effects.wake)
      (retire : effects'.retire = effects.retire) : Handover g caller dispatching trend (s, effects) (s', effects')
  | replaced {s s' : GovernedState} {p : PermitId} {record record' : PermitRecord}
      (effects : TransitionEffects) (move : Move g caller .shrinking s s')
      (waiting : s'.waiting = s.waiting) (found : s.permits[p]? = some record)
      (permits : s'.permits = s.permits.insert p record')
      (waker : record'.claimWaker = record.claimWaker)
      (ticket : record'.pendingTicket = record.pendingTicket ∨
        ∃ t : Ticket, s.tickets[t]? = some (.claiming p))
      (custody : record'.phase = record.phase ∧ record'.leaseNonce = record.leaseNonce ∨ dispatching) :
      Handover g caller dispatching .shrinking (s, effects) (s', effects)
  | woken {trend : Trend} {s s' : GovernedState} {c : TaskClass} {index : Nat} {r : PendingRequest}
      (effects : TransitionEffects) (move : Move g caller trend s s')
      (removed : Removed s.waiting s'.waiting c index r.untagged) (permits : s'.permits = s.permits) :
      Handover g caller dispatching trend (s, effects) (s', effects.pushWake r.waker)
  | withdrawn {s s' : GovernedState} {c : TaskClass} {index : Nat} {r : PendingRequest}
      (effects : TransitionEffects) (move : Move g caller .shrinking s s')
      (removed : Removed s.waiting s'.waiting c index r.untagged) (permits : s'.permits = s.permits)
      (owner : caller.tickets r.ticket) :
      Handover g caller dispatching .shrinking (s, effects) (s', effects.pushRetire r.waker)
  | promoted {s s' : GovernedState} {grant : GrantRequest} (effects : TransitionEffects) (nowMs : Nat)
      (h : g.promoteStep nowMs s = (s', some grant)) :
      Handover g caller dispatching .growing (s, effects) (s', effects.pushWake grant.claimWaker)
  | unwound {s s' : GovernedState} {p : PermitId} {record : PermitRecord} {reason : TerminalReason}
      {effects effects' : TransitionEffects} (move : Move g caller .shrinking s s')
      (found : s.permits[p]? = some record) (h : s.unwind p reason effects = some (s', effects')) :
      Handover g caller dispatching .shrinking (s, effects) (s', effects')
  | begun {s : GovernedState} {ticket : Ticket} {p : PermitId} {record : PermitRecord}
      (effects : TransitionEffects) (nowMs : Nat) (h : s.tickets[ticket]? = some (.granted p))
      (found : s.permits[p]? = some record) (owner : caller.tickets ticket) :
      Handover g caller dispatching .shrinking (s, effects)
        ({ s with permits := s.permits.insert p (claimedRecord record nowMs) }.setTicket ticket
          (.claiming p), effects.pushRetire record.claimWaker)

/-- A sequence of moves with what they hand over. -/
abbrev Handovers (g : Governor) (caller : Caller) (dispatching : Prop) (trend : Trend) :
    GovernedState × TransitionEffects → GovernedState × TransitionEffects → Prop :=
  Relation.ReflTransGen (Handover g caller dispatching trend)

/-- What a handover does to the state is a move of the engine. -/
theorem Handover.move {trend : Trend} {x y : GovernedState × TransitionEffects}
    (h : Handover g caller dispatching trend x y) : Move g caller trend x.1 y.1 := by
  cases h with
  | kept move waiting permits wake retire => exact move
  | replaced effects move waiting found permits waker ticket custody => exact move
  | woken effects move removed permits => exact move
  | withdrawn effects move removed permits owner => exact move
  | promoted effects nowMs h => exact Move.promoted nowMs h
  | unwound move found h => exact move
  | begun effects nowMs h found owner => exact Move.claimBegun nowMs h found owner

/-- The effects of an unwind: a waiter that is owed an answer is woken. -/
theorem unwind_effects {reason : TerminalReason} {effects effects' : TransitionEffects}
    (found : s.permits[p]? = some record) (h : s.unwind p reason effects = some (s', effects')) :
    (∃ t, record.pendingTicket = some t ∧ effects' = effects.pushWake record.claimWaker) ∨
      record.pendingTicket = none ∧ effects' = effects.pushRetire record.claimWaker := by
  unfold GovernedState.unwind at h
  rw [found] at h
  simp only at h
  split at h
  · rename_i t ht
    simp only [Option.some.injEq, Prod.mk.injEq] at h
    exact Or.inl ⟨t, ht, h.2.symm⟩
  · rename_i hnone
    simp only [Option.some.injEq, Prod.mk.injEq] at h
    exact Or.inr ⟨hnone, h.2.symm⟩

/-- Effects only grow, so a wake once asked for is still asked for. -/
theorem Handover.wake_subset {trend : Trend} {x y : GovernedState × TransitionEffects}
    (h : Handover g caller dispatching trend x y) (hw : w ∈ x.2.wake) : w ∈ y.2.wake := by
  cases h with
  | kept move waiting permits wake retire => rwa [wake]
  | replaced effects move waiting found permits waker ticket custody => exact hw
  | woken effects move removed permits => exact List.mem_append_left _ hw
  | withdrawn effects move removed permits owner => exact hw
  | promoted effects nowMs h => exact List.mem_append_left _ hw
  | unwound move found h =>
    rcases unwind_effects found h with ⟨t, _, rfl⟩ | ⟨_, rfl⟩
    · exact List.mem_append_left _ hw
    · exact hw
  | begun effects nowMs h found owner => exact hw

/-! ### References are conserved -/

/-- Unwinding a permit puts its waker among the effects, once. -/
theorem unwind_refs {reason : TerminalReason} {effects effects' : TransitionEffects}
    (found : s.permits[p]? = some record) (h : s.unwind p reason effects = some (s', effects')) (w : Waker) :
    effects'.refs w = effects.refs w + refTo record.claimWaker w := by
  rcases unwind_effects found h with ⟨t, _, rfl⟩ | ⟨_, rfl⟩
  · exact refs_pushWake _ _ _
  · exact refs_pushRetire _ _ _

/-- In the shrinking part of a section every reference that leaves the state is handed over. -/
theorem Handover.refs_shrinking {x y : GovernedState × TransitionEffects}
    (h : Handover g caller dispatching .shrinking x y) (w : Waker) :
    heldRefs y.1 w + y.2.refs w = heldRefs x.1 w + x.2.refs w := by
  unfold heldRefs
  cases h with
  | @kept _ s s' effects effects' move waiting permits wake retire =>
    have hlive : liveRefs s' w = liveRefs s w := by rw [liveRefs, liveRefs, permits]
    have hrefs : effects'.refs w = effects.refs w := by
      rw [TransitionEffects.refs, TransitionEffects.refs, wake, retire]
    simp only [queuedRefs_same waiting w, hlive, hrefs]
  | @replaced s s' p record record' effects move waiting found permits waker ticket custody =>
    have hlive := heldBy_replace found record' fun record => refTo record.claimWaker w
    rw [← permits, waker] at hlive
    have := queuedRefs_same waiting w
    simp only [liveRefs]
    omega
  | @woken _ s s' c index r effects move removed permits =>
    have hqueued := queuedRefs_removed removed w
    rw [PendingRequest.untagged_waker] at hqueued
    simp only [liveRefs, permits, refs_pushWake]
    omega
  | @withdrawn s s' c index r effects move removed permits owner =>
    have hqueued := queuedRefs_removed removed w
    rw [PendingRequest.untagged_waker] at hqueued
    simp only [liveRefs, permits, refs_pushRetire]
    omega
  | @unwound s s' p record reason effects effects' move found h =>
    have hqueued := queuedRefs_same (funext (sameQueues_unwind h).waiting_eq) w
    have hlive := heldBy_erase found fun record => refTo record.claimWaker w
    rw [← permits_unwind h] at hlive
    have hrefs := unwind_refs found h w
    simp only [liveRefs]
    omega
  | @begun s ticket p record effects nowMs h found owner =>
    have hlive := heldBy_replace found (claimedRecord record nowMs) fun record => refTo record.claimWaker w
    have hnone : refTo (claimedRecord record nowMs).claimWaker w = 0 := by simp [refTo, claimedRecord]
    have hrefs := refs_pushRetire effects record.claimWaker w
    show queuedRefs s w + (heldBy (s.permits.insert p (claimedRecord record nowMs)) fun record =>
      refTo record.claimWaker w) + (effects.pushRetire record.claimWaker).refs w =
        queuedRefs s w + liveRefs s w + effects.refs w
    unfold liveRefs
    omega

/-- The shrinking part grants nothing. -/
theorem Handover.permits_subset {x y : GovernedState × TransitionEffects}
    (h : Handover g caller dispatching .shrinking x y) (hp : p ∈ y.1.permits) : p ∈ x.1.permits := by
  cases h with
  | kept move waiting permits wake retire => rwa [permits] at hp
  | replaced effects move waiting found permits waker ticket custody =>
    exact mem_insert_live found (by rwa [permits] at hp)
  | woken effects move removed permits => rwa [permits] at hp
  | withdrawn effects move removed permits owner => rwa [permits] at hp
  | unwound move found h =>
    simp only [permits_unwind h, ExtTreeMap.mem_erase] at hp
    exact hp.2
  | begun effects nowMs h found owner => exact mem_insert_live found hp

/-- In the growing part a grant keeps a second reference to the waker it has woken. -/
theorem Handover.refs_growing {x y : GovernedState × TransitionEffects}
    (h : Handover g caller dispatching .growing x y) (hinv : StateInv g x.1)
    (hbase : ∀ c r, r ∈ x.1.waiting c → r.permitId ∉ base.permits) (w : Waker) :
    heldRefs y.1 w + y.2.refs w + mintedRefs base x.1 w =
        heldRefs x.1 w + x.2.refs w + mintedRefs base y.1 w ∧
      mintedRefs base y.1 w + x.2.wake.count w ≤ mintedRefs base x.1 w + y.2.wake.count w := by
  unfold heldRefs
  cases h with
  | @kept _ s s' effects effects' move waiting permits wake retire =>
    have hlive : liveRefs s' w = liveRefs s w := by rw [liveRefs, liveRefs, permits]
    have hminted : mintedRefs base s' w = mintedRefs base s w := by rw [mintedRefs, mintedRefs, permits]
    have hrefs : effects'.refs w = effects.refs w := by
      rw [TransitionEffects.refs, TransitionEffects.refs, wake, retire]
    refine ⟨?_, ?_⟩
    · simp only [queuedRefs_same waiting w, hlive, hrefs, hminted]
    · simp only [hminted, wake]
      exact Nat.le_refl _
  | @woken _ s s' c index r effects move removed permits =>
    have hqueued := queuedRefs_removed removed w
    rw [PendingRequest.untagged_waker] at hqueued
    have hminted : mintedRefs base s' w = mintedRefs base s w := by rw [mintedRefs, mintedRefs, permits]
    simp only [liveRefs, permits, refs_pushWake, hminted, count_pushWake]
    omega
  | @promoted s s' grant effects nowMs h =>
    obtain ⟨c, policy, index, r, head, chosen, served, hpromotes⟩ := promoteStep_some h
    have hremoved := hpromotes.removed
    rw [← hpromotes.waiting_eq] at hremoved
    have hnew := hinv.occupancy.not_live hremoved.mem
    have hfresh : head.permitId ∉ base.permits := hbase c head.untagged hremoved.mem
    have hqueued := queuedRefs_removed hremoved w
    have hlive := heldBy_insert hnew grant.record fun record => refTo record.claimWaker w
    have hminted := sumBy_insert_new hnew grant.record
      fun p record => if p ∈ base.permits then 0 else refTo record.claimWaker w
    have hwaker : grant.claimWaker = head.waker := by rw [hpromotes.grants]; rfl
    have hrecord : grant.record.claimWaker = head.waker := hwaker
    rw [PendingRequest.untagged_permitId, ← hpromotes.permits] at hlive hminted
    rw [PendingRequest.untagged_waker] at hqueued
    simp only [hrecord, if_neg hfresh] at hlive hminted
    simp only [liveRefs, mintedRefs, refs_pushWake, count_pushWake, hwaker]
    omega

/-! ### Waiters are woken -/

/-- The ticket is queued or granted, and `w` is to be told what becomes of it. -/
def Registered (s : GovernedState) (t : Ticket) (w : Waker) : Prop :=
  (∃ c, s.tickets[t]? = some (.queued c) ∧ ∃ r ∈ (s.cls c).queue, r.ticket = t ∧ r.waker = some w) ∨
    ∃ p record, s.tickets[t]? = some (.granted p) ∧ s.permits[p]? = some record ∧
      record.claimWaker = some w

/-- The ticket is neither queued nor granted. -/
def Parted (s : GovernedState) (t : Ticket) : Prop :=
  (∀ c, s.tickets[t]? ≠ some (.queued c)) ∧ ∀ p, s.tickets[t]? ≠ some (.granted p)

/-- A ticket that is neither waiting nor held has parted from its work. -/
theorem TicketInv.parted (hi : TicketInv s) (hwaits : ¬ ticketLabel.Waits s t)
    (hholds : ∀ p, ¬ ticketLabel.Holds s p t) : Parted s t := by
  refine ⟨fun c hc => hwaits ?_, fun p hp => hholds p ((hi.held t p).mp (Or.inl hp))⟩
  obtain ⟨r, hr, rfl⟩ := (hi.queued t c).mp hc
  exact ⟨c, r, hr, rfl⟩

/-- A waiting request is found under its own ticket. -/
theorem TicketInv.registered_waiting (hi : TicketInv s) (hr : r ∈ s.waiting c) (ht : r.ticket = t)
    (hw : r.waker = some w) : Registered s t w ∧ s.tickets[t]? = some (.queued c) := by
  have hticket := hi.ticket_queued hr
  rw [ht] at hticket
  obtain ⟨r', hr', rfl⟩ := List.mem_map.mp hr
  exact ⟨Or.inl ⟨c, hticket, r', hr', ht, hw⟩, hticket⟩

/-- Only a claim of its own takes a granted ticket whose permit keeps it. -/
theorem TicketEffect.granted_stays (h : TicketEffect caller s s') (hi' : TicketInv s')
    (hgranted : s.tickets[t]? = some (.granted p)) (hholds : ticketLabel.Holds s' p t) :
    s'.tickets[t]? = some (.granted p) ∨ caller.tickets t ∧ s'.tickets[t]? = some (.claiming p) := by
  rcases (hi'.held t p).mpr hholds with hsame | hclaiming
  · exact Or.inl hsame
  · refine Or.inr ⟨?_, hclaiming⟩
    have hrule := h.ticket_rule (t := t) (Q := fun x => (∀ q, x ≠ some (.claiming q)) ∨ caller.tickets t)
      (fun old new hlife _ => ?_) (fun _ _ _ => Or.inl (by simp)) (Or.inl (by simp [hgranted]))
    · rcases hrule with hnot | howner
      · exact absurd hclaiming (hnot p)
      · exact howner
    · cases hlife with
      | begun p owner => exact Or.inr owner
      | enqueued c allowed same => exact Or.inl (by simp)
      | promoted c p => exact Or.inl (by simp)
      | cycled c held => exact Or.inl (by simp)
      | cancelled c owner => exact Or.inl (by simp)
      | faulted c => exact Or.inl (by simp)
      | ended reason held => exact Or.inl (by simp)
      | transferred p owner => exact Or.inl (by simp)
      | forgotten final owner => exact Or.inl (by simp)

/-- A ticket that parted stays so, unless the caller brings it. -/
theorem TicketEffect.parted (h : TicketEffect caller s s') (hids : ∀ ids, ¬ caller.ids ids)
    (hs : Parted s t) : Parted s' t := by
  refine h.ticket_rule (t := t) (Q := fun x => (∀ c, x ≠ some (.queued c)) ∧ ∀ p, x ≠ some (.granted p))
    (fun old new hlife hold => ?_) (fun _ _ _ => ⟨by simp, by simp⟩) hs
  cases hlife with
  | enqueued c allowed same => exact absurd allowed (hids _)
  | promoted c p => exact absurd rfl (hold.1 c)
  | cycled c held => exact ⟨by simp, by simp⟩
  | cancelled c owner => exact ⟨by simp, by simp⟩
  | faulted c => exact ⟨by simp, by simp⟩
  | begun p owner => exact ⟨by simp, by simp⟩
  | ended reason held => exact ⟨by simp, by simp⟩
  | transferred p owner => exact ⟨by simp, by simp⟩
  | forgotten final owner => exact ⟨by simp, by simp⟩

/-- A request that left its queue without a permit took its ticket along. -/
theorem StateInv.parted_removed (hinv : StateInv g s) (hi' : TicketInv s')
    (removed : Removed s.waiting s'.waiting c index r) (permits : s'.permits = s.permits) :
    Parted s' r.ticket := by
  refine hi'.parted (fun hwaits => ?_) fun q hholds => ?_
  · exact ((hinv.tickets.exclusive.waits_removed hinv.queues removed r.ticket).mp hwaits).2 rfl
  · rw [Label.holds_congr permits] at hholds
    exact hinv.tickets.exclusive.apart q r.ticket ⟨c, r, removed.mem, rfl⟩ hholds

/-- What the holder of a registered ticket sees: it is still registered, and where it moved it was
woken; or it is registered no more, and it was woken or asked for it. -/
def Heard (caller : Caller) (old : Option TicketState) (t : Ticket) (w : Waker)
    (x : GovernedState × TransitionEffects) : Prop :=
  Registered x.1 t w ∧ (x.1.tickets[t]? = old ∨ w ∈ x.2.wake) ∨
    Parted x.1 t ∧ (caller.tickets t ∨ w ∈ x.2.wake)

theorem mem_pushWake (effects : TransitionEffects) {waker : Option Waker} (h : waker = some w) :
    w ∈ (effects.pushWake waker).wake := by
  subst h
  simp [TransitionEffects.pushWake]

/-- A queued request hears of its promotion and of its removal. -/
theorem Handover.heard_queued {trend : Trend} {x y : GovernedState × TransitionEffects}
    (h : Handover g caller dispatching trend x y) (hinv : StateInv g x.1) (hseq : x.1.terminalSeq < u64Max)
    (hr : r ∈ x.1.waiting c) (hw : r.waker = some w) :
    Heard caller (some (.queued c)) r.ticket w y := by
  obtain ⟨hi', _⟩ := h.move.ticketStep hinv.queues hinv.occupancy hinv.tickets hseq
  have hstays : r ∈ y.1.waiting c → Heard caller (some (.queued c)) r.ticket w y := by
    intro hmem
    obtain ⟨hregistered, hticket⟩ := hi'.registered_waiting hmem rfl hw
    exact Or.inl ⟨hregistered, Or.inl hticket⟩
  -- A removal takes another request, or this one.
  have hremoved : ∀ {c' index r'}, Removed x.1.waiting y.1.waiting c' index r' →
      (r = r' → Heard caller (some (.queued c)) r.ticket w y) →
      Heard caller (some (.queued c)) r.ticket w y := by
    intro c' index r' removed hsame
    by_cases heq : r.permitId = r'.permitId
    · exact hsame (hinv.queues.permitIds.eq_of_label hr removed.mem heq)
    · exact hstays ((removed.mem_iff hinv.queues.permitIds).mpr ⟨hr, heq⟩)
  cases h with
  | kept move waiting permits wake retire => exact hstays (by rwa [waiting])
  | replaced effects move waiting found permits waker ticket custody => exact hstays (by rwa [waiting])
  | @woken _ s s' c' index r' effects move removed permits =>
    refine hremoved removed ?_
    rintro rfl
    exact Or.inr ⟨hinv.parted_removed hi' removed permits, Or.inr (mem_pushWake effects hw)⟩
  | @withdrawn s s' c' index r' effects move removed permits owner =>
    refine hremoved removed ?_
    rintro rfl
    exact Or.inr ⟨hinv.parted_removed hi' removed permits, Or.inl owner⟩
  | @promoted s s' grant effects nowMs h =>
    obtain ⟨c', policy, index, r', head, chosen, served, hpromotes⟩ := promoteStep_some h
    have removed := hpromotes.removed
    rw [← hpromotes.waiting_eq] at removed
    refine hremoved removed ?_
    rintro rfl
    have hwaker : grant.claimWaker = head.waker := by rw [hpromotes.grants]; rfl
    have hticket : s'.tickets[head.ticket]? = some (.granted head.permitId) := by
      have hbook := congrArg TicketBook.tickets hpromotes.book
      rw [show s'.tickets = s.tickets.insert head.ticket (.granted head.permitId) from hbook]
      simp
    have hrecord : s'.permits[head.permitId]? = some grant.record := by
      rw [hpromotes.permits]
      simp
    exact Or.inl ⟨Or.inr ⟨head.permitId, grant.record, hticket, hrecord, hwaker.trans hw⟩,
      Or.inr (mem_pushWake effects (hwaker.trans hw))⟩
  | unwound move found h => exact hstays (by rwa [(sameQueues_unwind h).waiting_eq])
  | begun effects nowMs h found owner => exact hstays hr

/-- A granted ticket hears of the end of its permit. -/
theorem Handover.heard_granted {trend : Trend} {x y : GovernedState × TransitionEffects}
    (h : Handover g caller dispatching trend x y) (hinv : StateInv g x.1) (hseq : x.1.terminalSeq < u64Max)
    (hticket : x.1.tickets[t]? = some (.granted p)) (hrecord : x.1.permits[p]? = some record)
    (hw : record.claimWaker = some w) : Heard caller (some (.granted p)) t w y := by
  obtain ⟨hi', heffect⟩ := h.move.ticketStep hinv.queues hinv.occupancy hinv.tickets hseq
  have hholder : ticketLabel.Holds x.1 p t := (hinv.tickets.held t p).mp (Or.inl hticket)
  have hpending : record.pendingTicket = some t := by
    obtain ⟨record₁, hrecord₁, hpending⟩ := hholder
    rw [hrecord] at hrecord₁
    obtain rfl := Option.some.inj hrecord₁
    exact hpending
  have hstays : ∀ record' : PermitRecord, y.1.permits[p]? = some record' →
      record'.pendingTicket = record.pendingTicket → record'.claimWaker = record.claimWaker →
      Heard caller (some (.granted p)) t w y := by
    intro record' hrecord' hpending' hwaker'
    rcases heffect.granted_stays hi' hticket ⟨record', hrecord', hpending'.trans hpending⟩ with
      hsame | ⟨howner, hclaiming⟩
    · exact Or.inl ⟨Or.inr ⟨p, record', hsame, hrecord', hwaker'.trans hw⟩, Or.inl hsame⟩
    · exact Or.inr ⟨⟨by simp [hclaiming], by simp [hclaiming]⟩, Or.inl howner⟩
  cases h with
  | kept move waiting permits wake retire => exact hstays record (by rw [permits]; exact hrecord) rfl rfl
  | @replaced s s' q old new effects move waiting found permits waker ticket custody =>
    by_cases hq : q = p
    · subst hq
      obtain rfl : old = record := Option.some.inj (found.symm.trans hrecord)
      rcases ticket with hsame | ⟨t', ht'⟩
      · exact hstays new (by rw [permits]; simp) hsame waker
      · obtain ⟨record₁, hrecord₁, hpending₁⟩ := (hinv.tickets.held t' q).mp (Or.inr ht')
        obtain rfl : record₁ = old := Option.some.inj (hrecord₁.symm.trans hrecord)
        obtain rfl : t' = t := Option.some.inj ((Eq.symm hpending₁).trans hpending)
        exact absurd (ht'.symm.trans hticket) (by simp)
    · exact hstays record (by rw [permits, ExtTreeMap.getElem?_insert]; simpa [hq] using hrecord) rfl rfl
  | woken effects move removed permits => exact hstays record (by rw [permits]; exact hrecord) rfl rfl
  | withdrawn effects move removed permits owner =>
    exact hstays record (by rw [permits]; exact hrecord) rfl rfl
  | @promoted s s' grant effects nowMs h =>
    obtain ⟨c', policy, index, r', head, chosen, served, hpromotes⟩ := promoteStep_some h
    have hnew := hinv.occupancy.not_live hpromotes.removed.mem
    have hne : head.permitId ≠ p := by
      rintro rfl
      rw [PendingRequest.untagged_permitId] at hnew
      exact absurd (hnew.symm.trans hrecord) (by simp)
    refine hstays record ?_ rfl rfl
    rw [hpromotes.permits, ExtTreeMap.getElem?_insert]
    simpa [hne] using hrecord
  | @unwound s s' q old reason effects effects' move found h =>
    by_cases hq : q = p
    · subst hq
      obtain rfl : old = record := Option.some.inj (found.symm.trans hrecord)
      have hwoken : w ∈ effects'.wake := by
        rcases unwind_effects found h with ⟨_, _, rfl⟩ | ⟨hnone, _⟩
        · exact mem_pushWake effects hw
        · exact absurd (hnone.symm.trans hpending) (by simp)
      refine Or.inr ⟨hi'.parted (fun hwaits => ?_) fun q' hholds => ?_, Or.inr hwoken⟩
      · rw [Label.waits_congr (funext (sameQueues_unwind h).waiting_eq)] at hwaits
        exact hinv.tickets.exclusive.apart q t hwaits hholder
      · obtain ⟨hne, hholds⟩ := (Label.holds_erase (l := ticketLabel) (permits_unwind h) q' t).mp hholds
        exact hne (hinv.tickets.exclusive.permits q' q t hholds hholder)
    · refine hstays record ?_ rfl rfl
      rw [permits_unwind h, ExtTreeMap.getElem?_erase]
      simpa [hq] using hrecord
  | @begun s ticket q old effects nowMs h found owner =>
    by_cases hq : q = p
    · subst hq
      obtain ⟨record₁, hrecord₁, hpending₁⟩ := (hinv.tickets.held ticket q).mp (Or.inl h)
      obtain rfl : record₁ = record := Option.some.inj (hrecord₁.symm.trans hrecord)
      obtain rfl : ticket = t := Option.some.inj ((Eq.symm hpending₁).trans hpending)
      refine Or.inr ⟨⟨fun c => ?_, fun p => ?_⟩, Or.inl owner⟩
      · simp [GovernedState.setTicket]
      · simp [GovernedState.setTicket]
    · refine hstays record ?_ rfl rfl
      show (s.permits.insert q (claimedRecord old nowMs))[p]? = some record
      rw [ExtTreeMap.getElem?_insert]
      simpa [hq] using hrecord

theorem Handover.heard {trend : Trend} {old : Option TicketState}
    {x y : GovernedState × TransitionEffects} (h : Handover g caller dispatching trend x y)
    (hids : ∀ ids, ¬ caller.ids ids) (hinv : StateInv g x.1) (hseq : x.1.terminalSeq < u64Max)
    (hx : Heard caller old t w x) : Heard caller old t w y := by
  obtain ⟨_, heffect⟩ := h.move.ticketStep hinv.queues hinv.occupancy hinv.tickets hseq
  rcases hx with ⟨hregistered, hbefore⟩ | ⟨hparted, hbefore⟩
  · -- What was told is told; what moves now is told now.
    have hnow : Heard caller x.1.tickets[t]? t w y := by
      rcases hregistered with ⟨c, hticket, r, hr, rfl, hw⟩ | ⟨p, record, hticket, hrecord, hw⟩
      · have hmem : r.untagged ∈ x.1.waiting c := List.mem_map_of_mem hr
        rw [hticket]
        exact h.heard_queued (r := r.untagged) hinv hseq hmem hw
      · rw [hticket]
        exact h.heard_granted hinv hseq hticket hrecord hw
    rcases hnow with ⟨hregistered', hafter⟩ | hgone
    · refine Or.inl ⟨hregistered', ?_⟩
      rcases hbefore with hsame | hwoken
      · rwa [hsame] at hafter
      · exact Or.inr (h.wake_subset hwoken)
    · exact Or.inr hgone
  · exact Or.inr ⟨heffect.parted hids hparted, hbefore.imp_right h.wake_subset⟩

/-- What every handover keeps, a sequence of them keeps. -/
theorem Handovers.rule {trend : Trend} {x y : GovernedState × TransitionEffects}
    {P : GovernedState × TransitionEffects → Prop} (h : Handovers g caller dispatching trend x y)
    (hids : ∀ ids, ¬ caller.ids ids) (hinv : StateInv g x.1) (hload : ticketLoad x.1 < u64Max)
    (hstep : ∀ x y, Handover g caller dispatching trend x y → StateInv g x.1 → x.1.terminalSeq < u64Max → P x → P y)
    (hx : P x) : P y ∧ StateInv g y.1 ∧ ticketLoad y.1 < u64Max := by
  induction h with
  | refl => exact ⟨hx, hinv, hload⟩
  | @tail y z _ hlast ih =>
    obtain ⟨hy, hinvy, hloady⟩ := ih
    have hseq : y.1.terminalSeq < u64Max := Nat.lt_of_le_of_lt (terminalSeq_le_load _) hloady
    refine ⟨hstep y z hlast hinvy hseq hy, hlast.move.stateInv hinvy hseq, ?_⟩
    have hle := hlast.move.load_le hids hinvy hseq
    omega

end Taskmesh
