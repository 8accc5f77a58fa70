import Taskmesh.Engine.Proofs.ThreadProofs

/-!
# The invariant of the system

The governed state keeps its invariant; the identities the calls hold are unknown to it; and a claim
in progress names the permit its ticket names, as long as the ticket is there. All of it holds in
every reachable state.
-/

namespace Taskmesh

open Std MachineInt SetIndex Allocation TicketBook

variable {g : Governor} {caller : Caller} {s s' : GovernedState}

/-! ## Identities the state knows -/

def usedPermit (s : GovernedState) (n : Nat) : Prop := ∃ p, permitLabel.InUse s p ∧ p.sequence = n

def usedTicket (s : GovernedState) (n : Nat) : Prop := ∃ t : Ticket, s.tickets[t]? ≠ none ∧ t.sequence = n

def usedSeq (s : GovernedState) (n : Nat) : Prop := ∃ c, ∃ r ∈ s.waiting c, r.seqNo = n

/-- A label in use was in use, or is asked for with identities of the caller. -/
theorem Effect.inUse {β : Type} {l : Label β} (h : Effect g caller s s') {b : β} (hb : l.InUse s' b) :
    l.InUse s b ∨ ∃ request ids, caller.ids ids ∧ l.requested request ids = some b := by
  cases h with
  | kept queues ledger guards =>
    left
    rcases hb with hb | ⟨p, hb⟩
    · exact Or.inl ((Label.waits_congr (funext queues.waiting_eq) b).mp hb)
    · exact Or.inr ⟨p, (Label.holds_congr ledger.permits p b).mp hb⟩
  | queued waker nowMs tags allowed accepted pushed identities ledger guards sound =>
    rcases hb with hb | ⟨p, hb⟩
    · rcases (Label.waits_pushed pushed b).mp hb with hb | hb
      · exact Or.inl (Or.inl hb)
      · rw [l.entry] at hb
        exact Or.inr ⟨_, _, allowed, hb⟩
    · exact Or.inl (Or.inr ⟨p, (Label.holds_congr ledger.permits p b).mp hb⟩)
  | dropped removed identities ledger guards =>
    left
    rcases hb with hb | ⟨p, hb⟩
    · exact Or.inl (Label.waits_of_removed removed hb)
    · exact Or.inr ⟨p, (Label.holds_congr ledger.permits p b).mp hb⟩
  | admitted nowMs allowed accepted fits result =>
    subst result
    rcases hb with hb | ⟨p, hb⟩
    · exact Or.inl (Or.inl ((Label.waits_congr
        (funext (GovernedState.sameQueues_grant _ _).waiting_eq) b).mp hb))
    · rcases (Label.holds_insert (s := s) rfl p b).mp hb with ⟨rfl, hnew⟩ | ⟨_, hold⟩
      · exact Or.inr ⟨_, _, allowed, l.direct _ _ _ _ _ _ b hnew⟩
      · exact Or.inl (Or.inr ⟨p, hold⟩)
  | @promoted policy c index head base nowMs fits removed identities ledger guards result =>
    subst result
    left
    rcases hb with hb | ⟨p, hb⟩
    · exact Or.inl (Label.waits_of_removed removed ((Label.waits_congr
        (funext (GovernedState.sameQueues_grant _ _).waiting_eq) b).mp hb))
    · rcases (Label.holds_insert (s := base) rfl p b).mp hb with ⟨rfl, hnew⟩ | ⟨_, hold⟩
      · rw [l.promotes] at hnew
        exact Or.inl ⟨c, _, removed.mem, hnew⟩
      · exact Or.inr ⟨p, (Label.holds_congr ledger.permits p b).mp hold⟩
  | ended found ends queues ledger guards =>
    left
    rcases hb with hb | ⟨p, hb⟩
    · exact Or.inl ((Label.waits_congr (funext queues.waiting_eq) b).mp hb)
    · exact Or.inr ⟨p, ((Label.holds_erase (s := s) (ledger.permits.trans rfl) p b).mp hb).2⟩
  | touched found similar queues ledger guards =>
    left
    rcases hb with hb | ⟨p, hb⟩
    · exact Or.inl ((Label.waits_congr (funext queues.waiting_eq) b).mp hb)
    · rcases (Label.holds_insert (s := s) ledger.permits p b).mp hb with ⟨rfl, hb⟩ | ⟨_, hb⟩
      · exact Or.inr ⟨_, _, found, l.touched _ _ b similar hb⟩
      · exact Or.inr ⟨p, hb⟩
  | advanced nonces found later result =>
    subst result
    left
    rcases hb with hb | ⟨p, hb⟩
    · exact Or.inl ((Label.waits_congr
        (funext (GovernedState.sameQueues_advancedTo s _ _ _ _).waiting_eq) b).mp hb)
    · exact Or.inr ⟨p, (Label.holds_replace (s := s) rfl found (l.advanced _ _ _) p b).mp hb⟩
  | recharged allowed found change result =>
    subst result
    left
    rcases hb with hb | ⟨p, hb⟩
    · exact Or.inl ((Label.waits_congr (funext (sameQueues_rechargePermit s _ _ _).waiting_eq) b).mp hb)
    · exact Or.inr ⟨p, (Label.holds_replace (memoryOnly_rechargePermit s _ _ _).permits found
        (l.recharged _ _) p b).mp hb⟩

/-- A waiting request was waiting, or is new and carries identities of the caller. -/
theorem Effect.mem_waiting (h : Effect g caller s s') {c : TaskClass} {r : PendingRequest}
    (hr : r ∈ s'.waiting c) :
    r ∈ s.waiting c ∨ ∃ ids, caller.ids ids ∧ r.permitId = ids.permitId ∧ r.ticket = ids.ticket ∧
      r.seqNo = ids.seqNo := by
  have hsame : s.SameQueues s' → r ∈ s.waiting c := fun h => by rwa [← h.waiting_eq c]
  cases h with
  | kept queues ledger guards => exact Or.inl (hsame queues)
  | @queued policy c' request ids blockers waker nowMs tags allowed accepted pushed identities ledger guards =>
    rcases pushed.mem_iff.mp hr with hr | ⟨rfl, rfl⟩
    · exact Or.inl hr
    · exact Or.inr ⟨ids, allowed, rfl, rfl, rfl⟩
  | dropped removed identities ledger guards => exact Or.inl (removed.mem_of_mem hr)
  | admitted nowMs allowed accepted fits result =>
    subst result
    exact Or.inl (hsame (GovernedState.sameQueues_grant _ _))
  | promoted nowMs fits removed identities ledger guards result =>
    subst result
    rw [(GovernedState.sameQueues_grant _ _).waiting_eq c] at hr
    exact Or.inl (removed.mem_of_mem hr)
  | ended found ends queues ledger guards => exact Or.inl (hsame queues)
  | touched found similar queues ledger guards => exact Or.inl (hsame queues)
  | advanced nonces found later result =>
    subst result
    exact Or.inl (hsame (GovernedState.sameQueues_advancedTo s _ _ _ _))
  | recharged allowed found change result =>
    subst result
    exact Or.inl (hsame (sameQueues_rechargePermit s _ _ _))

/-- What a ticket keeps through its life and the eviction of its outcome, it keeps under every move. -/
theorem TicketEffect.ticket_rule (h : TicketEffect caller s s') {t : Ticket} {Q : Option TicketState → Prop}
    (hlife : ∀ old new, Lifecycle caller t old new → Q old → Q new)
    (hevict : ∀ old, isTerminal old = true → Q old → Q none) (hs : Q s.tickets[t]?) :
    Q s'.tickets[t]? := by
  cases h with
  | same h =>
    have htickets : s'.tickets = s.tickets := congrArg TicketBook.tickets h
    rwa [htickets]
  | @changed t' state step change seq =>
    by_cases hne : t = t'
    · subst hne
      have hwritten : s'.tickets[t]? = state := change.written
      rw [hwritten]
      exact hlife _ _ step hs
    · have hothers : s'.tickets[t]? = s.tickets[t]? ∨
          isTerminal s.tickets[t]? = true ∧ s'.tickets[t]? = none := change.others t hne
      rcases hothers with heq | ⟨hterminal, hnone⟩
      · rwa [heq]
      · rw [hnone]
        exact hevict _ hterminal hs

/-- A ticket that is not there stays away, unless the caller brings it. -/
theorem Lifecycle.of_none {t : Ticket} {new : Option TicketState} (h : Lifecycle caller t none new) :
    new = none ∨ ∃ ids, caller.ids ids ∧ ids.ticket = t := by
  cases h with
  | enqueued c allowed same => exact Or.inr ⟨_, allowed, same⟩
  | ended reason held => simp at held
  | forgotten final owner => exact Or.inl rfl

theorem TicketEffect.usedTicket (h : TicketEffect caller s s') {n : Nat}
    (hn : usedTicket s' n) :
    usedTicket s n ∨ ∃ ids, caller.ids ids ∧ ids.ticket.sequence = n := by
  obtain ⟨t, ht, rfl⟩ := hn
  by_contra hcon
  push Not at hcon
  obtain ⟨hunused, hids⟩ := hcon
  have hnone : s.tickets[t]? = none := by
    by_contra hsome
    exact hunused ⟨t, hsome, rfl⟩
  refine ht (h.ticket_rule (Q := fun x => x = none) (fun old new hlife hold => ?_) (fun _ _ _ => rfl) hnone)
  subst hold
  rcases hlife.of_none with hnew | ⟨ids, hallowed, rfl⟩
  · exact hnew
  · exact absurd rfl (hids ids hallowed)

/-! ## The invariant -/

/-- What a claim in progress for `p` can find: its own ticket, the outcome recorded for it, or nothing
once that outcome was discarded. -/
def ClaimFinds (p : PermitId) (state : Option TicketState) : Prop :=
  state = some (.claiming p) ∨ isTerminal state = true ∨ state = none

namespace Governor

variable (σ : g.System)

def heldPermits : List Nat := σ.threads.filterMap Thread.permitSeq

def heldTickets : List Nat := σ.threads.filterMap Thread.ticketSeq

def heldSeqs : List Nat := σ.threads.filterMap Thread.seqNo

/-- The ticket was taken and no call holds it any more. -/
def SpentTicket (t : Ticket) : Prop := Spent σ.nextTicket (heldTickets σ) t.sequence

/-- The permit identity was taken and no call holds it any more. -/
def SpentPermit (p : PermitId) : Prop := Spent σ.nextPermit (heldPermits σ) p.sequence

end Governor

open Governor

/-- The invariant of the system. -/
structure SysInv (σ : g.System) : Prop where
  state : StateInv g σ.state
  permits : Allocated σ.nextPermit (heldPermits σ) (usedPermit σ.state)
  tickets : Allocated σ.nextTicket (heldTickets σ) (usedTicket σ.state)
  seqs : Allocated σ.nextSeq (heldSeqs σ) (usedSeq σ.state)
  load : ticketLoad σ.state + (heldTickets σ).length < σ.nextTicket
  counter : σ.nextTicket ≤ u64Max
  claims : ∀ t p effects sampledMs, Thread.claiming t p effects sampledMs ∈ σ.threads →
    SpentTicket σ t ∧ ClaimFinds p σ.state.tickets[t]?

variable {σ σ' : g.System} {a : Action} {e : Event}

/-- A fresh engine satisfies the invariant. -/
theorem sysInv_init (g : Governor) : SysInv g.init where
  state := stateInv_init g
  permits := by
    refine Allocated.init (fun n => ?_) 1
    rintro ⟨p, ⟨c, r, hr, _⟩ | ⟨q, record, hq, _⟩, _⟩
    · simp [Governor.init, waiting_init] at hr
    · simp [Governor.init] at hq
  tickets := by
    refine Allocated.init (fun n => ?_) 1
    rintro ⟨t, ht, _⟩
    simp [Governor.init] at ht
  seqs := by
    refine Allocated.init (fun n => ?_) 1
    rintro ⟨c, r, hr, _⟩
    simp [Governor.init, waiting_init] at hr
  load := by simp [Governor.init, heldTickets, ticketLoad, activeTickets]
  counter := by simp [Governor.init, u64Max]
  claims t p effects sampledMs h := by simp [Governor.init] at h

/-- Every step leaves room in the sequence of answers. -/
theorem SysInv.terminalSeq_lt (hinv : SysInv σ) : ticketLoad σ.state < u64Max := by
  have := hinv.load
  have := hinv.counter
  omega

theorem mem_heldPermits {th : Thread g.policy} (h : th ∈ σ.threads) {n : Nat} (hn : th.permitSeq = some n) :
    n ∈ heldPermits σ := List.mem_filterMap.mpr ⟨th, h, hn⟩

theorem mem_heldTickets {th : Thread g.policy} (h : th ∈ σ.threads) {n : Nat} (hn : th.ticketSeq = some n) :
    n ∈ heldTickets σ := List.mem_filterMap.mpr ⟨th, h, hn⟩

theorem mem_heldSeqs {th : Thread g.policy} (h : th ∈ σ.threads) {n : Nat} (hn : th.seqNo = some n) :
    n ∈ heldSeqs σ := List.mem_filterMap.mpr ⟨th, h, hn⟩

/-- Identities a call holds are unknown to the state. -/
theorem SysInv.fresh (hinv : SysInv σ) {intake : Intake g.policy} {sampledMs : Nat} {ids : Ids}
    (h : Thread.admitting intake sampledMs ids ∈ σ.threads) : Fresh σ.state ids := by
  have hpermit := hinv.permits.unused _ (mem_heldPermits h rfl)
  have hticket := hinv.tickets.unused _ (mem_heldTickets h rfl)
  have hseq := hinv.seqs.unused _ (mem_heldSeqs h rfl)
  refine ⟨?_, ?_, fun c r hr => ⟨fun heq => ?_, fun heq => ?_, fun heq => ?_⟩⟩
  · by_contra hne
    obtain ⟨record, hrecord⟩ := Option.ne_none_iff_exists'.mp hne
    have hkey := hinv.state.occupancy.keys _ _ hrecord
    exact hpermit ⟨ids.permitId, Or.inr ⟨_, record, hrecord, congrArg some hkey⟩, rfl⟩
  · by_contra hne
    exact hticket ⟨ids.ticket, hne, rfl⟩
  · exact hpermit ⟨r.permitId, Or.inl ⟨c, r, hr, rfl⟩, congrArg PermitId.sequence heq⟩
  · refine hticket ⟨r.ticket, ?_, congrArg Ticket.sequence heq⟩
    rw [hinv.state.tickets.ticket_queued hr]
    simp
  · exact hseq ⟨c, r, hr, heq⟩

/-- A state of the invariant is ready for any action. -/
theorem SysInv.ready (hinv : SysInv σ) : Ready σ where
  fresh _ _ _ h := hinv.fresh h
  claims t p effects sampledMs h p' hp' := by
    rcases (hinv.claims t p effects sampledMs h).2 with heq | hterminal | hnone
    · rw [heq] at hp'
      simpa using hp'.symm
    · rw [hp'] at hterminal
      simp [isTerminal] at hterminal
    · rw [hnone] at hp'
      simp at hp'
  keys := hinv.state.occupancy.keys

/-! ## Steps -/

/-- A step that enters the lock with new identities. -/
theorem SysInv.step_entered (hinv : SysInv σ) {i : Nat} (h : g.step σ (.enter i) = some (σ', e)) :
    ∃ (intake : Intake g.policy) (sampledMs : Nat) (ids : Ids) (decision : AdmissionDecision),
      σ.threads[i]? = some (.admitting intake sampledMs ids) ∧ e = .decided ids decision ∧
      Entered g (σ.state.commitTime sampledMs) intake.request ids intake.waker
        (σ.state.commitTime sampledMs).commitWatermarkMs σ'.state decision := by
  obtain ⟨p, hp, rfl, rfl⟩ := step_eq_some h
  simp only [Governor.prepare] at hp
  split at hp
  · rename_i intake sampledMs ids hthread
    obtain rfl := Option.some.inj hp
    have hstate : (Governor.finish (Governor.enter σ i intake sampledMs ids)).state =
        (admitRequest (σ.state.commitTime sampledMs) g.policy (σ.state.commitTime sampledMs).commitWatermarkMs
          intake.request intake.waker ids {}).state := by
      unfold Governor.finish
      rw [commit_of_not_promotes _ _ rfl]
      rfl
    have hfresh := (hinv.fresh (List.mem_of_getElem? hthread)).commitTime sampledMs
    refine ⟨intake, sampledMs, ids, _, hthread, rfl, ?_⟩
    rw [hstate]
    exact admit_entered intake hfresh _ {}
  · simp at hp

/-- A step that takes no new identity is a path; one that does is at most one move. -/
theorem SysInv.step_moves (hinv : SysInv σ) (h : g.step σ a = some (σ', e)) :
    ((∀ ids, ¬ (callerOf σ a).ids ids) ∧ Path g (callerOf σ a) σ.state σ'.state) ∨
      ∃ sampledMs, σ'.state = σ.state.commitTime sampledMs ∨
        ∃ trend, Move g (callerOf σ a) trend (σ.state.commitTime sampledMs) σ'.state := by
  by_cases hids : ∀ ids, ¬ (callerOf σ a).ids ids
  · exact Or.inl ⟨hids, step_path hinv.ready h⟩
  · push Not at hids
    obtain ⟨ids, i, intake, sampledMs, rfl, hthread⟩ := hids
    obtain ⟨intake', sampledMs', ids', decision, hthread', _, hentered⟩ := hinv.step_entered h
    exact Or.inr ⟨sampledMs', hentered.move ⟨i, intake', sampledMs', rfl, hthread'⟩⟩

/-- Advancing the clock keeps the invariant of the governed state. -/
theorem stateInv_commitTime (hinv : StateInv g s) (sampledMs : Nat) (hseq : s.terminalSeq < u64Max) :
    StateInv g (s.commitTime sampledMs) := by
  have hmove : Move g ⟨fun _ _ => False, fun _ => False, fun _ => False, fun _ => False⟩ .shrinking s
      (s.commitTime sampledMs) := Move.rescheduled (rescheduled_commitTime s sampledMs)
  exact hmove.stateInv hinv hseq

/-- The state of a locked section. -/
theorem SysInv.committed (hinv : SysInv σ) (sampledMs : Nat) :
    StateInv g (σ.state.commitTime sampledMs) ∧ (σ.state.commitTime sampledMs).terminalSeq < u64Max := by
  have hseq : σ.state.terminalSeq < u64Max := Nat.lt_of_le_of_lt (terminalSeq_le_load _) hinv.terminalSeq_lt
  exact ⟨stateInv_commitTime hinv.state sampledMs hseq, hseq⟩

/-- What every move of a step keeps within a bound, the step keeps, if the bound holds before and after it. -/
theorem SysInv.step_rule_within (hinv : SysInv σ) (h : g.step σ a = some (σ', e))
    {P B : GovernedState → Prop}
    (hshrinks : ∀ s s', Move g (callerOf σ a) .shrinking s s' → StateInv g s → B s → B s')
    (hgrows : ∀ s s', Move g (callerOf σ a) .growing s s' → StateInv g s → B s' → B s)
    (hmove : ∀ trend s s', Move g (callerOf σ a) trend s s' → StateInv g s → s.terminalSeq < u64Max →
      B s' → P s → P s')
    (hs : P σ.state) (hstart : B σ.state) (hend : B σ'.state) : P σ'.state := by
  have hload := hinv.terminalSeq_lt
  have hseq : σ.state.terminalSeq < u64Max := Nat.lt_of_le_of_lt (terminalSeq_le_load _) hload
  rcases hinv.step_moves h with ⟨hids, hpath⟩ | ⟨sampledMs, hmoved⟩
  · have hbelow : ∀ {s}, ticketLoad s ≤ ticketLoad σ.state → s.terminalSeq < u64Max := by
      intro s hle
      have := terminalSeq_le_load s
      omega
    refine hpath.invariant_within (I := fun s => StateInv g s ∧ ticketLoad s ≤ ticketLoad σ.state) ?_
      (fun s₁ s₂ hm hI => hshrinks s₁ s₂ hm hI.1) (fun s₁ s₂ hm hI => hgrows s₁ s₂ hm hI.1)
      (fun trend s₁ s₂ hm hI hP hwithin => hmove trend s₁ s₂ hm hI.1 (hbelow hI.2) hwithin hP)
      ⟨hinv.state, Nat.le_refl _⟩ hs hstart hend
    rintro trend s₁ s₂ hm ⟨hinv₁, hle⟩
    refine ⟨hm.stateInv hinv₁ (hbelow hle), ?_⟩
    have hload := hm.load_le hids hinv₁ (hbelow hle)
    omega
  · have htick : Move g (callerOf σ a) .shrinking σ.state (σ.state.commitTime sampledMs) :=
      Move.rescheduled (rescheduled_commitTime _ _)
    have hcommit : P (σ.state.commitTime sampledMs) :=
      hmove .shrinking _ _ htick hinv.state hseq (hshrinks _ _ htick hinv.state hstart) hs
    rcases hmoved with heq | ⟨trend, hm⟩
    · rwa [heq]
    · exact hmove trend _ _ hm (stateInv_commitTime hinv.state sampledMs hseq) hseq hend hcommit

/-- What every move of a step keeps, the step keeps. -/
theorem SysInv.step_rule (hinv : SysInv σ) (h : g.step σ a = some (σ', e)) {P : GovernedState → Prop}
    (hmove : ∀ trend s s', Move g (callerOf σ a) trend s s' → StateInv g s → s.terminalSeq < u64Max →
      P s → P s') (hs : P σ.state) : P σ'.state :=
  hinv.step_rule_within h (B := fun _ => True) (fun _ _ _ _ _ => trivial) (fun _ _ _ _ _ => trivial)
    (fun trend s s' hm hinv₁ hseq _ => hmove trend s s' hm hinv₁ hseq) hs trivial trivial

/-- One action keeps the invariant of the governed state. -/
theorem SysInv.step_state (hinv : SysInv σ) (h : g.step σ a = some (σ', e)) : StateInv g σ'.state :=
  hinv.step_rule h (P := StateInv g) (fun _ _ _ hm hinv₁ hseq _ => hm.stateInv hinv₁ hseq) hinv.state

/-- The ticket load grows by the ticket of an admission, if at all. -/
theorem SysInv.step_load (hinv : SysInv σ) (h : g.step σ a = some (σ', e)) :
    ticketLoad σ'.state ≤ ticketLoad σ.state ∨
      (∃ ids, (callerOf σ a).ids ids) ∧ ticketLoad σ'.state ≤ ticketLoad σ.state + 1 := by
  have hload := hinv.terminalSeq_lt
  have hseq : σ.state.terminalSeq < u64Max := Nat.lt_of_le_of_lt (terminalSeq_le_load _) hload
  rcases hinv.step_moves h with ⟨hids, hpath⟩ | ⟨sampledMs, heq | ⟨trend, hm⟩⟩
  · exact Or.inl (hpath.stateInv hids hinv.state hload).2
  · left
    rw [heq]
    exact Nat.le_refl _
  · have hinv₁ := stateInv_commitTime hinv.state sampledMs hseq
    exact (hm.ticketStep hinv₁.queues hinv₁.occupancy hinv₁.tickets hseq).2.load_le

/-! ## The calls in progress -/

/-- Only the call that enters the lock brings identities, and it is the call whose turn it is. -/
theorem Turn.ids {old new : Option (Thread g.policy)} (h : Turn σ σ' a old new) {ids : Ids}
    (hids : (callerOf σ a).ids ids) : ∃ intake sampledMs, old = some (.admitting intake sampledMs ids) := by
  obtain ⟨i, intake, sampledMs, rfl, hthread⟩ := hids
  cases h with
  | entered _ intake' sampledMs' ids' decision effects taken =>
    rw [taken] at hthread
    exact ⟨intake, sampledMs, hthread⟩
  | quiet other => exact absurd rfl (other i)
  | called other => exact absurd rfl (other i)
  | settled other => exact absurd rfl (other i)
  | claimed other => exact absurd rfl (other i)
  | operated other => exact absurd rfl (other i)

section HeldSteps

variable {promotes : Bool} {old new : Option (Thread g.policy)} {rest : List (Thread g.policy)}

theorem perm_filterMap {threads : List (Thread g.policy)} (f : Thread g.policy → Option Nat)
    (h : threads.Perm (old.toList ++ rest)) :
    (threads.filterMap f).Perm ((old.bind f).toList ++ rest.filterMap f) := by
  have hperm := h.filterMap f
  rw [List.filterMap_append] at hperm
  cases old with
  | none => simpa using hperm
  | some th =>
    cases hf : f th with
    | none => simpa [hf] using hperm
    | some n => simpa [hf] using hperm

/-- A turn after which the call holds what it held. -/
theorem heldStep_kept {n : Nat} {f : Thread g.policy → Option Nat} (hbefore : σ.threads.Perm (old.toList ++ rest))
    (hafter : σ'.threads.Perm (new.toList ++ rest)) (hsame : old.bind f = new.bind f) :
    HeldStep n (σ.threads.filterMap f) n (σ'.threads.filterMap f) none := by
  refine .kept ((perm_filterMap f hafter).trans ?_)
  rw [← hsame]
  exact (perm_filterMap f hbefore).symm

/-- A turn after which the call holds nothing. -/
theorem heldStep_gave {n : Nat} {f : Thread g.policy → Option Nat} (hbefore : σ.threads.Perm (old.toList ++ rest))
    (hafter : σ'.threads.Perm (new.toList ++ rest)) (hnothing : new.bind f = none) :
    HeldStep n (σ.threads.filterMap f) n (σ'.threads.filterMap f) (old.bind f) := by
  refine .gave _ ((perm_filterMap f hbefore).trans (List.Perm.append_left _ ?_))
  have hperm := perm_filterMap f hafter
  rw [hnothing] at hperm
  exact hperm.symm

/-- A turn in which the call took the next value of a counter. -/
theorem heldStep_took {n : Nat} {f : Thread g.policy → Option Nat} (hbefore : σ.threads.Perm (old.toList ++ rest))
    (hafter : σ'.threads.Perm (new.toList ++ rest)) (hnothing : old.bind f = none)
    (htook : new.bind f = some n) :
    HeldStep n (σ.threads.filterMap f) (n + 1) (σ'.threads.filterMap f) none := by
  have hperm := perm_filterMap f hbefore
  rw [hnothing] at hperm
  refine .took ((perm_filterMap f hafter).trans ?_)
  rw [htook]
  exact List.Perm.cons n hperm.symm

/-- Any of the three counters, over a turn. -/
structure HeldSteps (σ σ' : g.System) (given : (Thread g.policy → Option Nat) → Option Nat) : Prop where
  permits : HeldStep σ.nextPermit (heldPermits σ) σ'.nextPermit (heldPermits σ') (given Thread.permitSeq)
  tickets : HeldStep σ.nextTicket (heldTickets σ) σ'.nextTicket (heldTickets σ') (given Thread.ticketSeq)
  seqs : HeldStep σ.nextSeq (heldSeqs σ) σ'.nextSeq (heldSeqs σ') (given Thread.seqNo)

/-- What a call held before its turn it gave, or keeps; only a call about to enter has all three. -/
theorem ThreadStep.heldSteps (h : ThreadStep σ σ' a promotes old new rest) :
    HeldSteps σ σ' (fun f => old.bind f) ∨
      (HeldSteps σ σ' fun _ => none) ∧
        ∀ intake sampledMs ids, old ≠ some (.admitting intake sampledMs ids) := by
  obtain ⟨hbefore, hafter, _, hcounted, _, _⟩ := h
  cases hcounted with
  | same permit ticket seq nothing =>
    have hnothing : new.bind Thread.permitSeq = none ∧ new.bind Thread.ticketSeq = none ∧
        new.bind Thread.seqNo = none := by
      cases new with
      | none => exact ⟨rfl, rfl, rfl⟩
      | some th => exact nothing th rfl
    refine Or.inl ⟨?_, ?_, ?_⟩
    · rw [permit]
      exact heldStep_gave hbefore hafter hnothing.1
    · rw [ticket]
      exact heldStep_gave hbefore hafter hnothing.2.1
    · rw [seq]
      exact heldStep_gave hbefore hafter hnothing.2.2
  | permit permit ticket seq =>
    refine Or.inr ⟨⟨?_, ?_, ?_⟩, by simp⟩
    · rw [permit]
      exact heldStep_took hbefore hafter rfl rfl
    · rw [ticket]
      exact heldStep_kept hbefore hafter rfl
    · rw [seq]
      exact heldStep_kept hbefore hafter rfl
  | ticket same ticket bound seq =>
    refine Or.inr ⟨⟨?_, ?_, ?_⟩, by simp⟩
    · rw [same]
      exact heldStep_kept hbefore hafter rfl
    · rw [ticket]
      exact heldStep_took hbefore hafter rfl rfl
    · rw [seq]
      exact heldStep_kept hbefore hafter rfl
  | seq same same' seq =>
    refine Or.inr ⟨⟨?_, ?_, ?_⟩, by simp⟩
    · rw [same]
      exact heldStep_kept hbefore hafter rfl
    · rw [same']
      exact heldStep_kept hbefore hafter rfl
    · rw [seq]
      exact heldStep_took hbefore hafter rfl rfl

/-- What the callers gave in a turn, with what an entering call brings. -/
theorem ThreadStep.given (h : ThreadStep σ σ' a promotes old new rest) :
    ∃ given, HeldSteps σ σ' given ∧ ∀ ids, (callerOf σ a).ids ids →
      given Thread.permitSeq = some ids.permitId.sequence ∧
      given Thread.ticketSeq = some ids.ticket.sequence ∧ given Thread.seqNo = some ids.seqNo := by
  rcases h.heldSteps with hgave | ⟨hnone, hnot⟩
  · refine ⟨_, hgave, fun ids hids => ?_⟩
    obtain ⟨intake, sampledMs, rfl⟩ := h.turn.ids hids
    exact ⟨rfl, rfl, rfl⟩
  · refine ⟨_, hnone, fun ids hids => ?_⟩
    obtain ⟨intake, sampledMs, rfl⟩ := h.turn.ids hids
    exact absurd rfl (hnot intake sampledMs ids)

end HeldSteps

/-! ## Every step keeps the invariant -/

/-- What a state may know after a step: what it knew, and what the caller brought. -/
structure Learned (caller : Caller) (s s' : GovernedState) : Prop where
  permits : ∀ n, usedPermit s' n → usedPermit s n ∨ ∃ ids, caller.ids ids ∧ ids.permitId.sequence = n
  tickets : ∀ n, usedTicket s' n → usedTicket s n ∨ ∃ ids, caller.ids ids ∧ ids.ticket.sequence = n
  seqs : ∀ n, usedSeq s' n → usedSeq s n ∨ ∃ ids, caller.ids ids ∧ ids.seqNo = n

theorem Learned.refl (caller : Caller) (s : GovernedState) : Learned caller s s :=
  ⟨fun _ => Or.inl, fun _ => Or.inl, fun _ => Or.inl⟩

theorem Learned.trans {s'' : GovernedState} (h : Learned caller s s') (h' : Learned caller s' s'') :
    Learned caller s s'' where
  permits n hn := (h'.permits n hn).elim (h.permits n) Or.inr
  tickets n hn := (h'.tickets n hn).elim (h.tickets n) Or.inr
  seqs n hn := (h'.seqs n hn).elim (h.seqs n) Or.inr

/-- What a move does to the tickets, as its caller can see it. -/
theorem Move.learned {trend : Trend} (h : Move g caller trend s s') (hinv : StateInv g s)
    (hseq : s.terminalSeq < u64Max) : Learned caller s s' := by
  have heffect := h.effect hinv.queues
  refine ⟨fun n hn => ?_, fun n hn => ?_, fun n hn => ?_⟩
  · obtain ⟨p, hp, rfl⟩ := hn
    rcases heffect.inUse hp with hp | ⟨request, ids, hids, heq⟩
    · exact Or.inl ⟨p, hp, rfl⟩
    · exact Or.inr ⟨ids, hids, congrArg PermitId.sequence (Option.some.inj heq)⟩
  · exact (h.ticketStep hinv.queues hinv.occupancy hinv.tickets hseq).2.usedTicket hn
  · obtain ⟨c, r, hr, rfl⟩ := hn
    rcases heffect.mem_waiting hr with hr | ⟨ids, hids, _, _, heq⟩
    · exact Or.inl ⟨c, r, hr, rfl⟩
    · exact Or.inr ⟨ids, hids, heq.symm⟩

/-- What one action does to the tickets, as its caller can see it. -/
theorem SysInv.step_learned (hinv : SysInv σ) (h : g.step σ a = some (σ', e)) :
    Learned (callerOf σ a) σ.state σ'.state :=
  hinv.step_rule h (P := Learned (callerOf σ a) σ.state)
    (fun _ _ _ hm hinv₁ hseq hl => hl.trans (hm.learned hinv₁ hseq)) (Learned.refl _ _)

/-- A caller cannot bring a ticket that no call holds. -/
theorem SysInv.not_brought {t : Ticket} (hspent : SpentTicket σ t) {ids : Ids}
    (hids : (callerOf σ a).ids ids) : ids.ticket ≠ t := by
  obtain ⟨i, intake, sampledMs, _, hthread⟩ := hids
  rintro rfl
  exact hspent.2 (mem_heldTickets (List.mem_of_getElem? hthread) rfl)

/-- A ticket that no call holds moves on by its life alone. -/
theorem SysInv.step_ticket (hinv : SysInv σ) (h : g.step σ a = some (σ', e)) {t : Ticket}
    {Q : Option TicketState → Prop}
    (hlife : ∀ old new, Lifecycle (callerOf σ a) t old new → Q old → Q new)
    (hevict : ∀ old, isTerminal old = true → Q old → Q none) (hs : Q σ.state.tickets[t]?) :
    Q σ'.state.tickets[t]? :=
  hinv.step_rule h (P := fun s => Q s.tickets[t]?)
    (fun _ _ _ hm hinv₁ hseq hQ => (hm.ticketStep hinv₁.queues hinv₁.occupancy hinv₁.tickets
      hseq).2.ticket_rule hlife hevict hQ) hs

/-- A claim in progress still finds its permit after any move of somebody else. -/
theorem ClaimFinds.life {t : Ticket} {p : PermitId} {old new : Option TicketState}
    (hids : ∀ ids, caller.ids ids → ids.ticket ≠ t) (h : Lifecycle caller t old new)
    (hold : ClaimFinds p old) : ClaimFinds p new := by
  cases h with
  | enqueued c allowed same => exact absurd same (hids _ allowed)
  | promoted c p => simp [ClaimFinds, isTerminal] at hold
  | cycled c held => exact Or.inr (Or.inl rfl)
  | cancelled c owner => exact Or.inr (Or.inr rfl)
  | faulted c => simp [ClaimFinds, isTerminal] at hold
  | begun p owner => simp [ClaimFinds, isTerminal] at hold
  | ended reason held => exact Or.inr (Or.inl rfl)
  | transferred p owner => exact Or.inr (Or.inr rfl)
  | forgotten final owner => exact Or.inr (Or.inr rfl)

/-- Every step keeps the invariant of the system. -/
theorem SysInv.step (hinv : SysInv σ) (h : g.step σ a = some (σ', e)) : SysInv σ' := by
  obtain ⟨p, old, new, rest, hp, rfl, hthreads⟩ := step_threads h
  obtain ⟨given, hheld, hgiven⟩ := hthreads.given
  have hlearned := hinv.step_learned h
  have htickets := hinv.tickets.step hheld.tickets fun n hn =>
    (hlearned.tickets n hn).imp_right fun ⟨ids, hids, heq⟩ => heq ▸ (hgiven ids hids).2.1
  refine ⟨hinv.step_state h, ?_, htickets, ?_, ?_, ?_, ?_⟩
  · exact hinv.permits.step hheld.permits fun n hn =>
      (hlearned.permits n hn).imp_right fun ⟨ids, hids, heq⟩ => heq ▸ (hgiven ids hids).1
  · exact hinv.seqs.step hheld.seqs fun n hn =>
      (hlearned.seqs n hn).imp_right fun ⟨ids, hids, heq⟩ => heq ▸ (hgiven ids hids).2.2
  · have hlength := hheld.tickets.length
    have hload := hinv.load
    rcases hinv.step_load h with hle | ⟨⟨ids, hids⟩, hle⟩
    · omega
    · rw [(hgiven ids hids).2.1] at hlength
      simp only [Option.toList_some, List.length_singleton] at hlength
      omega
  · cases hthreads.counted with
    | same permit ticket seq nothing => rw [ticket]; exact hinv.counter
    | permit permit ticket seq => rw [ticket]; exact hinv.counter
    | ticket same ticket bound seq => exact bound
    | seq same same' seq => rw [same']; exact hinv.counter
  · intro t q effects sampledMs hmem
    rcases List.mem_append.mp (hthreads.after.mem_iff.mp hmem) with hnew | hrest
    · obtain rfl : new = some (.claiming t q effects sampledMs) := by
        rwa [Option.mem_toList] at hnew
      cases hthreads.turn with
      | begun _ _ _ _ claiming =>
        refine ⟨htickets.spent_of_used ⟨t, ?_, rfl⟩, Or.inl claiming⟩
        rw [claiming]
        simp
      | settled other decision effects sampledMs drains => simp at drains
      | claimed other ticket p effects sampledMs drains => simp at drains
      | drained i effects sampledMs turn drains => simp at drains
    · have hbefore : Thread.claiming t q effects sampledMs ∈ σ.threads :=
        hthreads.before.mem_iff.mpr (List.mem_append_right _ hrest)
      obtain ⟨hspent, hfinds⟩ := hinv.claims t q effects sampledMs hbefore
      refine ⟨hspent.step hheld.tickets, ?_⟩
      exact hinv.step_ticket h (fun old new => ClaimFinds.life fun ids hids => SysInv.not_brought hspent hids)
        (fun _ _ _ => Or.inr (Or.inr rfl)) hfinds

/-- The invariant holds in every reachable state. -/
theorem SysInv.of_reachable (h : g.Reachable σ) : SysInv σ :=
  Runs.Reachable.invariant h (sysInv_init g) fun _ _ _ _ hinv hstep => hinv.step hstep

end Taskmesh
