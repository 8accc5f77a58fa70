import Taskmesh.Engine.Delivery
import Taskmesh.Engine.Proofs.WakerProofs

/-!
# What a step hands over

Every section is a sequence of handovers, and so is the promotion pass it ends with: the effects a
step returns are exactly the references its moves took out of the state. An admission is the one
section that is given a reference: it goes into the queue, or it is returned.
-/

namespace Taskmesh

open Std MachineInt SetIndex QueueFamily ExtTreeMap TicketBook Governor

variable {g : Governor} {caller : Caller} {dispatching : Prop} {s s' : GovernedState} {w : Waker} {t : Ticket}
  {p : PermitId} {record : PermitRecord} {c : TaskClass}

/-! ## The handovers of every section -/

theorem handover_rescheduled {trend : Trend} (h : s.Rescheduled s') (effects : TransitionEffects) :
    Handover g caller dispatching trend (s, effects) (s', effects) :=
  .kept (Move.rescheduled h) (funext h.queues.waiting_eq) h.ledger.permits rfl rfl

/-- Breaking a wait cycle takes one request from the queue and answers its ticket. -/
theorem terminalizeWaitCycle_handovers (g : Governor) (s : GovernedState) (effects : TransitionEffects) :
    Handovers g caller dispatching .growing (s, effects)
      ((g.terminalizeWaitCycle s effects).state, (g.terminalizeWaitCycle s effects).effects) := by
  rcases terminalizeWaitCycle_cases g s effects with ⟨_, heq⟩ | ⟨c, index, witness, r, held, hfind, hr,
    hheld, heq⟩
  · rw [heq]
  · rw [heq]
    have hres := rescheduled_unserved g (s.removedPending c index r) c
    have hwaiting : (g.terminalizeCycle (s.removedPending c index r) c r held).waiting =
        (s.removedPending c index r).waiting :=
      funext (sameQueues_terminalizeCycle g _ c r held).waiting_eq
    have hremoved : Removed s.waiting (g.terminalizeCycle (s.removedPending c index r) c r held).waiting c
        index r.untagged := by
      rw [hwaiting]
      exact GovernedState.removed_removedPending hr
    exact .single (.woken effects (Move.cycled hfind hr hheld) hremoved hres.ledger.permits)

/-- Every slot of a pass hands over one request, either granted or removed from a cycle. -/
theorem promoteLoop_handovers (g : Governor) (nowMs slots : Nat) (s : GovernedState)
    (effects : TransitionEffects) (changed : Bool) :
    Handovers g caller dispatching .growing (s, effects)
      ((g.promoteLoop nowMs slots s effects changed).state,
        (g.promoteLoop nowMs slots s effects changed).effects) := by
  induction slots generalizing s effects changed with
  | zero => exact .refl
  | succ slots ih =>
    unfold Governor.promoteLoop
    cases h : g.promoteStep nowMs s with
    | mk s' grant =>
      cases grant with
      | none =>
        obtain ⟨_, rfl⟩ := promoteStep_none h
        exact .refl
      | some grant => exact .head (.promoted effects nowMs h) (ih s' _ true)

/-- A promotion pass is a chain of handovers that only grows the set of permits. -/
theorem promote_handovers (g : Governor) (s : GovernedState) (nowMs : Nat) :
    Handovers g caller dispatching .growing (s, {}) (g.promote s nowMs) := by
  have hgrants : Handovers g caller dispatching .growing (s, {})
      ((g.grantPass s nowMs).state, (g.grantPass s nowMs).effects) :=
    (terminalizeWaitCycle_handovers g s {}).trans (promoteLoop_handovers g nowMs _ _ _ _)
  have hlast : Handovers g caller dispatching .growing ((g.grantPass s nowMs).state, (g.grantPass s nowMs).effects)
      ((g.lastScan (g.grantPass s nowMs)).state, (g.lastScan (g.grantPass s nowMs)).effects) := by
    unfold Governor.lastScan
    split
    · exact terminalizeWaitCycle_handovers g _ _
    · exact .refl
  exact (hgrants.trans hlast).tail (.kept (Move.flagged _ _) rfl rfl rfl rfl)

/-- A release with custody of the permit is a chain of handovers that only shrinks the set. -/
theorem releaseWithProof_handovers (s : GovernedState) (p : PermitId) (proof : Option Nat)
    (hcustody : caller.custody p proof) :
    Handovers g caller dispatching .shrinking (s, {})
      ((releaseWithProof s p proof).state, (releaseWithProof s p proof).effects) := by
  unfold Governor.releaseWithProof
  rcases releaseWithProofReason_cases s p proof .released {} with ⟨_, heq⟩ | ⟨record, _, _, heq⟩ |
    ⟨record, s', effects', hp, hproof, hunwind, heq⟩
  · rw [heq]
  · rw [heq]
  · rw [heq]
    exact .single (.unwound (Move.unwound hp (Or.inr (hproof ▸ hcustody)) hunwind) hp hunwind)

theorem handover_forgot (s : GovernedState) (effects : TransitionEffects) (ticket : Ticket)
    (howner : caller.tickets ticket) :
    Handover g caller dispatching .shrinking (s, effects) (s.forgetTerminalTicket ticket, effects) :=
  .kept (Move.forgot s ticket howner) rfl rfl rfl rfl

/-- Beginning a claim moves the ticket of its own caller only. -/
theorem beginClaim_handovers (s : GovernedState) (ticket : Ticket) (nowMs : Nat)
    (howner : caller.tickets ticket) :
    Handovers g caller dispatching .shrinking (s, {})
      ((beginClaim s ticket nowMs).1, (beginClaim s ticket nowMs).2.1) := by
  unfold Governor.beginClaim
  split
  · rename_i p hticket
    split
    · exact .refl
    · rename_i record hrecord
      exact .single (.begun {} nowMs hticket hrecord howner)
  · exact .refl
  · exact .refl
  · exact .single (handover_forgot s {} ticket howner)
  · exact .single (handover_forgot s {} ticket howner)
  · exact .refl

/-- Finishing a claim moves the ticket of its own caller only. -/
theorem finishClaim_handovers (s : GovernedState) (ticket : Ticket) (nowMs : Nat)
    (howner : caller.tickets ticket) :
    Handovers g caller dispatching .shrinking (s, {}) ((finishClaim s ticket nowMs).1, {}) := by
  unfold Governor.finishClaim
  split
  · rename_i p hticket
    split
    · rename_i hnone
      exact .single (.kept (Move.expired hticket hnone) rfl rfl rfl rfl)
    · rename_i record hrecord
      exact .single (.replaced {} (Move.transferred nowMs hticket hrecord howner) rfl hrecord rfl rfl
        (Or.inr ⟨ticket, hticket⟩) (Or.inl ⟨rfl, rfl⟩))
  · exact .single (handover_forgot s {} ticket howner)
  · exact .single (handover_forgot s {} ticket howner)
  · exact .refl
  · exact .refl
  · exact .refl

/-- Compensating a claim gives up the one permit the ticket names, under the caller's custody. -/
theorem compensateClaim_handovers {ticket : Ticket}
    (hclaim : ∀ p', s.tickets[ticket]? = some (.claiming p') → p' = p) (hcustody : caller.custody p none) :
    Handovers g caller dispatching .shrinking (s, {})
      ((compensateClaim s ticket p).state, (compensateClaim s ticket p).effects) := by
  unfold Governor.compensateClaim
  split
  · rename_i p' hticket
    obtain rfl := hclaim p' hticket
    rcases releaseWithProofReason_cases s p' none .claimDeliveryFailed {} with ⟨hnone, heq⟩ |
      ⟨record, hp, hproof, heq⟩ | ⟨record, s', effects', hp, hproof, hunwind, heq⟩
    · rw [heq]
      exact .single (.kept (Move.expired hticket hnone) rfl rfl rfl rfl)
    · rw [heq]
      have hpermits : (detachTicket s p' ticket).permits =
          s.permits.insert p' { record with pendingTicket := none } := by
        unfold Governor.detachTicket
        rw [hp]
        rfl
      exact .single (.replaced {} (Move.detached hticket hp hproof)
        (funext (sameQueues_detachTicket s p' ticket).waiting_eq) hp hpermits rfl (Or.inr ⟨ticket, hticket⟩)
        (Or.inl ⟨rfl, rfl⟩))
    · rw [heq]
      exact .single (.unwound (Move.unwound hp (Or.inr (hproof ▸ hcustody)) hunwind) hp hunwind)
  · exact .refl

/-- Abandoning a granted ticket gives up the permit it names, under the caller's custody. -/
theorem abandonGranted_handovers {ticket : Ticket}
    (hticket : s.tickets[ticket]? = some (.granted p) ∨ s.tickets[ticket]? = some (.claiming p))
    (hcustody : caller.custody p none) (howner : caller.tickets ticket) :
    Handovers g caller dispatching .shrinking (s, {})
      ((abandonGranted s ticket p).state, (abandonGranted s ticket p).effects) := by
  unfold Governor.abandonGranted
  rcases releaseWithProofReason_cases s p none .abandoned {} with ⟨hnone, heq⟩ |
    ⟨record, hp, hproof, heq⟩ | ⟨record, s', effects', hp, hproof, hunwind, heq⟩
  · rw [heq]
    exact .single (.kept (Move.orphaned hticket hnone howner) rfl rfl rfl rfl)
  · rw [heq]
  · rw [heq]
    exact (Relation.ReflTransGen.single
      (.unwound (Move.unwound hp (Or.inr (hproof ▸ hcustody)) hunwind) hp hunwind)).tail
      (handover_forgot s' effects' ticket howner)

/-- Cancelling a queued ticket removes its request and nothing else. -/
theorem cancelQueued_handovers {ticket : Ticket} (hticket : s.tickets[ticket]? = some (.queued c))
    (howner : caller.tickets ticket) :
    Handovers g caller dispatching .shrinking (s, {}) (cancelQueued s c ticket) := by
  unfold Governor.cancelQueued
  split
  · rename_i hnone
    refine .single (.kept (Move.lost hticket (fun r hr heq => ?_) howner) rfl rfl rfl rfl)
    have := List.findIdx?_eq_none_iff.mp hnone r hr
    simp [heq] at this
  · rename_i index hindex
    obtain ⟨hlt, hsame, _⟩ := List.findIdx?_eq_some_iff_getElem.mp hindex
    have hr : (s.cls c).queue[index]? = some (s.cls c).queue[index] := List.getElem?_eq_getElem hlt
    have hown : (s.cls c).queue[index].ticket = ticket := by simpa using hsame
    rw [GovernedState.removePending_of_getElem hr]
    generalize (s.cls c).queue[index] = r at hr hown
    subst hown
    have hmove : Move g caller .shrinking s
        (((s.removedPending c index r).removeTicket r.ticket).vacateOf r) :=
      Move.cancelled hticket hr rfl howner
    have hwaiting : (((s.removedPending c index r).removeTicket r.ticket).vacateOf r).waiting =
        (s.removedPending c index r).waiting :=
      funext (sameQueues_vacateOf ((s.removedPending c index r).removeTicket r.ticket) r).waiting_eq
    have hremoved := GovernedState.removed_removedPending hr
    rw [← hwaiting] at hremoved
    exact .single (.withdrawn {} hmove hremoved
      (sameLedger_vacateOf ((s.removedPending c index r).removeTicket r.ticket) r).permits howner)

theorem abandon_handovers (s : GovernedState) (ticket : Ticket) (hcustody : ∀ p, caller.custody p none)
    (howner : caller.tickets ticket) :
    Handovers g caller dispatching .shrinking (s, {}) ((g.abandon s ticket).state, (g.abandon s ticket).effects) := by
  unfold Governor.abandon
  split
  · rename_i p hticket
    exact abandonGranted_handovers (Or.inl hticket) (hcustody p) howner
  · rename_i p hticket
    exact abandonGranted_handovers (Or.inr hticket) (hcustody p) howner
  · rename_i c hticket
    exact (cancelQueued_handovers hticket howner).tail (handover_rescheduled (rescheduled_unserved g _ c) _)
  · exact .single (handover_forgot s {} ticket howner)
  · exact .single (handover_forgot s {} ticket howner)
  · exact .refl

theorem faultQueue_handovers (c : TaskClass) (rounds : Nat) (s : GovernedState)
    (effects : TransitionEffects) :
    Handovers g caller dispatching .shrinking (s, effects) (faultQueue c rounds s effects) := by
  induction rounds generalizing s effects with
  | zero => exact .refl
  | succ rounds ih =>
    unfold Governor.faultQueue
    cases h : s.removePending c 0 with
    | none => exact .refl
    | some removed =>
      obtain ⟨s', r⟩ := removed
      obtain ⟨hr, rfl⟩ := GovernedState.removePending_spec h
      have hmove : Move g caller .shrinking s
          (((s.removedPending c 0 r).vacateOf r).setTicket r.ticket .faulted) := Move.faultedHead hr
      have hwaiting : (((s.removedPending c 0 r).vacateOf r).setTicket r.ticket .faulted).waiting =
          (s.removedPending c 0 r).waiting :=
        funext (sameQueues_vacateOf (s.removedPending c 0 r) r).waiting_eq
      have hremoved := GovernedState.removed_removedPending hr
      rw [← hwaiting] at hremoved
      exact .head (.woken effects hmove hremoved (sameLedger_vacateOf (s.removedPending c 0 r) r).permits)
        (ih _ _)

theorem faultClass_handovers (g : Governor) (acc : GovernedState × TransitionEffects) (c : TaskClass) :
    Handovers g caller dispatching .shrinking acc (g.faultClass acc c) := by
  unfold Governor.faultClass
  have hqueue : Handovers g caller dispatching .shrinking acc
      (faultQueue c (acc.1.cls c).queue.length acc.1 acc.2) := faultQueue_handovers c _ acc.1 acc.2
  simp only
  split
  · exact hqueue
  · exact hqueue.tail (handover_rescheduled (rescheduled_unserved g _ c) _)

theorem terminalizeQueued_handovers (g : Governor) (s : GovernedState) (effects : TransitionEffects) :
    Handovers g caller dispatching .shrinking (s, effects) (g.terminalizeQueuedForAccountingFault s effects) := by
  have hclasses : ∀ (classes : List TaskClass) (acc : GovernedState × TransitionEffects),
      Handovers g caller dispatching .shrinking acc (classes.foldl g.faultClass acc) := by
    intro classes
    induction classes with
    | nil => exact fun _ => .refl
    | cons c rest ih => exact fun acc => (faultClass_handovers g acc c).trans (ih _)
  exact (hclasses s.classes.keys (s, effects)).tail (.kept (Move.flagged _ false) rfl rfl rfl rfl)

theorem handover_recharged {ledger : PermitLedger} (effects : TransitionEffects) (hmemory : caller.memory p)
    (found : s.permits[p]? = some record) (change : LedgerChange record.ledger ledger) :
    Handover g caller dispatching .shrinking (s, effects) (s.rechargePermit p record ledger, effects) :=
  .replaced effects (Move.recharged hmemory found change)
    (funext (sameQueues_rechargePermit s p record ledger).waiting_eq) found
    (memoryOnly_rechargePermit s p record ledger).permits rfl (Or.inl rfl) (Or.inl ⟨rfl, rfl⟩)

/-- A memory report recharges the permit it names and no other. -/
theorem reconcileMemory_handovers (s : GovernedState) (p : PermitId) (measuredBytes : Nat)
    (epoch : Option Nat) (nowMs : Nat) (hmemory : caller.memory p) :
    Handovers g caller dispatching .shrinking (s, {})
      ((g.reconcileMemory s p measuredBytes epoch nowMs).state,
        (g.reconcileMemory s p measuredBytes epoch nowMs).effects) := by
  rcases reconcileMemory_cases g s p measuredBytes epoch nowMs with ⟨outcome, heq, _⟩ | ⟨error, heq⟩ |
    ⟨record, ledger, hp, hchange, heq, _⟩
  · rw [heq]
  · rw [heq]
    refine .head (.kept (Move.faulted s _ ⟨p, hmemory⟩) ?_ ?_ rfl rfl) (terminalizeQueued_handovers g _ {})
    · exact funext (sameQueues_recordAccountingFault s _).waiting_eq
    · exact (memoryOnly_recordAccountingFault s _).permits
  · rw [heq]
    exact .single (handover_recharged {} hmemory hp hchange)

/-- A stage release recharges the permit it names and no other. -/
theorem releaseStage_handovers (s : GovernedState) (p : PermitId) (freedUnits : Nat)
    (sequence : Option Nat) (nowMs : Nat) (hmemory : caller.memory p) :
    Handovers g caller dispatching .shrinking (s, {})
      ((g.releaseStage s p freedUnits sequence nowMs).state,
        (g.releaseStage s p freedUnits sequence nowMs).effects) := by
  unfold Governor.releaseStage
  split
  · exact .refl
  · split
    · exact .refl
    · rename_i policy _
      rcases releaseStageMemory_cases s p freedUnits policy.memoryReleasePolicy sequence nowMs with
        heq | ⟨record, ledger, hp, hchange, _, heq, _⟩
      · simp only [heq]
        exact .refl
      · simp only [heq]
        exact .single (handover_recharged {} hmemory hp hchange)

/-- Reclaiming a list of reserved permits gives them up one by one. -/
theorem reclaimAll_handovers (permits : List PermitId) (s : GovernedState) (effects : TransitionEffects)
    (count : Nat) (hreserved : AllReserved permits s) :
    Handovers g caller dispatching .shrinking (s, effects)
      ((reclaimAll permits s effects count).1, (reclaimAll permits s effects count).2.1) := by
  induction permits generalizing s effects count with
  | nil => exact .refl
  | cons p rest ih =>
    unfold reclaimAll
    cases h : s.unwind p .reclaimed effects with
    | none => exact ih s effects count fun p' hp' => hreserved p' (List.mem_cons_of_mem _ hp')
    | some unwound =>
      obtain ⟨s', effects'⟩ := unwound
      cases hp : s.permits[p]? with
      | none =>
        unfold GovernedState.unwind at h
        rw [hp] at h
        simp at h
      | some record =>
        have hphase := hreserved p List.mem_cons_self record hp
        refine .head (.unwound (Move.unwound hp (Or.inl hphase) h) hp h) (ih s' effects' _ ?_)
        intro p' hp' record' hrecord'
        rw [permits_unwind h, ExtTreeMap.getElem?_erase] at hrecord'
        split at hrecord'
        · simp at hrecord'
        · exact hreserved p' (List.mem_cons_of_mem _ hp') record' hrecord'

/-! ## The handovers of a step -/

variable {σ σ' : g.System} {a : Action} {e : Event}

/-- Advancing the clock first hands nothing over. -/
theorem Handovers.after_commitTime {sampledMs : Nat} {y : GovernedState × TransitionEffects}
    (h : Handovers g caller dispatching .shrinking (s.commitTime sampledMs, {}) y) :
    Handovers g caller dispatching .shrinking (s, {}) y :=
  .head (handover_rescheduled (rescheduled_commitTime s sampledMs) {}) h

/-- The action advances the phase of a permit. -/
def Dispatches (a : Action) : Prop := ∃ p phase, a = .advancePhase p phase

/-- The section of a step that brings no identities, up to its promotion pass. -/
theorem SysInv.prepare_handovers (hinv : SysInv σ) {prepared : g.Prepared}
    (h : Governor.prepare σ a = some prepared) (hother : ∀ i, a ≠ .enter i) :
    Handovers g (callerOf σ a) (Dispatches a) .shrinking (σ.state, {}) (prepared.sec.state, prepared.sec.effects) := by
  have hnone : ∀ p, (callerOf σ a).custody p none := fun p => Or.inl rfl
  cases a with
  | call entry sampledMs =>
    simp only [Governor.prepare, Option.some.injEq] at h
    subst h
    unfold Governor.call
    split <;> exact .refl
  | allocate i =>
    simp only [Governor.prepare] at h
    split at h
    · rename_i intake sampledMs taken _
      simp only [Option.some.injEq] at h
      subst h
      have hsec : (Governor.allocate σ i intake sampledMs taken).sec.state = σ.state ∧
          (Governor.allocate σ i intake sampledMs taken).sec.effects = {} := by
        unfold Governor.allocate
        cases taken <;> simp only <;> split <;> exact ⟨rfl, rfl⟩
      rw [hsec.1, hsec.2]
    · simp at h
  | enter i => exact absurd rfl (hother i)
  | settle i panicked =>
    simp only [Governor.prepare] at h
    split at h
    · split at h
      · simp at h
      · simp only [Option.some.injEq] at h
        subst h
        unfold Governor.settle
        split
        · exact .refl
        · exact .after_commitTime (releaseWithProof_handovers _ _ none (hnone _))
        · exact .refl
    · simp at h
  | claim ticket sampledMs =>
    simp only [Governor.prepare, Option.some.injEq] at h
    subst h
    exact .after_commitTime (beginClaim_handovers _ _ _ (Or.inl ⟨_, rfl⟩))
  | finishClaim i panicked =>
    simp only [Governor.prepare] at h
    split at h
    · rename_i ticket p effects sampledMs hthread
      split at h
      · simp at h
      · simp only [Option.some.injEq] at h
        subst h
        unfold Governor.endClaim
        split
        · refine .after_commitTime (compensateClaim_handovers ?_ (hnone p))
          exact hinv.ready.claims ticket p effects sampledMs (List.mem_of_getElem? hthread)
        · exact .after_commitTime (finishClaim_handovers _ _ _
            (Or.inr (Or.inr ⟨i, panicked, p, effects, sampledMs, rfl, hthread⟩)))
    · simp at h
  | abandon ticket sampledMs =>
    simp only [Governor.prepare, Option.some.injEq] at h
    subst h
    exact .after_commitTime (abandon_handovers _ _ hnone (Or.inr (Or.inl ⟨_, rfl⟩)))
  | release permitId sampledMs =>
    simp only [Governor.prepare, Option.some.injEq] at h
    subst h
    exact .after_commitTime (releaseWithProof_handovers _ _ none (hnone _))
  | releaseLeased token sampledMs =>
    simp only [Governor.prepare, Option.some.injEq] at h
    subst h
    exact .after_commitTime
      (releaseWithProof_handovers _ _ _ (Or.inr ⟨token, sampledMs, rfl, rfl, rfl⟩))
  | advancePhase permitId phase =>
    simp only [Governor.prepare, Option.some.injEq] at h
    subst h
    unfold Governor.advance
    rcases GovernedState.advancePhase_cases σ.state permitId phase σ.leaseNonces with
      ⟨refusal, heq⟩ | ⟨record, hrecord, hrank, hstate, _⟩
    · rw [heq]
    · simp only [hstate]
      exact .single (.replaced {} (Move.advanced σ.leaseNonces hrecord hrank)
        (funext (GovernedState.sameQueues_advancedTo σ.state permitId record phase σ.leaseNonces).waiting_eq)
        hrecord rfl rfl (Or.inl rfl) (Or.inr ⟨permitId, phase, rfl⟩))
  | reconcileMemory permitId measuredBytes epoch sampledMs =>
    simp only [Governor.prepare, Option.some.injEq] at h
    subst h
    exact .after_commitTime (reconcileMemory_handovers _ _ _ _ _ (Or.inl ⟨_, _, _, rfl⟩))
  | releaseStageMemory permitId freedUnits sequence sampledMs =>
    simp only [Governor.prepare, Option.some.injEq] at h
    subst h
    exact .after_commitTime (releaseStage_handovers _ _ _ _ _ (Or.inr ⟨_, _, _, rfl⟩))
  | reapLeaks staleAfterMs sampledMs =>
    simp only [Governor.prepare, Option.some.injEq] at h
    subst h
    exact .after_commitTime (reclaimAll_handovers _ _ {} 0 (reclaimable_reserved hinv.ready.keys))
  | closeAdmission =>
    simp only [Governor.prepare, Option.some.injEq] at h
    subst h
    exact .single (.kept (Move.closed σ.state) rfl rfl rfl rfl)
  | drain i =>
    simp only [Governor.prepare] at h
    split at h
    · simp only [Option.some.injEq] at h
      subst h
      unfold Governor.drain
      split
      · exact .after_commitTime .refl
      · exact .refl
    · simp at h
  | mintElsewhere =>
    simp only [Governor.prepare, Option.some.injEq] at h
    subst h
    exact .refl

/-- A pass that starts with empty effects adds to what the section before it told. -/
theorem Handovers.heard_after {trend : Trend} {old : Option TicketState}
    {effects pass : TransitionEffects} (h : Handovers g caller dispatching trend (s, {}) (s', pass))
    (hids : ∀ ids, ¬ caller.ids ids) (hinv : StateInv g s) (hload : ticketLoad s < u64Max)
    (hs : Heard caller old t w (s, effects)) : Heard caller old t w (s', effects.absorb pass) := by
  have hkept : w ∈ effects.wake → w ∈ (effects.absorb pass).wake := List.mem_append_left _
  have hadded : w ∈ pass.wake → w ∈ (effects.absorb pass).wake := List.mem_append_right _
  rcases hs with ⟨hregistered, hbefore⟩ | ⟨hparted, hbefore⟩
  · have hpass := (h.rule hids hinv hload (P := Heard caller s.tickets[t]? t w)
      (fun _ _ hstep hinv hseq => hstep.heard hids hinv hseq) (Or.inl ⟨hregistered, Or.inl rfl⟩)).1
    rcases hpass with ⟨hregistered', hafter⟩ | ⟨hparted', hafter⟩
    · refine Or.inl ⟨hregistered', ?_⟩
      rcases hbefore with hsame | hwoken
      · have hsame' : s.tickets[t]? = old := hsame
        rw [hsame'] at hafter
        exact hafter.imp_right hadded
      · exact Or.inr (hkept hwoken)
    · exact Or.inr ⟨hparted', hafter.imp_right hadded⟩
  · have hpass := (h.rule hids hinv hload (P := fun x => Parted x.1 t)
      (fun x y hstep hinv hseq hx => ?_) hparted).1
    · exact Or.inr ⟨hpass, hbefore.imp_right hkept⟩
    · exact (hstep.move.ticketStep hinv.queues hinv.occupancy hinv.tickets hseq).2.parted hids hx

theorem no_ids (hother : ∀ i, a ≠ .enter i) (ids : Ids) : ¬ (callerOf σ a).ids ids := by
  rintro ⟨i, intake, sampledMs, rfl, _⟩
  exact hother i rfl

/-- A registered ticket under a step that brings no identities. -/
theorem SysInv.prepare_heard (hinv : SysInv σ) {prepared : g.Prepared}
    (h : Governor.prepare σ a = some prepared) (hother : ∀ i, a ≠ .enter i)
    (hregistered : Registered σ.state t w) :
    Heard (callerOf σ a) σ.state.tickets[t]? t w (g.commit prepared.sec prepared.nowMs) := by
  have hids := no_ids (σ := σ) hother
  obtain ⟨hheard, hinvsec, hloadsec⟩ := (hinv.prepare_handovers h hother).rule hids hinv.state
    hinv.terminalSeq_lt (P := Heard (callerOf σ a) σ.state.tickets[t]? t w)
    (fun _ _ hstep hinv hseq => hstep.heard hids hinv hseq) (Or.inl ⟨hregistered, Or.inl rfl⟩)
  unfold Governor.commit
  split
  · have hpass : Handovers g (callerOf σ a) (Dispatches a) .growing (prepared.sec.state, {})
        (g.promote prepared.sec.state prepared.nowMs) := promote_handovers g _ _
    exact hpass.heard_after hids hinvsec hloadsec hheard
  · exact hheard

/-- References under a step that brings no identities: the permits it grants hold a second one. -/
theorem SysInv.prepare_refs (hinv : SysInv σ) {prepared : g.Prepared}
    (h : Governor.prepare σ a = some prepared) (hother : ∀ i, a ≠ .enter i) (w : Waker) :
    heldRefs (g.commit prepared.sec prepared.nowMs).1 w + (g.commit prepared.sec prepared.nowMs).2.refs w =
        heldRefs σ.state w + mintedRefs σ.state (g.commit prepared.sec prepared.nowMs).1 w ∧
      mintedRefs σ.state (g.commit prepared.sec prepared.nowMs).1 w ≤
        (g.commit prepared.sec prepared.nowMs).2.wake.count w := by
  have hids := no_ids (σ := σ) hother
  -- The section grants nothing and queues nothing.
  obtain ⟨⟨hrefs, hsubset, hwaiting⟩, hinvsec, hloadsec⟩ := (hinv.prepare_handovers h hother).rule hids
    hinv.state hinv.terminalSeq_lt
    (P := fun x => heldRefs x.1 w + x.2.refs w = heldRefs σ.state w ∧
      (∀ p, p ∈ x.1.permits → p ∈ σ.state.permits) ∧ ∀ c r, r ∈ x.1.waiting c → r ∈ σ.state.waiting c)
    (fun x y hstep hinvx hseqx hx => by
      refine ⟨(hstep.refs_shrinking w).trans hx.1, fun p hp => hx.2.1 p (hstep.permits_subset hp),
        fun c r hr => ?_⟩
      rcases (hstep.move.effect hinvx.queues).mem_waiting hr with hr | ⟨ids, hallowed, _⟩
      · exact hx.2.2 c r hr
      · exact absurd hallowed (hids ids))
    ⟨by simp, fun _ hp => hp, fun _ _ hr => hr⟩
  have hrefs' : heldRefs prepared.sec.state w + prepared.sec.effects.refs w = heldRefs σ.state w := hrefs
  have hnone : mintedRefs σ.state prepared.sec.state w = 0 := mintedRefs_of_subset hsubset w
  unfold Governor.commit
  split
  · -- Every request the pass can grant waited when the step began.
    have hfresh : ∀ c r, r ∈ prepared.sec.state.waiting c → r.permitId ∉ σ.state.permits := by
      intro c r hr hlive
      have hgone := hinv.state.occupancy.not_live (hwaiting c r hr)
      rw [ExtTreeMap.mem_iff_isSome_getElem?, hgone] at hlive
      simp at hlive
    obtain ⟨⟨hpass, hwoken, _⟩, _⟩ := (promote_handovers g prepared.sec.state prepared.nowMs :
        Handovers g (callerOf σ a) (Dispatches a) .growing (prepared.sec.state, {})
          (g.promote prepared.sec.state prepared.nowMs)).rule hids hinvsec hloadsec
      (P := fun x => heldRefs x.1 w + x.2.refs w + mintedRefs σ.state prepared.sec.state w =
          heldRefs prepared.sec.state w + mintedRefs σ.state x.1 w ∧
        mintedRefs σ.state x.1 w ≤ mintedRefs σ.state prepared.sec.state w + x.2.wake.count w ∧
        ∀ c r, r ∈ x.1.waiting c → r.permitId ∉ σ.state.permits)
      (fun x y hstep hinvx hseqx hx => by
        have hgrown := hstep.refs_growing hinvx hx.2.2 w
        refine ⟨by omega, by omega, fun c r hr => ?_⟩
        rcases (hstep.move.effect hinvx.queues).mem_waiting hr with hr | ⟨ids, hallowed, _⟩
        · exact hx.2.2 c r hr
        · exact absurd hallowed (hids ids))
      ⟨by simp, by simp, hfresh⟩
    have habsorbed : (prepared.sec.effects.absorb (g.promote prepared.sec.state prepared.nowMs).2).wake.count w =
        prepared.sec.effects.wake.count w + (g.promote prepared.sec.state prepared.nowMs).2.wake.count w :=
      List.count_append
    simp only [refs_absorb, habsorbed]
    omega
  · simp only
    omega

/-! ## Admission -/

/-- A registered ticket stays registered where its entry, its permit and itself are kept. -/
theorem Registered.mono (h : Registered s t w)
    (hwaiting : ∀ c r, r ∈ s.waiting c → r ∈ s'.waiting c)
    (hpermits : ∀ (p : PermitId) record, s.permits[p]? = some record → s'.permits[p]? = some record)
    (hticket : s'.tickets[t]? = s.tickets[t]?) : Registered s' t w := by
  rcases h with ⟨c, hqueued, r, hr, ht, hw⟩ | ⟨p, record, hgranted, hrecord, hw⟩
  · have hmem : r.untagged ∈ s'.waiting c := hwaiting c _ (List.mem_map_of_mem hr)
    obtain ⟨r', hr', heq⟩ := List.mem_map.mp hmem
    have ht' : r'.untagged.ticket = r.untagged.ticket := congrArg PendingRequest.ticket heq
    have hw' : r'.untagged.waker = r.untagged.waker := congrArg PendingRequest.waker heq
    exact Or.inl ⟨c, hticket.trans hqueued, r', hr', ht'.trans ht, hw'.trans hw⟩
  · exact Or.inr ⟨p, record, hticket.trans hgranted, hpermits p record hrecord, hw⟩

theorem Registered.known (h : Registered s t w) : s.tickets[t]? ≠ none := by
  rcases h with ⟨c, hqueued, _⟩ | ⟨p, record, hgranted, _⟩
  · simp [hqueued]
  · simp [hgranted]

section Entered

variable {request : AdmissionRequest} {ids : Ids} {waker : Option Waker} {nowMs : Nat}
  {decision : AdmissionDecision}

/-- Committing a queued request adds its ticket and no permit. -/
theorem tickets_commitPending {tagged : GovernedState} (hres : s.Rescheduled tagged) (r : PendingRequest) :
    (tagged.commitPending r).tickets = s.tickets.insert r.ticket (.queued r.taskClass) ∧
      (tagged.commitPending r).permits = s.permits := by
  have htickets : tagged.tickets = s.tickets := congrArg TicketBook.tickets hres.tickets
  rw [← htickets, ← hres.ledger.permits]
  unfold GovernedState.commitPending
  simp only
  split <;> exact ⟨rfl, rfl⟩

/-- An admission concerns no ticket but its own. -/
theorem Entered.registered (h : Entered g s request ids waker nowMs s' decision) (hfresh : Fresh s ids)
    (hregistered : Registered s t w) : Registered s' t w ∧ s'.tickets[t]? = s.tickets[t]? := by
  cases h with
  | refused cycle => exact ⟨hregistered, rfl⟩
  | @granted policy c accepted runnable =>
    refine ⟨hregistered.mono (fun c' r hr => ?_) (fun p record hp => ?_) rfl, rfl⟩
    · rwa [(GovernedState.sameQueues_grant s _).waiting_eq c']
    · have hne : ids.permitId ≠ p := by
        rintro rfl
        exact absurd (hfresh.permit.symm.trans hp) (by simp)
      show (s.permits.insert ids.permitId _)[p]? = some record
      rw [ExtTreeMap.getElem?_insert]
      simpa [hne] using hp
  | @queued policy c blockers accepted blocked sound room =>
    have hres := rescheduled_enqueueTags s c policy (resolveCost policy).cpuUnits nowMs
    obtain ⟨htickets, hpermits⟩ := tickets_commitPending hres (pendingRequest s policy c request waker ids
      nowMs blockers.primary (enqueueTags s c policy (resolveCost policy).cpuUnits nowMs).2)
    have hne : ids.ticket ≠ t := by
      rintro rfl
      exact hregistered.known hfresh.ticket
    have hticket : (GovernedState.commitPending (enqueueTags s c policy (resolveCost policy).cpuUnits nowMs).1
        (pendingRequest s policy c request waker ids nowMs blockers.primary
          (enqueueTags s c policy (resolveCost policy).cpuUnits nowMs).2)).tickets[t]? = s.tickets[t]? := by
      rw [htickets]
      show (s.tickets.insert ids.ticket (.queued c))[t]? = s.tickets[t]?
      rw [ExtTreeMap.getElem?_insert]
      simp [hne]
    refine ⟨hregistered.mono (fun c' r hr => ?_) (fun p record hp => ?_) hticket, hticket⟩
    · exact (pushed_commitPending hres).mem_iff.mpr (Or.inl hr)
    · rwa [hpermits]

/-- An admission returns the reference it was given, or queues it. -/
theorem Entered.refs {effects : TransitionEffects} (h : Entered g s request ids waker nowMs s' decision)
    (hfresh : Fresh s ids) (hsettled : WakerSettled waker {} ⟨s', effects, decision⟩) (w : Waker) :
    heldRefs s' w + effects.refs w = heldRefs s w + refTo waker w ∧ mintedRefs s s' w = 0 := by
  have hrefuse : (∀ ticket, decision ≠ .queued ticket) → effects.refs w = refTo waker w := by
    intro hnot
    rcases hsettled with ⟨⟨ticket, heq⟩, _⟩ | ⟨_, heq⟩
    · exact absurd heq (hnot ticket)
    · have heq' : effects = ({} : TransitionEffects).pushRetire waker := heq
      rw [heq', refs_pushRetire, refs_empty, Nat.zero_add]
  cases h with
  | refused cycle =>
    have := hrefuse (by simp)
    exact ⟨by omega, mintedRefs_of_subset (fun _ hp => hp) w⟩
  | @granted policy c accepted runnable =>
    have hnew := hrefuse (by simp)
    have hlive := heldBy_insert hfresh.permit (directGrant s policy c request ids nowMs).record
      fun record => refTo record.claimWaker w
    have hminted := sumBy_insert_new hfresh.permit (directGrant s policy c request ids nowMs).record
      fun p record => if p ∈ s.permits then 0 else refTo record.claimWaker w
    have hnone : refTo (directGrant s policy c request ids nowMs).record.claimWaker w = 0 := by
      simp [refTo, directGrant, GrantRequest.record]
    have hkept : mintedRefs s s w = 0 := mintedRefs_of_subset (fun _ hp => hp) w
    have hqueued := queuedRefs_same
      (funext (GovernedState.sameQueues_grant s (directGrant s policy c request ids nowMs)).waiting_eq) w
    have hpermits : (s.grant (directGrant s policy c request ids nowMs)).permits =
      s.permits.insert ids.permitId (directGrant s policy c request ids nowMs).record := rfl
    rw [hnone] at hlive
    rw [hnone, ite_self] at hminted
    refine ⟨?_, ?_⟩
    · simp only [heldRefs, liveRefs, hqueued, hpermits, hlive]
      omega
    · rw [mintedRefs, hpermits, hminted, ← mintedRefs, hkept]
  | @queued policy c blockers accepted blocked sound room =>
    have hres := rescheduled_enqueueTags s c policy (resolveCost policy).cpuUnits nowMs
    obtain ⟨_, hpermits⟩ := tickets_commitPending hres (pendingRequest s policy c request waker ids
      nowMs blockers.primary (enqueueTags s c policy (resolveCost policy).cpuUnits nowMs).2)
    have hpushed : Pushed s.waiting
        ((enqueueTags s c policy (resolveCost policy).cpuUnits nowMs).1.commitPending
          (pendingRequest s policy c request waker ids nowMs blockers.primary
            (enqueueTags s c policy (resolveCost policy).cpuUnits nowMs).2)).waiting c
        (queuedEntry s policy c request waker ids nowMs blockers.primary
          (enqueueTags s c policy (resolveCost policy).cpuUnits nowMs).2) :=
      pushed_commitPending hres
    have hqueued := queuedRefs_pushed hpushed w
    have hentry : (queuedEntry s policy c request waker ids nowMs blockers.primary
      (enqueueTags s c policy (resolveCost policy).cpuUnits nowMs).2).waker = waker := rfl
    have heffects : effects.refs w = 0 := by
      rcases hsettled with ⟨_, heq⟩ | ⟨hnot, _⟩
      · have heq' : effects = {} := heq
        rw [heq', refs_empty]
      · exact absurd rfl (hnot ids.ticket)
    rw [hentry] at hqueued
    refine ⟨?_, mintedRefs_of_subset (fun p hp => ?_) w⟩
    · simp only [heldRefs, liveRefs, hpermits, hqueued, heffects]
      omega
    · rwa [hpermits] at hp

end Entered

end Taskmesh
