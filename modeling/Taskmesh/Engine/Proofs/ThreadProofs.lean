import Taskmesh.Collections.Allocation
import Taskmesh.Engine.Proofs.StateInvariantProofs

/-!
# What a step does to the calls in progress

One call takes a turn: it is started, goes on, or is over, and the others stay as they are. A step
that runs a promotion pass leaves a call that drains the effects of the pass; a call that owes a pass
is over only after it ran it.
-/

namespace Taskmesh

open Std MachineInt SetIndex Allocation

variable {g : Governor}

/-- What one turn makes of the call that takes it. -/
inductive Turn (σ σ' : g.System) : Action → Option (Thread g.policy) → Option (Thread g.policy) → Prop
  | quiet {a : Action} (other : ∀ i, a ≠ .enter i) : Turn σ σ' a none none
  | called {a : Action} (other : ∀ i, a ≠ .enter i) (intake : Intake g.policy) (sampledMs : Nat) :
      Turn σ σ' a none (some (.allocating intake sampledMs .nothing))
  | took (i : Nat) (intake : Intake g.policy) (sampledMs : Nat) {taken taken' : Taken} :
      Turn σ σ' (.allocate i) (some (.allocating intake sampledMs taken))
        (some (.allocating intake sampledMs taken'))
  | numbered (i : Nat) (intake : Intake g.policy) (sampledMs : Nat) {taken : Taken} (ids : Ids) :
      Turn σ σ' (.allocate i) (some (.allocating intake sampledMs taken))
        (some (.admitting intake sampledMs ids))
  | exhausted (i : Nat) (intake : Intake g.policy) (sampledMs : Nat) (taken : Taken) :
      Turn σ σ' (.allocate i) (some (.allocating intake sampledMs taken)) none
  | entered (i : Nat) (intake : Intake g.policy) (sampledMs : Nat) (ids : Ids)
      (decision : AdmissionDecision) (effects : TransitionEffects)
      (taken : σ.threads[i]? = some (.admitting intake sampledMs ids)) :
      Turn σ σ' (.enter i) (some (.admitting intake sampledMs ids))
        (some (.settling decision effects sampledMs))
  | settled {a : Action} (other : ∀ i, a ≠ .enter i) (decision : AdmissionDecision)
      (effects : TransitionEffects) (sampledMs : Nat) {next : Option (Thread g.policy)}
      (drains : next = none ∨ ∃ effects, next = some (.draining effects sampledMs)) :
      Turn σ σ' a (some (.settling decision effects sampledMs)) next
  | begun (ticket : Ticket) (p : PermitId) (effects : TransitionEffects) (sampledMs : UInt64)
      (claiming : σ'.state.tickets[ticket]? = some (.claiming p)) :
      Turn σ σ' (.claim ticket sampledMs) none (some (.claiming ticket p effects sampledMs.toNat))
  | claimed {a : Action} (other : ∀ i, a ≠ .enter i) (ticket : Ticket) (p : PermitId)
      (effects : TransitionEffects) (sampledMs : Nat) {next : Option (Thread g.policy)}
      (drains : next = none ∨ ∃ effects, next = some (.draining effects sampledMs)) :
      Turn σ σ' a (some (.claiming ticket p effects sampledMs)) next
  | operated {a : Action} (other : ∀ i, a ≠ .enter i) (effects : TransitionEffects) (sampledMs : Nat) :
      Turn σ σ' a none (some (.draining effects sampledMs))
  | drained (i : Nat) (effects : TransitionEffects) (sampledMs : Nat) {next : Option (Thread g.policy)}
      (turn : σ.threads[i]? = some (.draining effects sampledMs))
      (drains : next = none ∨ ∃ effects, next = some (.draining effects sampledMs)) :
      Turn σ σ' (.drain i) (some (.draining effects sampledMs)) next

/-- The permit sequence a call holds. -/
def Thread.permitSeq {policies : PolicySet} : Thread policies → Option Nat
  | .allocating _ _ (.permit permit) => some permit
  | .allocating _ _ (.ticket permit _) => some permit
  | .admitting _ _ ids => some ids.permitId.sequence
  | _ => none

/-- The ticket sequence a call holds. -/
def Thread.ticketSeq {policies : PolicySet} : Thread policies → Option Nat
  | .allocating _ _ (.ticket _ ticket) => some ticket
  | .admitting _ _ ids => some ids.ticket.sequence
  | _ => none

/-- The arrival number a call holds. -/
def Thread.seqNo {policies : PolicySet} : Thread policies → Option Nat
  | .admitting _ _ ids => some ids.seqNo
  | _ => none

/-- The submission a call in progress has still to decide. -/
def Thread.intake {policies : PolicySet} : Thread policies → Option (Intake policies)
  | .allocating intake _ _ | .admitting intake _ _ => some intake
  | _ => none

/-- The counters moved by what the turn took, if anything. -/
inductive Counted (σ σ' : g.System) : Option (Thread g.policy) → Option (Thread g.policy) → Prop
  | same {old new : Option (Thread g.policy)} (permit : σ'.nextPermit = σ.nextPermit)
      (ticket : σ'.nextTicket = σ.nextTicket) (seq : σ'.nextSeq = σ.nextSeq)
      (nothing : ∀ th, new = some th → th.permitSeq = none ∧ th.ticketSeq = none ∧ th.seqNo = none) :
      Counted σ σ' old new
  | permit {intake : Intake g.policy} {sampledMs : Nat} (permit : σ'.nextPermit = σ.nextPermit + 1)
      (ticket : σ'.nextTicket = σ.nextTicket) (seq : σ'.nextSeq = σ.nextSeq) :
      Counted σ σ' (some (.allocating intake sampledMs .nothing))
        (some (.allocating intake sampledMs (.permit σ.nextPermit)))
  | ticket {intake : Intake g.policy} {sampledMs permit : Nat} (same : σ'.nextPermit = σ.nextPermit)
      (ticket : σ'.nextTicket = σ.nextTicket + 1) (bound : σ'.nextTicket ≤ u64Max)
      (seq : σ'.nextSeq = σ.nextSeq) :
      Counted σ σ' (some (.allocating intake sampledMs (.permit permit)))
        (some (.allocating intake sampledMs (.ticket permit σ.nextTicket)))
  | seq {intake : Intake g.policy} {sampledMs permit ticket : Nat} (same : σ'.nextPermit = σ.nextPermit)
      (same' : σ'.nextTicket = σ.nextTicket) (seq : σ'.nextSeq = σ.nextSeq + 1) :
      Counted σ σ' (some (.allocating intake sampledMs (.ticket permit ticket)))
        (some (.admitting intake sampledMs ⟨⟨g.authority, permit⟩, ⟨g.authority, ticket⟩, σ.nextSeq⟩))

/-- What one step does to the calls in progress. -/
structure ThreadStep (σ σ' : g.System) (a : Action) (promotes : Bool)
    (old new : Option (Thread g.policy)) (rest : List (Thread g.policy)) : Prop where
  before : σ.threads.Perm (old.toList ++ rest)
  after : σ'.threads.Perm (new.toList ++ rest)
  turn : Turn σ σ' a old new
  counted : Counted σ σ' old new
  owes : promotes = true → ∃ effects sampledMs, new = some (.draining effects sampledMs) ∧
    effects.moreRunnable = σ'.state.promotionPending
  paid : promotes = false → ∀ effects sampledMs, old = some (.draining effects sampledMs) →
    effects.moreRunnable = false

variable {σ σ' : g.System} {i : Nat} {th new : Thread g.policy}

/-! ## Thread lists -/

theorem perm_turn (h : σ.threads[i]? = some th) :
    σ.threads.Perm (th :: σ.threads.eraseIdx i) := by
  obtain ⟨hlt, rfl⟩ := List.getElem?_eq_some_iff.mp h
  exact (List.getElem_cons_eraseIdx_perm hlt).symm

theorem perm_set (h : σ.threads[i]? = some th) (new : Thread g.policy) :
    (σ.threads.set i new).Perm (new :: σ.threads.eraseIdx i) := by
  obtain ⟨hlt, _⟩ := List.getElem?_eq_some_iff.mp h
  exact List.set_perm_cons_eraseIdx hlt new

theorem perm_push (new : Thread g.policy) : (σ.threads ++ [new]).Perm (new :: σ.threads) :=
  List.perm_append_singleton new σ.threads

/-! ## Sections leave the continuation flag of their effects to the pass -/

theorem unwind_moreRunnable {s s' : GovernedState} {p : PermitId} {reason : TerminalReason}
    {effects effects' : TransitionEffects} (h : s.unwind p reason effects = some (s', effects')) :
    effects'.moreRunnable = effects.moreRunnable := by
  unfold GovernedState.unwind at h
  split at h
  · simp at h
  · simp only at h
    split at h <;>
    · simp only [Option.some.injEq, Prod.mk.injEq] at h
      rw [← h.2]
      rfl

theorem releaseWithProofReason_moreRunnable (s : GovernedState) (p : PermitId) (proof : Option Nat)
    (reason : TerminalReason) :
    (s.releaseWithProofReason p proof reason {}).2.1.moreRunnable = false := by
  rcases releaseWithProofReason_cases s p proof reason {} with ⟨_, heq⟩ | ⟨_, _, _, heq⟩ |
    ⟨_, _, _, _, _, hunwind, heq⟩
  · rw [heq]
  · rw [heq]
  · rw [heq]
    exact unwind_moreRunnable hunwind

theorem releaseWithProof_moreRunnable (s : GovernedState) (p : PermitId) (proof : Option Nat) :
    (Governor.releaseWithProof s p proof).effects.moreRunnable = false :=
  releaseWithProofReason_moreRunnable s p proof .released

theorem compensateClaim_moreRunnable (s : GovernedState) (ticket : Ticket) (p : PermitId) :
    (Governor.compensateClaim s ticket p).effects.moreRunnable = false := by
  have h := releaseWithProofReason_moreRunnable s p none .claimDeliveryFailed
  unfold Governor.compensateClaim
  split
  · split <;>
    · rename_i heq
      rw [heq] at h
      exact h
  · rfl

theorem abandon_moreRunnable (s : GovernedState) (ticket : Ticket) :
    (g.abandon s ticket).effects.moreRunnable = false := by
  have hgranted : ∀ p, (Governor.abandonGranted s ticket p).effects.moreRunnable = false := by
    intro p
    have h := releaseWithProofReason_moreRunnable s p none .abandoned
    unfold Governor.abandonGranted
    split <;>
    · rename_i heq
      rw [heq] at h
      exact h
  unfold Governor.abandon
  split
  · exact hgranted _
  · exact hgranted _
  · rename_i c _
    have hcancel : (Governor.cancelQueued s c ticket).2.moreRunnable = false := by
      unfold Governor.cancelQueued
      split
      · rfl
      · split <;> rfl
    exact hcancel
  · rfl
  · rfl
  · rfl

theorem faultQueue_moreRunnable (c : TaskClass) (rounds : Nat) (s : GovernedState)
    (effects : TransitionEffects) :
    (Governor.faultQueue c rounds s effects).2.moreRunnable = effects.moreRunnable := by
  induction rounds generalizing s effects with
  | zero => rfl
  | succ rounds ih =>
    unfold Governor.faultQueue
    split
    · rfl
    · rw [ih]
      rfl

theorem faultClasses_moreRunnable (classes : List TaskClass) (acc : GovernedState × TransitionEffects) :
    (classes.foldl g.faultClass acc).2.moreRunnable = acc.2.moreRunnable := by
  induction classes generalizing acc with
  | nil => rfl
  | cons c rest ih =>
    have hclass : (g.faultClass acc c).2.moreRunnable = acc.2.moreRunnable := by
      unfold Governor.faultClass
      simp only
      split <;> exact faultQueue_moreRunnable c _ _ _
    rw [List.foldl_cons, ih, hclass]

theorem reconcileMemory_moreRunnable (s : GovernedState) (p : PermitId) (measuredBytes : Nat)
    (epoch : Option Nat) (nowMs : Nat) :
    (g.reconcileMemory s p measuredBytes epoch nowMs).effects.moreRunnable = false := by
  unfold Governor.reconcileMemory
  split
  · rfl
  · split
    · rfl
    · split
      · rfl
      · split
        · exact faultClasses_moreRunnable _ _
        · rfl
        · rfl

theorem releaseStage_moreRunnable (s : GovernedState) (p : PermitId) (freedUnits : Nat)
    (sequence : Option Nat) (nowMs : Nat) :
    (g.releaseStage s p freedUnits sequence nowMs).effects.moreRunnable = false := by
  unfold Governor.releaseStage
  split
  · rfl
  · split <;> rfl

theorem reclaimAll_moreRunnable (permits : List PermitId) (s : GovernedState)
    (effects : TransitionEffects) (count : Nat) :
    (reclaimAll permits s effects count).2.1.moreRunnable = effects.moreRunnable := by
  induction permits generalizing s effects count with
  | nil => rfl
  | cons p rest ih =>
    unfold reclaimAll
    cases h : s.unwind p .reclaimed effects with
    | none => exact ih s effects count
    | some unwound =>
      obtain ⟨s', effects'⟩ := unwound
      rw [ih s' effects']
      exact unwind_moreRunnable h

theorem reapLeaksWith_moreRunnable (s : GovernedState) (staleAfterMs nowMs : Nat) :
    (g.reapLeaksWith s staleAfterMs nowMs).effects.moreRunnable = false :=
  reclaimAll_moreRunnable _ s {} 0

/-- A pass writes the same flag to the state and to its effects. -/
theorem commit_moreRunnable {α : Type} (sec : Governor.Section α) (nowMs : Nat)
    (hsec : sec.effects.moreRunnable = false) (hpromotes : sec.promotes = true) :
    (g.commit sec nowMs).2.moreRunnable = (g.commit sec nowMs).1.promotionPending := by
  unfold Governor.commit
  rw [hpromotes]
  simp only [if_true, TransitionEffects.absorb, hsec, Bool.false_or]
  rfl

theorem commit_of_not_promotes {α : Type} (sec : Governor.Section α) (nowMs : Nat)
    (hpromotes : sec.promotes = false) : g.commit sec nowMs = (sec.state, sec.effects) := by
  unfold Governor.commit
  rw [hpromotes]
  rfl

/-! ## The turns of each call -/

theorem Thread.draining_holds_nothing {effects : TransitionEffects} {sampledMs : Nat}
    (h : some (Thread.draining effects sampledMs) = some th) :
    th.permitSeq = none ∧ th.ticketSeq = none ∧ th.seqNo = none := by
  obtain rfl := Option.some.inj h
  exact ⟨rfl, rfl, rfl⟩

/-- A step that only runs a public operation: it leaves a call that drains its effects. -/
theorem threadStep_operation {α : Type} {a : Action} {sampledMs : Nat}
    {section_ : GovernedState → Nat → Governor.Section α} {event : α → Event}
    (hother : ∀ i, a ≠ .enter i) (hmore : ∀ s now, (section_ s now).effects.moreRunnable = false)
    {p : g.Prepared} (hp : p = Governor.operation σ sampledMs section_ event) :
    ∃ old new rest, ThreadStep σ (Governor.finish p) a p.sec.promotes old new rest := by
  subst hp
  refine ⟨none, some (.draining _ sampledMs), σ.threads, List.Perm.refl _, perm_push _,
    .operated hother _ _, .same rfl rfl rfl fun th h => Thread.draining_holds_nothing h, fun hpromotes => ?_,
    fun _ effects sampledMs h => by simp at h⟩
  exact ⟨_, _, rfl, commit_moreRunnable _ _ (hmore _ _) hpromotes⟩

/-- A step that changes no call in progress. -/
theorem threadStep_quiet {a : Action} {p : g.Prepared} (hother : ∀ i, a ≠ .enter i)
    (hthreads : (Governor.finish p).threads = σ.threads) (hpromotes : p.sec.promotes = false)
    (hpermit : p.sys.nextPermit = σ.nextPermit) (hticket : p.sys.nextTicket = σ.nextTicket)
    (hseq : p.sys.nextSeq = σ.nextSeq) :
    ∃ old new rest, ThreadStep σ (Governor.finish p) a p.sec.promotes old new rest := by
  refine ⟨none, none, σ.threads, List.Perm.refl _, by rw [hthreads]; exact List.Perm.refl _, .quiet hother,
    .same hpermit hticket hseq (by simp), fun h => ?_, fun _ effects sampledMs h => by simp at h⟩
  rw [hpromotes] at h
  simp at h

/-- The same for an operation that may return early: what returns early neither promotes nor has
anything to drain. -/
theorem threadStep_operationUnless {α : Type} {a : Action} {sampledMs : Nat}
    {section_ : GovernedState → Nat → Governor.Section α} {event : α → Event} {early : α → Bool}
    (hother : ∀ i, a ≠ .enter i) (hmore : ∀ s now, (section_ s now).effects.moreRunnable = false)
    (hearly : ∀ s now, early (section_ s now).outcome = true → (section_ s now).promotes = false)
    {p : g.Prepared} (hp : p = Governor.operationUnless σ sampledMs section_ event early) :
    ∃ old new rest, ThreadStep σ (Governor.finish p) a p.sec.promotes old new rest := by
  subst hp
  cases hcase : early (section_ (σ.state.commitTime sampledMs)
      (σ.state.commitTime sampledMs).commitWatermarkMs).outcome with
  | true =>
    refine threadStep_quiet hother ?_ (hearly _ _ hcase) rfl rfl rfl
    simp [Governor.finish, Governor.operationUnless, hcase]
  | false =>
    obtain ⟨old, new, rest, hstep⟩ : ∃ old new rest, ThreadStep σ
        (Governor.finish (Governor.operation σ sampledMs section_ event)) a
        (Governor.operation σ sampledMs section_ event).sec.promotes old new rest :=
      threadStep_operation hother hmore rfl
    have hsame : Governor.finish (Governor.operationUnless σ sampledMs section_ event early) =
        Governor.finish (Governor.operation σ sampledMs section_ event) := by
      simp only [Governor.finish, Governor.operationUnless, hcase]
      rfl
    rw [hsame]
    exact ⟨old, new, rest, hstep⟩

theorem reconcileEarly_promotes (s : GovernedState) (p : PermitId) (measuredBytes : Nat)
    (epoch : Option Nat) (nowMs : Nat)
    (h : Governor.reconcileEarly epoch (g.reconcileMemory s p measuredBytes epoch nowMs).outcome = true) :
    (g.reconcileMemory s p measuredBytes epoch nowMs).promotes = false := by
  rcases reconcileMemory_cases g s p measuredBytes epoch nowMs with ⟨outcome, heq, _⟩ | ⟨error, heq⟩ |
    ⟨record, ledger, _, _, heq, _⟩
  · rw [heq]
  · rw [heq]
  · rw [heq] at h
    simp [Governor.reconcileEarly] at h

theorem stageReleaseEarly_promotes (s : GovernedState) (p : PermitId) (freedUnits : Nat)
    (sequence : Option Nat) (nowMs : Nat)
    (h : Governor.stageReleaseEarly (g.releaseStage s p freedUnits sequence nowMs).outcome = true) :
    (g.releaseStage s p freedUnits sequence nowMs).promotes = false := by
  unfold Governor.releaseStage at h ⊢
  cases hp : s.permits[p]? with
  | none => rfl
  | some record =>
    rw [hp] at h
    simp only at h ⊢
    split at h
    · rfl
    · -- The permit is there, so the stage release itself never answers that it is unknown.
      exfalso
      unfold releaseStageMemory at h
      rw [hp] at h
      simp only at h
      split at h
      · simp [Governor.stageReleaseEarly] at h
      · split at h <;> simp [Governor.stageReleaseEarly] at h

theorem takeSequence_eq_some {counter value next : Nat}
    (h : Governor.takeSequence counter = some (value, next)) :
    value = counter ∧ next = counter + 1 ∧ next ≤ u64Max := by
  unfold Governor.takeSequence checkedAdd at h
  split at h
  · simp only [Option.map_some, Option.some.injEq, Prod.mk.injEq] at h
    omega
  · simp at h

/-- A counter with nothing left ends its call. -/
theorem threadStep_exhausted {i : Nat} {intake : Intake g.policy} {sampledMs : Nat} {taken : Taken}
    (hthread : σ.threads[i]? = some (.allocating intake sampledMs taken)) {p : g.Prepared}
    (hp : p = Governor.unlocked σ (σ.threads.eraseIdx i)
      (.answered (.ok (.rejected .identityExhausted)))) :
    ∃ old new rest, ThreadStep σ (Governor.finish p) (.allocate i) p.sec.promotes old new rest := by
  subst hp
  exact ⟨_, none, _, perm_turn hthread, List.Perm.refl _, .exhausted i intake sampledMs taken,
    .same rfl rfl rfl (by simp), by simp [Governor.unlocked], fun _ effects sampledMs h => by simp at h⟩

/-- A turn that takes an identity. -/
theorem threadStep_took {i : Nat} {intake : Intake g.policy} {sampledMs : Nat} {taken : Taken}
    (hthread : σ.threads[i]? = some (.allocating intake sampledMs taken)) {τ : g.System}
    {p : g.Prepared} (hp : p = Governor.unlocked τ (σ.threads.set i new) .progressed)
    (hturn : ∀ σ', Turn σ σ' (.allocate i) (some (.allocating intake sampledMs taken)) (some new))
    (hcounted : Counted σ (Governor.finish p) (some (.allocating intake sampledMs taken)) (some new)) :
    ∃ old new rest, ThreadStep σ (Governor.finish p) (.allocate i) p.sec.promotes old new rest := by
  subst hp
  exact ⟨some _, some new, σ.threads.eraseIdx i, perm_turn hthread, perm_set hthread new, hturn _, hcounted,
    by simp [Governor.unlocked], fun _ effects sampledMs h => by simp at h⟩

theorem threadStep_allocate {i : Nat} {intake : Intake g.policy} {sampledMs : Nat} {taken : Taken}
    (hthread : σ.threads[i]? = some (.allocating intake sampledMs taken)) :
    ∃ old new rest, ThreadStep σ (Governor.finish (Governor.allocate σ i intake sampledMs taken))
      (.allocate i) (Governor.allocate σ i intake sampledMs taken).sec.promotes old new rest := by
  cases taken with
  | nothing =>
    cases hseq : Governor.takeSequence σ.nextPermit with
    | none => exact threadStep_exhausted hthread (by simp only [Governor.allocate, hseq])
    | some took =>
      obtain ⟨value, next⟩ := took
      obtain ⟨rfl, rfl, _⟩ := takeSequence_eq_some hseq
      have hp : Governor.allocate σ i intake sampledMs .nothing = Governor.unlocked
          { σ with nextPermit := σ.nextPermit + 1 }
          (σ.threads.set i (.allocating intake sampledMs (.permit σ.nextPermit))) .progressed := by
        simp only [Governor.allocate, hseq]
      refine threadStep_took hthread hp (fun _ => .took i intake sampledMs) ?_
      rw [hp]
      exact .permit rfl rfl rfl
  | permit permit =>
    cases hseq : Governor.takeSequence σ.nextTicket with
    | none => exact threadStep_exhausted hthread (by simp only [Governor.allocate, hseq])
    | some took =>
      obtain ⟨value, next⟩ := took
      obtain ⟨rfl, rfl, hbound⟩ := takeSequence_eq_some hseq
      have hp : Governor.allocate σ i intake sampledMs (.permit permit) = Governor.unlocked
          { σ with nextTicket := σ.nextTicket + 1 }
          (σ.threads.set i (.allocating intake sampledMs (.ticket permit σ.nextTicket))) .progressed := by
        simp only [Governor.allocate, hseq]
      refine threadStep_took hthread hp (fun _ => .took i intake sampledMs) ?_
      rw [hp]
      exact .ticket rfl rfl hbound rfl
  | ticket permit ticket =>
    cases hseq : Governor.takeSequence σ.nextSeq with
    | none => exact threadStep_exhausted hthread (by simp only [Governor.allocate, hseq])
    | some took =>
      obtain ⟨value, next⟩ := took
      obtain ⟨rfl, rfl, _⟩ := takeSequence_eq_some hseq
      have hp : Governor.allocate σ i intake sampledMs (.ticket permit ticket) = Governor.unlocked
          { σ with nextSeq := σ.nextSeq + 1 }
          (σ.threads.set i (.admitting intake sampledMs
            ⟨⟨g.authority, permit⟩, ⟨g.authority, ticket⟩, σ.nextSeq⟩)) .progressed := by
        simp only [Governor.allocate, hseq]
      refine threadStep_took hthread hp (fun _ => .numbered i intake sampledMs _) ?_
      rw [hp]
      exact .seq rfl rfl rfl

/-- The turn of a call that retired its host references and now ends, or compensates a panic. -/
theorem threadStep_compensate {a : Action} {section_ : GovernedState → Nat → Governor.Section Event}
    {sampledMs : Nat} (hthread : σ.threads[i]? = some th)
    (hturn : ∀ σ' effects, Turn σ σ' a (some th) (some (.draining effects sampledMs)))
    (hmore : ∀ s now, (section_ s now).effects.moreRunnable = false)
    (hpaid : ∀ effects sampledMs, th ≠ .draining effects sampledMs ∨ ∀ s now, (section_ s now).promotes = true) :
    ∃ old new rest, ThreadStep σ
      (Governor.finish (Governor.locked σ sampledMs section_
        (fun effects => σ.threads.set i (.draining effects sampledMs)))) a
      (Governor.locked σ sampledMs section_
        (fun effects => σ.threads.set i (.draining effects sampledMs))).sec.promotes old new rest := by
  refine ⟨some th, some (.draining _ sampledMs), σ.threads.eraseIdx i, perm_turn hthread,
    perm_set hthread (.draining _ sampledMs), hturn _ _,
    .same rfl rfl rfl fun th h => Thread.draining_holds_nothing h, fun hpromotes => ?_,
    fun hnot effects sampledMs' heq => ?_⟩
  · exact ⟨_, _, rfl, commit_moreRunnable _ _ (hmore _ _) hpromotes⟩
  · rcases hpaid effects sampledMs' with hne | hpromotes
    · exact absurd (Option.some.inj heq) hne
    · have hyes : (section_ (σ.state.commitTime sampledMs)
          (σ.state.commitTime sampledMs).commitWatermarkMs).promotes = false := hnot
      rw [hpromotes] at hyes
      simp at hyes

/-- The turn of a call that ends without a pass. -/
theorem threadStep_over {a : Action} {p : g.Prepared} (hthread : σ.threads[i]? = some th)
    (hturn : ∀ σ', Turn σ σ' a (some th) none)
    (hthreads : (Governor.finish p).threads = σ.threads.eraseIdx i) (hsys : p.sys = σ)
    (hpromotes : p.sec.promotes = false)
    (hpaid : ∀ effects sampledMs, th = .draining effects sampledMs → effects.moreRunnable = false) :
    ∃ old new rest, ThreadStep σ (Governor.finish p) a p.sec.promotes old new rest := by
  refine ⟨some th, none, _, perm_turn hthread, by rw [hthreads]; exact List.Perm.refl _, hturn _,
    .same ?_ ?_ ?_ (by simp), fun h => ?_, fun _ effects sampledMs heq => ?_⟩
  · show p.sys.nextPermit = _
    rw [hsys]
  · show p.sys.nextTicket = _
    rw [hsys]
  · show p.sys.nextSeq = _
    rw [hsys]
  · rw [hpromotes] at h
    simp at h
  · exact hpaid effects sampledMs (Option.some.inj heq)

/-- A claim that goes on has written its ticket. -/
theorem beginClaim_claiming {s : GovernedState} {ticket : Ticket} {nowMs : Nat} {p : PermitId}
    (h : (Governor.beginClaim s ticket nowMs).2.2 = .claiming p) :
    (Governor.beginClaim s ticket nowMs).1.tickets[ticket]? = some (.claiming p) := by
  unfold Governor.beginClaim at h ⊢
  split at h
  · rename_i p' hticket
    cases hp : s.permits[p']? with
    | none => rw [hp] at h; simp at h
    | some record =>
      rw [hp] at h
      obtain rfl : p' = p := by simpa using h
      simp [GovernedState.setTicket]
  all_goals simp at h

theorem threadStep_claim (σ : g.System) (ticket : Ticket) (sampledMs : UInt64) :
    ∃ old new rest, ThreadStep σ (Governor.finish (Governor.startClaim σ ticket sampledMs.toNat))
      (.claim ticket sampledMs) (Governor.startClaim σ ticket sampledMs.toNat).sec.promotes old new rest := by
  have hcommit : g.commit (Governor.startClaim σ ticket sampledMs.toNat).sec
      (Governor.startClaim σ ticket sampledMs.toNat).nowMs =
        ((Governor.startClaim σ ticket sampledMs.toNat).sec.state,
          (Governor.startClaim σ ticket sampledMs.toNat).sec.effects) :=
    commit_of_not_promotes _ _ rfl
  cases hstart : (Governor.beginClaim (σ.state.commitTime sampledMs.toNat) ticket
      (σ.state.commitTime sampledMs.toNat).commitWatermarkMs).2.2 with
  | answered outcome =>
    refine threadStep_quiet (by simp) ?_ rfl rfl rfl rfl
    unfold Governor.finish Governor.startClaim
    simp only [hstart]
  | claiming p =>
    have hthreads : (Governor.finish (Governor.startClaim σ ticket sampledMs.toNat)).threads =
        σ.threads ++ [.claiming ticket p
          (Governor.startClaim σ ticket sampledMs.toNat).sec.effects sampledMs.toNat] := by
      unfold Governor.finish
      rw [hcommit]
      unfold Governor.startClaim
      simp only [hstart]
    refine ⟨none, some (.claiming ticket p _ sampledMs.toNat), σ.threads, List.Perm.refl _,
      by rw [hthreads]; exact perm_push _, .begun ticket p _ sampledMs ?_, .same rfl rfl rfl ?_, ?_, ?_⟩
    · have hstate : (Governor.finish (Governor.startClaim σ ticket sampledMs.toNat)).state =
          (Governor.startClaim σ ticket sampledMs.toNat).sec.state := by
        unfold Governor.finish
        rw [hcommit]
      rw [hstate]
      exact beginClaim_claiming hstart
    · intro th h
      obtain rfl := Option.some.inj h
      exact ⟨rfl, rfl, rfl⟩
    · intro h
      simp [Governor.startClaim] at h
    · intro _ effects sampledMs' h
      simp at h

/-- One call takes a turn in every step. -/
theorem prepare_threads {a : Action} {p : g.Prepared} (h : Governor.prepare σ a = some p) :
    ∃ old new rest, ThreadStep σ (Governor.finish p) a p.sec.promotes old new rest := by
  cases a with
  | call entry sampledMs =>
    simp only [Governor.prepare, Option.some.injEq] at h
    subst h
    unfold Governor.call
    split
    · exact threadStep_quiet (by simp) rfl rfl rfl rfl rfl
    · rename_i intake _
      refine ⟨none, some (.allocating intake sampledMs.toNat .nothing), σ.threads, List.Perm.refl _,
        perm_push _, .called (by simp) _ _, .same rfl rfl rfl ?_, by simp [Governor.unlocked],
        fun _ effects sampledMs h => by simp at h⟩
      intro th h
      obtain rfl := Option.some.inj h
      exact ⟨rfl, rfl, rfl⟩
  | allocate i =>
    simp only [Governor.prepare] at h
    split at h
    · rename_i intake sampledMs taken hthread
      obtain rfl := Option.some.inj h
      exact threadStep_allocate hthread
    · simp at h
  | enter i =>
    simp only [Governor.prepare] at h
    split at h
    · rename_i intake sampledMs ids hthread
      obtain rfl := Option.some.inj h
      refine ⟨some _, some (.settling _ _ sampledMs), σ.threads.eraseIdx i, perm_turn hthread,
        perm_set hthread (.settling _ _ sampledMs), .entered i intake sampledMs ids _ _ hthread, .same rfl rfl rfl ?_, by simp [Governor.enter],
        fun _ effects sampledMs h => by simp at h⟩
      intro th h
      obtain rfl := Option.some.inj h
      exact ⟨rfl, rfl, rfl⟩
    · simp at h
  | settle i panicked =>
    simp only [Governor.prepare] at h
    split at h
    · rename_i decision effects sampledMs hthread
      split at h
      · simp at h
      · obtain rfl := Option.some.inj h
        unfold Governor.settle
        split
        · exact threadStep_over hthread (fun _ => .settled (by simp) _ _ _ (Or.inl rfl)) rfl rfl rfl (by simp)
        · refine threadStep_compensate hthread
            (fun _ effects => .settled (by simp) _ _ _ (Or.inr ⟨effects, rfl⟩))
            (fun s now => releaseWithProof_moreRunnable s _ none) fun _ _ => Or.inl (by simp)
        · exact threadStep_over hthread (fun _ => .settled (by simp) _ _ _ (Or.inl rfl)) rfl rfl rfl (by simp)
    · simp at h
  | claim ticket sampledMs =>
    simp only [Governor.prepare, Option.some.injEq] at h
    subst h
    exact threadStep_claim σ ticket sampledMs
  | finishClaim i panicked =>
    simp only [Governor.prepare] at h
    split at h
    · rename_i ticket p effects sampledMs hthread
      split at h
      · simp at h
      · obtain rfl := Option.some.inj h
        unfold Governor.endClaim
        split
        · refine threadStep_compensate hthread
            (fun _ effects => .claimed (by simp) _ _ _ _ (Or.inr ⟨effects, rfl⟩))
            (fun s now => compensateClaim_moreRunnable s _ _) fun _ _ => Or.inl (by simp)
        · exact threadStep_over hthread (fun _ => .claimed (by simp) _ _ _ _ (Or.inl rfl)) rfl rfl rfl (by simp)
    · simp at h
  | abandon ticket sampledMs =>
    simp only [Governor.prepare, Option.some.injEq] at h
    exact threadStep_operation (by simp) (fun s _ => abandon_moreRunnable s ticket) h.symm
  | release permitId sampledMs =>
    simp only [Governor.prepare, Option.some.injEq] at h
    exact threadStep_operation (by simp) (fun s _ => releaseWithProof_moreRunnable s _ _) h.symm
  | releaseLeased token sampledMs =>
    simp only [Governor.prepare, Option.some.injEq] at h
    exact threadStep_operation (by simp) (fun s _ => releaseWithProof_moreRunnable s _ _) h.symm
  | advancePhase permitId phase =>
    simp only [Governor.prepare, Option.some.injEq] at h
    subst h
    exact threadStep_quiet (by simp) rfl rfl rfl rfl rfl
  | reconcileMemory permitId measuredBytes epoch sampledMs =>
    simp only [Governor.prepare, Option.some.injEq] at h
    exact threadStep_operationUnless (by simp) (fun s now => reconcileMemory_moreRunnable s _ _ _ now)
      (fun s now => reconcileEarly_promotes s _ _ _ now) h.symm
  | releaseStageMemory permitId freedUnits sequence sampledMs =>
    simp only [Governor.prepare, Option.some.injEq] at h
    exact threadStep_operationUnless (by simp) (fun s now => releaseStage_moreRunnable s _ _ _ now)
      (fun s now => stageReleaseEarly_promotes s _ _ _ now) h.symm
  | reapLeaks staleAfterMs sampledMs =>
    simp only [Governor.prepare, Option.some.injEq] at h
    exact threadStep_operation (by simp) (fun s now => reapLeaksWith_moreRunnable s _ now) h.symm
  | closeAdmission =>
    simp only [Governor.prepare, Option.some.injEq] at h
    subst h
    exact threadStep_quiet (by simp) rfl rfl rfl rfl rfl
  | drain i =>
    simp only [Governor.prepare] at h
    split at h
    · rename_i effects sampledMs hthread
      obtain rfl := Option.some.inj h
      unfold Governor.drain
      split
      · exact threadStep_compensate hthread
          (fun _ effects => .drained i _ _ hthread (Or.inr ⟨effects, rfl⟩)) (fun _ _ => rfl)
          fun _ _ => Or.inr fun _ _ => rfl
      · rename_i hmore
        refine threadStep_over hthread (fun _ => .drained i _ _ hthread (Or.inl rfl)) rfl rfl rfl ?_
        intro effects' sampledMs' heq
        simp only [Thread.draining.injEq] at heq
        rw [← heq.1]
        simpa using hmore
    · simp at h
  | mintElsewhere =>
    simp only [Governor.prepare, Option.some.injEq] at h
    subst h
    exact threadStep_quiet (by simp) rfl rfl rfl rfl rfl

theorem step_threads {a : Action} {e : Event} (h : g.step σ a = some (σ', e)) :
    ∃ p old new rest, Governor.prepare σ a = some p ∧ σ' = Governor.finish p ∧
      ThreadStep σ σ' a p.sec.promotes old new rest := by
  obtain ⟨p, hp, rfl, _⟩ := step_eq_some h
  obtain ⟨old, new, rest, hstep⟩ := prepare_threads hp
  exact ⟨p, old, new, rest, hp, rfl, hstep⟩

end Taskmesh
