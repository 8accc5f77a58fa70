import Taskmesh.Host.Submission

/-!
# Who holds the lease

Where the caller and the worker of a submission stand says who holds its lease and what the lease is. Every
turn keeps that, whatever the engine answers to the calls a turn makes.
-/

namespace Taskmesh.Host

variable {usizeMax : Nat} {T E : Type} {sub next : Submission usizeMax T E} {around : Around}

/-! ## Placements -/

/-- How far a caller has come, as far as the lease is concerned. -/
inductive Standing where
  | seeking
  | reserving
  | refusing
  | executing
  | releasing
  | waiting
  | closing
  | givenUp
  | over
  deriving DecidableEq

def CallerPoint.standing : CallerPoint T E → Standing
  | .checking | .submitting | .admitting | .looking | .deciding _ | .asking _ _ | .claiming _ _ | .parked => .seeking
  | .acquired _ _ | .unstarted _ _ | .dispatching | .accepting | .leaving .acquired | .abandoning .acquired =>
    .reserving
  | .leaving (.failed _) | .leaving .dropped | .abandoning (.failed _) | .abandoning .dropped => .givenUp
  | .refused _ => .refusing
  | .polling _ | .discarding => .executing
  | .releasing _ => .releasing
  | .spawning | .awaiting => .waiting
  | .settling _ | .answered (.ok _) => .closing
  | .answered (.error _) | .dropped => .over

/-- The caller has an engine call in progress. -/
def CallerPoint.calls : CallerPoint T E → Bool
  | .admitting | .claiming _ _ => true
  | _ => false

/-- The guard of the ticket is armed. -/
def CallerPoint.guards : CallerPoint T E → Bool
  | .looking | .deciding _ | .asking _ _ | .claiming _ _ | .parked | .leaving _ | .abandoning _ => true
  | .acquired queued _ | .unstarted queued _ => queued
  | _ => false

/-- The caller no longer touches the lease. -/
def Standing.waits : Standing → Bool
  | .waiting | .over => true
  | _ => false

/-- A lease that has been returned may be left behind. -/
def Standing.closes : Standing → Bool
  | .waiting | .closing | .givenUp | .over => true
  | _ => false

/-- Without a permit the submission is over, or about to be. -/
def Standing.fails : Standing → Bool
  | .givenUp | .over => true
  | _ => false

/-- The worker has the lease. -/
def WorkerPoint.holds : WorkerPoint T E → Bool
  | .idle | .over => false
  | _ => true

/-- Who holds the lease, by where both stand. -/
inductive Placement : Standing → WorkerPoint T E → Option ExecutionLease → Prop
  | seeking : Placement .seeking .idle none
  | reserving (p : PermitId) : Placement .reserving .idle (some (.reserved p))
  | refusing (lease : ExecutionLease) : Placement .refusing .idle (some lease)
  | executing (p : PermitId) (token : LeaseToken) : Placement .executing .idle (some ⟨p, .leased token⟩)
  | releasing (p : PermitId) (token : LeaseToken) {w : WorkerPoint T E} (quiet : w.holds = false) :
      Placement .releasing w (some ⟨p, .leased token⟩)
  | handed (p : PermitId) (token : LeaseToken) {standing : Standing} {w : WorkerPoint T E}
      (waits : standing.waits = true) (holds : w.holds = true) : Placement standing w (some ⟨p, .leased token⟩)
  | spent (p : PermitId) {standing : Standing} {w : WorkerPoint T E} (closes : standing.closes = true)
      (quiet : w.holds = false) : Placement standing w (some ⟨p, .gone⟩)
  | never {standing : Standing} (fails : standing.fails = true) : Placement standing .idle none

variable {w : WorkerPoint T E} {lease : Option ExecutionLease}

theorem Placement.of_seeking (h : Placement .seeking w lease) : w = .idle ∧ lease = none := by
  cases h with
  | seeking => exact ⟨rfl, rfl⟩
  | handed p token waits => simp [Standing.waits] at waits
  | spent p closes => simp [Standing.closes] at closes
  | never fails => simp [Standing.fails] at fails

theorem Placement.of_reserving (h : Placement .reserving w lease) :
    w = .idle ∧ ∃ p, lease = some (.reserved p) := by
  cases h with
  | reserving p => exact ⟨rfl, p, rfl⟩
  | handed p token waits => simp [Standing.waits] at waits
  | spent p closes => simp [Standing.closes] at closes
  | never fails => simp [Standing.fails] at fails

theorem Placement.of_refusing (h : Placement .refusing w lease) : w = .idle ∧ ∃ l, lease = some l := by
  cases h with
  | refusing l => exact ⟨rfl, l, rfl⟩
  | handed p token waits => simp [Standing.waits] at waits
  | spent p closes => simp [Standing.closes] at closes
  | never fails => simp [Standing.fails] at fails

theorem Placement.of_executing (h : Placement .executing w lease) :
    w = .idle ∧ ∃ p token, lease = some ⟨p, .leased token⟩ := by
  cases h with
  | executing p token => exact ⟨rfl, p, token, rfl⟩
  | handed p token waits => simp [Standing.waits] at waits
  | spent p closes => simp [Standing.closes] at closes
  | never fails => simp [Standing.fails] at fails

theorem Placement.of_releasing (h : Placement .releasing w lease) :
    w.holds = false ∧ ∃ p token, lease = some ⟨p, .leased token⟩ := by
  cases h with
  | releasing p token quiet => exact ⟨quiet, p, token, rfl⟩
  | handed p token waits => simp [Standing.waits] at waits
  | spent p closes => simp [Standing.closes] at closes
  | never fails => simp [Standing.fails] at fails

theorem Placement.of_closing (h : Placement .closing w lease) : w.holds = false ∧ ∃ p, lease = some ⟨p, .gone⟩ := by
  cases h with
  | spent p closes quiet => exact ⟨quiet, p, rfl⟩
  | handed p token waits => simp [Standing.waits] at waits
  | never fails => simp [Standing.fails] at fails

/-- A caller that gave up left nothing, or a lease that is gone. -/
theorem Placement.of_givenUp (h : Placement .givenUp w lease) :
    w.holds = false ∧ (lease = none ∧ w = .idle ∨ ∃ p, lease = some ⟨p, .gone⟩) := by
  cases h with
  | spent p closes quiet => exact ⟨quiet, Or.inr ⟨p, rfl⟩⟩
  | never fails => exact ⟨rfl, Or.inl ⟨rfl, rfl⟩⟩
  | handed p token waits => simp [Standing.waits] at waits

/-- Nothing is left of a submission that is over, unless its worker still has the lease. -/
theorem Placement.of_over (h : Placement .over w lease) (hquiet : w.holds = false) :
    lease = none ∨ ∃ p, lease = some ⟨p, .gone⟩ := by
  cases h with
  | handed p token waits holds => simp [hquiet] at holds
  | spent p closes quiet => exact Or.inr ⟨p, rfl⟩
  | never fails => exact Or.inl rfl

/-- A worker that holds the lease holds it under a token, and its caller waits or is over. -/
theorem Placement.of_holds {standing : Standing} (h : Placement standing w lease) (hholds : w.holds = true) :
    standing.waits = true ∧ ∃ p token, lease = some ⟨p, .leased token⟩ := by
  cases h with
  | handed p token waits holds => exact ⟨waits, p, token, rfl⟩
  | releasing p token quiet => simp [quiet] at hholds
  | spent p closes quiet => simp [quiet] at hholds
  | seeking | reserving | refusing | executing | never => simp [WorkerPoint.holds] at hholds

/-- A caller may stop waiting at any time. -/
theorem Placement.over_of_waiting (h : Placement .waiting w lease) : Placement .over w lease := by
  cases h with
  | handed p token waits holds => exact .handed p token rfl holds
  | spent p closes quiet => exact .spent p rfl quiet
  | never fails => simp [Standing.fails] at fails

theorem Placement.over_of_givenUp (h : Placement .givenUp w lease) : Placement .over w lease := by
  rcases h.of_givenUp with ⟨hquiet, ⟨rfl, rfl⟩ | ⟨p, rfl⟩⟩
  · exact .never rfl
  · exact .spent p rfl hquiet

namespace Submission

def Placed (sub : Submission usizeMax T E) : Prop := Placement sub.caller.standing sub.worker sub.lease

/-- The placement of a submission, read at a standing its caller is known to have. -/
theorem Placed.at (hp : sub.Placed) (standing : Standing) (h : sub.caller.standing = standing) :
    Placement standing sub.worker sub.lease := h ▸ hp

/-- What the submission is keeps; the lease is as given. -/
structure Becomes (sub next : Submission usizeMax T E) (lease : Option ExecutionLease) : Prop where
  plan : next.plan = sub.plan
  waker : next.waker = sub.waker
  ticket : next.ticket = sub.ticket
  lease : next.lease = lease
  placed : next.Placed

/-- The submission goes on with this lease: its call in progress and the guard of its ticket are as before. -/
structure Comes (sub next : Submission usizeMax T E) (lease : Option ExecutionLease) : Prop
    extends sub.Becomes next lease where
  calls : next.caller.calls = sub.caller.calls
  guards : next.caller.guards = sub.caller.guards

/-- A turn that makes no engine call. The guard of a ticket is disarmed only for a ticket that cannot be
claimed. -/
inductive GoesOn (around : Around) (sub next : Submission usizeMax T E) : Prop
  | comes (h : sub.Comes next sub.lease)
  | disarmed {t : Ticket} (h : sub.Becomes next sub.lease) (calls : next.caller.calls = sub.caller.calls)
      (armed : sub.caller.guards = true) (holds : sub.ticket = some t)
      (ended : (∃ reason, around.status t = .terminal reason) ∨ around.status t = .invalid)

/-- The caller moves, and everything else stays. -/
theorem comes_go {point : CallerPoint T E} (hplaced : Placement point.standing sub.worker sub.lease)
    (hcalls : point.calls = sub.caller.calls) (hguards : point.guards = sub.caller.guards) :
    sub.Comes (sub.go point) sub.lease :=
  ⟨⟨rfl, rfl, rfl, rfl, hplaced⟩, hcalls, hguards⟩

/-- The worker moves, and keeps the lease. -/
structure Works (sub next : Submission usizeMax T E) : Prop where
  holds : next.worker.holds = true
  plan : next.plan = sub.plan
  waker : next.waker = sub.waker
  ticket : next.ticket = sub.ticket
  lease : next.lease = sub.lease
  caller : next.caller = sub.caller

/-- A move of the worker keeps the lease and the place of the caller. -/
theorem comes_work (hp : sub.Placed) (hholds : sub.worker.holds = true) (hworks : sub.Works next) :
    sub.Comes next sub.lease := by
  refine ⟨⟨hworks.plan, hworks.waker, hworks.ticket, hworks.lease, ?_⟩, by rw [hworks.caller],
    by rw [hworks.caller]⟩
  obtain ⟨hwaits, p, token, heq⟩ := Placement.of_holds hp hholds
  unfold Placed
  rw [hworks.lease, heq, hworks.caller]
  exact .handed p token hwaits hworks.holds

/-- A caller stops waiting for its worker; what it did not receive is torn down. -/
theorem comes_closed (hp : sub.Placed) (hwaits : sub.caller.standing = .waiting) {point : CallerPoint T E}
    (hpoint : point.standing = .over) (hcalls : point.calls = false) (hguards : point.guards = false) :
    sub.Comes (sub.go point).closeChannel sub.lease := by
  have hquiet : sub.caller.calls = false ∧ sub.caller.guards = false := by
    cases hcaller : sub.caller with
    | leaving why => cases why <;> simp [hcaller, CallerPoint.standing] at hwaits
    | abandoning why => cases why <;> simp [hcaller, CallerPoint.standing] at hwaits
    | answered response => cases response <;> simp [hcaller, CallerPoint.standing] at hwaits
    | spawning | awaiting => exact ⟨rfl, rfl⟩
    | _ => simp [hcaller, CallerPoint.standing] at hwaits
  have hplaced : Placement .over sub.worker sub.lease := (hp.at _ hwaits).over_of_waiting
  unfold closeChannel
  split
  · rename_i response completedAt hworker
    refine ⟨⟨rfl, rfl, rfl, rfl, ?_⟩, hcalls.trans hquiet.1.symm, hguards.trans hquiet.2.symm⟩
    have hholds : sub.worker.holds = true := by
      rw [show sub.worker = .sent response completedAt from hworker]
      rfl
    obtain ⟨hstops, p, token, heq⟩ := hplaced.of_holds hholds
    show Placement point.standing .tearing sub.lease
    rw [hpoint, heq]
    exact .handed p token rfl rfl
  · refine ⟨⟨rfl, rfl, rfl, rfl, ?_⟩, hcalls.trans hquiet.1.symm, hguards.trans hquiet.2.symm⟩
    show Placement point.standing sub.worker sub.lease
    rwa [hpoint]

/-! ## The answers of the engine -/

/-- What an admission call that returned makes of its submission. -/
theorem admitted_becomes (hp : sub.Placed) (hseeks : sub.caller.standing = .seeking) (answer : AdmitAnswer) :
    (∃ p, answer = .ok (.admitted p) ∧ sub.Becomes (sub.admitted answer) (some (.reserved p))) ∨
    (∃ t, answer = .ok (.queued t) ∧ sub.admitted answer = { sub with ticket := some t, caller := .looking }) ∨
    (∀ p, answer ≠ .ok (.admitted p)) ∧ (∀ t, answer ≠ .ok (.queued t)) ∧
      sub.Becomes (sub.admitted answer) none := by
  obtain ⟨hworker, hlease⟩ := (hp.at _ hseeks).of_seeking
  have hanswer : ∀ error, sub.Becomes (sub.answer error) none := by
    intro error
    refine ⟨rfl, rfl, rfl, hlease, ?_⟩
    show Placement .over sub.worker sub.lease
    rw [hworker, hlease]
    exact .never rfl
  cases answer with
  | error error => exact Or.inr (Or.inr ⟨by simp, by simp, hanswer _⟩)
  | ok decision =>
    cases decision with
    | admitted p =>
      refine Or.inl ⟨p, rfl, rfl, rfl, rfl, rfl, ?_⟩
      show Placement .reserving sub.worker (some (.reserved p))
      rw [hworker]
      exact .reserving p
    | queued t => exact Or.inr (Or.inl ⟨t, rfl, rfl⟩)
    | rejected verdict => exact Or.inr (Or.inr ⟨by simp, by simp, hanswer _⟩)

/-- What a claim that returned makes of its submission: the guard of the ticket stays armed. -/
theorem claimed_becomes (hp : sub.Placed) (hseeks : sub.caller.standing = .seeking) (t : Ticket)
    (expired : Option AcquisitionRejection) (blocked : Bool) (outcome : ClaimOutcome) :
    (sub.claimed t expired blocked outcome).caller.guards = true ∧
    (sub.claimed t expired blocked outcome).caller.calls = false ∧
    ((∃ p, outcome = .ready p ∧ sub.Becomes (sub.claimed t expired blocked outcome) (some (.reserved p))) ∨
      (∀ p, outcome ≠ .ready p) ∧ sub.Becomes (sub.claimed t expired blocked outcome) none) := by
  obtain ⟨hworker, hlease⟩ := (hp.at _ hseeks).of_seeking
  have hfailed : ∀ error, sub.Becomes (sub.go (.leaving (.failed error))) none := by
    intro error
    refine ⟨rfl, rfl, rfl, hlease, ?_⟩
    show Placement .givenUp sub.worker sub.lease
    rw [hworker, hlease]
    exact .never rfl
  cases outcome with
  | ready p =>
    refine ⟨rfl, rfl, Or.inl ⟨p, rfl, rfl, rfl, rfl, rfl, ?_⟩⟩
    show Placement .reserving sub.worker (some (.reserved p))
    rw [hworker]
    exact .reserving p
  | pending =>
    cases expired with
    | some rejection => exact ⟨rfl, rfl, Or.inr ⟨by simp, hfailed _⟩⟩
    | none =>
      refine ⟨rfl, rfl, Or.inr ⟨by simp, rfl, rfl, rfl, hlease, ?_⟩⟩
      show Placement .seeking sub.worker sub.lease
      rw [hworker, hlease]
      exact .seeking
  | terminal reason => exact ⟨rfl, rfl, Or.inr ⟨by simp, hfailed _⟩⟩
  | invalid => exact ⟨rfl, rfl, Or.inr ⟨by simp, hfailed _⟩⟩

end Submission

/-! ## The calls of a submission -/

/-- What the engine can answer to the holder of a lease that declares a later phase: a dispatched permit
stays live under its token, so it is neither leased again nor unknown. -/
def ExecutionLease.Accepts (lease : ExecutionLease) (outcome : AdvanceOutcome) : Prop :=
  lease.token.isSome = true → outcome = .advanced ∨ ∃ current, outcome = .refused (.notLater current)

namespace Submission

/-- The engine calls of a submission, and what it makes of the answers. -/
inductive Asks (sub : Submission usizeMax T E) : Action → (Event → Submission usizeMax T E) → Prop
  | admission {hears : Event → Submission usizeMax T E} (sampledMs : UInt64)
      (point : sub.caller = .submitting)
      (answered : ∀ answer, hears (.answered answer) = sub.admitted answer)
      (started : hears .progressed = sub.go .admitting) :
      Asks sub (.call (.admitValidatedRequirements sub.plan.task sub.plan.requirements (some sub.waker)) sampledMs)
        hears
  | claim {hears : Event → Submission usizeMax T E} {t : Ticket} {expired : Option AcquisitionRejection}
      {blocked : Bool} (sampledMs : UInt64) (holds : sub.ticket = some t)
      (point : sub.caller = .asking expired blocked)
      (claimed : ∀ t' outcome, hears (.claimed t' outcome) = sub.claimed t expired blocked outcome)
      (started : hears .progressed = sub.go (.claiming expired blocked)) : Asks sub (.claim t sampledMs) hears
  | abandonment {t : Ticket} {why : Leaving} (sampledMs : UInt64) (holds : sub.ticket = some t)
      (point : sub.caller = .abandoning why) : Asks sub (.abandon t sampledMs) fun _ => sub.left why
  | phase {hears : Event → Submission usizeMax T E} {lease : ExecutionLease} (phase : ExecutionPhase)
      (has : sub.lease = some lease) (keeps : lease.custody ≠ .gone)
      (advanced : ∀ p outcome, lease.Accepts outcome →
        sub.Comes (hears (.advanced p outcome)) (some (lease.advanced phase outcome).1)) :
      Asks sub (.advancePhase lease.permitId phase) hears
  | drop {hears : Event → Submission usizeMax T E} {lease : ExecutionLease} {a : Action} (sampledMs : UInt64)
      (has : sub.lease = some lease) (action : lease.dropAction sampledMs = some a)
      (dropped : ∀ e, sub.Comes (hears e) (some lease.dropped)) : Asks sub a hears

/-- What a turn comes to. -/
def Turned (around : Around) (sub : Submission usizeMax T E) : Request usizeMax T E → Prop
  | .goOn next => GoesOn around sub next
  | .ask a hears => Asks sub a hears

/-- A lease is dropped with one engine call, unless nothing is left of it. -/
theorem turned_dropLease {sampledMs : UInt64} {f : Submission usizeMax T E → Submission usizeMax T E}
    {lease : ExecutionLease} (has : sub.lease = some lease)
    (hcomes : sub.Comes (f { sub with lease := some lease.dropped }) (some lease.dropped)) :
    Turned around sub (sub.dropLease sampledMs f) := by
  unfold dropLease
  rw [has]
  simp only
  cases haction : lease.dropAction sampledMs with
  | some a => exact .drop sampledMs has haction fun _ => hcomes
  | none =>
    have hgone : lease.dropped = lease := by
      obtain ⟨p, custody⟩ := lease
      cases custody with
      | gone => rfl
      | reserved | leased token => simp [ExecutionLease.dropAction] at haction
    refine .comes ⟨⟨hcomes.plan, hcomes.waker, hcomes.ticket, ?_, hcomes.placed⟩, hcomes.calls, hcomes.guards⟩
    rw [hcomes.lease, has, hgone]

/-- The next phase is declared with one engine call. -/
theorem turned_advance {phase : ExecutionPhase}
    {f : Submission usizeMax T E → Except GovernorError Unit → Submission usizeMax T E} {lease : ExecutionLease}
    {r : Request usizeMax T E} (has : sub.lease = some lease) (keeps : lease.custody ≠ .gone)
    (hcomes : ∀ outcome, lease.Accepts outcome →
      sub.Comes (f { sub with lease := some (lease.advanced phase outcome).1 } (lease.advanced phase outcome).2)
        (some (lease.advanced phase outcome).1))
    (h : sub.advance phase f = some r) : Turned around sub r := by
  unfold advance at h
  rw [has, Option.map_some, Option.some.injEq] at h
  unfold ExecutionLease.advanceAction at h
  rw [if_neg keeps] at h
  subst h
  exact .phase phase has keeps fun _ outcome haccepts => hcomes outcome haccepts

/-- An acquisition that held no ticket answers, one that did goes on to leave. -/
theorem comes_leave {lease : ExecutionLease} {queued : Bool} {error error' : GovernorError} (hp : sub.Placed)
    (hpoint : sub.caller = .unstarted queued error') :
    sub.Comes (leave { sub with lease := some lease.dropped } queued error) (some lease.dropped) := by
  have hworker : sub.worker = .idle := (hp.at .reserving (by rw [hpoint]; rfl)).of_reserving.1
  have hplaced : ∀ {standing : Standing}, standing.closes = true →
      Placement standing sub.worker (some lease.dropped) := fun hcloses =>
    .spent lease.permitId hcloses (by rw [hworker]; rfl)
  unfold leave
  cases queued with
  | true => exact ⟨⟨rfl, rfl, rfl, rfl, hplaced rfl⟩, by rw [hpoint]; rfl, by rw [hpoint]; rfl⟩
  | false => exact ⟨⟨rfl, rfl, rfl, rfl, hplaced rfl⟩, by rw [hpoint]; rfl, by rw [hpoint]; rfl⟩

/-- The first phase of an execution takes its lease from a permit that is only reserved. -/
theorem comes_dispatched (hp : sub.Placed) (hpoint : sub.caller = .accepting) (instantMax now : Nat)
    {lease : ExecutionLease} (has : sub.lease = some lease) (phase : ExecutionPhase) (outcome : AdvanceOutcome) :
    sub.Comes (dispatched instantMax now { sub with lease := some (lease.advanced phase outcome).1 }
      (lease.advanced phase outcome).2) (some (lease.advanced phase outcome).1) := by
  obtain ⟨hworker, p, hreserved⟩ := (hp.at .reserving (by rw [hpoint]; rfl)).of_reserving
  obtain rfl : lease = .reserved p := Option.some.inj (has.symm.trans hreserved)
  have hcalls : sub.caller.calls = false := by rw [hpoint]; rfl
  have hguards : sub.caller.guards = false := by rw [hpoint]; rfl
  -- Whatever the refusal leaves of the lease, the caller drops it.
  have hrefused : ∀ (lease' : ExecutionLease) (error : GovernorError),
      sub.Comes (({ sub with lease := some lease' } : Submission usizeMax T E).go (.refused error)) (some lease') := by
    intro lease' error
    refine ⟨⟨rfl, rfl, rfl, rfl, ?_⟩, hcalls.symm, hguards.symm⟩
    show Placement .refusing sub.worker (some lease')
    rw [hworker]
    exact .refusing lease'
  cases outcome with
  | leased token =>
    show sub.Comes (dispatched instantMax now { sub with lease := some ⟨p, .leased token⟩ } (.ok ()))
      (some ⟨p, .leased token⟩)
    unfold dispatched
    simp only
    split
    · split
      · refine ⟨⟨rfl, rfl, rfl, rfl, ?_⟩, hcalls.symm, hguards.symm⟩
        show Placement .executing sub.worker _
        rw [hworker]
        exact .executing p token
      · refine ⟨⟨rfl, rfl, rfl, rfl, ?_⟩, hcalls.symm, hguards.symm⟩
        show Placement .releasing sub.worker _
        rw [hworker]
        exact .releasing p token rfl
    · exact ⟨⟨rfl, rfl, rfl, rfl, .handed p token rfl rfl⟩, hcalls.symm, hguards.symm⟩
  | advanced => exact hrefused _ _
  | refused refusal => cases refusal <;> exact hrefused _ _

/-- A later phase leaves the worker with its lease, whether it was declared or refused. -/
theorem comes_worker (hp : sub.Placed) (hholds : sub.worker.holds = true) {lease : ExecutionLease}
    (has : sub.lease = some lease)
    {f : Submission usizeMax T E → Except GovernorError Unit → Submission usizeMax T E}
    (hf : ∀ result, sub.Works (f sub result))
    (phase : ExecutionPhase) (outcome : AdvanceOutcome) (haccepts : lease.Accepts outcome) :
    sub.Comes (f { sub with lease := some (lease.advanced phase outcome).1 } (lease.advanced phase outcome).2)
      (some (lease.advanced phase outcome).1) := by
  obtain ⟨_, p, token, hleased⟩ := Placement.of_holds hp hholds
  obtain rfl : lease = ⟨p, .leased token⟩ := Option.some.inj (has.symm.trans hleased)
  have hsame : ((⟨p, .leased token⟩ : ExecutionLease).advanced phase outcome).1 = ⟨p, .leased token⟩ := by
    rcases haccepts rfl with rfl | ⟨current, rfl⟩ <;> rfl
  have hsub : ({ sub with lease := some (⟨p, .leased token⟩ : ExecutionLease) } : Submission usizeMax T E) = sub := by
    rw [← has]
  rw [hsame, hsub, ← has]
  exact comes_work hp hholds (hf _)

/-! ## The turns -/

theorem standing_left (sub : Submission usizeMax T E) (why : Leaving) (hp : Placement (CallerPoint.abandoning (T := T) (E := E) why).standing w lease) :
    Placement (({ sub with worker := w, lease := lease } : Submission usizeMax T E).left why).caller.standing w lease := by
  cases why with
  | acquired => exact hp
  | failed error => exact Placement.over_of_givenUp hp
  | dropped => exact Placement.over_of_givenUp hp

/-- Leaving puts the submission where its standing says. -/
theorem left_becomes {why : Leaving} (hp : sub.Placed)
    (hstanding : sub.caller.standing = (CallerPoint.abandoning (T := T) (E := E) why).standing) :
    sub.Becomes (sub.left why) sub.lease ∧ (sub.left why).caller.guards = false ∧
      (sub.left why).caller.calls = false := by
  have hplaced := standing_left sub why (hp.at _ hstanding)
  cases why with
  | acquired => exact ⟨⟨rfl, rfl, rfl, rfl, hplaced⟩, rfl, rfl⟩
  | failed error => exact ⟨⟨rfl, rfl, rfl, rfl, hplaced⟩, rfl, rfl⟩
  | dropped => exact ⟨⟨rfl, rfl, rfl, rfl, hplaced⟩, rfl, rfl⟩

/-- A turn of the caller ends in one of the requests the source makes, and leaves the submission placed. -/
theorem turned_caller (hp : sub.Placed) {now : Nat} {sampledMs : UInt64} {r : Request usizeMax T E}
    (h : sub.callerTurn around now sampledMs = some r) : Turned around sub r := by
  unfold callerTurn at h
  cases hpoint : sub.caller with
  | checking =>
    rw [hpoint] at h
    simp only at h
    have hplaced := hp.at .seeking (by rw [hpoint]; rfl)
    have hover : ∀ error, GoesOn around sub (sub.answer error) := by
      intro error
      refine .comes (comes_go ?_ (by rw [hpoint]; rfl) (by rw [hpoint]; rfl))
      rw [hplaced.of_seeking.1, hplaced.of_seeking.2]
      exact .never rfl
    split at h <;> obtain rfl := Option.some.inj h
    · exact hover _
    · exact .comes (comes_go hplaced (by rw [hpoint]; rfl) (by rw [hpoint]; rfl))
  | submitting =>
    rw [hpoint] at h
    simp only at h
    have hplaced := hp.at .seeking (by rw [hpoint]; rfl)
    split at h <;> obtain rfl := Option.some.inj h
    · refine .comes (comes_go ?_ (by rw [hpoint]; rfl) (by rw [hpoint]; rfl))
      rw [hplaced.of_seeking.1, hplaced.of_seeking.2]
      exact .never rfl
    · exact .admission sampledMs hpoint (fun _ => rfl) rfl
  | acquired queued blocked =>
    rw [hpoint] at h
    simp only at h
    have hplaced := hp.at .reserving (by rw [hpoint]; rfl)
    split at h <;> obtain rfl := Option.some.inj h
    · exact .comes (comes_go hplaced (by rw [hpoint]; rfl) (by rw [hpoint]; rfl))
    · cases queued with
      | true => exact .comes (comes_go hplaced (by rw [hpoint]; rfl) (by rw [hpoint]; rfl))
      | false => exact .comes (comes_go hplaced (by rw [hpoint]; rfl) (by rw [hpoint]; rfl))
  | unstarted queued error =>
    rw [hpoint] at h
    simp only at h
    obtain ⟨_, p, hlease⟩ := (hp.at .reserving (by rw [hpoint]; rfl)).of_reserving
    obtain rfl := Option.some.inj h
    exact turned_dropLease hlease (comes_leave hp hpoint)
  | looking =>
    rw [hpoint] at h
    simp only at h
    obtain ⟨t, hticket, rfl⟩ := Option.map_eq_some_iff.mp h
    exact .comes (comes_go (hp.at _ (by rw [hpoint]; rfl)) (by rw [hpoint]; rfl) (by rw [hpoint]; rfl))
  | deciding blocked =>
    rw [hpoint] at h
    simp only at h
    obtain rfl := Option.some.inj h
    exact .comes (comes_go (hp.at _ (by rw [hpoint]; rfl)) (by rw [hpoint]; rfl) (by rw [hpoint]; rfl))
  | asking expired blocked =>
    rw [hpoint] at h
    simp only at h
    obtain ⟨t, hticket, rfl⟩ := Option.map_eq_some_iff.mp h
    exact .claim sampledMs hticket hpoint (fun _ _ => rfl) rfl
  | leaving why =>
    rw [hpoint] at h
    simp only at h
    obtain ⟨t, hticket, rfl⟩ := Option.map_eq_some_iff.mp h
    have hstanding : sub.caller.standing = (CallerPoint.abandoning (T := T) (E := E) why).standing := by
      rw [hpoint]
      cases why <;> rfl
    obtain ⟨hbecomes, hguards, hcalls⟩ := left_becomes hp hstanding
    have hcalls' : (sub.left why).caller.calls = sub.caller.calls := by
      rw [hcalls, hpoint]
      rfl
    split
    · rename_i reason hstatus
      exact .disarmed hbecomes hcalls' (by rw [hpoint]; rfl) hticket (Or.inl ⟨reason, hstatus⟩)
    · rename_i hstatus
      exact .disarmed hbecomes hcalls' (by rw [hpoint]; rfl) hticket (Or.inr hstatus)
    · exact .comes (comes_go (hp.at _ hstanding) (by rw [hpoint]; rfl) (by rw [hpoint]; rfl))
    · exact .comes (comes_go (hp.at _ hstanding) (by rw [hpoint]; rfl) (by rw [hpoint]; rfl))
  | abandoning why =>
    rw [hpoint] at h
    simp only at h
    obtain ⟨t, hticket, rfl⟩ := Option.map_eq_some_iff.mp h
    exact .abandonment sampledMs hticket hpoint
  | dispatching =>
    rw [hpoint] at h
    simp only at h
    have hplaced := hp.at .reserving (by rw [hpoint]; rfl)
    split at h <;> obtain rfl := Option.some.inj h
    · refine .comes (comes_go ?_ (by rw [hpoint]; rfl) (by rw [hpoint]; rfl))
      obtain ⟨hworker, p, hlease⟩ := hplaced.of_reserving
      rw [hworker, hlease]
      exact .refusing _
    · exact .comes (comes_go hplaced (by rw [hpoint]; rfl) (by rw [hpoint]; rfl))
  | accepting =>
    rw [hpoint] at h
    simp only at h
    obtain ⟨_, p, hlease⟩ := (hp.at .reserving (by rw [hpoint]; rfl)).of_reserving
    exact turned_advance hlease (by simp [ExecutionLease.reserved])
      (fun outcome _ => comes_dispatched hp hpoint around.instantMax now hlease sub.firstPhase outcome) h
  | refused error =>
    rw [hpoint] at h
    simp only at h
    obtain ⟨hworker, lease, hlease⟩ := (hp.at .refusing (by rw [hpoint]; rfl)).of_refusing
    obtain rfl := Option.some.inj h
    refine turned_dropLease hlease ⟨⟨rfl, rfl, rfl, rfl, ?_⟩, by rw [hpoint]; rfl, by rw [hpoint]; rfl⟩
    exact .spent lease.permitId rfl (by show sub.worker.holds = false; rw [hworker]; rfl)
  | releasing response =>
    rw [hpoint] at h
    simp only at h
    obtain ⟨hquiet, p, token, hlease⟩ := (hp.at .releasing (by rw [hpoint]; rfl)).of_releasing
    obtain rfl := Option.some.inj h
    refine turned_dropLease hlease ⟨⟨rfl, rfl, rfl, rfl, ?_⟩, by rw [hpoint]; rfl, by rw [hpoint]; rfl⟩
    exact .spent p rfl hquiet
  | settling response =>
    rw [hpoint] at h
    simp only at h
    obtain ⟨hquiet, p, hlease⟩ := (hp.at .closing (by rw [hpoint]; rfl)).of_closing
    have hplaced : ∀ {standing : Standing}, standing.closes = true → Placement standing sub.worker sub.lease := by
      intro standing hcloses
      rw [hlease]
      exact .spent p hcloses hquiet
    split at h
    · obtain rfl := Option.some.inj h
      exact .comes (comes_go (hplaced rfl) (by rw [hpoint]; rfl) (by rw [hpoint]; rfl))
    · split at h <;> obtain rfl := Option.some.inj h
      · exact .comes (comes_go (hplaced rfl) (by rw [hpoint]; rfl) (by rw [hpoint]; rfl))
      · cases response with
        | ok value => exact .comes (comes_go (hplaced rfl) (by rw [hpoint]; rfl) (by rw [hpoint]; rfl))
        | error error => exact .comes (comes_go (hplaced rfl) (by rw [hpoint]; rfl) (by rw [hpoint]; rfl))
  | discarding =>
    rw [hpoint] at h
    simp only at h
    obtain ⟨hworker, p, token, hlease⟩ := (hp.at .executing (by rw [hpoint]; rfl)).of_executing
    obtain rfl := Option.some.inj h
    refine turned_dropLease hlease ⟨⟨rfl, rfl, rfl, rfl, ?_⟩, by rw [hpoint]; rfl, by rw [hpoint]; rfl⟩
    exact .spent p rfl (by show sub.worker.holds = false; rw [hworker]; rfl)
  | admitting | claiming | parked | spawning | polling | awaiting | answered | dropped => simp [hpoint] at h

/-- A resumed wait goes on from a placed submission to a placed one. -/
theorem turned_resume (hp : sub.Placed) {now : Nat} (h : sub.resume around now = some next) :
    GoesOn around sub next := by
  unfold resume at h
  cases hpoint : sub.caller with
  | parked =>
    rw [hpoint] at h
    simp only at h
    have hplaced := hp.at .seeking (by rw [hpoint]; rfl)
    split at h
    · obtain rfl := Option.some.inj h
      exact .comes (comes_go hplaced (by rw [hpoint]; rfl) (by rw [hpoint]; rfl))
    · split at h
      · obtain rfl := Option.some.inj h
        exact .comes ⟨⟨rfl, rfl, rfl, rfl, hplaced⟩, by rw [hpoint]; rfl, by rw [hpoint]; rfl⟩
      · split at h
        · obtain rfl := Option.some.inj h
          exact .comes (comes_go hplaced (by rw [hpoint]; rfl) (by rw [hpoint]; rfl))
        · simp at h
  | _ => simp [hpoint] at h

/-- A poll goes on from a placed submission to a placed one. -/
theorem turned_poll (hp : sub.Placed) {now : Nat} (h : sub.poll around now = some next) :
    GoesOn around sub next := by
  unfold poll at h
  cases hpoint : sub.caller with
  | awaiting =>
    rw [hpoint] at h
    simp only at h
    have hwaits : sub.caller.standing = .waiting := by rw [hpoint]; rfl
    have hover : ∀ {point : CallerPoint T E}, point.standing = .over → point.calls = false → point.guards = false →
        GoesOn around sub (sub.go point) := by
      intro point hstanding hcalls hguards
      refine .comes (comes_go ?_ (by rw [hpoint, hcalls]; rfl) (by rw [hpoint, hguards]; rfl))
      rw [hstanding]
      exact (hp.at _ hwaits).over_of_waiting
    split at h
    · obtain rfl := Option.some.inj h
      exact .comes (comes_closed hp hwaits rfl rfl rfl)
    · split at h
      · obtain rfl := Option.some.inj h
        exact .comes (comes_closed hp hwaits rfl rfl rfl)
      · split at h
        · obtain rfl := Option.some.inj h
          exact .comes (comes_closed hp hwaits rfl rfl rfl)
        · split at h
          · rename_i response completedAt hworker
            obtain rfl := Option.some.inj h
            obtain ⟨_, p, token, hlease⟩ := Placement.of_holds hp (by rw [hworker]; rfl)
            refine .comes ⟨⟨rfl, rfl, rfl, rfl, ?_⟩, by rw [hpoint]; rfl, by rw [hpoint]; rfl⟩
            show Placement .releasing .over sub.lease
            rw [hlease]
            exact .releasing p token rfl
          · obtain rfl := Option.some.inj h
            exact hover rfl rfl rfl
          · obtain rfl := Option.some.inj h
            exact hover rfl rfl rfl
          · obtain rfl := Option.some.inj h
            exact hover rfl rfl rfl
          · obtain rfl := Option.some.inj h
            exact hover rfl rfl rfl
          · simp at h
  | _ => simp [hpoint] at h

/-- A poll of the job goes on from a placed submission to a placed one. -/
theorem turned_pollJob (hp : sub.Placed) {now completedAt : Nat} {work : Option (JobOutcome T E)}
    (h : sub.pollJob around now completedAt work = some next) : GoesOn around sub next := by
  unfold pollJob at h
  split at h
  · rename_i deadline worker hpoint
    obtain ⟨hworker, p, token, hlease⟩ := (hp.at .executing (by rw [hpoint]; rfl)).of_executing
    obtain ⟨result, _, rfl⟩ := Option.map_eq_some_iff.mp h
    cases result with
    | some response =>
      refine .comes (comes_go ?_ (by rw [hpoint]; rfl) (by rw [hpoint]; rfl))
      rw [hlease]
      exact .releasing p token (by rw [hworker]; rfl)
    | none => exact .comes (comes_go (hp.at _ (by rw [hpoint]; rfl)) (by rw [hpoint]; rfl) (by rw [hpoint]; rfl))
  · rename_i deadline hworker _
    have hholds : sub.worker.holds = true := by rw [hworker]; rfl
    split at h
    · split at h
      · obtain rfl := Option.some.inj h
        exact .comes (comes_work hp hholds ⟨rfl, rfl, rfl, rfl, rfl, rfl⟩)
      · obtain ⟨result, _, rfl⟩ := Option.map_eq_some_iff.mp h
        exact .comes (comes_work hp hholds ⟨rfl, rfl, rfl, rfl, rfl, rfl⟩)
    · simp at h
  · simp at h

/-- Dropping the caller leaves a placed submission. -/
theorem turned_dropCaller (hp : sub.Placed) (h : sub.dropCaller = some next) : GoesOn around sub next := by
  unfold dropCaller at h
  cases hpoint : sub.caller with
  | checking =>
    rw [hpoint] at h
    obtain rfl := Option.some.inj h
    have hplaced := (hp.at .seeking (by rw [hpoint]; rfl)).of_seeking
    refine .comes (comes_go ?_ (by rw [hpoint]; rfl) (by rw [hpoint]; rfl))
    rw [hplaced.1, hplaced.2]
    exact .never rfl
  | parked =>
    rw [hpoint] at h
    obtain rfl := Option.some.inj h
    have hplaced := (hp.at .seeking (by rw [hpoint]; rfl)).of_seeking
    refine .comes (comes_go ?_ (by rw [hpoint]; rfl) (by rw [hpoint]; rfl))
    rw [hplaced.1, hplaced.2]
    exact .never rfl
  | polling deadline =>
    rw [hpoint] at h
    obtain rfl := Option.some.inj h
    exact .comes (comes_go (hp.at _ (by rw [hpoint]; rfl)) (by rw [hpoint]; rfl) (by rw [hpoint]; rfl))
  | awaiting =>
    rw [hpoint] at h
    obtain rfl := Option.some.inj h
    exact .comes (comes_closed hp (by rw [hpoint]; rfl) rfl rfl rfl)
  | _ => simp [hpoint] at h

/-- The return of the spawn leaves a placed submission. -/
theorem turned_spawnReturned (hp : sub.Placed) {accepted : Bool} (h : sub.spawnReturned accepted = some next) :
    GoesOn around sub next := by
  -- A thread that could not be spawned leaves the lease with its caller.
  have hrefused : sub.caller = .spawning → sub.worker = .submitted → ∀ error,
      GoesOn around sub { sub with worker := .idle, caller := .refused error } := by
    intro hpoint hworker error
    obtain ⟨_, p, token, hlease⟩ := Placement.of_holds hp (by rw [hworker]; rfl)
    refine .comes ⟨⟨rfl, rfl, rfl, rfl, ?_⟩, by rw [hpoint]; rfl, by rw [hpoint]; rfl⟩
    show Placement .refusing .idle sub.lease
    rw [hlease]
    exact .refusing _
  unfold spawnReturned at h
  split at h
  · rename_i hpoint
    obtain rfl := Option.some.inj h
    exact .comes (comes_go (hp.at _ (by rw [hpoint]; rfl)) (by rw [hpoint]; rfl) (by rw [hpoint]; rfl))
  · rename_i hpoint _
    obtain rfl := Option.some.inj h
    exact .comes (comes_closed hp (by rw [hpoint]; rfl) rfl rfl rfl)
  · rename_i hpoint _ hworker
    obtain rfl := Option.some.inj h
    exact hrefused hpoint hworker _
  · rename_i hpoint _ hworker
    obtain rfl := Option.some.inj h
    exact hrefused hpoint hworker _
  · simp at h

/-- The worker of a closure that the executor has. -/
theorem turned_start (hp : sub.Placed) {now : Nat} (h : sub.start now = some next) : GoesOn around sub next := by
  unfold start at h
  cases hworker : sub.worker with
  | submitted =>
    rw [hworker] at h
    simp only at h
    have hholds : sub.worker.holds = true := by rw [hworker]; rfl
    split at h <;> obtain rfl := Option.some.inj h
    · exact .comes (comes_work hp hholds ⟨rfl, rfl, rfl, rfl, rfl, rfl⟩)
    · exact .comes (comes_work hp hholds ⟨rfl, rfl, rfl, rfl, rfl, rfl⟩)
  | _ => simp [hworker] at h

/-- Discarding the job leaves a placed submission. -/
theorem turned_discard (hp : sub.Placed) (h : sub.discard = some next) : GoesOn around sub next := by
  unfold discard at h
  cases hworker : sub.worker with
  | submitted =>
    rw [hworker] at h
    obtain rfl := Option.some.inj h
    exact .comes (comes_work hp (by rw [hworker]; rfl) ⟨rfl, rfl, rfl, rfl, rfl, rfl⟩)
  | _ => simp [hworker] at h

/-- A failed runtime leaves a placed submission. -/
theorem turned_runtimeFailed (hp : sub.Placed) (h : sub.runtimeFailed = some next) : GoesOn around sub next := by
  unfold runtimeFailed at h
  cases hworker : sub.worker with
  | ready =>
    rw [hworker] at h
    simp only at h
    split at h
    · obtain rfl := Option.some.inj h
      exact .comes (comes_work hp (by rw [hworker]; rfl) ⟨rfl, rfl, rfl, rfl, rfl, rfl⟩)
    · simp at h
  | _ => simp [hworker] at h

/-- The end of the job leaves a placed submission. -/
theorem turned_jobEnds (hp : sub.Placed) {outcome : JobOutcome T E} (h : sub.jobEnds outcome = some next) :
    GoesOn around sub next := by
  unfold jobEnds at h
  cases hworker : sub.worker with
  | running deadline =>
    rw [hworker] at h
    simp only at h
    split at h
    · simp at h
    · obtain rfl := Option.some.inj h
      exact .comes (comes_work hp (by rw [hworker]; rfl) ⟨rfl, rfl, rfl, rfl, rfl, rfl⟩)
  | _ => simp [hworker] at h

/-- `Running` declared or refused: the worker keeps its lease. -/
theorem works_started (sub : Submission usizeMax T E) (instantMax now : Nat) (result : Except GovernorError Unit) :
    sub.Works (started instantMax now sub result) := by
  unfold started
  cases result with
  | error error =>
    simp only
    split <;> exact ⟨rfl, rfl, rfl, rfl, rfl, rfl⟩
  | ok done =>
    simp only
    split
    · split <;> exact ⟨rfl, rfl, rfl, rfl, rfl, rfl⟩
    · exact ⟨rfl, rfl, rfl, rfl, rfl, rfl⟩

/-- `CleanupPending` declared or refused: the same. -/
theorem works_finished (sub : Submission usizeMax T E) (ended : Option (Response T E))
    (result : Except GovernorError Unit) : sub.Works (sub.finished ended result) := by
  unfold finished
  cases result with
  | error error =>
    simp only
    split <;> exact ⟨rfl, rfl, rfl, rfl, rfl, rfl⟩
  | ok done =>
    simp only
    split <;> exact ⟨rfl, rfl, rfl, rfl, rfl, rfl⟩

/-- A turn of the worker ends in a request of its own lease, and leaves the submission placed. -/
theorem turned_worker (hp : sub.Placed) {now : Nat} {sampledMs : UInt64} {r : Request usizeMax T E}
    (h : sub.workerTurn around now sampledMs = some r) : Turned around sub r := by
  unfold workerTurn at h
  cases hworker : sub.worker with
  | ready =>
    rw [hworker] at h
    have hholds : sub.worker.holds = true := by rw [hworker]; rfl
    obtain ⟨_, p, token, hlease⟩ := Placement.of_holds hp hholds
    exact turned_advance hlease (by simp)
      (fun outcome haccepts => comes_worker hp hholds hlease (fun result => works_started sub _ _ result) _ outcome
        haccepts) h
  | ended result =>
    rw [hworker] at h
    simp only at h
    have hholds : sub.worker.holds = true := by rw [hworker]; rfl
    obtain ⟨_, p, token, hlease⟩ := Placement.of_holds hp hholds
    split at h
    · obtain rfl := Option.some.inj h
      exact .comes (comes_work hp hholds ⟨rfl, rfl, rfl, rfl, rfl, rfl⟩)
    · exact turned_advance hlease (by simp)
        (fun outcome haccepts => comes_worker hp hholds hlease
          (f := fun sub => sub.finished result) (fun answer => works_finished sub result answer) _ outcome
          haccepts) h
  | sending response =>
    rw [hworker] at h
    obtain rfl := Option.some.inj h
    have hholds : sub.worker.holds = true := by rw [hworker]; rfl
    split
    · exact .comes (comes_work hp hholds ⟨rfl, rfl, rfl, rfl, rfl, rfl⟩)
    · exact .comes (comes_work hp hholds ⟨rfl, rfl, rfl, rfl, rfl, rfl⟩)
  | tearing =>
    rw [hworker] at h
    obtain rfl := Option.some.inj h
    obtain ⟨hwaits, p, token, hlease⟩ := Placement.of_holds hp (by rw [hworker]; rfl)
    refine turned_dropLease hlease ⟨⟨rfl, rfl, rfl, rfl, ?_⟩, rfl, rfl⟩
    refine .spent p ?_ rfl
    show sub.caller.standing.closes = true
    generalize sub.caller.standing = standing at hwaits
    cases standing <;> simp [Standing.waits] at hwaits <;> rfl
  | _ => simp [hworker] at h

/-- Every turn keeps the placement, whatever the engine will answer. -/
theorem turned (hp : sub.Placed) {t : Turn T E} {r : Request usizeMax T E} (h : sub.turn around t = some r) :
    Turned around sub r := by
  cases t with
  | caller now sampledMs => exact turned_caller hp h
  | worker now sampledMs => exact turned_worker hp h
  | resume now =>
    obtain ⟨next, hnext, rfl⟩ := Option.map_eq_some_iff.mp h
    exact turned_resume hp hnext
  | poll now =>
    obtain ⟨next, hnext, rfl⟩ := Option.map_eq_some_iff.mp h
    exact turned_poll hp hnext
  | pollJob now completedAt work =>
    obtain ⟨next, hnext, rfl⟩ := Option.map_eq_some_iff.mp h
    exact turned_pollJob hp hnext
  | dropCaller =>
    obtain ⟨next, hnext, rfl⟩ := Option.map_eq_some_iff.mp h
    exact turned_dropCaller hp hnext
  | spawnReturned accepted =>
    obtain ⟨next, hnext, rfl⟩ := Option.map_eq_some_iff.mp h
    exact turned_spawnReturned hp hnext
  | start now =>
    obtain ⟨next, hnext, rfl⟩ := Option.map_eq_some_iff.mp h
    exact turned_start hp hnext
  | discard =>
    obtain ⟨next, hnext, rfl⟩ := Option.map_eq_some_iff.mp h
    exact turned_discard hp hnext
  | runtimeFailed =>
    obtain ⟨next, hnext, rfl⟩ := Option.map_eq_some_iff.mp h
    exact turned_runtimeFailed hp hnext
  | jobEnds outcome =>
    obtain ⟨next, hnext, rfl⟩ := Option.map_eq_some_iff.mp h
    exact turned_jobEnds hp hnext

end Submission

end Taskmesh.Host
