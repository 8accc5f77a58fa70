import Taskmesh.Host.Proofs.LeaseProofs

/-!
# A submission and its engine calls

What a submission has of the governor: its lease, its ticket and its engine call in progress. Every engine
call it makes keeps that in order, and so does every step of anybody else.
-/

namespace Taskmesh.Host

open Governor

variable {g : Governor} {usizeMax : Nat} {T E : Type} {σ σ' : g.System} {a : Action} {e : Event}
  {sub next : Submission usizeMax T E} {calls calls' : List (Thread g.policy)}

namespace Submission

/-- The token the submission holds. -/
def token (sub : Submission usizeMax T E) : Option LeaseToken := sub.lease.bind ExecutionLease.token

/-- A ticket the submission has is for its own request, and its guard is there as long as it leads anywhere. -/
structure TicketSound (σ : g.System) (sub : Submission usizeMax T E) : Prop where
  waits : ∀ t, sub.ticket = some t → WaitsFor σ sub.plan.requirements t
  retired : ∀ t, sub.ticket = some t → sub.caller.guards = false → Retired σ t

/-- What a submission has of the governor is what it takes it for. -/
structure Sound (σ : g.System) (sub : Submission usizeMax T E) : Prop where
  placed : sub.Placed
  lease : ∀ lease, sub.lease = some lease → lease.Sound σ sub.plan.requirements
  ticket : sub.TicketSound σ

/-- The engine calls of a submission that have not answered yet: one where its caller waits for one. -/
inductive InCall (σ : g.System) (sub : Submission usizeMax T E) : List (Thread g.policy) → Prop
  | quiet (point : sub.caller.calls = false) : InCall σ sub []
  | allocating (point : sub.caller = .admitting) (intake : Intake g.policy) (sampledMs : Nat) (taken : Taken)
      (charge : intake.request.capabilities = sub.plan.requirements) :
      InCall σ sub [.allocating intake sampledMs taken]
  | admitting (point : sub.caller = .admitting) (intake : Intake g.policy) (sampledMs : Nat) (ids : Ids)
      (charge : intake.request.capabilities = sub.plan.requirements) : InCall σ sub [.admitting intake sampledMs ids]
  | settling (point : sub.caller = .admitting) (decision : AdmissionDecision) (effects : TransitionEffects)
      (sampledMs : Nat) (given : ∀ p, decision = .admitted p → GivenFor σ sub.plan.requirements p)
      (queued : ∀ t, decision = .queued t → WaitsFor σ sub.plan.requirements t) :
      InCall σ sub [.settling decision effects sampledMs]
  | claiming {t : Ticket} {expired : Option AcquisitionRejection} {blocked : Bool}
      (point : sub.caller = .claiming expired blocked) (holds : sub.ticket = some t) (p : PermitId)
      (effects : TransitionEffects) (sampledMs : Nat) : InCall σ sub [.claiming t p effects sampledMs]

/-- The permit is the submission's: it has the lease, or its admission is about to answer with it. -/
def Owns (sub : Submission usizeMax T E) (calls : List (Thread g.policy)) (p : PermitId) : Prop :=
  (∃ lease, sub.lease = some lease ∧ lease.permitId = p) ∨
    ∃ effects sampledMs, Thread.settling (.admitted p) effects sampledMs ∈ calls

/-- A permit a submission owns was given for the requirements of its plan. -/
theorem Owns.given {p : PermitId} (h : sub.Owns calls p) (hsound : sub.Sound σ) (hcalls : sub.InCall σ calls) :
    GivenFor σ sub.plan.requirements p := by
  rcases h with ⟨lease, hlease, rfl⟩ | ⟨effects, sampledMs, hmem⟩
  · exact (hsound.lease lease hlease).given
  · cases hcalls with
    | settling point decision effects' sampledMs' given queued =>
      obtain ⟨rfl, _, _⟩ := Thread.settling.inj (List.mem_singleton.mp hmem)
      exact given p rfl
    | quiet | allocating | admitting | claiming => simp at hmem

/-! ## Steps of others -/

/-- An engine step keeps the ticket of a submission sound, whoever takes it. -/
theorem TicketSound.step (h : sub.TicketSound σ) (hinv : SysInv σ) (hstep : g.step σ a = some (σ', e)) :
    sub.TicketSound σ' :=
  ⟨fun t hticket => (h.waits t hticket).step hinv hstep,
    fun t hticket hguards => (h.retired t hticket hguards).step hinv hstep⟩

/-- The ticket is the one it was, and so is its guard. -/
theorem TicketSound.same (h : sub.TicketSound σ) {lease : Option ExecutionLease} (hbecomes : sub.Becomes next lease)
    (hguards : next.caller.guards = false → sub.caller.guards = false) : next.TicketSound σ := by
  refine ⟨fun t hticket => ?_, fun t hticket hguarded => ?_⟩
  · rw [hbecomes.ticket] at hticket
    rw [hbecomes.plan]
    exact h.waits t hticket
  · rw [hbecomes.ticket] at hticket
    exact h.retired t hticket (hguards hguarded)

/-- An engine step keeps a submission sound, unless it is the release of its own token. -/
theorem Sound.step (h : sub.Sound σ) (hinv : SysInv σ) (hstep : g.step σ a = some (σ', e))
    (hother : ∀ token, sub.token = some token → ∀ sampledMs, a ≠ .releaseLeased token sampledMs) :
    sub.Sound σ' := by
  refine ⟨h.placed, fun lease hlease => ?_, h.ticket.step hinv hstep⟩
  refine (h.lease lease hlease).step hinv hstep fun token hcustody => hother token ?_
  unfold Submission.token ExecutionLease.token
  simp [hlease, hcustody]

/-- An engine step of another call leaves the call of a submission where it is. -/
theorem InCall.step (h : sub.InCall σ calls) (hinv : SysInv σ) (hstep : g.step σ a = some (σ', e)) :
    sub.InCall σ' calls := by
  cases h with
  | quiet point => exact .quiet point
  | allocating point intake sampledMs taken charge => exact .allocating point intake sampledMs taken charge
  | admitting point intake sampledMs ids charge => exact .admitting point intake sampledMs ids charge
  | settling point decision effects sampledMs given queued =>
    exact .settling point decision effects sampledMs (fun p hp => (given p hp).step hinv hstep)
      fun t ht => (queued t ht).step hinv hstep
  | claiming point holds p effects sampledMs => exact .claiming point holds p effects sampledMs

/-! ## Steps of its own -/

/-- A submission after an engine call, or after a step that continues one. -/
structure Acted (σ' : g.System) (a : Action) (e : Event) (sub next : Submission usizeMax T E)
    (calls calls' : List (Thread g.policy)) : Prop where
  sound : next.Sound σ'
  inCall : next.InCall σ' calls'
  shifts : Shifts a e sub.token next.token
  owns : ∀ p, next.Owns calls' p → sub.Owns calls p ∨ handsOut p e = true
  waker : next.waker = sub.waker

theorem token_none (h : sub.lease = none) : sub.token = none := by
  unfold Submission.token
  rw [h]
  rfl

theorem token_some {lease : ExecutionLease} (h : sub.lease = some lease) : sub.token = lease.token := by
  unfold Submission.token
  rw [h]
  rfl

/-- A caller in an engine call has nothing else yet. -/
theorem seeking_of_calls (h : sub.caller.calls = true) : sub.caller.standing = .seeking := by
  cases hcaller : sub.caller with
  | admitting | claiming => rfl
  | _ => simp [hcaller, CallerPoint.calls] at h

/-- A submission stays sound when its caller moves on with a lease the engine gave. -/
theorem sound_of_becomes (hticket : sub.TicketSound σ) {lease : Option ExecutionLease}
    (hbecomes : sub.Becomes next lease) (hguards : next.caller.guards = false → sub.caller.guards = false)
    (hlease : ∀ l, lease = some l → l.Sound σ sub.plan.requirements) : next.Sound σ := by
  refine ⟨hbecomes.placed, fun l hl => ?_, hticket.same hbecomes hguards⟩
  rw [hbecomes.lease] at hl
  rw [hbecomes.plan]
  exact hlease l hl

/-- What an admission gave is in order where it is written down. -/
theorem admitted_sound (h : sub.Sound σ) (hseeks : sub.caller.standing = .seeking)
    (hguards : sub.caller.guards = false) (answer : AdmitAnswer)
    (hgiven : ∀ p, answer = .ok (.admitted p) → GivenFor σ sub.plan.requirements p)
    (hqueued : ∀ t, answer = .ok (.queued t) → WaitsFor σ sub.plan.requirements t) :
    (sub.admitted answer).Sound σ ∧ (sub.admitted answer).token = none ∧
      (sub.admitted answer).caller.calls = false ∧ (sub.admitted answer).waker = sub.waker ∧
      ∀ p, (sub.admitted answer).Owns ([] : List (Thread g.policy)) p → answer = .ok (.admitted p) := by
  have hlease := (h.placed.at _ hseeks).of_seeking.2
  rcases admitted_becomes h.placed hseeks answer with ⟨p, rfl, hbecomes⟩ | ⟨t, rfl, heq⟩ | ⟨_, _, hbecomes⟩
  · refine ⟨sound_of_becomes h.ticket hbecomes (fun _ => hguards) ?_, ?_, rfl, hbecomes.waker, ?_⟩
    · intro l hl
      obtain rfl := Option.some.inj hl
      exact .reserved (hgiven p rfl)
    · rw [token_some hbecomes.lease]
      rfl
    · rintro q (⟨lease, hl, rfl⟩ | ⟨_, _, hmem⟩)
      · rw [hbecomes.lease] at hl
        rw [← Option.some.inj hl]
        rfl
      · simp at hmem
  · rw [heq]
    refine ⟨⟨?_, fun l hl => ?_, fun t' hticket => ?_, fun t' _ hguarded => ?_⟩, ?_, rfl, rfl, ?_⟩
    · exact h.placed.at _ hseeks
    · rw [show sub.lease = some l from hl] at hlease
      simp at hlease
    · obtain rfl := Option.some.inj hticket
      exact hqueued t rfl
    · simp [CallerPoint.guards] at hguarded
    · exact token_none hlease
    · rintro q (⟨lease, hl, rfl⟩ | ⟨_, _, hmem⟩)
      · rw [show sub.lease = some lease from hl] at hlease
        simp at hlease
      · simp at hmem
  · refine ⟨sound_of_becomes h.ticket hbecomes (fun _ => hguards) (by simp), token_none hbecomes.lease, ?_,
      hbecomes.waker, ?_⟩
    · cases answer with
      | error error => rfl
      | ok decision => cases decision <;> rfl
    · rintro q (⟨lease, hl, rfl⟩ | ⟨_, _, hmem⟩)
      · rw [hbecomes.lease] at hl
        simp at hl
      · simp at hmem

/-- The same for a claim. -/
theorem claimed_sound (h : sub.Sound σ) (hseeks : sub.caller.standing = .seeking) (t : Ticket)
    (expired : Option AcquisitionRejection) (blocked : Bool) (outcome : ClaimOutcome)
    (hgiven : ∀ p, outcome = .ready p → GivenFor σ sub.plan.requirements p) :
    (sub.claimed t expired blocked outcome).Sound σ ∧ (sub.claimed t expired blocked outcome).token = none ∧
      (sub.claimed t expired blocked outcome).caller.calls = false ∧
      (sub.claimed t expired blocked outcome).waker = sub.waker ∧
      ∀ p, (sub.claimed t expired blocked outcome).Owns ([] : List (Thread g.policy)) p → outcome = .ready p := by
  obtain ⟨hguards, hcalls, ⟨p, rfl, hbecomes⟩ | ⟨_, hbecomes⟩⟩ :=
    claimed_becomes h.placed hseeks t expired blocked outcome
  · refine ⟨sound_of_becomes h.ticket hbecomes (by simp [hguards]) ?_, ?_, hcalls, hbecomes.waker, ?_⟩
    · intro l hl
      obtain rfl := Option.some.inj hl
      exact .reserved (hgiven p rfl)
    · rw [token_some hbecomes.lease]
      rfl
    · rintro q (⟨lease, hl, rfl⟩ | ⟨_, _, hmem⟩)
      · rw [hbecomes.lease] at hl
        rw [← Option.some.inj hl]
        rfl
      · simp at hmem
  · refine ⟨sound_of_becomes h.ticket hbecomes (by simp [hguards]) (by simp), token_none hbecomes.lease, hcalls,
      hbecomes.waker, ?_⟩
    rintro q (⟨lease, hl, rfl⟩ | ⟨_, _, hmem⟩)
    · rw [hbecomes.lease] at hl
      simp at hl
    · simp at hmem

theorem quiet_calls (hquiet : sub.caller.calls = false) (h : sub.InCall σ calls) : calls = [] := by
  cases h with
  | quiet point => rfl
  | allocating point | admitting point | settling point | claiming point => simp [point, CallerPoint.calls] at hquiet

/-- A token is minted by an advance alone. -/
theorem unminted (h : g.step σ a = some (σ', e)) (hother : ∀ p phase, a ≠ .advancePhase p phase) (p : PermitId)
    (token : LeaseToken) : e ≠ .advanced p (.leased token) := by
  rintro rfl
  obtain ⟨phase, heq⟩ := step_advanced h
  exact hother p phase heq

/-- The calls that are not only draining, of the call of a step. -/
def unanswered (call : Option (Thread g.policy)) : List (Thread g.policy) := (call.filter fun th => !th.drains).toList

/-- The answer to what a submission asks leaves it sound, with the call it opened. -/
theorem acted_asks (h : sub.Sound σ) (hquiet : sub.caller.calls = false) (hinv : SysInv σ)
    {hears : Event → Submission usizeMax T E} (hasks : sub.Asks a hears) (hstep : g.step σ a = some (σ', e))
    {new : Option (Thread g.policy)} (hcalls : Calls a e none new) :
    Acted σ' a e sub (hears e) [] (unanswered new) := by
  -- What is left of a call that drains, or of none, is not waited for.
  have hdrained : new.all Thread.drains = true → unanswered new = [] := by
    intro hdrains
    cases new with
    | none => rfl
    | some th =>
      rw [Option.all_some] at hdrains
      simp [unanswered, hdrains]
  have hnext := h.ticket.step hinv hstep
  cases hasks with
  | @admission hears sampledMs point answered started =>
    have hseeks : sub.caller.standing = .seeking := by rw [point]; rfl
    have hguards : sub.caller.guards = false := by rw [point]; rfl
    have hsound := h.step hinv hstep (by simp)
    have hkept : Shifts (.call (.admitValidatedRequirements sub.plan.task sub.plan.requirements (some sub.waker))
        sampledMs) e sub.token none := by
      rw [token_none (h.placed.at _ hseeks).of_seeking.2]
      exact .kept none (by simp) (unminted hstep (by simp))
    cases hcalls with
    | called _ accepted =>
      rw [started]
      refine ⟨⟨h.placed.at _ hseeks, hsound.lease, fun t ht => hsound.ticket.waits t ht,
          fun t ht _ => hsound.ticket.retired t ht hguards⟩,
        .allocating rfl _ _ _ (Except.ok.inj (preflight_submits accepted).2).symm, ?_, ?_, rfl⟩
      · rw [show (sub.go .admitting).token = none from token_none (h.placed.at _ hseeks).of_seeking.2]
        exact hkept
      · rintro p (hlease | ⟨effects, sampledMs', hmem⟩)
        · exact Or.inl (Or.inl hlease)
        · simp [unanswered, Thread.drains] at hmem
    | @refused _ answer _ refused =>
      rw [answered]
      have hnothing : (∀ p, answer ≠ .ok (.admitted p)) ∧ ∀ t, answer ≠ .ok (.queued t) := by
        rcases preflight_error refused with rfl | ⟨error, rfl⟩
        · exact ⟨by simp, by simp⟩
        · exact ⟨by simp, by simp⟩
      obtain ⟨hnew, htoken, hcalls, hwaker, howns⟩ := admitted_sound (g := g) hsound hseeks hguards answer
        (fun p hp => absurd hp (hnothing.1 p)) fun t ht => absurd ht (hnothing.2 t)
      refine ⟨hnew, .quiet hcalls, ?_, fun p hp => absurd (howns p hp) (hnothing.1 p), hwaker⟩
      rw [htoken]
      exact hkept
    | operated alone call claim drains => exact absurd rfl (call _ _)
  | @claim hears t expired blocked sampledMs holds point claimed started =>
    have hseeks : sub.caller.standing = .seeking := by rw [point]; rfl
    have hsound := h.step hinv hstep (by simp)
    have hkept : Shifts (.claim t sampledMs) e sub.token none := by
      rw [token_none (h.placed.at _ hseeks).of_seeking.2]
      exact .kept none (by simp) (unminted hstep (by simp))
    cases hcalls with
    | begun _ p effects _ =>
      rw [started]
      refine ⟨⟨h.placed.at _ hseeks, hsound.lease, fun t ht => hsound.ticket.waits t ht,
          fun t ht hguarded => by simp [go, CallerPoint.guards] at hguarded⟩,
        .claiming rfl (by exact holds) p effects _, ?_, ?_, rfl⟩
      · rw [show (sub.go (.claiming expired blocked)).token = none from
          token_none (h.placed.at _ hseeks).of_seeking.2]
        exact hkept
      · rintro p (hlease | ⟨effects, sampledMs', hmem⟩)
        · exact Or.inl (Or.inl hlease)
        · simp [unanswered, Thread.drains] at hmem
    | told _ outcome _ waits =>
      rw [claimed]
      obtain ⟨hnew, htoken, hcalls, hwaker, howns⟩ := claimed_sound (g := g) hsound hseeks t expired blocked outcome
        fun p hp => absurd hp (waits p)
      refine ⟨hnew, .quiet hcalls, ?_, fun p hp => absurd (howns p hp) (waits p), hwaker⟩
      rw [htoken]
      exact hkept
    | operated alone call claim drains => exact absurd rfl (claim _ _)
  | @abandonment t why sampledMs holds point =>
    have hstanding : sub.caller.standing = (CallerPoint.abandoning (T := T) (E := E) why).standing := by rw [point]
    obtain ⟨hbecomes, hguards, hcalls'⟩ := left_becomes h.placed hstanding
    have hsound := h.step hinv hstep (by simp)
    have hretired : Retired σ' t := hinv.step_abandon hstep (h.ticket.waits t holds).spent
    cases hcalls with
    | operated alone call claim drains =>
      rw [hdrained drains]
      refine ⟨⟨hbecomes.placed, fun l hl => ?_, fun t' hticket => ?_, fun t' hticket _ => ?_⟩, .quiet hcalls', ?_, ?_,
        hbecomes.waker⟩
      · rw [hbecomes.lease] at hl
        rw [hbecomes.plan]
        exact hsound.lease l hl
      · rw [hbecomes.ticket] at hticket
        rw [hbecomes.plan]
        exact hsound.ticket.waits t' hticket
      · rw [hbecomes.ticket, holds] at hticket
        rwa [← Option.some.inj hticket]
      · rw [show (sub.left why).token = sub.token by unfold Submission.token; rw [hbecomes.lease]]
        exact .kept _ (by simp) (unminted hstep (by simp))
      · rintro p (⟨lease, hl, hid⟩ | ⟨_, _, hmem⟩)
        · rw [hbecomes.lease] at hl
          exact Or.inl (Or.inl ⟨lease, hl, hid⟩)
        · simp at hmem
  | @phase hears lease phase has keeps advanced =>
    obtain ⟨outcome, rfl, haccepts, hlease, hid, hshifts⟩ := (h.lease lease has).advanced hinv keeps hstep
    have hcomes := advanced lease.permitId outcome haccepts
    cases hcalls with
    | operated alone call claim drains =>
      rw [hdrained drains]
      refine ⟨sound_of_becomes hnext hcomes.toBecomes (by rw [hcomes.guards]; exact id) ?_,
        .quiet (by rw [hcomes.calls]; exact hquiet), ?_, ?_, hcomes.waker⟩
      · intro l hl
        rwa [← Option.some.inj hl]
      · rw [token_some has, token_some hcomes.lease]
        exact hshifts
      · rintro p (⟨l, hl, rfl⟩ | ⟨_, _, hmem⟩)
        · rw [hcomes.lease] at hl
          rw [← Option.some.inj hl]
          exact Or.inl (Or.inl ⟨lease, has, hid.symm⟩)
        · simp at hmem
  | @drop hears lease a sampledMs has action dropped =>
    obtain ⟨hlease, hshifts, _⟩ := (h.lease lease has).dropped hinv action hstep
    have hcomes := dropped e
    have hdrains : new.all Thread.drains = true := by
      obtain ⟨p, custody⟩ := lease
      cases custody with
      | gone => simp [ExecutionLease.dropAction] at action
      | reserved =>
        obtain rfl := Option.some.inj action
        cases hcalls with
        | operated alone call claim drains => exact drains
      | leased token =>
        obtain rfl := Option.some.inj action
        cases hcalls with
        | operated alone call claim drains => exact drains
    rw [hdrained hdrains]
    refine ⟨sound_of_becomes hnext hcomes.toBecomes (by rw [hcomes.guards]; exact id) ?_,
      .quiet (by rw [hcomes.calls]; exact hquiet), ?_, ?_, hcomes.waker⟩
    · intro l hl
      rwa [← Option.some.inj hl]
    · rw [token_some has, token_some hcomes.lease]
      exact hshifts
    · rintro p (⟨l, hl, rfl⟩ | ⟨_, _, hmem⟩)
      · rw [hcomes.lease] at hl
        rw [← Option.some.inj hl]
        exact Or.inl (Or.inl ⟨lease, has, rfl⟩)
      · simp at hmem

/-- A list with one entry has nothing around it. -/
theorem eq_nil_of_singleton {α : Type} {left right : List α} {x y : α} (h : left ++ [x] ++ right = [y]) :
    left = [] ∧ right = [] ∧ x = y := by
  cases left with
  | nil =>
    obtain ⟨hx, hright⟩ := List.cons.inj h
    exact ⟨rfl, hright, hx⟩
  | cons z left => simp at h

/-- A call in progress that owes an answer is the only one. -/
theorem InCall.alone {left right : List (Thread g.policy)} {th : Thread g.policy}
    (hin : sub.InCall σ (left ++ unanswered (some th) ++ right)) (hopen : th.drains = false) :
    left = [] ∧ right = [] ∧ sub.InCall σ [th] := by
  have hlist : unanswered (some th) = [th] := by simp [unanswered, hopen]
  rw [hlist] at hin
  generalize hcalls : left ++ [th] ++ right = calls at hin
  cases hin with
  | quiet => simp at hcalls
  | allocating point intake sampledMs taken charge =>
    obtain ⟨hleft, hright, rfl⟩ := eq_nil_of_singleton hcalls
    exact ⟨hleft, hright, .allocating point intake sampledMs taken charge⟩
  | admitting point intake sampledMs ids charge =>
    obtain ⟨hleft, hright, rfl⟩ := eq_nil_of_singleton hcalls
    exact ⟨hleft, hright, .admitting point intake sampledMs ids charge⟩
  | settling point decision effects sampledMs given queued =>
    obtain ⟨hleft, hright, rfl⟩ := eq_nil_of_singleton hcalls
    exact ⟨hleft, hright, .settling point decision effects sampledMs given queued⟩
  | claiming point holds p effects sampledMs =>
    obtain ⟨hleft, hright, rfl⟩ := eq_nil_of_singleton hcalls
    exact ⟨hleft, hright, .claiming point holds p effects sampledMs⟩

/-- A call of the submission goes on, or answers: what its caller was waiting for reaches it. -/
theorem acted_continues (h : sub.Sound σ) {left right : List (Thread g.policy)} {old : Thread g.policy}
    {new : Option (Thread g.policy)} {i : Nat}
    (hin : sub.InCall σ (left ++ unanswered (some old) ++ right)) (hinv : SysInv σ)
    (hstep : g.step σ a = some (σ', e)) (hcalls : Calls a e (some old) new) (hthread : a.thread = some i)
    (hat : σ.threads[i]? = some old) (hcalm : a.panicked ≠ some true) :
    Acted σ' a e sub (sub.hears e) (left ++ unanswered (some old) ++ right) (left ++ unanswered new ++ right) := by
  have hunspent : ∀ token sampledMs, a ≠ .releaseLeased token sampledMs := by
    rintro token sampledMs rfl
    simp [Action.thread] at hthread
  have hsound := h.step hinv hstep fun token _ => hunspent token
  have hkept : ∀ held, Shifts a e held held := fun held => by
    refine .kept held hunspent (unminted hstep ?_)
    rintro p phase rfl
    simp [Action.thread] at hthread
  have hnone : ∀ (token : Option LeaseToken), sub.caller.standing = .seeking → token = none → Shifts a e sub.token token := by
    intro token hseeks htoken
    rw [token_none (h.placed.at _ hseeks).of_seeking.2, htoken]
    exact hkept none
  cases hcalls with
  | compensated | undone => simp [Action.panicked] at hcalm
  | drained _ draining drains =>
    have hheard : sub.hears .progressed = sub := by
      unfold hears
      split <;> simp_all
    have hnew : unanswered new = [] := by
      cases new with
      | none => rfl
      | some th =>
        rw [Option.all_some] at drains
        simp [unanswered, drains]
    have hold : unanswered (some old) = [] := by simp [unanswered, draining]
    rw [hold] at hin
    rw [hheard, hnew, hold]
    exact ⟨hsound, hin.step hinv hstep, hkept _, fun p hp => Or.inl hp, rfl⟩
  | took _ intake sampledMs taken taken' =>
    obtain ⟨rfl, rfl, hcall⟩ := hin.alone rfl
    cases hcall with
    | allocating point _ _ _ charge =>
      have hheard : sub.hears .progressed = sub := by simp [hears, point]
      rw [hheard]
      refine ⟨hsound, .allocating point intake sampledMs taken' charge, hkept _, ?_, rfl⟩
      rintro p (hlease | ⟨effects, ms, hmem⟩)
      · exact Or.inl (Or.inl hlease)
      · simp [unanswered, Thread.drains] at hmem
  | numbered _ intake sampledMs taken ids =>
    obtain ⟨rfl, rfl, hcall⟩ := hin.alone rfl
    cases hcall with
    | allocating point _ _ _ charge =>
      have hheard : sub.hears .progressed = sub := by simp [hears, point]
      rw [hheard]
      refine ⟨hsound, .admitting point intake sampledMs ids charge, hkept _, ?_, rfl⟩
      rintro p (hlease | ⟨effects, ms, hmem⟩)
      · exact Or.inl (Or.inl hlease)
      · simp [unanswered, Thread.drains] at hmem
  | exhausted _ intake sampledMs taken =>
    obtain ⟨rfl, rfl, hcall⟩ := hin.alone rfl
    cases hcall with
    | allocating point _ _ _ charge =>
      have hseeks : sub.caller.standing = .seeking := by rw [point]; rfl
      have hheard : ∀ answer, sub.hears (.answered answer) = sub.admitted answer := by
        intro answer
        simp [hears, point]
      rw [hheard]
      obtain ⟨hnew, htoken, hquiet, hwaker, howns⟩ := admitted_sound (g := g) hsound hseeks (by rw [point]; rfl)
        (.ok (.rejected .identityExhausted)) (by simp) (by simp)
      exact ⟨hnew, .quiet hquiet, hnone _ hseeks htoken, fun p hp => by simpa using howns p hp, hwaker⟩
  | entered n intake sampledMs ids decision effects =>
    obtain ⟨rfl, rfl, hcall⟩ := hin.alone rfl
    cases hcall with
    | admitting point _ _ _ charge =>
      obtain rfl : n = i := by simpa [Action.thread] using hthread
      obtain ⟨intake', ms, ids', decision', hat', hevent, hgiven, hqueued⟩ := hinv.step_decided hstep
      rw [hat] at hat'
      obtain ⟨rfl, rfl, rfl⟩ := Thread.admitting.inj (Option.some.inj hat')
      obtain ⟨_, rfl⟩ := Event.decided.inj hevent
      rw [charge] at hgiven hqueued
      have hheard : sub.hears (.decided ids decision) = sub := by simp [hears, point]
      rw [hheard]
      refine ⟨hsound, .settling point decision effects sampledMs hgiven hqueued, hkept _, ?_, rfl⟩
      rintro p (hlease | ⟨effects', ms, hmem⟩)
      · exact Or.inl (Or.inl hlease)
      · obtain ⟨rfl, _⟩ : decision = .admitted p ∧ effects = effects' ∧ sampledMs = ms := by
          simpa [unanswered, Thread.drains] using hmem
        exact Or.inr (by simp [handsOut])
  | settled n decision effects sampledMs =>
    obtain ⟨rfl, rfl, hcall⟩ := hin.alone rfl
    cases hcall with
    | settling point _ _ _ given queued =>
      have hseeks : sub.caller.standing = .seeking := by rw [point]; rfl
      have hheard : ∀ answer, sub.hears (.answered answer) = sub.admitted answer := by
        intro answer
        simp [hears, point]
      rw [hheard]
      obtain ⟨hnew, htoken, hquiet, hwaker, howns⟩ := admitted_sound (g := g) hsound hseeks (by rw [point]; rfl)
        (.ok decision) (fun p hp => (given p (Except.ok.inj hp)).step hinv hstep)
        fun t ht => (queued t (Except.ok.inj ht)).step hinv hstep
      refine ⟨hnew, .quiet hquiet, hnone _ hseeks htoken, fun p hp => Or.inl (Or.inr ?_), hwaker⟩
      exact ⟨effects, sampledMs, by rw [Except.ok.inj (howns p hp)]; exact List.mem_singleton.mpr rfl⟩
  | claimed n t p effects sampledMs outcome =>
    obtain ⟨rfl, rfl, hcall⟩ := hin.alone rfl
    cases hcall with
    | @claiming t' expired blocked point holds =>
      have hseeks : sub.caller.standing = .seeking := by rw [point]; rfl
      have hheard : sub.hears (.claimed t outcome) = sub.claimed t expired blocked outcome := by simp [hears, point]
      rw [hheard]
      obtain ⟨hnew, htoken, hquiet, hwaker, howns⟩ := claimed_sound (g := g) hsound hseeks t expired blocked outcome
        fun q hq => by
          subst hq
          exact hinv.step_claimReady hstep (h.ticket.waits t holds)
      refine ⟨hnew, .quiet hquiet, hnone _ hseeks htoken, fun q hq => Or.inr ?_, hwaker⟩
      rw [howns q hq]
      simp [handsOut]

end Submission

end Taskmesh.Host
