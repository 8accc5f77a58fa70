import Taskmesh.Host.Proofs.HandoffProofs
import Taskmesh.Host.Runtime

/-!
# The invariant of a runtime

Whatever the submissions of a runtime do, and whatever else happens to its governor: every lease token there
is has one holder, and what each submission has of the governor is what it takes it for.
-/

namespace Taskmesh.Host

open Governor

variable {g : Governor} {usizeMax : Nat} {T E : Type} {settings : Settings} {σ σ' : HostSys g usizeMax T E}
  {engine : g.System} {a : Action} {e : Event} {owner : Option Nat} {k : Nat} {sub next : Submission usizeMax T E}

namespace HostSys

/-- A call of submission `k` that has not answered yet. -/
def ownCall (k : Nat) (x : Option Nat × Thread g.policy) : Option (Thread g.policy) :=
  if x.1 = some k && !x.2.drains then some x.2 else none

def callsOf (σ : HostSys g usizeMax T E) (k : Nat) : List (Thread g.policy) :=
  (σ.owners.zip σ.engine.threads).filterMap (ownCall k)

/-- The lease tokens that somebody holds. -/
def held (σ : HostSys g usizeMax T E) : List LeaseToken := σ.tokens ++ σ.submissions.filterMap Submission.token

end HostSys

open HostSys

/-- The invariant of a runtime. -/
structure HostInv (σ : HostSys g usizeMax T E) : Prop where
  engine : SysInv σ.engine
  aligned : σ.owners.length = σ.engine.threads.length
  owned : ∀ k, some k ∈ σ.owners → k < σ.submissions.length
  sound : ∀ (k : Nat) sub, σ.submissions[k]? = some sub → sub.Sound σ.engine
  inCall : ∀ (k : Nat) sub, σ.submissions[k]? = some sub → sub.InCall σ.engine (σ.callsOf k)
  custody : InCustody σ.engine.state σ.held
  distinct : ∀ (k k' : Nat) sub sub' p, σ.submissions[k]? = some sub → σ.submissions[k']? = some sub' →
    sub.Owns (σ.callsOf k) p → sub'.Owns (σ.callsOf k') p → k = k'

/-- A host that has seen no submission satisfies the invariant. -/
theorem hostInv_init (g : Governor) (usizeMax : Nat) (T E : Type) : HostInv (hostInit g usizeMax T E) where
  engine := sysInv_init g
  aligned := rfl
  owned k h := by simp [hostInit] at h
  sound k sub h := by simp [hostInit] at h
  inCall k sub h := by simp [hostInit] at h
  custody := by
    refine ⟨List.nodup_nil, fun token => ?_⟩
    simp [held, hostInit, Leases, Governor.init]
  distinct k k' sub sub' p h := by simp [hostInit] at h

/-! ## The owners of the calls -/

theorem ownCall_slot (k : Nat) (owner : Option Nat) (call : Option (Thread g.policy)) :
    ((call.map fun x => (owner, x)).bind (ownCall k)).toList =
      if owner = some k then Submission.unanswered call else [] := by
  cases call with
  | none => simp [Submission.unanswered]
  | some th =>
    by_cases howner : owner = some k
    · subst howner
      cases hdrains : th.drains <;> simp [Submission.unanswered, Option.filter, ownCall, hdrains]
    · simp [ownCall, howner]

/-- A step concerns the calls of its owner alone. -/
theorem callsOf_step (σ' : HostSys g usizeMax T E) (owner : Option Nat) {old new : Option (Thread g.policy)}
    (haligned : σ.owners.length = σ.engine.threads.length)
    (hchange : SlotChange a.thread σ.engine.threads engine.threads old new)
    (howner : ∀ n, a.thread = some n → σ.owners[n]? = some owner)
    (hengine : σ'.engine = engine) (howners : σ'.owners = σ.nextOwners engine owner a) :
    σ'.owners.length = σ'.engine.threads.length ∧
      (∀ k, owner ≠ some k → σ'.callsOf k = σ.callsOf k) ∧
      ∀ k, owner = some k → ∃ left right, σ.callsOf k = left ++ Submission.unanswered old ++ right ∧
        σ'.callsOf k = left ++ Submission.unanswered new ++ right := by
  have hlength := hchange.length
  obtain ⟨haligned', hzip⟩ := hchange.zip σ'.owners haligned howner
    (fun hlt => by rw [howners, nextOwners, if_pos hlt])
    (fun n hn hlt => by rw [howners, nextOwners, if_neg (by omega), if_pos hlt, hn])
    fun hsame => by rw [howners, nextOwners, if_neg (by omega), if_neg (by omega)]
  rw [hengine]
  refine ⟨haligned', fun k hk => ?_, fun k hk => ?_⟩
  · obtain ⟨left, right, hbefore, hafter⟩ := hzip.filterMap (ownCall k)
    rw [ownCall_slot, if_neg hk] at hbefore hafter
    unfold callsOf
    rw [hengine, hbefore, hafter]
  · obtain ⟨left, right, hbefore, hafter⟩ := hzip.filterMap (ownCall k)
    rw [ownCall_slot, if_pos hk] at hbefore hafter
    refine ⟨left, right, hbefore, ?_⟩
    unfold callsOf
    rw [hengine, hafter]

/-- A call is owned by the submission that opened it, or was owned before. -/
theorem mem_nextOwners {k : Nat} (h : some k ∈ σ.nextOwners engine owner a) : some k ∈ σ.owners ∨ owner = some k := by
  unfold nextOwners at h
  split at h
  · rcases List.mem_append.mp h with h | h
    · exact Or.inl h
    · exact Or.inr (List.mem_singleton.mp h).symm
  · split at h
    · split at h
      · exact Or.inl (List.mem_of_mem_eraseIdx h)
      · exact Or.inl h
    · exact Or.inl h

/-! ## Notifications -/

/-- The submission, notified or not. -/
def Submission.Alike (sub next : Submission usizeMax T E) : Prop := ∃ notified, next = { sub with notified := notified }

theorem Submission.Alike.refl (sub : Submission usizeMax T E) : sub.Alike sub := ⟨sub.notified, rfl⟩

/-- Waking a submission does not touch what makes it sound. -/
theorem Submission.Alike.sound (h : sub.Alike next) (hsound : sub.Sound engine) : next.Sound engine := by
  obtain ⟨notified, rfl⟩ := h
  exact ⟨hsound.placed, hsound.lease, hsound.ticket.waits, hsound.ticket.retired⟩

theorem Submission.Alike.inCall (h : sub.Alike next) {calls : List (Thread g.policy)}
    (hcalls : sub.InCall engine calls) : next.InCall engine calls := by
  obtain ⟨notified, rfl⟩ := h
  cases hcalls with
  | quiet point => exact .quiet (by exact point)
  | allocating point intake sampledMs taken charge => exact .allocating (by exact point) intake sampledMs taken charge
  | admitting point intake sampledMs ids charge => exact .admitting (by exact point) intake sampledMs ids charge
  | settling point decision effects sampledMs given queued =>
    exact .settling (by exact point) decision effects sampledMs given queued
  | claiming point holds p effects sampledMs => exact .claiming (by exact point) (by exact holds) p effects sampledMs

/-- Waking a submission does not change what it owns. -/
theorem Submission.Alike.owns (h : sub.Alike next) {calls : List (Thread g.policy)} {p : PermitId} :
    next.Owns calls p ↔ sub.Owns calls p := by
  obtain ⟨notified, rfl⟩ := h
  rfl

theorem Submission.Alike.token (h : sub.Alike next) : next.token = sub.token := by
  obtain ⟨notified, rfl⟩ := h
  rfl

/-- Delivering wakes sets permits of waiting submissions and changes nothing else. -/
theorem wake_alike (σ : HostSys g usizeMax T E) (wakers : List Waker) (k : Nat) :
    Option.Rel Submission.Alike σ.submissions[k]? (σ.wake wakers)[k]? := by
  unfold HostSys.wake
  rw [List.getElem?_map]
  cases σ.submissions[k]? with
  | none => exact .none
  | some sub =>
    refine .some ?_
    simp only
    split
    · exact ⟨true, rfl⟩
    · exact Submission.Alike.refl sub

theorem wake_at (hsub : σ.submissions[k]? = some sub) (wakers : List Waker) :
    ∃ woken, (σ.wake wakers)[k]? = some woken ∧ sub.Alike woken := by
  have hrel := wake_alike σ wakers k
  rw [hsub] at hrel
  generalize (σ.wake wakers)[k]? = there at hrel
  cases hrel with
  | some halike => exact ⟨_, rfl, halike⟩

/-- Delivering wakes moves no lease token. -/
theorem wake_tokens (σ : HostSys g usizeMax T E) (wakers : List Waker) :
    (σ.wake wakers).filterMap Submission.token = σ.submissions.filterMap Submission.token := by
  unfold HostSys.wake
  rw [List.filterMap_map]
  congr 1
  funext sub
  simp only [Function.comp_apply]
  split <;> rfl

theorem wake_nil (σ : HostSys g usizeMax T E) : σ.wake [] = σ.submissions := by
  simp [HostSys.wake]

/-! ## Steps of the engine -/

theorem mem_held {token : LeaseToken} (hsub : σ.submissions[k]? = some sub) (htoken : sub.token = some token) :
    token ∈ σ.held :=
  List.mem_append_right _ (List.mem_filterMap.mpr ⟨sub, List.mem_of_getElem? hsub, htoken⟩)

/-- What one owner has of a step of the engine, after it. -/
structure OwnStep (σ σ' : HostSys g usizeMax T E) (e : Event) (k : Nat) (sub next : Submission usizeMax T E) : Prop where
  before : σ.submissions[k]? = some sub
  after : σ'.submissions[k]? = some next
  sound : next.Sound σ'.engine
  inCall : next.InCall σ'.engine (σ'.callsOf k)
  owns : ∀ p, next.Owns (σ'.callsOf k) p → sub.Owns (σ.callsOf k) p ∨ handsOut p e = true

/-- A step of the engine for one owner: the other submissions are told at most that there is news. -/
theorem HostInv.engineStep (hinv : HostInv σ) (owner : Option Nat) (hstep : g.step σ.engine a = some (σ'.engine, e))
    (haligned : σ'.owners.length = σ'.engine.threads.length)
    (howned : ∀ k, some k ∈ σ'.owners → some k ∈ σ.owners ∨ owner = some k)
    (hcalls : ∀ k, owner ≠ some k → σ'.callsOf k = σ.callsOf k)
    (hlength : σ'.submissions.length = σ.submissions.length)
    (hothers : ∀ k : Nat, owner ≠ some k → Option.Rel Submission.Alike σ.submissions[k]? σ'.submissions[k]?)
    (hacts : ∀ k, owner = some k → ∃ sub next, OwnStep σ σ' e k sub next)
    (hcustody : InCustody σ'.engine.state σ'.held) : HostInv σ' := by
  have hsys := hinv.engine
  -- A submission that the step does not concern is what it was.
  have hother : ∀ k, owner ≠ some k → ∀ next, σ'.submissions[k]? = some next →
      ∃ sub, σ.submissions[k]? = some sub ∧ sub.Alike next := by
    intro k hk next hnext
    have hrel := hothers k hk
    rw [hnext] at hrel
    cases hsub : σ.submissions[k]? with
    | none =>
      rw [hsub] at hrel
      cases hrel
    | some sub =>
      rw [hsub] at hrel
      cases hrel with
      | some halike => exact ⟨sub, rfl, halike⟩
  -- What a submission has, it had, or the step gave it to its owner.
  have howns : ∀ (k : Nat) next p, σ'.submissions[k]? = some next → next.Owns (σ'.callsOf k) p →
      (∃ sub, σ.submissions[k]? = some sub ∧ sub.Owns (σ.callsOf k) p) ∨ (owner = some k ∧ handsOut p e = true) := by
    intro k next p hnext howns
    by_cases hk : owner = some k
    · obtain ⟨sub, next', hacted⟩ := hacts k hk
      obtain rfl := Option.some.inj (hnext.symm.trans hacted.after)
      rcases hacted.owns p howns with hbefore | hgiven
      · exact Or.inl ⟨sub, hacted.before, hbefore⟩
      · exact Or.inr ⟨hk, hgiven⟩
    · obtain ⟨sub, hsub, halike⟩ := hother k hk next hnext
      rw [hcalls k hk] at howns
      exact Or.inl ⟨sub, hsub, halike.owns.mp howns⟩
  have hfresh : ∀ (k : Nat) sub p, σ.submissions[k]? = some sub → sub.Owns (σ.callsOf k) p → handsOut p e ≠ true := by
    intro k sub p hsub howns hout
    have hgiven := howns.given (hinv.sound k sub hsub) (hinv.inCall k sub hsub)
    exact (hsys.step_handsOut hstep hout).awaited hgiven.spent hgiven.alone
  refine ⟨hsys.step hstep, haligned, fun k hk => ?_, fun k next hnext => ?_, fun k next hnext => ?_, hcustody,
    fun k k' next next' p hnext hnext' hp hp' => ?_⟩
  · rw [hlength]
    rcases howned k hk with hold | hnew
    · exact hinv.owned k hold
    · obtain ⟨sub, next, hacted⟩ := hacts k hnew
      exact (List.getElem?_eq_some_iff.mp hacted.before).1
  · by_cases hk : owner = some k
    · obtain ⟨sub, next', hacted⟩ := hacts k hk
      obtain rfl := Option.some.inj (hnext.symm.trans hacted.after)
      exact hacted.sound
    · obtain ⟨sub, hsub, halike⟩ := hother k hk next hnext
      refine halike.sound ((hinv.sound k sub hsub).step hsys hstep ?_)
      rintro token htoken sampledMs rfl
      refine hsys.step_spent hstep ((hcustody.exact token).mp (mem_held hnext ?_))
      rw [halike.token]
      exact htoken
  · by_cases hk : owner = some k
    · obtain ⟨sub, next', hacted⟩ := hacts k hk
      obtain rfl := Option.some.inj (hnext.symm.trans hacted.after)
      exact hacted.inCall
    · obtain ⟨sub, hsub, halike⟩ := hother k hk next hnext
      rw [hcalls k hk]
      exact halike.inCall ((hinv.inCall k sub hsub).step hsys hstep)
  · rcases howns k next p hnext hp with ⟨sub, hsub, hp⟩ | ⟨hk, hout⟩
    · rcases howns k' next' p hnext' hp' with ⟨sub', hsub', hp'⟩ | ⟨hk', hout⟩
      · exact hinv.distinct k k' sub sub' p hsub hsub' hp hp'
      · exact absurd hout (hfresh k sub p hsub hp)
    · rcases howns k' next' p hnext' hp' with ⟨sub', hsub', hp'⟩ | ⟨hk', _⟩
      · exact absurd hout (hfresh k' sub' p hsub' hp')
      · exact Option.some.inj (hk.symm.trans hk')

/-- The tokens that are held when one submission does something. -/
theorem held_set {subs : List (Submission usizeMax T E)} (hsub : subs[k]? = some sub)
    (next : Submission usizeMax T E) (tokens : List LeaseToken) :
    ∃ left right, tokens ++ subs.filterMap Submission.token = left ++ sub.token.toList ++ right ∧
      tokens ++ (subs.set k next).filterMap Submission.token = left ++ next.token.toList ++ right := by
  obtain ⟨left, right, hbefore, hafter⟩ := (SlotChange.written hsub next).filterMap Submission.token
  refine ⟨tokens ++ left, right, ?_, ?_⟩
  · rw [hbefore]
    simp
  · rw [hafter]
    simp

/-! ## The steps of a runtime -/

/-- An engine step of the host is one action of the engine, with the call owned by whoever opened it. -/
theorem engineStep_some {result : HostSys g usizeMax T E × Event} (h : σ.engineStep owner a = some result) :
    ∃ engine, g.step σ.engine a = some (engine, result.2) ∧
      result.1 = { σ with
        engine := engine
        owners := σ.nextOwners engine owner a
        submissions := σ.wake (Governor.owedBy σ.engine a).wake } := by
  obtain ⟨⟨engine, e⟩, hstep, rfl⟩ := Option.map_eq_some_iff.mp h
  exact ⟨engine, hstep, rfl⟩

/-- Nothing is owed by a step that continues no call. -/
theorem owedBy_of_thread (h : a.thread = none) : (Governor.owedBy σ.engine a).wake = [] := by
  unfold Governor.owedBy
  rw [h]
  rfl

/-- What a submission asks of the engine opens a call and continues none. -/
theorem Submission.Asks.thread {hears : Event → Submission usizeMax T E} (h : sub.Asks a hears) : a.thread = none := by
  cases h with
  | admission | claim | abandonment | phase => rfl
  | @drop hears lease a sampledMs has action dropped =>
    obtain ⟨p, custody⟩ := lease
    cases custody with
    | gone => simp [ExecutionLease.dropAction] at action
    | reserved | leased token =>
      obtain rfl := Option.some.inj action
      rfl

/-- A submission that waits for the engine makes no turn. -/
theorem Submission.turn_calls {around : Around} {t : Turn T E} {r : Request usizeMax T E} (hp : sub.Placed)
    (h : sub.turn around t = some r) : sub.caller.calls = false := by
  by_contra hcalls
  rw [Bool.not_eq_false] at hcalls
  obtain ⟨hworker, _⟩ := (hp.at _ (Submission.seeking_of_calls hcalls)).of_seeking
  cases hcaller : sub.caller with
  | admitting | claiming expired blocked =>
    cases t with
    | spawnReturned accepted => cases accepted <;> simp [Submission.turn, spawnReturned, hcaller] at h
    | caller | resume | poll | dropCaller => simp [Submission.turn, callerTurn, resume, poll, dropCaller, hcaller] at h
    | worker | start | discard | runtimeFailed | jobEnds =>
      simp [Submission.turn, workerTurn, start, discard, runtimeFailed, jobEnds, hworker] at h
    | pollJob now completedAt work => simp [Submission.turn, pollJob, hcaller, hworker] at h
  | _ => simp [hcaller, CallerPoint.calls] at hcalls

/-- A turn that makes no engine call. -/
theorem HostInv.goOn (hinv : HostInv σ) (hsub : σ.submissions[k]? = some sub)
    (hquiet : sub.caller.calls = false)
    (hgoes : Submission.GoesOn (σ.around settings) sub next) :
    HostInv { σ with submissions := σ.submissions.set k next } := by
  have hlt := (List.getElem?_eq_some_iff.mp hsub).1
  have hsound := hinv.sound k sub hsub
  obtain ⟨hbecomes, hcalls⟩ : sub.Becomes next sub.lease ∧ next.caller.calls = false := by
    cases hgoes with
    | comes h => exact ⟨h.toBecomes, h.calls.trans hquiet⟩
    | disarmed h calls => exact ⟨h, calls.trans hquiet⟩
  have hticket : next.TicketSound σ.engine := by
    cases hgoes with
    | comes h => exact hsound.ticket.same hbecomes fun hguards => by rwa [h.guards] at hguards
    | @disarmed t h calls armed holds ended =>
      refine ⟨fun t' hticket => ?_, fun t' hticket _ => ?_⟩
      · rw [hbecomes.ticket] at hticket
        rw [hbecomes.plan]
        exact hsound.ticket.waits t' hticket
      · rw [hbecomes.ticket, holds] at hticket
        obtain rfl := Option.some.inj hticket
        exact hinv.engine.retired_of_status (hsound.ticket.waits t holds).spent ended
  have hnew : next.Sound σ.engine := by
    refine ⟨hbecomes.placed, fun lease hlease => ?_, hticket⟩
    rw [hbecomes.lease] at hlease
    rw [hbecomes.plan]
    exact hsound.lease lease hlease
  have hnone : σ.callsOf k = [] := Submission.quiet_calls hquiet (hinv.inCall k sub hsub)
  have hset : ∀ (k' : Nat) sub', (σ.submissions.set k next)[k']? = some sub' →
      (k' = k ∧ sub' = next) ∨ σ.submissions[k']? = some sub' := by
    intro k' sub' hsub'
    by_cases hk : k = k'
    · subst hk
      rw [List.getElem?_set_self hlt] at hsub'
      exact Or.inl ⟨rfl, (Option.some.inj hsub').symm⟩
    · rw [List.getElem?_set_ne hk] at hsub'
      exact Or.inr hsub'
  have howns : ∀ (k' : Nat) sub' p, (σ.submissions.set k next)[k']? = some sub' → sub'.Owns (σ.callsOf k') p →
      ∃ sub, σ.submissions[k']? = some sub ∧ sub.Owns (σ.callsOf k') p := by
    intro k' sub' p hsub' howns
    rcases hset k' sub' hsub' with ⟨rfl, rfl⟩ | hold
    · refine ⟨sub, hsub, ?_⟩
      unfold Submission.Owns at howns ⊢
      rwa [hbecomes.lease] at howns
    · exact ⟨sub', hold, howns⟩
  refine ⟨hinv.engine, hinv.aligned, fun k' hk' => ?_, fun k' sub' hsub' => ?_, fun k' sub' hsub' => ?_, ?_,
    fun k₁ k₂ sub₁ sub₂ p hsub₁ hsub₂ hp₁ hp₂ => ?_⟩
  · rw [List.length_set]
    exact hinv.owned k' hk'
  · rcases hset k' sub' hsub' with ⟨rfl, rfl⟩ | hold
    · exact hnew
    · exact hinv.sound k' sub' hold
  · rcases hset k' sub' hsub' with ⟨rfl, rfl⟩ | hold
    · show sub'.InCall σ.engine (σ.callsOf k')
      rw [hnone]
      exact .quiet hcalls
    · exact hinv.inCall k' sub' hold
  · obtain ⟨left, right, hbefore, hafter⟩ := held_set hsub next σ.tokens
    have hcustody := hinv.custody
    unfold held at hcustody ⊢
    rw [hbefore] at hcustody
    rw [hafter]
    have hsame : next.token = sub.token := by
      unfold Submission.token
      rw [hbecomes.lease]
    rwa [hsame]
  · obtain ⟨sub₁', hsub₁', hp₁'⟩ := howns k₁ sub₁ p hsub₁ hp₁
    obtain ⟨sub₂', hsub₂', hp₂'⟩ := howns k₂ sub₂ p hsub₂ hp₂
    exact hinv.distinct k₁ k₂ sub₁' sub₂' p hsub₁' hsub₂' hp₁' hp₂'

/-- A turn that calls the engine. -/
theorem HostInv.asks (hinv : HostInv σ) (hsub : σ.submissions[k]? = some sub) (hquiet : sub.caller.calls = false)
    {hears : Event → Submission usizeMax T E} (hasks : sub.Asks a hears)
    (hstep : g.step σ.engine a = some (engine, e)) :
    HostInv { σ with
      engine := engine
      owners := σ.nextOwners engine (some k) a
      submissions := σ.submissions.set k (hears e) } := by
  have hlt := (List.getElem?_eq_some_iff.mp hsub).1
  have hsys := hinv.engine
  obtain ⟨old, new, hcalls, hchange⟩ := step_calls hstep
  have halone := hasks.thread
  generalize hσ' : ({ σ with
      engine := engine
      owners := σ.nextOwners engine (some k) a
      submissions := σ.submissions.set k (hears e) } : HostSys g usizeMax T E) = σ'
  have hengine : σ'.engine = engine := by rw [← hσ']
  have hsubs : σ'.submissions = σ.submissions.set k (hears e) := by rw [← hσ']
  obtain ⟨haligned, hothers, hown⟩ := callsOf_step σ' (some k) hinv.aligned hchange
    (by simp [halone]) hengine (by rw [← hσ'])
  obtain ⟨left, right, hbefore, hafter⟩ := hown k rfl
  rw [halone] at hchange
  obtain rfl := hchange.old_none
  have hnone : σ.callsOf k = [] := Submission.quiet_calls hquiet (hinv.inCall k sub hsub)
  obtain ⟨rfl, _, rfl⟩ : left = [] ∧ Submission.unanswered (none : Option (Thread g.policy)) = [] ∧ right = [] := by
    rw [hnone] at hbefore
    simpa using hbefore.symm
  have hafter' : σ'.callsOf k = Submission.unanswered new := by
    rw [hafter]
    simp
  have hacted := Submission.acted_asks (hinv.sound k sub hsub) hquiet hsys hasks hstep hcalls
  refine hinv.engineStep (some k) (by rw [hengine]; exact hstep) haligned (fun k' hk' => ?_) hothers ?_ ?_ ?_ ?_
  · rw [← hσ'] at hk'
    exact mem_nextOwners hk'
  · rw [hsubs, List.length_set]
  · intro k' hk'
    rw [hsubs, List.getElem?_set_ne (fun heq => hk' (by rw [heq]))]
    cases σ.submissions[k']? with
    | none => exact .none
    | some sub' => exact .some (Submission.Alike.refl sub')
  · intro k' hk'
    obtain rfl := Option.some.inj hk'
    refine ⟨sub, hears e, hsub, by rw [hsubs, List.getElem?_set_self hlt], by rw [hengine]; exact hacted.sound,
      by rw [hengine, hafter']; exact hacted.inCall, fun p hp => ?_⟩
    rw [hafter'] at hp
    rw [hnone]
    exact hacted.owns p hp
  · obtain ⟨left', right', hbefore', hafter''⟩ := held_set hsub (hears e) σ.tokens
    have hcustody := hinv.custody
    unfold held at hcustody ⊢
    rw [hengine, hsubs, show σ'.tokens = σ.tokens by rw [← hσ'], hafter'']
    rw [hbefore'] at hcustody
    exact hcustody.step hsys hstep hacted.shifts

theorem modify_eq_set {subs : List (Submission usizeMax T E)} (h : subs[k]? = some sub)
    (f : Submission usizeMax T E → Submission usizeMax T E) : subs.modify k f = subs.set k (f sub) := by
  rw [List.modify_eq_set_getElem?, h]
  rfl

/-- A call of a submission goes on. -/
theorem HostInv.continues (hinv : HostInv σ) {i : Nat} (hthread : a.thread = some i)
    (howner : σ.owners[i]? = some (some k)) (hcalm : a.panicked ≠ some true)
    (hstep : g.step σ.engine a = some (engine, e)) :
    HostInv { σ with
      engine := engine
      owners := σ.nextOwners engine (some k) a
      submissions := (σ.wake (Governor.owedBy σ.engine a).wake).modify k fun sub => sub.hears e } := by
  have hsys := hinv.engine
  obtain ⟨old, new, hcalls, hchange⟩ := step_calls hstep
  rw [hthread] at hchange
  obtain ⟨th, rfl, hat⟩ := hchange.old_some
  have hlt : k < σ.submissions.length := hinv.owned k (List.mem_of_getElem? howner)
  have hsub := List.getElem?_eq_getElem hlt
  generalize σ.submissions[k] = sub at hsub
  generalize hwoken : σ.wake (Governor.owedBy σ.engine a).wake = woken
  have halikes : ∀ k' : Nat, Option.Rel Submission.Alike σ.submissions[k']? woken[k']? := by
    rw [← hwoken]
    exact wake_alike σ _
  -- The submission as it is when it hears: the step may have notified it.
  obtain ⟨sub', hsub', halike⟩ := wake_at hsub (Governor.owedBy σ.engine a).wake
  rw [hwoken] at hsub'
  rw [modify_eq_set hsub']
  generalize hσ' : ({ σ with
      engine := engine
      owners := σ.nextOwners engine (some k) a
      submissions := woken.set k (sub'.hears e) } : HostSys g usizeMax T E) = σ'
  have hengine : σ'.engine = engine := by rw [← hσ']
  have hsubs : σ'.submissions = woken.set k (sub'.hears e) := by rw [← hσ']
  have hlength : woken.length = σ.submissions.length := by rw [← hwoken]; simp [HostSys.wake]
  rw [← hthread] at hchange
  obtain ⟨haligned, hothers, hown⟩ := callsOf_step σ' (some k) hinv.aligned hchange
    (by rw [hthread]; rintro n hn; obtain rfl := Option.some.inj hn; exact howner) hengine (by rw [← hσ'])
  obtain ⟨left, right, hbefore, hafter⟩ := hown k rfl
  have hin := halike.inCall (hinv.inCall k sub hsub)
  rw [hbefore] at hin
  have hacted := Submission.acted_continues (halike.sound (hinv.sound k sub hsub)) hin hsys hstep hcalls hthread hat hcalm
  refine hinv.engineStep (some k) (by rw [hengine]; exact hstep) haligned (fun k' hk' => ?_) hothers ?_ ?_ ?_ ?_
  · rw [← hσ'] at hk'
    exact mem_nextOwners hk'
  · rw [hsubs, List.length_set, hlength]
  · intro k' hk'
    rw [hsubs, List.getElem?_set_ne (fun heq => hk' (by rw [heq]))]
    exact halikes k'
  · intro k' hk'
    obtain rfl := Option.some.inj hk'
    refine ⟨sub, sub'.hears e, hsub, by rw [hsubs, List.getElem?_set_self (by omega)], by rw [hengine]; exact hacted.sound,
      by rw [hengine, hafter]; exact hacted.inCall, fun p hp => ?_⟩
    rw [hafter] at hp
    rw [hbefore, ← halike.owns]
    exact hacted.owns p hp
  · obtain ⟨left', right', hbefore', hafter'⟩ := held_set hsub' (sub'.hears e) σ.tokens
    have hcustody := hinv.custody
    unfold held at hcustody ⊢
    rw [hengine, hsubs, show σ'.tokens = σ.tokens by rw [← hσ'], hafter']
    rw [← wake_tokens σ (Governor.owedBy σ.engine a).wake, hwoken, hbefore'] at hcustody
    exact hcustody.step hsys hstep hacted.shifts

/-- What the tokens of others come to when somebody else's call goes on. -/
theorem shifts_heard (τ : g.System) (σ' : HostSys g usizeMax T E)
    (hspends : ∀ token sampledMs, a = .releaseLeased token sampledMs → token ∈ σ'.tokens)
    (hstep : g.step τ a = some (engine, e)) :
    ∃ left right old new, σ'.tokens = left ++ Option.toList old ++ right ∧
      (σ'.heard none a e).tokens = left ++ Option.toList new ++ right ∧ Shifts a e old new := by
  by_cases hminted : ∃ p token, e = .advanced p (.leased token)
  · obtain ⟨p, token, rfl⟩ := hminted
    refine ⟨σ'.tokens, [], none, some token, by simp, by simp [heard], .minted p token⟩
  · push Not at hminted
    by_cases hspent : ∃ token sampledMs, a = .releaseLeased token sampledMs
    · obtain ⟨token, sampledMs, rfl⟩ := hspent
      obtain ⟨left, right, _, hbefore, hafter⟩ := List.exists_erase_eq (hspends token sampledMs rfl)
      refine ⟨left, right, some token, none, by simp [hbefore], ?_, .spent token sampledMs⟩
      have hheard : (σ'.heard none (.releaseLeased token sampledMs) e).tokens = σ'.tokens.erase token := by
        unfold heard
        split <;> simp_all
      rw [hheard, hafter]
      simp
    · push Not at hspent
      refine ⟨σ'.tokens, [], none, none, by simp, ?_, .kept none hspent hminted⟩
      unfold heard
      split <;> simp_all

/-- What the engine tells somebody else changes the tokens alone. -/
theorem heard_none (τ : HostSys g usizeMax T E) (a : Action) (e : Event) :
    (τ.heard none a e).engine = τ.engine ∧ (τ.heard none a e).owners = τ.owners ∧
      (τ.heard none a e).submissions = τ.submissions := by
  unfold heard
  split <;> simp_all

/-- Somebody else's call. -/
theorem HostInv.others (hinv : HostInv σ) (howner : ∀ n, a.thread = some n → σ.owners[n]? = some none)
    (hspends : ∀ token sampledMs, a = .releaseLeased token sampledMs → token ∈ σ.tokens)
    (hstep : g.step σ.engine a = some (engine, e)) :
    HostInv (({ σ with
      engine := engine
      owners := σ.nextOwners engine none a
      submissions := σ.wake (Governor.owedBy σ.engine a).wake } : HostSys g usizeMax T E).heard none a e) := by
  have hsys := hinv.engine
  obtain ⟨old, new, hcalls, hchange⟩ := step_calls hstep
  obtain ⟨left, right, held, held', hbefore, hafter, hshifts⟩ := shifts_heard σ.engine
    ({ σ with
      engine := engine
      owners := σ.nextOwners engine none a
      submissions := σ.wake (Governor.owedBy σ.engine a).wake } : HostSys g usizeMax T E) hspends hstep
  obtain ⟨hengine, howners, hsubs⟩ := heard_none ({ σ with
      engine := engine
      owners := σ.nextOwners engine none a
      submissions := σ.wake (Governor.owedBy σ.engine a).wake } : HostSys g usizeMax T E) a e
  generalize ({ σ with
      engine := engine
      owners := σ.nextOwners engine none a
      submissions := σ.wake (Governor.owedBy σ.engine a).wake } : HostSys g usizeMax T E).heard none a e = σ'
    at hafter hengine howners hsubs
  obtain ⟨haligned, hothers, _⟩ := callsOf_step σ' none hinv.aligned hchange howner hengine howners
  refine hinv.engineStep none (by rw [hengine]; exact hstep) haligned (fun k hk => ?_) hothers ?_ ?_ ?_ ?_
  · rw [howners] at hk
    exact mem_nextOwners hk
  · rw [hsubs]
    simp [HostSys.wake]
  · intro k _
    rw [hsubs]
    exact wake_alike σ _ k
  · intro k hk
    simp at hk
  · have hcustody := hinv.custody
    unfold HostSys.held at hcustody ⊢
    rw [hengine, hsubs, hafter, wake_tokens]
    have hold : σ.tokens = left ++ held.toList ++ right := hbefore
    rw [hold] at hcustody
    rw [List.append_assoc (left ++ held'.toList)]
    rw [List.append_assoc (left ++ held.toList)] at hcustody
    exact hcustody.step hsys hstep hshifts

/-- A new submission has nothing yet. -/
theorem HostInv.submitted (hinv : HostInv σ) (hlease : sub.lease = none) (hticket : sub.ticket = none)
    (hcaller : sub.caller = .checking) (hworker : sub.worker = .idle) :
    HostInv { σ with submissions := σ.submissions ++ [sub] } := by
  have hcases : ∀ (k : Nat) sub', (σ.submissions ++ [sub])[k]? = some sub' →
      σ.submissions[k]? = some sub' ∨ (k = σ.submissions.length ∧ sub' = sub) := by
    intro k sub' hsub'
    rcases Nat.lt_or_ge k σ.submissions.length with hlt | hge
    · rw [List.getElem?_append_left hlt] at hsub'
      exact Or.inl hsub'
    · rw [List.getElem?_append_right hge] at hsub'
      obtain ⟨hlt, hget⟩ := List.getElem?_eq_some_iff.mp hsub'
      simp only [List.length_singleton] at hlt
      exact Or.inr ⟨by omega, by rw [← hget]; simp⟩
  -- Nobody owned a call under the new name.
  have hnobody : σ.callsOf σ.submissions.length = [] := by
    refine List.filterMap_eq_nil_iff.mpr fun x hx => ?_
    unfold ownCall
    rw [if_neg]
    simp only [Bool.and_eq_true, decide_eq_true_eq, not_and]
    intro hown
    have howner := hinv.owned σ.submissions.length (hown ▸ (List.of_mem_zip hx).1)
    omega
  have howns : ∀ (k : Nat) sub' p, (σ.submissions ++ [sub])[k]? = some sub' → sub'.Owns (σ.callsOf k) p →
      σ.submissions[k]? = some sub' := by
    intro k sub' p hsub' howns
    rcases hcases k sub' hsub' with hold | ⟨rfl, rfl⟩
    · exact hold
    · rw [hnobody] at howns
      rcases howns with ⟨lease, hl, _⟩ | ⟨_, _, hmem⟩
      · rw [hlease] at hl
        simp at hl
      · simp at hmem
  refine ⟨hinv.engine, hinv.aligned, fun k hk => ?_, fun k sub' hsub' => ?_, fun k sub' hsub' => ?_, ?_,
    fun k k' sub₁ sub₂ p hsub₁ hsub₂ hp₁ hp₂ => ?_⟩
  · have hlt := hinv.owned k hk
    simp only [List.length_append, List.length_singleton]
    omega
  · rcases hcases k sub' hsub' with hold | ⟨rfl, rfl⟩
    · exact hinv.sound k sub' hold
    · refine ⟨?_, fun lease hl => by simp [hlease] at hl, fun t ht => by simp [hticket] at ht,
        fun t ht => by simp [hticket] at ht⟩
      unfold Submission.Placed
      rw [hlease, hcaller, hworker]
      exact .seeking
  · rcases hcases k sub' hsub' with hold | ⟨rfl, rfl⟩
    · exact hinv.inCall k sub' hold
    · show sub'.InCall σ.engine (σ.callsOf σ.submissions.length)
      rw [hnobody]
      exact .quiet (by rw [hcaller]; rfl)
  · have hcustody := hinv.custody
    unfold held at hcustody ⊢
    rw [List.filterMap_append]
    simpa [Submission.token_none hlease] using hcustody
  · exact hinv.distinct k k' sub₁ sub₂ p (howns k sub₁ p hsub₁ hp₁) (howns k' sub₂ p hsub₂ hp₂) hp₁ hp₂

theorem open_fresh {plan : ValidatedDispatchPlan usizeMax} {path : RunPath} {opts : SubmitOptions}
    {responseBy : Option Nat} {waker : Waker} {now : Nat}
    (h : Submission.open settings plan path opts responseBy waker now = .ok sub) :
    sub.plan = plan ∧ sub.waker = waker ∧ sub.lease = none ∧ sub.ticket = none ∧ sub.caller = .checking ∧
      sub.worker = .idle := by
  unfold Submission.open at h
  generalize (if path.bounds then responseBy else none) = bound at h
  simp only at h
  split at h
  · simp at h
  · split at h
    · simp at h
    · cases hnew : AcquisitionArbiter.new settings.instantMax opts (bound <|> plan.absoluteDeadline) now with
      | error error =>
        rw [hnew] at h
        simp [Except.map] at h
      | ok arbiter =>
        rw [hnew] at h
        obtain rfl := Except.ok.inj h
        exact ⟨rfl, rfl, rfl, rfl, rfl, rfl⟩

/-- A submission as it is made: it holds nothing, and is about to look at its bounds. -/
structure Submission.Fresh (sub : Submission usizeMax T E) : Prop where
  lease : sub.lease = none
  ticket : sub.ticket = none
  caller : sub.caller = .checking
  worker : sub.worker = .idle

/-- The plan of the submission is one that a preflight of its runtime made. -/
def Submission.Planned (g : Governor) (settings : Settings) (sub : Submission usizeMax T E) : Prop :=
  ∃ (path : RunPath) (spec : TaskSpec) (opts : SubmitOptions),
    ValidatedDispatchPlan.preflight usizeMax spec opts (g.policy.classPolicy spec.taskClass) path.allowed path.dispatch
      g.policy settings.cpuPhysicalDomain = .ok sub.plan

/-- A submission that is accepted enters the host in its first standing. -/
theorem submit_fresh {path : RunPath} {spec : TaskSpec} {opts : SubmitOptions} {responseBy : Option Nat} {waker : Waker}
    {now : Nat} {ev : HostEvent} (h : σ.submit settings path spec opts responseBy waker now = some (σ', ev)) :
    (σ' = σ ∧ ∃ error, ev = .refused error) ∨
      ∃ sub : Submission usizeMax T E, sub.Fresh ∧ sub.Planned g settings ∧
        σ' = { σ with submissions := σ.submissions ++ [sub] } ∧ ev = .progressed := by
  unfold HostSys.submit at h
  split at h
  · simp at h
  · split at h
    · obtain ⟨rfl, rfl⟩ := Prod.mk.inj (Option.some.inj h)
      exact Or.inl ⟨rfl, _, rfl⟩
    · rename_i sub hopen
      obtain ⟨rfl, rfl⟩ := Prod.mk.inj (Option.some.inj h)
      cases hplan : σ.plan settings path spec opts with
      | error error =>
        rw [hplan] at hopen
        simp [Except.bind] at hopen
      | ok plan =>
        rw [hplan] at hopen
        obtain ⟨rfl, _, hlease, hticket, hcaller, hworker⟩ := open_fresh hopen
        exact Or.inr ⟨sub, ⟨hlease, hticket, hcaller, hworker⟩, ⟨path, spec, opts, hplan⟩, rfl, rfl⟩

/-- What a step of a runtime can do. -/
inductive HostMove (settings : Settings) (σ : HostSys g usizeMax T E) :
    HostAction T E → HostSys g usizeMax T E → HostEvent → Prop
  | fires (token : CancellationToken) :
      HostMove settings σ (.fire token) { σ with fired := token :: σ.fired } .progressed
  | refuses {act : HostAction T E} (quiet : ∀ k t, act ≠ .turn k t) (error : GovernorError) :
      HostMove settings σ act σ (.refused error)
  | joins {act : HostAction T E} {sub : Submission usizeMax T E} (quiet : ∀ k t, act ≠ .turn k t) (fresh : sub.Fresh)
      (planned : sub.Planned g settings) :
      HostMove settings σ act { σ with submissions := σ.submissions ++ [sub] } .progressed
  | goes {k : Nat} {t : Turn T E} {sub next : Submission usizeMax T E} (has : σ.submissions[k]? = some sub)
      (turn : sub.turn (σ.around settings) t = some (.goOn next)) :
      HostMove settings σ (.turn k t) { σ with submissions := σ.submissions.set k next } .progressed
  | asks {k : Nat} {t : Turn T E} {sub : Submission usizeMax T E} {a : Action} {e : Event} {engine : g.System}
      {hears : Event → Submission usizeMax T E} (has : σ.submissions[k]? = some sub)
      (turn : sub.turn (σ.around settings) t = some (.ask a hears)) (step : g.step σ.engine a = some (engine, e)) :
      HostMove settings σ (.turn k t)
        { σ with
          engine := engine
          owners := σ.nextOwners engine (some k) a
          submissions := (σ.wake (Governor.owedBy σ.engine a).wake).set k (hears e) } (.engine a e)
  | outside {a : Action} {e : Event} {engine : g.System} (permits : σ.permits a = true)
      (step : g.step σ.engine a = some (engine, e)) :
      HostMove settings σ (.outside a)
        (({ σ with
          engine := engine
          owners := σ.nextOwners engine (σ.ownerOf a) a
          submissions := σ.wake (Governor.owedBy σ.engine a).wake } : HostSys g usizeMax T E).heard (σ.ownerOf a) a e)
        (.engine a e)

/-- Every host action is one of the moves the invariant is proved for. -/
theorem hostStep_move {act : HostAction T E} {ev : HostEvent} (h : hostStep g settings σ act = some (σ', ev)) :
    HostMove settings σ act σ' ev := by
  cases act with
  | fire token =>
    obtain ⟨rfl, rfl⟩ := Prod.mk.inj (Option.some.inj h)
    exact .fires token
  | submit path spec opts responseBy waker now =>
    rcases submit_fresh h with ⟨rfl, error, rfl⟩ | ⟨sub, hfresh, hplanned, rfl, rfl⟩
    · exact .refuses (by simp) error
    · exact .joins (by simp) hfresh hplanned
  | turn k t =>
    simp only [hostStep] at h
    split at h
    · simp at h
    · rename_i sub hsub
      obtain ⟨r, hturn, hperform⟩ := Option.bind_eq_some_iff.mp h
      cases r with
      | goOn next =>
        obtain ⟨rfl, rfl⟩ := Prod.mk.inj (Option.some.inj hperform)
        exact .goes hsub hturn
      | ask a hears =>
        obtain ⟨⟨σ₁, e⟩, hengine, heq⟩ := Option.map_eq_some_iff.mp hperform
        obtain ⟨engine, hstep, hσ₁⟩ := engineStep_some hengine
        obtain ⟨rfl, rfl⟩ := Prod.mk.inj heq
        simp only at hσ₁
        subst hσ₁
        exact .asks hsub hturn hstep
  | outside a =>
    simp only [hostStep] at h
    split at h
    · rename_i hpermits
      obtain ⟨⟨σ₁, e⟩, hengine, heq⟩ := Option.map_eq_some_iff.mp h
      obtain ⟨engine, hstep, hσ₁⟩ := engineStep_some hengine
      obtain ⟨rfl, rfl⟩ := Prod.mk.inj heq
      simp only at hσ₁
      subst hσ₁
      exact .outside hpermits hstep
    · simp at h

/-- The call an engine step continues has an owner. -/
theorem HostInv.owner_of_thread (hinv : HostInv σ) (hstep : g.step σ.engine a = some (engine, e)) {n : Nat}
    (hn : a.thread = some n) : σ.owners[n]? = some (σ.ownerOf a) := by
  obtain ⟨old, new, _, hchange⟩ := step_calls hstep
  rw [hn] at hchange
  obtain ⟨th, _, hat⟩ := hchange.old_some
  have hlt : n < σ.owners.length := by
    rw [hinv.aligned]
    exact (List.getElem?_eq_some_iff.mp hat).1
  rw [HostSys.ownerOf, hn, Option.bind_some, List.getElem?_eq_getElem hlt]
  rfl

/-- Every step of a runtime keeps the invariant. -/
theorem HostInv.step (hinv : HostInv σ) {act : HostAction T E} {ev : HostEvent}
    (h : hostStep g settings σ act = some (σ', ev)) : HostInv σ' := by
  cases hostStep_move h with
  | fires token => exact ⟨hinv.engine, hinv.aligned, hinv.owned, hinv.sound, hinv.inCall, hinv.custody, hinv.distinct⟩
  | refuses quiet error => exact hinv
  | joins quiet fresh => exact hinv.submitted fresh.lease fresh.ticket fresh.caller fresh.worker
  | goes has turn =>
    have hplaced := (hinv.sound _ _ has).placed
    exact hinv.goOn has (Submission.turn_calls hplaced turn) (Submission.turned hplaced turn)
  | asks has turn step =>
    have hplaced := (hinv.sound _ _ has).placed
    have hturned := Submission.turned hplaced turn
    rw [owedBy_of_thread hturned.thread, wake_nil]
    exact hinv.asks has (Submission.turn_calls hplaced turn) hturned step
  | @outside a e engine permits step =>
    have howner := fun n (hn : a.thread = some n) => hinv.owner_of_thread step hn
    cases hown : σ.ownerOf a with
    | none =>
      refine hinv.others (fun n hn => by rw [howner n hn, hown]) ?_ step
      rintro token sampledMs rfl
      simpa [HostSys.permits] using permits
    | some k =>
      obtain ⟨i, hthread⟩ : ∃ i, a.thread = some i := by
        cases hthread : a.thread with
        | none => simp [HostSys.ownerOf, hthread] at hown
        | some i => exact ⟨i, rfl⟩
      have hcalm : a.panicked ≠ some true := by
        intro hpanicked
        cases a with
        | settle i panicked | finishClaim i panicked =>
          obtain rfl : panicked = true := Option.some.inj hpanicked
          simp [HostSys.permits, hown] at permits
        | _ => simp [Action.panicked] at hpanicked
      refine hinv.continues hthread ?_ hcalm step
      rw [howner i hthread, hown]

/-- The invariant holds in every state a runtime can reach. -/
theorem HostInv.of_reachable (h : HostReachable g settings σ) : HostInv σ :=
  Runs.Reachable.invariant h (hostInv_init g usizeMax T E) fun _ _ _ _ hinv hstep => hinv.step hstep

/-- What every step keeps, given the invariant, a run keeps. -/
theorem HostInv.along {P : HostSys g usizeMax T E → Prop} (hinv : HostInv σ) (hP : P σ)
    {trace : List (HostAction T E × HostEvent)} (hrun : Runs.Run (hostStep g settings) σ trace σ')
    (hkeeps : ∀ {τ υ act ev}, HostInv τ → P τ → hostStep g settings τ act = some (υ, ev) → P υ) : P σ' := by
  refine hrun.invariant_of (I := HostInv) (Q := fun _ => True) (fun _ _ _ _ hinv hstep => hinv.step hstep) ?_
    (fun _ _ => trivial) hinv hP
  intro τ act υ ev hinvτ hPτ _ hstep
  exact hkeeps hinvτ hPτ hstep

end Taskmesh.Host
