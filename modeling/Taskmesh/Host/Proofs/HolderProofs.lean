import Taskmesh.Engine.Proofs.ConservationProofs
import Taskmesh.Host.Proofs.RuntimeProofs

/-!
# Who holds what

In every state a runtime can reach: a dispatched permit has one holder, the work that runs holds its permit, and
an acquisition that is over has left nothing behind.
-/

namespace Taskmesh.Host

open Std ExtTreeMap Governor

variable {g : Governor} {usizeMax : Nat} {T E : Type} {settings : Settings} {σ : HostSys g usizeMax T E}
  {k : Nat} {sub : Submission usizeMax T E} {token : LeaseToken}

/-! ## Running work -/

/-- The job may be running: its worker has it, or its caller polls it. -/
def Submission.Occupied (sub : Submission usizeMax T E) : Prop :=
  sub.worker.holds = true ∨ sub.caller.standing = .executing

instance (sub : Submission usizeMax T E) : Decidable sub.Occupied :=
  inferInstanceAs (Decidable (sub.worker.holds = true ∨ sub.caller.standing = .executing))

/-- Whoever runs a job holds the token of its permit. -/
theorem Submission.Placed.token_of_occupied (hp : sub.Placed) (h : sub.Occupied) :
    ∃ p token, sub.lease = some ⟨p, .leased token⟩ := by
  rcases h with hholds | hexecutes
  · obtain ⟨_, p, token, hlease⟩ := Placement.of_holds hp hholds
    exact ⟨p, token, hlease⟩
  · obtain ⟨_, p, token, hlease⟩ := (hp.at _ hexecutes).of_executing
    exact ⟨p, token, hlease⟩

/-- What a token that a submission holds says. -/
theorem Submission.lease_of_token (h : sub.token = some token) : ∃ p, sub.lease = some ⟨p, .leased token⟩ := by
  unfold Submission.token at h
  obtain ⟨⟨p, custody⟩, hlease, htoken⟩ := Option.bind_eq_some_iff.mp h
  cases custody with
  | leased token' =>
    obtain rfl := Option.some.inj htoken
    exact ⟨p, hlease⟩
  | reserved | gone => simp [ExecutionLease.token] at htoken

/-- The permit behind a token that a submission holds. -/
theorem HostInv.permit_of_token (hinv : HostInv σ) (hsub : σ.submissions[k]? = some sub) (h : sub.token = some token) :
    sub.lease = some ⟨token.permitId, .leased token⟩ ∧
      ∃ record, σ.engine.state.permits[token.permitId]? = some record ∧ record.leaseNonce = some token.nonce ∧
        record.capabilities = sub.plan.requirements := by
  obtain ⟨p, hlease⟩ := Submission.lease_of_token h
  have hsound := (hinv.sound k sub hsub).lease _ hlease
  obtain ⟨rfl, record, found, hnonce⟩ := hsound.leased token rfl
  exact ⟨hlease, record, found, hnonce, hsound.given.charged record found⟩

/-! ## The pools -/

/-- The submission holds a dispatched permit that is charged to the pool. -/
def Submission.charges (id : CapabilityId) (sub : Submission usizeMax T E) : Bool :=
  sub.token.isSome && decide (id ∈ sub.plan.requirements.ids)

theorem length_filterMap_tokens (subs : List (Submission usizeMax T E)) (id : CapabilityId) :
    ((subs.filter fun sub => sub.charges id).filterMap Submission.token).length =
      subs.countP fun sub => sub.charges id := by
  rw [List.countP_eq_length_filter]
  induction subs with
  | nil => rfl
  | cons sub rest ih =>
    cases hcharges : sub.charges id with
    | false => simpa [List.filter_cons, hcharges] using ih
    | true =>
      have hsome : sub.token.isSome = true := by
        unfold Submission.charges at hcharges
        simp only [Bool.and_eq_true] at hcharges
        exact hcharges.1
      obtain ⟨token, htoken⟩ := Option.isSome_iff_exists.mp hsome
      simp [hcharges, htoken, ih]

/-- The submissions that hold permits of a pool are at most as many as its occupants. -/
theorem HostInv.charges_le (hinv : HostInv σ) (id : CapabilityId) :
    (σ.submissions.countP fun sub => sub.charges id) ≤ occupants σ.engine.state.permits id := by
  rw [← length_filterMap_tokens]
  have hsublist : ((σ.submissions.filter fun sub => sub.charges id).filterMap Submission.token).Sublist σ.held :=
    (List.filter_sublist.filterMap Submission.token).trans (List.sublist_append_right _ _)
  generalize hlist : (σ.submissions.filter fun sub => sub.charges id).filterMap Submission.token = tokens at hsublist ⊢
  have hnodup : (tokens.map LeaseToken.permitId).Nodup := by
    refine (hinv.custody.nodup.sublist hsublist).map_on fun a ha b hb hsame => ?_
    have hleases := (hinv.custody.exact a).mp (hsublist.mem ha)
    exact hleases.unique ((hinv.custody.exact b).mp (hsublist.mem hb)) hsame
  have hsum := sum_map_le_sumBy (f := fun _ (record : PermitRecord) => if id ∈ record.capabilities.ids then 1 else 0)
    (w := fun _ => 1) hnodup fun token hmem => by
      rw [← hlist] at hmem
      obtain ⟨sub, hsub, htoken⟩ := List.mem_filterMap.mp hmem
      obtain ⟨hsub, hcharges⟩ := List.mem_filter.mp hsub
      obtain ⟨k, hk⟩ := List.mem_iff_getElem?.mp hsub
      obtain ⟨_, record, found, _, hcharge⟩ := hinv.permit_of_token hk htoken
      refine ⟨record, found, ?_⟩
      unfold Submission.charges at hcharges
      simp only [Bool.and_eq_true, decide_eq_true_eq] at hcharges
      rw [hcharge, if_pos hcharges.2]
  refine Nat.le_trans (Nat.le_of_eq ?_) hsum
  simp

/-- No more submissions charge a bounded pool than it has room for. -/
theorem HostInv.charges_within (hinv : HostInv σ) {id : CapabilityId} {limit : Nat} (hlimit : PoolLimit g id limit) :
    (σ.submissions.countP fun sub => sub.charges id) ≤ limit := by
  obtain ⟨hexact, hwithin⟩ := hinv.engine.state.capacity.pools id limit hlimit
  rw [hexact.inUse] at hwithin
  exact Nat.le_trans (hinv.charges_le id) hwithin

namespace Sample

open Taskmesh.Sample

def hostSettings : Settings := ⟨1000, physicalCpu⟩

/-- A submission up to where it looks at its bounds with a permit in hand. -/
def acquisition : List (HostAction Nat Nat) :=
  [.submit .io (task "a") { cancel := some 1 } none ⟨1⟩ 0, .turn 0 (.caller 0 0), .turn 0 (.caller 0 0),
    .outside (.allocate 0), .outside (.allocate 0), .outside (.allocate 0), .outside (.enter 0),
    .outside (.settle 0 false)]

/-- The job of the submission is being polled. -/
def polled : HostSys governor (2 ^ 64 - 1) Nat Nat :=
  (Runs.replay (hostStep governor hostSettings) (hostInit governor (2 ^ 64 - 1) Nat Nat)
    (acquisition ++ [.turn 0 (.caller 0 0), .turn 0 (.caller 0 0), .turn 0 (.caller 0 0)])).getD
      (hostInit governor (2 ^ 64 - 1) Nat Nat)

/-- The job that was polled is done, and its caller is about to return the permit. -/
def returning : HostSys governor (2 ^ 64 - 1) Nat Nat :=
  (Runs.replay (hostStep governor hostSettings) (hostInit governor (2 ^ 64 - 1) Nat Nat)
    (acquisition ++ [.turn 0 (.caller 0 0), .turn 0 (.caller 0 0), .turn 0 (.caller 0 0),
      .turn 0 (.pollJob 0 0 (some (.value 3)))])).getD (hostInit governor (2 ^ 64 - 1) Nat Nat)

def spends : HostEvent → Bool
  | .engine (.releaseLeased _ sampledMs) _ => sampledMs = 0
  | _ => false

/-- The submission is cancelled when it has its permit: it returns the permit and is refused. -/
def cancelled : HostSys governor (2 ^ 64 - 1) Nat Nat :=
  (Runs.replay (hostStep governor hostSettings) (hostInit governor (2 ^ 64 - 1) Nat Nat)
    (acquisition ++ [.fire 1, .turn 0 (.caller 0 0), .turn 0 (.caller 0 0)])).getD
      (hostInit governor (2 ^ 64 - 1) Nat Nat)

end Sample

/-- In every reachable state of a runtime and of everybody else who uses its governor: a permit is dispatched
exactly when somebody holds its token, and one party does, once. Work that may be running holds its permit, live
and charged for the pools of its plan; so no more of it charges a bounded pool than the pool has room for. -/
theorem one_holder (g : Governor) (settings : Settings) (σ : HostSys g usizeMax T E)
    (h : HostReachable g settings σ) :
    σ.held.Nodup ∧
    (∀ p record, σ.engine.state.permits[p]? = some record →
      (record.phase ≠ .dispatchReserved ↔ ∃ token ∈ σ.held, token.permitId = p)) ∧
    (∀ token ∈ σ.held, Leases σ.engine.state token) ∧
    (∀ sub ∈ σ.submissions, sub.Occupied →
      ∃ token record, sub.token = some token ∧ σ.engine.state.permits[token.permitId]? = some record ∧
        record.leaseNonce = some token.nonce ∧ record.capabilities = sub.plan.requirements) ∧
    ∀ id limit, PoolLimit g id limit → (σ.submissions.countP fun sub => sub.charges id) ≤ limit := by
  have hinv := HostInv.of_reachable h
  refine ⟨hinv.custody.nodup, fun p record found => ⟨fun hphase => ?_, ?_⟩, fun token => (hinv.custody.exact token).mp,
    fun sub hmem hoccupied => ?_, fun id limit hlimit => hinv.charges_within hlimit⟩
  · obtain ⟨nonce, hnonce⟩ := Option.isSome_iff_exists.mp ((hinv.engine.leased_iff found).mpr hphase)
    exact ⟨⟨p, nonce⟩, (hinv.custody.exact _).mpr ⟨record, found, hnonce⟩, rfl⟩
  · rintro ⟨token, hmem, rfl⟩
    obtain ⟨record', found', hnonce⟩ := (hinv.custody.exact token).mp hmem
    obtain rfl := Option.some.inj (found.symm.trans found')
    exact (hinv.engine.leased_iff found).mp (by rw [hnonce]; rfl)
  · obtain ⟨k, hsub⟩ := List.mem_iff_getElem?.mp hmem
    obtain ⟨p, token, hlease⟩ := (hinv.sound k sub hsub).placed.token_of_occupied hoccupied
    have htoken : sub.token = some token := by
      rw [Submission.token_some hlease]
      rfl
    obtain ⟨_, record, found, hnonce, hcharge⟩ := hinv.permit_of_token hsub htoken
    exact ⟨token, record, htoken, found, hnonce, hcharge⟩

/-- In the sample the one token there is belongs to the job that is being polled. -/
theorem sample_one_holder : Sample.polled.held.Nodup ∧ Sample.polled.held.length = 1 :=
  ⟨(one_holder _ Sample.hostSettings _ (Runs.reachable_replay _ _)).1, by decide +kernel⟩

/-! ## Returned permits -/

/-- In every reachable state, a submission that returns a dispatched permit spends the one token there is for it:
the engine never refuses. The permit is gone, and nobody holds its token. -/
theorem return_accepted (g : Governor) (settings : Settings) (σ σ' : HostSys g usizeMax T E) (k : Nat) (t : Turn T E)
    (token : LeaseToken) (sampledMs : UInt64) (e : Event) (h : HostReachable g settings σ)
    (hstep : hostStep g settings σ (.turn k t) = some (σ', .engine (.releaseLeased token sampledMs) e)) :
    e = .released token.permitId .released ∧ Gone σ'.engine.state token.permitId ∧ token ∉ σ'.held := by
  have hinv := HostInv.of_reachable h
  have hinv' := hinv.step hstep
  have hreturned : e = .released token.permitId .released ∧ Gone σ'.engine.state token.permitId := by
    cases hostStep_move hstep with
    | @asks k t sub a e engine hears has turn step =>
      have hsound := hinv.sound k sub has
      cases Submission.turned hsound.placed turn with
      | @drop hears lease a sampledMs' holds action dropped =>
        obtain ⟨_, _, hreturned⟩ := (hsound.lease _ holds).dropped hinv.engine action step
        obtain ⟨p, custody⟩ := lease
        cases custody with
        | gone | reserved => simp [ExecutionLease.dropAction] at action
        | leased token' =>
          obtain ⟨rfl, rfl⟩ := Action.releaseLeased.inj (Option.some.inj action)
          obtain ⟨hid, _⟩ := (hsound.lease _ holds).leased token' rfl
          rw [hid]
          exact (hreturned rfl).symm
  refine ⟨hreturned.1, hreturned.2, fun hmem => ?_⟩
  obtain ⟨record, found, _⟩ := (hinv'.custody.exact token).mp hmem
  rw [hreturned.2.live] at found
  simp at found

/-- In the sample the permit of a job that is done is returned. -/
theorem sample_return : ∃ σ' token, hostStep Sample.governor Sample.hostSettings Sample.returning (.turn 0 (.caller 0 0)) =
    some (σ', .engine (.releaseLeased token 0) (.released token.permitId .released)) ∧
      Gone σ'.engine.state token.permitId := by
  have hreach : HostReachable Sample.governor Sample.hostSettings Sample.returning := Runs.reachable_replay _ _
  have hreturns : ((hostStep Sample.governor Sample.hostSettings Sample.returning (.turn 0 (.caller 0 0))).any fun next =>
      Sample.spends next.2) = true := by decide +kernel
  obtain ⟨⟨σ', ev⟩, hstep, hspends⟩ := (Option.any_eq_true _ _).mp hreturns
  unfold Sample.spends at hspends
  split at hspends
  · rename_i token sampledMs e hev
    simp only at hev
    obtain rfl := of_decide_eq_true hspends
    subst hev
    obtain ⟨rfl, hgone, _⟩ := return_accepted _ _ _ _ 0 _ token 0 e hreach hstep
    exact ⟨σ', token, hstep, hgone⟩
  · simp at hspends

/-! ## Acquisitions that are over -/

/-- A finished caller guards no lease and makes no call. -/
theorem guards_of_over (h : sub.caller.standing = .over) : sub.caller.guards = false ∧ sub.caller.calls = false := by
  cases hcaller : sub.caller with
  | leaving why => cases why <;> simp [hcaller, CallerPoint.standing] at h
  | abandoning why => cases why <;> simp [hcaller, CallerPoint.standing] at h
  | answered response => exact ⟨rfl, rfl⟩
  | dropped => exact ⟨rfl, rfl⟩
  | _ => simp [hcaller, CallerPoint.standing] at h

/-- A finished submission without a running job has given its lease back. -/
theorem HostInv.lease_over (hinv : HostInv σ) (hsub : σ.submissions[k]? = some sub)
    (hover : sub.caller.standing = .over) (hquiet : sub.worker.holds = false) {lease : ExecutionLease}
    (hlease : sub.lease = some lease) : lease.custody = .gone := by
  rcases ((hinv.sound k sub hsub).placed.at _ hover).of_over hquiet with hnone | ⟨p, hgone⟩
  · rw [hnone] at hlease
    simp at hlease
  · rw [hgone] at hlease
    rw [← Option.some.inj hlease]

/-- In every reachable state, a submission whose caller was refused or gave up, and whose worker is done, has no
engine call in progress that could still give it anything. It holds no token, and a permit it was given is live
only if somebody outside dispatched it and holds its token; its ticket is queued no more, and a permit
that still answers to the ticket is in somebody's custody. -/
theorem over_leaves_nothing (g : Governor) (settings : Settings) (σ : HostSys g usizeMax T E)
    (h : HostReachable g settings σ) (k : Nat) (sub : Submission usizeMax T E) (hsub : σ.submissions[k]? = some sub)
    (hover : sub.caller.standing = .over) (hquiet : sub.worker.holds = false) :
    σ.callsOf k = [] ∧ sub.token = none ∧
    (∀ lease record, sub.lease = some lease → σ.engine.state.permits[lease.permitId]? = some record →
      ∃ token ∈ σ.tokens, token.permitId = lease.permitId ∧ record.leaseNonce = some token.nonce) ∧
    ∀ t, sub.ticket = some t →
      (∀ c r, r ∈ σ.engine.state.waiting c → r.ticket ≠ t) ∧
      ∀ p record, σ.engine.state.permits[p]? = some record → record.pendingTicket = some t →
        ∃ token ∈ σ.held, token.permitId = p := by
  have hinv := HostInv.of_reachable h
  obtain ⟨hguards, hcalls⟩ := guards_of_over hover
  have hsound := hinv.sound k sub hsub
  have htoken : sub.token = none := by
    cases htoken : sub.token with
    | none => rfl
    | some token =>
      obtain ⟨p, hlease⟩ := Submission.lease_of_token htoken
      have hgone := hinv.lease_over hsub hover hquiet hlease
      simp at hgone
  refine ⟨Submission.quiet_calls hcalls (hinv.inCall k sub hsub), htoken, fun lease record hlease found => ?_,
    fun t hticket => ?_⟩
  · obtain ⟨nonce, hnonce⟩ := Option.ne_none_iff_exists'.mp
      ((hsound.lease lease hlease).gone (hinv.lease_over hsub hover hquiet hlease) record found)
    have hheld : (⟨lease.permitId, nonce⟩ : LeaseToken) ∈ σ.held := (hinv.custody.exact _).mpr ⟨record, found, hnonce⟩
    rcases List.mem_append.mp hheld with hout | hin
    · exact ⟨_, hout, rfl, hnonce⟩
    · -- Another submission would have been given the same permit.
      obtain ⟨other, hother, hholds⟩ := List.mem_filterMap.mp hin
      obtain ⟨k', hk'⟩ := List.mem_iff_getElem?.mp hother
      obtain ⟨hlease', _⟩ := hinv.permit_of_token hk' hholds
      obtain rfl := hinv.distinct k k' sub other lease.permitId hsub hk' (Or.inl ⟨lease, hlease, rfl⟩)
        (Or.inl ⟨_, hlease', rfl⟩)
      obtain rfl := Option.some.inj (hsub.symm.trans hk')
      rw [htoken] at hholds
      simp at hholds
  · have hretired := hsound.ticket.retired t hticket hguards
    refine ⟨fun c r hr heq => hretired.leads.queued c r hr heq, fun p record found hpending => ?_⟩
    obtain ⟨nonce, hnonce⟩ := Option.ne_none_iff_exists'.mp (hretired.leads.granted p record found hpending)
    exact ⟨⟨p, nonce⟩, (hinv.custody.exact _).mpr ⟨record, found, hnonce⟩, rfl⟩

/-- In the sample the permit that came too late is gone. -/
theorem sample_over : ∃ sub lease, Sample.cancelled.submissions[0]? = some sub ∧ sub.lease = some lease ∧
    Sample.cancelled.engine.state.permits[lease.permitId]? = none := by
  have hsub : (Sample.cancelled.submissions[0]?.any fun sub => decide (sub.caller.standing = .over) &&
      !sub.worker.holds && sub.lease.isSome) = true := by decide +kernel
  obtain ⟨sub, hsub, hchecks⟩ := (Option.any_eq_true _ _).mp hsub
  simp only [Bool.and_eq_true, decide_eq_true_eq, Bool.not_eq_true'] at hchecks
  obtain ⟨⟨hover, hquiet⟩, hlease⟩ := hchecks
  obtain ⟨lease, hlease⟩ := Option.isSome_iff_exists.mp hlease
  have hreach : HostReachable Sample.governor Sample.hostSettings Sample.cancelled := Runs.reachable_replay _ _
  have hleft := (over_leaves_nothing _ _ _ hreach 0 sub hsub hover hquiet).2.2.1
  refine ⟨sub, lease, hsub, hlease, ?_⟩
  by_contra hlive
  obtain ⟨record, found⟩ := Option.ne_none_iff_exists'.mp hlive
  obtain ⟨token, hmem, _⟩ := hleft lease record hlease found
  have hnobody : Sample.cancelled.tokens.length = 0 := by decide +kernel
  rw [List.length_eq_zero_iff.mp hnobody] at hmem
  simp at hmem

end Taskmesh.Host
