import Taskmesh.Engine.Proofs.RequirementProofs
import Taskmesh.Host.Proofs.HolderProofs
import Taskmesh.Host.Proofs.ResponseProofs

/-!
# What a plan charges

A plan charges the pool of its role and the pool of its physical domain, as the governor that will hold the permit
knows them. So a pool bounds the work that may be running in its domain, whatever entry points it came through.
-/

namespace Taskmesh.Host

open Governor

variable {g : Governor} {usizeMax : Nat} {T E : Type} {settings : Settings} {σ σ' : HostSys g usizeMax T E}
  {k : Nat} {sub : Submission usizeMax T E} {policies : PolicySet} {names : List String} {pool : String}

/-! ## Pools by name -/

/-- A resolved pool name is the name of a registered pool. -/
theorem registered_of_resolved {r : ResolvedCapability} (h : policies.resolveCapability pool = .ok r) :
    ∃ id, r = .registered id ∧ id.name = pool := by
  unfold PolicySet.resolveCapability at h
  split at h
  · simp at h
  · split at h
    · rename_i id hid
      have hname := List.find?_some hid
      exact ⟨id, (Except.ok.inj h).symm, by simpa using hname⟩
    · simp at h

theorem mem_registeredIds {resolved : List ResolvedCapability} {id : CapabilityId} :
    id ∈ registeredIds resolved ↔ .registered id ∈ resolved := by
  unfold registeredIds
  rw [List.mem_filterMap]
  constructor
  · rintro ⟨r, hr, hid⟩
    cases r with
    | ungated => simp at hid
    | registered id' => rwa [← Option.some.inj hid]
  · intro hr
    exact ⟨_, hr, rfl⟩

/-- Requirements name the pools they were resolved from, all of them registered. -/
theorem resolveRequirements_spec {requirements : CapabilityRequirementSet}
    (h : resolveRequirements policies names = .ok requirements) :
    RegisteredWith policies requirements ∧ ∀ name, name ∈ names ↔ ∃ id ∈ requirements.ids, id.name = name := by
  unfold resolveRequirements at h
  cases hresolved : names.mapM policies.resolveCapability with
  | error error => simp [hresolved] at h
  | ok resolved =>
    rw [hresolved] at h
    cases hset : CapabilityRequirementSet.fromResolved resolved with
    | error error => simp [hset] at h
    | ok set =>
      obtain rfl : set = requirements := by simpa [hset] using h
      have hmem : ∀ id, id ∈ set.ids ↔ .registered id ∈ resolved := by
        intro id
        rw [fromResolved_ids hset, mem_insertAll, mem_registeredIds]
        simp
      have hregistered : ∀ r ∈ resolved, r.IsRegistered policies := by
        intro r hr
        obtain ⟨name, _, hname⟩ := (Traversal.checked_except _).source hresolved hr
        exact resolveCapability_registered hname
      refine ⟨fun id hid => hregistered _ ((hmem id).mp hid), fun name => ⟨fun hname => ?_, ?_⟩⟩
      · obtain ⟨r, hr, hok⟩ := (Traversal.checked_except _).result hresolved hname
        obtain ⟨id, rfl, hid⟩ := registered_of_resolved hok
        exact ⟨id, (hmem id).mpr hr, hid⟩
      · rintro ⟨id, hid, rfl⟩
        obtain ⟨name, hname, hok⟩ := (Traversal.checked_except _).source hresolved ((hmem id).mp hid)
        obtain ⟨id', heq, rfl⟩ := registered_of_resolved hok
        rwa [ResolvedCapability.registered.inj heq]

/-! ## Plans -/

/-- The pools a plan charges. -/
def ValidatedDispatchPlan.pools (plan : ValidatedDispatchPlan usizeMax) (cpuPhysicalDomain : String) : List String :=
  chargedPools plan.task.spec plan.dispatch cpuPhysicalDomain

/-- A plan that passed the preflight has every pool it names resolved. -/
theorem preflight_resolves {spec : TaskSpec} {opts : SubmitOptions} {policy : Option ClassPolicy}
    {allowed : List SubstrateHint} {dispatch : DispatchKind} {cpuPhysicalDomain : String}
    {plan : ValidatedDispatchPlan usizeMax}
    (h : ValidatedDispatchPlan.preflight usizeMax spec opts policy allowed dispatch policies cpuPhysicalDomain = .ok plan) :
    resolveRequirements policies (plan.pools cpuPhysicalDomain) = .ok plan.requirements := by
  unfold ValidatedDispatchPlan.preflight at h
  split at h
  · split at h
    · simp at h
    · cases hstack : resolveStackSize usizeMax (resolveDispatch spec dispatch) spec.stackSizeBytes with
      | error error => simp [hstack, bind, Except.bind] at h
      | ok stackSize =>
        cases hdeadline : checkDeadline spec opts policy with
        | error error => simp [hstack, hdeadline, bind, Except.bind] at h
        | ok done =>
          cases hrequirements : resolveRequirements policies
              (chargedPools spec (resolveDispatch spec dispatch) cpuPhysicalDomain) with
          | error error => simp [hstack, hdeadline, hrequirements, bind, Except.bind] at h
          | ok requirements =>
            simp only [hstack, hdeadline, hrequirements, bind, Except.bind, pure, Except.pure, Except.ok.injEq] at h
            subst h
            exact hrequirements
  · simp at h

/-- One host step keeps every submission on a plan that passed the preflight. -/
theorem HostInv.step_planned (hinv : HostInv σ) {act : HostAction T E} {ev : HostEvent}
    (hplanned : ∀ sub ∈ σ.submissions, sub.Planned g settings) (h : hostStep g settings σ act = some (σ', ev)) :
    ∀ sub ∈ σ'.submissions, sub.Planned g settings := by
  intro next hmem
  obtain ⟨k, hnext⟩ := List.mem_iff_getElem?.mp hmem
  have hmove := hostStep_move h
  cases hsub : σ.submissions[k]? with
  | none => exact (hmove.fresh hsub hnext).2
  | some sub =>
    obtain ⟨next', hnext', hmoved⟩ := hmove.at hsub
    obtain rfl := Option.some.inj (hnext.symm.trans hnext')
    have hplan := (hmoved.forward ev (hinv.sound k sub hsub).placed).1.plan
    unfold Submission.Planned
    rw [hplan]
    exact hplanned sub (List.mem_of_getElem? hsub)

/-- In every reachable host state each submission runs on a plan that passed the preflight. -/
theorem planned_of_reachable (h : HostReachable g settings σ) : ∀ sub ∈ σ.submissions, sub.Planned g settings := by
  obtain ⟨trace, hrun⟩ := h
  exact (hostInv_init g usizeMax T E).along (by simp [hostInit]) hrun fun hinv hplanned hstep =>
    hinv.step_planned hplanned hstep

theorem Submission.Planned.spec (h : sub.Planned g settings) :
    RegisteredWith g.policy sub.plan.requirements ∧
      ∀ name, name ∈ sub.plan.pools settings.cpuPhysicalDomain ↔ ∃ id ∈ sub.plan.requirements.ids, id.name = name := by
  obtain ⟨path, spec, opts, hpreflight⟩ := h
  exact resolveRequirements_spec (preflight_resolves hpreflight)

/-- One policy set issues one id for a name. -/
theorem id_of_name {id id' : CapabilityId} (h : id ∈ policies.capabilities) (h' : id' ∈ policies.capabilities)
    (hname : id.name = id'.name) : id = id' := by
  have hissued : ∀ id, id ∈ policies.capabilities → id.authority = policies.capabilityAuthority := by
    intro id hid
    obtain ⟨record, found⟩ := Option.isSome_iff_exists.mp (Std.ExtTreeMap.mem_iff_isSome_getElem?.mp hid)
    exact (policies.issued id record found).2
  obtain ⟨name, authority⟩ := id
  obtain ⟨name', authority'⟩ := id'
  have hauthority := hissued _ h
  have hauthority' := hissued _ h'
  simp_all

/-- The engine takes requirements that are registered as they are. -/
theorem preflight_registered {requirements : CapabilityRequirementSet} (h : RegisteredWith policies requirements)
    (plan : ValidatedTaskPlan) (waker : Option Waker) :
    ∃ intake, preflight policies (.admitValidatedRequirements plan requirements waker) = .ok intake := by
  have hvalid : policies.validateRequirements requirements = .ok () := by
    unfold PolicySet.validateRequirements
    rw [if_pos]
    exact List.all_eq_true.mpr fun id hid => decide_eq_true (h id hid)
  simp only [preflight]
  split
  · rename_i error herror
    rw [hvalid] at herror
    simp at herror
  · exact ⟨_, rfl⟩

/-- In every reachable state, a plan charges the pools of its role and of its physical domain and no others, and the
engine takes it as it is: no submission is refused for its requirements. Work that may be running and charges a
bounded pool is at most what the pool has room for. -/
theorem domains_bounded (g : Governor) (settings : Settings) (σ : HostSys g usizeMax T E)
    (h : HostReachable g settings σ) :
    (∀ sub ∈ σ.submissions,
      (∀ name, name ∈ sub.plan.pools settings.cpuPhysicalDomain ↔
        ∃ id ∈ sub.plan.requirements.ids, id.name = name) ∧
      ∃ intake, preflight g.policy
        (.admitValidatedRequirements sub.plan.task sub.plan.requirements (some sub.waker)) = .ok intake) ∧
    ∀ id limit, PoolLimit g id limit →
      (σ.submissions.countP fun sub =>
        decide sub.Occupied && decide (id.name ∈ sub.plan.pools settings.cpuPhysicalDomain)) ≤ limit := by
  have hinv := HostInv.of_reachable h
  have hplanned := planned_of_reachable h
  refine ⟨fun sub hmem => ⟨(hplanned sub hmem).spec.2, preflight_registered (hplanned sub hmem).spec.1 _ _⟩,
    fun id limit hlimit => ?_⟩
  refine Nat.le_trans (List.countP_mono_left fun sub hmem hcounts => ?_) (hinv.charges_within hlimit)
  simp only [Bool.and_eq_true, decide_eq_true_eq] at hcounts
  obtain ⟨hoccupied, hname⟩ := hcounts
  obtain ⟨hregistered, hpools⟩ := (hplanned sub hmem).spec
  obtain ⟨id', hid', hsame⟩ := (hpools id.name).mp hname
  -- The pool the plan resolved is the pool that is bounded.
  have hknown : id ∈ g.policy.capabilities := by
    obtain ⟨_, record, found, _⟩ := hlimit
    rw [Std.ExtTreeMap.mem_iff_isSome_getElem?]
    exact Option.isSome_iff_exists.mpr ⟨record, found⟩
  obtain rfl := id_of_name (hregistered id' hid') hknown hsame
  obtain ⟨k, hsub⟩ := List.mem_iff_getElem?.mp hmem
  obtain ⟨p, token, hlease⟩ := (hinv.sound k sub hsub).placed.token_of_occupied hoccupied
  unfold Submission.charges
  rw [Submission.token_some hlease]
  simpa [ExecutionLease.token] using hid'

namespace Sample

/-- The blocking domain has room for one job. -/
def pooledPolicy : PolicySet :=
  (((Taskmesh.Sample.policy.withSubstrates
    [⟨physicalSharedBlocking, .competingExecution, some physicalSharedBlocking⟩]).bind fun policies =>
      policies.withCapabilityLimit physicalSharedBlocking 1).toOption).getD Taskmesh.Sample.policy

def pooled : Governor := ⟨7, pooledPolicy, by decide +kernel⟩

def blockingTask : TaskSpec :=
  { Taskmesh.Sample.task "a" with stages := [⟨⟨"work"⟩, ⟨"run"⟩, .blockingPool, false, none⟩] }

/-- A blocking job runs on its worker. -/
def working : HostSys pooled (2 ^ 64 - 1) Nat Nat :=
  (Runs.replay (hostStep pooled hostSettings) (hostInit pooled (2 ^ 64 - 1) Nat Nat)
    [.submit .blocking blockingTask {} none ⟨1⟩ 0, .turn 0 (.caller 0 0), .turn 0 (.caller 0 0),
      .outside (.allocate 0), .outside (.allocate 0), .outside (.allocate 0), .outside (.enter 0),
      .outside (.settle 0 false), .turn 0 (.caller 0 0), .turn 0 (.caller 0 0), .turn 0 (.caller 0 0),
      .turn 0 (.start 0), .turn 0 (.worker 0 0)]).getD (hostInit pooled (2 ^ 64 - 1) Nat Nat)

/-- The jobs that may be running in the blocking domain. -/
def inDomain : Nat :=
  working.submissions.countP fun sub =>
    decide sub.Occupied && decide (physicalSharedBlocking ∈ sub.plan.pools hostSettings.cpuPhysicalDomain)

end Sample

/-- In the sample the blocking domain is as full as it may be. -/
theorem sample_domains : Sample.inDomain ≤ 1 ∧ Sample.inDomain = 1 := by
  have hreach : HostReachable Sample.pooled Sample.hostSettings Sample.working := Runs.reachable_replay _ _
  have hlimit : PoolLimit Sample.pooled ⟨physicalSharedBlocking, Sample.pooledPolicy.capabilityAuthority⟩ 1 := by
    refine ⟨by omega, ?_⟩
    have hbounded : ((Sample.pooled.policy.capabilityRecord
        ⟨physicalSharedBlocking, Sample.pooledPolicy.capabilityAuthority⟩).any fun record =>
          record.capacity.limit.toNat = 1) = true := by decide +kernel
    obtain ⟨record, hrecord, hone⟩ := (Option.any_eq_true _ _).mp hbounded
    exact ⟨record, hrecord, of_decide_eq_true hone⟩
  exact ⟨(domains_bounded _ _ _ hreach).2 _ 1 hlimit, by decide +kernel⟩

end Taskmesh.Host
