import Taskmesh.Engine.Proofs.LedgerProofs

/-!
# Pools, roots and capacity

The occupancy of every capability pool and the attribution of every root operation are exact over
the live permits, and no grant exceeds a limit. The gauge of a pool without a limit, and the child
count of a root, are exact while fewer than `2^32` permits are live.
-/

namespace Taskmesh

open Std MachineInt SetIndex ExtTreeMap

/-! ## What every live permit satisfies -/

/-- A live permit fits the policy of its class, and is leased exactly once it was dispatched. -/
structure PermitFits (g : Governor) (record : PermitRecord) (policy : ClassPolicy) : Prop where
  known : g.policy.classPolicy record.taskClass = some policy
  enabled : policy.isDisabled = false
  cpu : cpuOf record = (resolveCost policy).cpuUnits
  registered : RegisteredWith g.policy record.capabilities
  leased : record.leaseNonce.isSome = true ↔ record.phase ≠ .dispatchReserved

/-- Every live permit fits. -/
def PermitsFit (g : Governor) (s : GovernedState) : Prop :=
  ∀ (p : PermitId) record, s.permits[p]? = some record → ∃ policy, PermitFits g record policy

variable {g : Governor} {caller : Caller} {s s' : GovernedState}
  {permits : BTreeMap PermitId PermitRecord} {p : PermitId} {record record' : PermitRecord}
  {id : CapabilityId} {root : String}

/-- A permit that fits its class may join the others. -/
theorem PermitsFit.insert (h : PermitsFit g s) (hpermits : s'.permits = s.permits.insert p record)
    {policy : ClassPolicy} (hrecord : PermitFits g record policy) : PermitsFit g s' := by
  intro q found hq
  rw [hpermits, ExtTreeMap.getElem?_insert] at hq
  split at hq
  · obtain rfl := Option.some.inj hq
    exact ⟨policy, hrecord⟩
  · exact h q found hq

/-- What the grant was checked for holds of the permit it makes. -/
theorem GrantFits.permitFits {grant : GrantRequest} {policy : ClassPolicy}
    (h : GrantFits g s grant policy) : PermitFits g grant.record policy := by
  refine ⟨h.known, h.enabled, ?_, h.registered, ?_⟩
  · show grant.cost.cpuUnits = _
    rw [h.cost]
  · simp [GrantRequest.record]

/-- Every effect keeps each permit within the limits of its class. -/
theorem Effect.permitsFit (h : Effect g caller s s') (hp : PermitsFit g s) : PermitsFit g s' := by
  have hsame : s'.permits = s.permits → PermitsFit g s' := by
    intro heq q found hq
    rw [heq] at hq
    exact hp q found hq
  cases h with
  | kept queues ledger guards => exact hsame ledger.permits
  | queued waker nowMs tags allowed accepted pushed identities ledger guards sound => exact hsame ledger.permits
  | dropped removed identities ledger guards => exact hsame ledger.permits
  | admitted nowMs allowed accepted fits result => subst result; exact hp.insert rfl fits.permitFits
  | @promoted policy c index head base nowMs fits removed identities ledger guards result =>
    subst result
    have hbase : PermitsFit g base := by
      intro q found hq
      rw [ledger.permits] at hq
      exact hp q found hq
    exact hbase.insert rfl fits.permitFits
  | @ended p record found ends queues ledger guards =>
    intro q found' hq
    rw [ledger.permits] at hq
    have hq' : (s.permits.erase p)[q]? = some found' := hq
    rw [ExtTreeMap.getElem?_erase] at hq'
    split at hq'
    · simp at hq'
    · exact hp q found' hq'
  | @touched p record record' found similar queues ledger guards =>
    obtain ⟨policy, hfits⟩ := hp _ _ found
    obtain ⟨waker, touchedMs, heq⟩ := similar.rest
    have hfits' : PermitFits g record' policy := by
      rw [heq]
      exact ⟨hfits.known, hfits.enabled, hfits.cpu, hfits.registered, hfits.leased⟩
    exact hp.insert (s := s) ledger.permits hfits'
  | @advanced p record phase nonces found later result =>
    subst result
    obtain ⟨policy, hfits⟩ := hp _ _ found
    refine hp.insert rfl ⟨hfits.known, hfits.enabled, hfits.cpu, hfits.registered, ?_⟩
    simp only [Option.isSome_some, ne_eq, true_iff]
    rintro rfl
    exact Nat.not_lt_zero _ later
  | @recharged p record ledger allowed found change result =>
    subst result
    obtain ⟨policy, hfits⟩ := hp _ _ found
    refine hp.insert (memoryOnly_rechargePermit s p record ledger).permits
      ⟨hfits.known, hfits.enabled, ?_, hfits.registered, hfits.leased⟩
    exact Eq.trans change.cpuUnits hfits.cpu

/-! ## Pools -/

/-- How many live permits occupy a pool. -/
def occupants (permits : BTreeMap PermitId PermitRecord) (id : CapabilityId) : Nat :=
  heldBy permits fun record => if id ∈ record.capabilities.ids then 1 else 0

/-- The gauge of a pool counts its occupants; an empty pool has no entry. -/
def PoolExact (s : GovernedState) (id : CapabilityId) : Prop :=
  s.capabilityInUse[id]? = if occupants s.permits id = 0 then none else some (occupants s.permits id)

theorem PoolExact.inUse (h : PoolExact s id) : s.inUse id = occupants s.permits id := by
  unfold GovernedState.inUse
  rw [h]
  split
  · rename_i hz
    simp [hz]
  · simp

/-- Occupying a list of distinct pools raises each of them by one. -/
theorem getElem?_occupyPools {ids : List CapabilityId} (hids : ids.Nodup) (m : BTreeMap CapabilityId Nat) :
    (GovernedState.occupyPools ids m)[id]? =
      if id ∈ ids then some (saturatingAdd u32Max (m[id]?.getD 0) 1) else m[id]? := by
  unfold GovernedState.occupyPools
  induction ids generalizing m with
  | nil => simp
  | cons x xs ih =>
    obtain ⟨hx, hxs⟩ := List.nodup_cons.mp hids
    rw [List.foldl_cons, ih hxs]
    by_cases hid : id = x
    · subst hid
      simp [hx]
    · have hne : x ≠ id := Ne.symm hid
      simp [List.mem_cons, hid, ExtTreeMap.getElem?_insert, hne]

theorem getElem?_vacatePool (m : BTreeMap CapabilityId Nat) (x : CapabilityId) :
    (GovernedState.vacatePool m x)[id]? =
      if x = id then (m[id]?.map fun slot => slot - 1).filter (fun slot => slot ≠ 0) else m[id]? := by
  unfold GovernedState.vacatePool
  by_cases hx : x = id
  · subst hx
    cases hm : m[x]? with
    | none => simp [hm]
    | some slot =>
      by_cases hz : slot - 1 = 0
      · simp [hz, Option.filter]
      · simp [hz, Option.filter]
  · cases hm : m[x]? with
    | none => simp [hx]
    | some slot =>
      by_cases hz : slot - 1 = 0
      · simp [hz, hx, ExtTreeMap.getElem?_erase]
      · simp [hz, hx, ExtTreeMap.getElem?_insert]

/-- Vacating a list of distinct pools lowers each of them by one, and drops those that reach zero. -/
theorem getElem?_vacatePools {ids : List CapabilityId} (hids : ids.Nodup) (m : BTreeMap CapabilityId Nat) :
    (GovernedState.vacatePools ids m)[id]? =
      if id ∈ ids then (m[id]?.map fun slot => slot - 1).filter (fun slot => slot ≠ 0) else m[id]? := by
  unfold GovernedState.vacatePools
  induction ids generalizing m with
  | nil => simp
  | cons x xs ih =>
    obtain ⟨hx, hxs⟩ := List.nodup_cons.mp hids
    rw [List.foldl_cons, ih hxs, getElem?_vacatePool]
    by_cases hid : x = id
    · subst hid
      simp [hx]
    · have hne : id ≠ x := Ne.symm hid
      simp [hid, hne]

/-- A grant keeps the count of a pool exact while the pool has room in `u32`. -/
theorem PoolExact.granted {base : GovernedState} {grant : GrantRequest} (h : PoolExact base id)
    (hnew : base.permits[grant.permitId]? = none)
    (hroom : id ∈ grant.capabilities.ids → base.inUse id < u32Max) : PoolExact (base.grant grant) id := by
  have hpermits : (base.grant grant).permits = base.permits.insert grant.permitId grant.record := rfl
  have hpools : (base.grant grant).capabilityInUse =
      GovernedState.occupyPools grant.capabilities.ids base.capabilityInUse := rfl
  have hsum : occupants (base.grant grant).permits id =
      (if id ∈ grant.capabilities.ids then 1 else 0) + occupants base.permits id := by
    rw [hpermits]
    exact heldBy_insert hnew grant.record _
  unfold PoolExact
  rw [hpools, getElem?_occupyPools grant.capabilities.nodup, hsum]
  by_cases hid : id ∈ grant.capabilities.ids
  · have huse := h.inUse
    have hroom' := hroom hid
    have hread : base.capabilityInUse[id]?.getD 0 = occupants base.permits id := huse
    have hsat : saturatingAdd u32Max (occupants base.permits id) 1 = occupants base.permits id + 1 :=
      saturatingAdd_of_lt (by omega)
    simp [hid, hread, hsat, Nat.add_comm]
  · simp only [hid, if_false, Nat.zero_add]
    exact h

/-- A discharge keeps the count of a pool exact. -/
theorem PoolExact.discharged (h : PoolExact s id) (found : s.permits[p]? = some record) :
    PoolExact (s.discharge p record) id := by
  have hpools : (s.discharge p record).capabilityInUse =
      GovernedState.vacatePools record.capabilities.ids s.capabilityInUse := rfl
  have hsum : occupants s.permits id =
      (if id ∈ record.capabilities.ids then 1 else 0) + occupants (s.discharge p record).permits id :=
    heldBy_erase found _
  unfold PoolExact at h ⊢
  rw [hpools, getElem?_vacatePools record.capabilities.nodup]
  by_cases hid : id ∈ record.capabilities.ids
  · simp only [hid, if_true] at hsum ⊢
    have hne : occupants s.permits id ≠ 0 := by omega
    rw [h, if_neg hne, hsum]
    by_cases hz : occupants (s.discharge p record).permits id = 0
    · simp [hz, Option.filter]
    · simp [hz, Option.filter]
  · simp only [hid, if_false, Nat.zero_add] at hsum ⊢
    rw [← hsum]
    exact h

/-- Replacing a record that occupies the same pools keeps the count exact. -/
theorem PoolExact.replaced (h : PoolExact s id) (found : s.permits[p]? = some record)
    (hpermits : s'.permits = s.permits.insert p record')
    (hcaps : record'.capabilities = record.capabilities)
    (hpools : s'.capabilityInUse = s.capabilityInUse) : PoolExact s' id := by
  have hsum := heldBy_replace found record' fun record => if id ∈ record.capabilities.ids then 1 else 0
  simp only [hcaps] at hsum
  have hocc : occupants s'.permits id = occupants s.permits id := by
    rw [hpermits]
    exact Nat.add_right_cancel hsum
  unfold PoolExact
  rw [hpools, hocc]
  exact h

/-- The pool is registered with a limit. -/
def PoolLimit (g : Governor) (id : CapabilityId) (limit : Nat) : Prop :=
  limit ≠ 0 ∧ ∃ record, g.policy.capabilityRecord id = some record ∧ record.capacity.limit.toNat = limit

theorem poolBlocked_of_limit {limit : Nat} (h : PoolLimit g id limit) :
    poolBlocked s g.policy id = decide (limit ≤ s.inUse id) := by
  obtain ⟨hne, record, hrecord, hlimit⟩ := h
  simp [poolBlocked, hrecord, hlimit, hne]

theorem PoolLimit.le_max {limit : Nat} (h : PoolLimit g id limit) : limit ≤ u32Max := by
  obtain ⟨_, record, _, rfl⟩ := h
  have := record.capacity.limit.toNat_lt
  simp only [u32Max]
  omega

/-- A pool has no more occupants than there are permits. -/
theorem occupants_le_size (permits : BTreeMap PermitId PermitRecord) (id : CapabilityId) :
    occupants permits id ≤ permits.size := by
  have hle : (sumBy permits fun _ record => if id ∈ record.capabilities.ids then 1 else 0) ≤
      sumBy permits fun _ _ => 1 := by
    refine sumBy_le_sumBy fun p record _ => ?_
    split <;> omega
  rw [size_eq_sumBy]
  exact hle

/-- A pool with a limit stays exact, and so does every pool with fewer than `2^32` occupants. -/
theorem Effect.poolExact (h : Effect g caller s s') (ho : Occupancy s) (hpool : PoolExact s id)
    (hroom : (∃ limit, PoolLimit g id limit) ∨ occupants s'.permits id < 2 ^ 32) : PoolExact s' id := by
  -- Room for one more occupant, in the state the grant is charged to.
  have hgrant : ∀ (base : GovernedState) (grant : GrantRequest) (policy : ClassPolicy),
      s' = base.grant grant → base.permits[grant.permitId]? = none → s.SameLedger base →
      GrantFits g s grant policy → PoolExact s' id := by
    rintro base grant policy rfl hnew hledger fits
    have hbase : PoolExact base id := by
      unfold PoolExact
      rw [hledger.pools, hledger.permits]
      exact hpool
    refine hbase.granted hnew fun hid => ?_
    rcases hroom with ⟨limit, hlimit⟩ | hfew
    · have hfree := fits.room.2.2.2.1 id hid
      rw [poolBlocked_of_limit hlimit, decide_eq_false_iff_not] at hfree
      have hle := hlimit.le_max
      rw [hledger.inUse_eq]
      omega
    · have hsum : occupants (base.grant grant).permits id =
          (if id ∈ grant.capabilities.ids then 1 else 0) + occupants base.permits id :=
        heldBy_insert hnew grant.record _
      rw [hbase.inUse]
      rw [if_pos hid] at hsum
      simp only [u32Max]
      omega
  have hsame : s.SameLedger s' → PoolExact s' id := by
    intro hledger
    unfold PoolExact
    rw [hledger.pools, hledger.permits]
    exact hpool
  cases h with
  | kept queues ledger guards => exact hsame ledger
  | queued waker nowMs tags allowed accepted pushed identities ledger guards sound => exact hsame ledger
  | dropped removed identities ledger guards => exact hsame ledger
  | admitted nowMs allowed accepted fits result =>
    exact hgrant s _ _ result accepted.fresh.permit (.refl s) fits
  | @promoted policy c index head base nowMs fits removed identities ledger guards result =>
    have hlive := ho.not_live removed.mem
    rw [← ledger.permits] at hlive
    exact hgrant base _ _ result hlive ledger fits
  | ended found ends queues ledger guards =>
    have := hpool.discharged found
    unfold PoolExact at this ⊢
    rw [ledger.pools, ledger.permits]
    exact this
  | touched found similar queues ledger guards =>
    obtain ⟨waker, touchedMs, heq⟩ := similar.rest
    exact hpool.replaced found ledger.permits (by rw [heq]) ledger.pools
  | advanced nonces found later result => subst result; exact hpool.replaced found rfl rfl rfl
  | @recharged p record ledger allowed found change result =>
    subst result
    have hmemory := memoryOnly_rechargePermit s p record ledger
    exact hpool.replaced found hmemory.permits rfl hmemory.pools

/-! ## Capacity -/

/-- No grant exceeded a limit. -/
structure Capacity (g : Governor) (s : GovernedState) : Prop where
  inflight : ∀ c policy, g.policy.classPolicy c = some policy → s.inflight c ≤ policy.maxInflight.toNat
  pools : ∀ id limit, PoolLimit g id limit → PoolExact s id ∧ s.inUse id ≤ limit
  cpu : g.policy.resources.maxCpuUnits.toNat ≠ 0 →
    s.cpuUnitsHeld ≤ g.policy.resources.maxCpuUnits.toNat

/-- Nothing was charged. -/
structure Uncharged (s s' : GovernedState) : Prop where
  inflight : ∀ c, s'.inflight c ≤ s.inflight c
  pools : ∀ id, s'.inUse id ≤ s.inUse id
  cpu : s'.cpuUnitsHeld ≤ s.cpuUnitsHeld

theorem Uncharged.of_sameLedger (h : s.SameLedger s') : Uncharged s s' :=
  ⟨fun c => Nat.le_of_eq (h.inflight_eq c), fun id => Nat.le_of_eq (h.inUse_eq id), Nat.le_of_eq h.cpu⟩

/-- A discharge charges nothing. -/
theorem uncharged_discharge (s : GovernedState) (p : PermitId) (record : PermitRecord) :
    Uncharged s (s.discharge p record) := by
  refine ⟨fun c => ?_, fun id => ?_, Nat.sub_le _ _⟩
  · unfold GovernedState.inflight
    rw [GovernedState.cls_discharge]
    split
    · rw [(totals_dischargeClass record _).1]
      exact Nat.sub_le _ _
    · exact Nat.le_refl _
  · have hread : (s.discharge p record).inUse id =
        (GovernedState.vacatePools record.capabilities.ids s.capabilityInUse)[id]?.getD 0 := rfl
    rw [hread, getElem?_vacatePools record.capabilities.nodup]
    unfold GovernedState.inUse
    split
    · cases hm : s.capabilityInUse[id]? with
      | none => simp
      | some slot =>
        by_cases hz : slot - 1 = 0
        · simp [Option.filter, hz]
        · simp [Option.filter, hz]
    · exact Nat.le_refl _

/-- A phase change charges nothing. -/
theorem uncharged_advancedTo (s : GovernedState) (p : PermitId) (record : PermitRecord)
    (phase : ExecutionPhase) (nonces : Nat) : Uncharged s (s.advancedTo p record phase nonces) := by
  refine ⟨fun c => ?_, fun id => Nat.le_refl _, Nat.le_refl _⟩
  unfold GovernedState.inflight
  rw [GovernedState.cls_advancedTo]
  split
  · rw [(totals_advanceClass record.phase phase _).1]
  · exact Nat.le_refl _

/-- A change of the memory ledger charges neither a class nor a pool. -/
theorem uncharged_rechargePermit (s : GovernedState) (p : PermitId) (record : PermitRecord)
    (ledger : PermitLedger) : Uncharged s (s.rechargePermit p record ledger) := by
  have hmemory := memoryOnly_rechargePermit s p record ledger
  obtain ⟨_, hclasses, _⟩ := totals_applyMemoryDelta
    { s with permits := s.permits.insert p { record with ledger := ledger } } record.taskClass
    (if record.scope.isChild then some record.rootOperationId else none)
    (ledger.effectiveUnits - record.ledger.effectiveUnits : Int)
  refine ⟨fun c => ?_, fun id => ?_, Nat.le_of_eq hmemory.cpu⟩
  · have hcls : (s.rechargePermit p record ledger).cls c =
        if record.taskClass = c ∧ s.classes[c]? ≠ none then
          shiftClass (ledger.effectiveUnits - record.ledger.effectiveUnits : Int) (s.cls c)
        else s.cls c := by
      refine Eq.trans ?_ (GovernedState.cls_modify s record.taskClass c (shiftClass _))
      exact GovernedState.cls_of_classes_eq hclasses c
    unfold GovernedState.inflight
    rw [hcls]
    split <;> exact Nat.le_refl _
  · rw [GovernedState.inUse, hmemory.pools]
    exact Nat.le_refl _

/-- Where nothing is charged, capacity is kept. -/
theorem Capacity.uncharged (h : Capacity g s) (hu : Uncharged s s')
    (hpools : ∀ id limit, PoolLimit g id limit → PoolExact s' id) : Capacity g s' :=
  ⟨fun c policy hpolicy => Nat.le_trans (hu.inflight c) (h.inflight c policy hpolicy),
    fun id limit hlimit => ⟨hpools id limit hlimit, Nat.le_trans (hu.pools id) (h.pools id limit hlimit).2⟩,
    fun hbudget => Nat.le_trans hu.cpu (h.cpu hbudget)⟩

/-- A grant that was found to fit keeps every total within its capacity. -/
theorem Capacity.granted {base : GovernedState} {grant : GrantRequest} {policy : ClassPolicy}
    (h : Capacity g s) (hledger : s.SameLedger base) (fits : GrantFits g s grant policy)
    (hpools : ∀ id limit, PoolLimit g id limit → PoolExact (base.grant grant) id) :
    Capacity g (base.grant grant) := by
  obtain ⟨hinflight, hcpu, _, hfree, _⟩ := fits.room
  refine ⟨fun c policy' hpolicy' => ?_, fun id limit hlimit => ⟨hpools id limit hlimit, ?_⟩, fun hbudget => ?_⟩
  · unfold GovernedState.inflight
    rw [GovernedState.cls_grant]
    split
    · rename_i hc
      subst hc
      obtain rfl : policy = policy' := by
        have := fits.known.symm.trans hpolicy'
        simpa using this
      have hread : (GovernedState.chargeClass grant.cost (base.cls grant.taskClass)).inflight =
          base.inflight grant.taskClass + 1 :=
        wrappingAdd_of_le (fits.congr hledger)
      rw [hread, hledger.inflight_eq]
      exact hinflight
    · have := h.inflight c policy' hpolicy'
      rw [← hledger.inflight_eq] at this
      exact this
  · have hread : (base.grant grant).inUse id =
        (GovernedState.occupyPools grant.capabilities.ids base.capabilityInUse)[id]?.getD 0 := rfl
    rw [hread, getElem?_occupyPools grant.capabilities.nodup, hledger.pools]
    split
    · rename_i hid
      have hroom := hfree id hid
      rw [poolBlocked_of_limit hlimit, decide_eq_false_iff_not] at hroom
      have hle : saturatingAdd u32Max (s.capabilityInUse[id]?.getD 0) 1 ≤ s.inUse id + 1 := Nat.min_le_left _ _
      simp only [Option.getD_some]
      omega
    · exact (h.pools id limit hlimit).2
  · have hread : (base.grant grant).cpuUnitsHeld = base.cpuUnitsHeld + grant.cost.cpuUnits := rfl
    rw [hread, hledger.cpu]
    exact hcpu hbudget

/-- Every effect of the engine keeps the totals within the capacities. -/
theorem Effect.capacity (h : Effect g caller s s') (ho : Occupancy s) (hc : Capacity g s) :
    Capacity g s' := by
  have hpools : ∀ id limit, PoolLimit g id limit → PoolExact s' id :=
    fun id limit hlimit => h.poolExact ho (hc.pools id limit hlimit).1 (Or.inl ⟨limit, hlimit⟩)
  cases h with
  | kept queues ledger guards => exact hc.uncharged (.of_sameLedger ledger) hpools
  | queued waker nowMs tags allowed accepted pushed identities ledger guards sound =>
    exact hc.uncharged (.of_sameLedger ledger) hpools
  | dropped removed identities ledger guards => exact hc.uncharged (.of_sameLedger ledger) hpools
  | admitted nowMs allowed accepted fits result =>
    subst result
    exact hc.granted (.refl s) fits hpools
  | promoted nowMs fits removed identities ledger guards result =>
    subst result
    exact hc.granted ledger fits hpools
  | @ended p record found ends queues ledger guards =>
    have hu := uncharged_discharge s p record
    have hl := Uncharged.of_sameLedger ledger
    refine hc.uncharged ⟨fun c => ?_, fun id => ?_, ?_⟩ hpools
    · exact Nat.le_trans (hl.inflight c) (hu.inflight c)
    · exact Nat.le_trans (hl.pools id) (hu.pools id)
    · exact Nat.le_trans hl.cpu hu.cpu
  | touched found similar queues ledger guards =>
    have hl := Uncharged.of_sameLedger ledger
    exact hc.uncharged ⟨hl.inflight, hl.pools, hl.cpu⟩ hpools
  | advanced nonces found later result =>
    subst result
    exact hc.uncharged (uncharged_advancedTo s _ _ _ _) hpools
  | recharged allowed found change result =>
    subst result
    exact hc.uncharged (uncharged_rechargePermit s _ _ _) hpools

theorem capacity_init (g : Governor) : Capacity g {} := by
  have hcls : ∀ c, GovernedState.cls {} c = {} := fun c => by simp [GovernedState.cls, default]
  refine ⟨fun c policy _ => ?_, fun id limit _ => ⟨?_, ?_⟩, fun _ => Nat.zero_le _⟩
  · simp [GovernedState.inflight, hcls]
  · simp [PoolExact, occupants, heldBy]
  · simp [GovernedState.inUse]

end Taskmesh
