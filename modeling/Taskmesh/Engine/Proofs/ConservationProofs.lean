import Taskmesh.Engine.Proofs.SystemInvariantProofs

/-!
# Conservation

Every redundant total of the governed state is the sum it stands for: the class and global books, the
pool gauges and the root attributions.
-/

namespace Taskmesh

open Std MachineInt ExtTreeMap

variable {g : Governor} {caller : Caller} {s s' : GovernedState} {σ σ' : g.System} {a : Action}
  {e : Event}

/-! ## What permits share -/

/-- Two records of permits of one root operation and the same pools. -/
structure SameShares (record record' : PermitRecord) : Prop where
  scope : record'.scope = record.scope
  root : record'.rootOperationId = record.rootOperationId
  capabilities : record'.capabilities = record.capabilities

/-- A weight of permits that only their root operation and their pools decide. -/
def Shared (f : PermitRecord → Nat) : Prop := ∀ record record', SameShares record record' → f record' = f record

theorem shared_child (root : String) : Shared fun record => if isChildOf root record then 1 else 0 := by
  intro record record' h
  have hsame : isChildOf root record' = isChildOf root record := by
    unfold isChildOf
    rw [h.scope, h.root]
  simp only [hsame]

theorem shared_occupant (id : CapabilityId) : Shared fun record => if id ∈ record.capabilities.ids then 1 else 0 := by
  intro record record' h
  simp only [h.capabilities]

/-- A permit written again weighs what it did. -/
theorem heldBy_shared {permits : BTreeMap PermitId PermitRecord} {p : PermitId} {record record' : PermitRecord}
    {f : PermitRecord → Nat} (hf : Shared f) (found : permits[p]? = some record) (h : SameShares record record') :
    heldBy (permits.insert p record') f = heldBy permits f := by
  have hsum := heldBy_replace found record' f
  rw [hf record record' h] at hsum
  exact Nat.add_right_cancel hsum

/-- A weight that is not zero has a permit that weighs. -/
theorem exists_weighing {permits : BTreeMap PermitId PermitRecord} {f : PermitRecord → Nat}
    (h : heldBy permits f ≠ 0) : ∃ (p : PermitId) (record : PermitRecord), permits[p]? = some record ∧ f record ≠ 0 := by
  by_contra hnone
  push Not at hnone
  exact h (sumBy_eq_zero hnone)

/-- What a move does to a weight: it adds a permit, or ends one, or neither. -/
theorem Effect.load (h : Effect g caller s s') (ho : Occupancy s) {f : PermitRecord → Nat} (hf : Shared f) :
    heldBy s'.permits f = heldBy s.permits f ∨
      s.permits.size < s'.permits.size ∧ heldBy s.permits f ≤ heldBy s'.permits f ∨
      s'.permits.size < s.permits.size ∧ heldBy s'.permits f ≤ heldBy s.permits f := by
  have hgrant : ∀ (base : GovernedState) (grant : GrantRequest), s' = base.grant grant →
      base.permits[grant.permitId]? = none → s.SameLedger base →
      s.permits.size < s'.permits.size ∧ heldBy s.permits f ≤ heldBy s'.permits f := by
    rintro base grant rfl hnew hledger
    have hpermits : (base.grant grant).permits = s.permits.insert grant.permitId grant.record := by
      rw [← hledger.permits]
      rfl
    rw [hledger.permits] at hnew
    have hmem : grant.permitId ∉ s.permits := by
      rw [ExtTreeMap.mem_iff_isSome_getElem?, hnew]
      simp
    rw [hpermits, heldBy_insert hnew, ExtTreeMap.size_insert]
    exact ⟨by simp [hmem], Nat.le_add_left _ _⟩
  cases h with
  | kept queues ledger guards => exact Or.inl (by rw [ledger.permits])
  | queued waker nowMs tags allowed accepted pushed identities ledger guards sound =>
    exact Or.inl (by rw [ledger.permits])
  | dropped removed identities ledger guards => exact Or.inl (by rw [ledger.permits])
  | admitted nowMs allowed accepted fits result =>
    exact Or.inr (Or.inl (hgrant s _ result accepted.fresh.permit (.refl s)))
  | promoted nowMs fits removed identities ledger guards result =>
    have hlive := ho.not_live removed.mem
    rw [← ledger.permits] at hlive
    exact Or.inr (Or.inl (hgrant _ _ result hlive ledger))
  | @ended p record found ends queues ledger guards =>
    have hpermits : s'.permits = s.permits.erase p := ledger.permits
    have hmem : p ∈ s.permits := by
      rw [ExtTreeMap.mem_iff_isSome_getElem?, found]
      rfl
    have hpos : s.permits.size ≠ 0 := fun hzero => by
      rw [ExtTreeMap.eq_empty_iff_size_eq_zero.mpr hzero] at hmem
      simp at hmem
    have hsum := heldBy_erase found f
    rw [hpermits, ExtTreeMap.size_erase, if_pos (ExtTreeMap.contains_iff_mem.mpr hmem)]
    exact Or.inr (Or.inr ⟨by omega, by omega⟩)
  | touched found similar queues ledger guards =>
    obtain ⟨waker, touchedMs, heq⟩ := similar.rest
    rw [ledger.permits]
    exact Or.inl (heldBy_shared hf found (by rw [heq]; exact ⟨rfl, rfl, rfl⟩))
  | advanced nonces found later result =>
    subst result
    exact Or.inl (heldBy_shared hf found ⟨rfl, rfl, rfl⟩)
  | @recharged p record ledger allowed found change result =>
    subst result
    rw [(memoryOnly_rechargePermit s p record ledger).permits]
    exact Or.inl (heldBy_shared hf found ⟨rfl, rfl, rfl⟩)

/-- The first part of a section adds to no weight. -/
theorem Move.shrinks_load (h : Move g caller .shrinking s s') (hinv : StateInv g s) {f : PermitRecord → Nat}
    (hf : Shared f) : heldBy s'.permits f ≤ heldBy s.permits f := by
  have hsize := h.shrinks
  rcases (h.effect hinv.queues).load hinv.occupancy hf with heq | ⟨hlt, _⟩ | ⟨_, hle⟩
  · exact Nat.le_of_eq heq
  · omega
  · exact hle

/-- The second part takes from none. -/
theorem Move.grows_load (h : Move g caller .growing s s') (hinv : StateInv g s) {f : PermitRecord → Nat}
    (hf : Shared f) : heldBy s.permits f ≤ heldBy s'.permits f := by
  have hsize := h.grows
  rcases (h.effect hinv.queues).load hinv.occupancy hf with heq | ⟨_, hle⟩ | ⟨hlt, _⟩
  · exact Nat.le_of_eq heq.symm
  · exact hle
  · omega

/-- Fewer than `2^32` live children share a root operation, and fewer than `2^32` permits a pool. -/
structure FewSharers (s : GovernedState) : Prop where
  children : ∀ root, (heldByChildren s.permits root fun _ => 1) < 2 ^ 32
  occupants : ∀ id, occupants s.permits id < 2 ^ 32

/-- Weights that are no larger have no more sharers. -/
theorem FewSharers.of_le (h : FewSharers s)
    (hle : ∀ f, Shared f → heldBy s'.permits f ≤ heldBy s.permits f) : FewSharers s' where
  children root := Nat.lt_of_le_of_lt (hle _ (shared_child root)) (h.children root)
  occupants id := Nat.lt_of_le_of_lt (hle _ (shared_occupant id)) (h.occupants id)

theorem FewSharers.of_size (h : s.permits.size < 2 ^ 32) : FewSharers s where
  children root := Nat.lt_of_le_of_lt (heldByChildren_le_size s.permits root) h
  occupants id := Nat.lt_of_le_of_lt (occupants_le_size s.permits id) h

namespace Governor

variable (g) in
/-- No live permit shares its root operation or one of its pools with `2^32` permits. -/
def fewSharing (σ : g.System) : Bool :=
  σ.state.permits.toList.all fun entry =>
    decide ((heldByChildren σ.state.permits entry.2.rootOperationId fun _ => 1) < 2 ^ 32) &&
      entry.2.capabilities.ids.all fun id => decide (occupants σ.state.permits id < 2 ^ 32)

variable (g) in
/-- The states reached by runs throughout which every root operation has fewer than `2^32` live children and every
pool fewer than `2^32` occupants. -/
def ReachableFewSharing (σ : g.System) : Prop :=
  Runs.Reachable (Runs.restrict g.fewSharing g.step) g.init σ

theorem fewSharing_iff : g.fewSharing σ = true ↔ FewSharers σ.state := by
  constructor
  · intro h
    have hall : ∀ (p : PermitId) record, σ.state.permits[p]? = some record →
        (heldByChildren σ.state.permits record.rootOperationId fun _ => 1) < 2 ^ 32 ∧
          ∀ id ∈ record.capabilities.ids, occupants σ.state.permits id < 2 ^ 32 := by
      intro p record found
      simpa using List.all_eq_true.mp h (p, record) (ExtTreeMap.mem_toList.mpr found)
    refine ⟨fun root => ?_, fun id => ?_⟩
    · by_contra hmany
      obtain ⟨p, record, found, hweighs⟩ := exists_weighing
        (show (heldByChildren σ.state.permits root fun _ => 1) ≠ 0 by omega)
      have hchild : isChildOf root record = true := by
        by_contra hother
        exact hweighs (if_neg hother)
      have hroot : record.rootOperationId = root := by
        simp only [isChildOf, Bool.and_eq_true, decide_eq_true_eq] at hchild
        exact hchild.2
      exact hmany (hroot ▸ (hall p record found).1)
    · by_contra hmany
      obtain ⟨p, record, found, hweighs⟩ := exists_weighing (show occupants σ.state.permits id ≠ 0 by omega)
      have hid : id ∈ record.capabilities.ids := by
        by_contra hother
        exact hweighs (if_neg hother)
      exact hmany ((hall p record found).2 id hid)
  · intro h
    refine List.all_eq_true.mpr fun entry _ => ?_
    simp only [Bool.and_eq_true, decide_eq_true_eq, List.all_eq_true]
    exact ⟨h.children _, fun id _ => h.occupants id⟩

theorem fewSharing_of_fewLive (h : g.fewLive σ = true) : g.fewSharing σ = true :=
  fewSharing_iff.mpr (FewSharers.of_size (by simpa [Governor.fewLive] using h))

/-- Where few permits are live few share anything. -/
theorem ReachableFewLive.sharing (h : g.ReachableFewLive σ) : g.ReachableFewSharing σ := by
  refine Runs.Reachable.invariant (P := fun σ : g.System => g.ReachableFewSharing σ) h (Runs.Reachable.refl _) ?_
  intro σ a σ' e hreach hstep
  obtain ⟨hstep, hfew⟩ := Runs.restrict_eq_some.mp hstep
  exact hreach.next (Runs.restrict_eq_some.mpr ⟨hstep, fewSharing_of_fewLive hfew⟩)

theorem ReachableFewSharing.few (h : g.ReachableFewSharing σ) : FewSharers σ.state := by
  refine Runs.Reachable.invariant (P := fun σ : g.System => FewSharers σ.state) h (FewSharers.of_size (by simp [init])) ?_
  intro _ _ _ _ _ hstep
  exact fewSharing_iff.mp (Runs.restrict_eq_some.mp hstep).2

end Governor

/-! ## The gauges -/

/-- The gauges of pools and roots, which count up to `u32::MAX` live permits. -/
structure Gauges (s : GovernedState) : Prop where
  pools : ∀ id, PoolExact s id
  roots : ∀ root, RootBooks s root

theorem gauges_init : Gauges {} where
  pools id := by simp [PoolExact, occupants, heldBy]
  roots root := rootBooks_init root

theorem Move.gauges {trend : Trend} (h : Move g caller trend s s') (hinv : StateInv g s)
    (hfew : FewSharers s') (hg : Gauges s) : Gauges s' :=
  have heffect := h.effect hinv.queues
  ⟨fun id => heffect.poolExact hinv.occupancy (hg.pools id) (Or.inr (hfew.occupants id)),
    fun root => heffect.rootBooks hinv.occupancy (hg.roots root) (hfew.children root)⟩

/-- The gauges are exact as long as no root operation and no pool is shared by `2^32` live permits. -/
theorem Gauges.of_reachable (h : g.ReachableFewSharing σ) : Gauges σ.state := by
  have hall : (SysInv σ ∧ FewSharers σ.state) ∧ Gauges σ.state := by
    refine Runs.Reachable.invariant
      (P := fun σ : g.System => (SysInv σ ∧ FewSharers σ.state) ∧ Gauges σ.state) h
      ⟨⟨sysInv_init g, FewSharers.of_size (by simp [Governor.init])⟩, gauges_init⟩ ?_
    rintro σ a σ' e ⟨⟨hinv, hfew⟩, hg⟩ hstep
    obtain ⟨hstep, hfew'⟩ := Runs.restrict_eq_some.mp hstep
    have hfew' := Governor.fewSharing_iff.mp hfew'
    exact ⟨⟨hinv.step hstep, hfew'⟩, hinv.step_rule_within hstep (P := Gauges) (B := FewSharers)
      (fun _ _ hm hinv₁ hfew₁ => hfew₁.of_le fun _ => hm.shrinks_load hinv₁)
      (fun _ _ hm hinv₁ hfew₂ => hfew₂.of_le fun _ => hm.grows_load hinv₁)
      (fun _ _ _ hm hinv₁ _ hfew₂ hg₁ => hm.gauges hinv₁ hfew₂ hg₁) hg hfew hfew'⟩
  exact hall.2

/-! ## The books, read as sums -/

/-- Summing a class total over the classes sums it over the permits. -/
theorem Books.sum_classes (hb : Books s) {total : ClassState → Nat} {f : PermitRecord → Nat}
    (htotal : ∀ c, total (s.cls c) = heldIn s.permits c f) :
    (sumBy s.classes fun _ cs => total cs) = heldBy s.permits f := by
  have hgroups := sumBy_groups s.classes s.permits PermitRecord.taskClass (fun _ record => f record)
    fun p record h => Option.ne_none_iff_exists'.mp (hb.class_present h)
  unfold heldBy
  rw [← hgroups]
  refine sumBy_congr fun c cs hcs => ?_
  have hcls : s.cls c = cs := by simp [GovernedState.cls, hcs]
  rw [← hcls, htotal c]
  rfl

/-- What the totals of a class say about its live permits. -/
structure ClassConserved (permits : BTreeMap PermitId PermitRecord) (c : TaskClass) (cs : ClassState) :
    Prop where
  cpu : cs.cpuUnitsHeld = heldIn permits c cpuOf
  memory : cs.memoryUnitsHeld = heldIn permits c memoryOf
  inflight : cs.inflight = heldIn permits c fun _ => 1
  phases : cs.inflight = cs.dispatchReserved + cs.accepted + cs.running + cs.cleanupPending
  dispatchReserved : cs.dispatchReserved = heldIn permits c (inPhase .dispatchReserved)
  accepted : cs.accepted = heldIn permits c (inPhase .accepted)
  running : cs.running = heldIn permits c (inPhase .running)
  cleanupPending : cs.cleanupPending = heldIn permits c (inPhase .cleanupPending)
  admitted : cs.admittedTotal = cs.inflight + cs.terminatedTotal
  started : cs.running + cs.cleanupPending ≤ cs.startedTotal
  startedAdmitted : cs.startedTotal ≤ cs.admittedTotal

/-- Every total is the sum it stands for. -/
structure Conserved (s : GovernedState) : Prop where
  cpu : s.cpuUnitsHeld = heldBy s.permits cpuOf
  memory : s.memoryUnitsHeld = heldBy s.permits memoryOf
  cpuClasses : s.cpuUnitsHeld = sumBy s.classes fun _ cs => cs.cpuUnitsHeld
  memoryClasses : s.memoryUnitsHeld = sumBy s.classes fun _ cs => cs.memoryUnitsHeld
  classes : ∀ c, ClassConserved s.permits c (s.cls c)
  /-- A pool's gauge counts its occupants, and is absent when there is none. -/
  pools : ∀ id : CapabilityId, s.capabilityInUse[id]? =
    if occupants s.permits id = 0 then none else some (occupants s.permits id)
  /-- A root's entry sums its live children, and is absent when there is none. -/
  roots : ∀ root, RootBooks s root

theorem ClassBooks.conserved {permits : BTreeMap PermitId PermitRecord} {c : TaskClass} {cs : ClassState}
    (h : ClassBooks permits c cs) : ClassConserved permits c cs := by
  have hphases := heldIn_phases permits c
  rw [← h.inflight, ← h.phases, ← h.phases, ← h.phases, ← h.phases] at hphases
  have hslots : cs.inflight = cs.dispatchReserved + cs.accepted + cs.running + cs.cleanupPending := hphases
  refine ⟨h.cpu, h.memory, h.inflight, hslots, h.phases .dispatchReserved, h.phases .accepted,
    h.phases .running, h.phases .cleanupPending, h.admitted, h.le_started, ?_⟩
  have hstarted := h.started_le
  have hadmitted := h.admitted
  omega

theorem reachable_conservation (h : g.ReachableFewSharing σ) : Conserved σ.state := by
  have hbooks := (SysInv.of_reachable (Runs.Reachable.of_restrict h)).state.books
  have hgauges := Gauges.of_reachable h
  refine ⟨hbooks.cpu, hbooks.memory, ?_, ?_, fun c => (hbooks.classes c).conserved, hgauges.pools,
    hgauges.roots⟩
  · rw [hbooks.sum_classes fun c => (hbooks.classes c).cpu]
    exact hbooks.cpu
  · rw [hbooks.sum_classes fun c => (hbooks.classes c).memory]
    exact hbooks.memory

/-- In every reachable state every total is exact, as long as fewer than `2^32` permits are live at
once. -/
theorem reachable_conserved (g : Governor) (σ : g.System) (h : g.ReachableFewLive σ) :
    Conserved σ.state := reachable_conservation h.sharing

/-! ## A sample governor -/

namespace Sample

/-- A class with room for one permit and a queue. -/
def classPolicy : ClassPolicy :=
  { ClassPolicy.new with
    maxInflight := 1
    maxQueueDepth := 4
    permitCost := ⟨1, 2⟩
    overflowPolicy := .queueWithinDepth }

def policy : PolicySet :=
  PolicySet.new ⟨4, 8, 0, 0, ⟨0⟩⟩ ((∅ : BTreeMap TaskClass ClassPolicy).insert ⟨"work"⟩ classPolicy) 1

def governor : Governor := ⟨7, policy, by decide +kernel⟩

/-- A root task that runs on an ungated substrate. -/
def task (operation : String) : TaskSpec where
  taskClass := ⟨"work"⟩
  operation := operation
  rootOperationId := operation
  source := ⟨"sample"⟩
  reason := .explicitMapping
  scope := .root
  stackSizeBytes := none
  stages := [⟨⟨"work"⟩, ⟨"run"⟩, .asyncIo, false, none⟩]

/-- The steps of one admission call, when no other call is in progress. -/
def admission (entry : AdmitCall) : List Action :=
  [.call entry 0, .allocate 0, .allocate 0, .allocate 0, .enter 0, .settle 0 false]

/-- One task runs and another one waits behind it. -/
def busy : governor.System :=
  (Runs.replay (Runs.restrict governor.fewLive governor.step) governor.init
    (admission (.admitSpec (task "a")) ++ admission (.admitSpec (task "b")) ++
      [.advancePhase ⟨7, 1⟩ .running])).getD governor.init

theorem busy_reachable : governor.ReachableFewLive busy :=
  Runs.reachable_replay governor.init _

end Sample

theorem sample_conserved : Sample.governor.ReachableFewLive Sample.busy ∧
    (Sample.busy.state.cls ⟨"work"⟩).running = 1 ∧ Conserved Sample.busy.state :=
  ⟨Sample.busy_reachable, by decide +kernel, reachable_conserved _ _ Sample.busy_reachable⟩

end Taskmesh
