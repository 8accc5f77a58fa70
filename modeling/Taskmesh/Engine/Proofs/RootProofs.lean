import Taskmesh.Engine.Proofs.PoolProofs

/-!
# Root attribution

Every root operation with live children has one entry, which counts them, sums their charges and
lists their stages; a root without live children has none. No two live children of a root share a
stage, so erasing a stage with its child loses nothing.
-/

namespace Taskmesh

open Std MachineInt SetIndex ExtTreeMap

/-- The record is a child of the root operation. -/
def isChildOf (root : String) (record : PermitRecord) : Bool :=
  record.scope.isChild && decide (record.rootOperationId = root)

/-- The sum of `f` over the live children of a root. -/
def heldByChildren (permits : BTreeMap PermitId PermitRecord) (root : String) (f : PermitRecord → Nat) :
    Nat :=
  heldBy permits fun record => if isChildOf root record then f record else 0

/-- The entry of a root, read with the default of a root without live children. -/
def GovernedState.rootState (s : GovernedState) (root : String) : RootExecutionState :=
  s.roots[root]?.getD {}

/-- The attribution of a root is exact. -/
structure RootBooks (s : GovernedState) (root : String) : Prop where
  children : (s.rootState root).childInflight = heldByChildren s.permits root fun _ => 1
  cpu : (s.rootState root).cpuUnits = heldByChildren s.permits root cpuOf
  memory : (s.rootState root).memoryUnits = heldByChildren s.permits root memoryOf
  stages : ∀ stage, stage ∈ (s.rootState root).activeStages ↔ ∃ p, guardLabel.Holds s p (root, stage)
  present : s.roots[root]? = none ↔ (heldByChildren s.permits root fun _ => 1) = 0

variable {g : Governor} {caller : Caller} {s s' : GovernedState}
  {permits : BTreeMap PermitId PermitRecord} {p : PermitId} {record record' : PermitRecord}
  {root : String}

/-! ## Sums over the children of a root -/

theorem heldByChildren_insert (h : permits[p]? = none) (record : PermitRecord) (root : String)
    (f : PermitRecord → Nat) :
    heldByChildren (permits.insert p record) root f =
      (if isChildOf root record then f record else 0) + heldByChildren permits root f :=
  heldBy_insert h record _

theorem heldByChildren_erase (h : permits[p]? = some record) (root : String) (f : PermitRecord → Nat) :
    heldByChildren permits root f =
      (if isChildOf root record then f record else 0) + heldByChildren (permits.erase p) root f :=
  heldBy_erase h _

theorem heldByChildren_replace (h : permits[p]? = some record) (record' : PermitRecord) (root : String)
    (f : PermitRecord → Nat) :
    heldByChildren (permits.insert p record') root f + (if isChildOf root record then f record else 0) =
      heldByChildren permits root f + (if isChildOf root record' then f record' else 0) :=
  heldBy_replace h record' _

/-- Without children there is nothing to sum. -/
theorem heldByChildren_eq_zero (h : (heldByChildren permits root fun _ => 1) = 0)
    (f : PermitRecord → Nat) : heldByChildren permits root f = 0 := by
  unfold heldByChildren heldBy
  refine sumBy_eq_zero fun p record hp => ?_
  have hle := le_heldBy hp fun record => if isChildOf root record then 1 else 0
  by_cases hchild : isChildOf root record = true
  · simp only [hchild, if_true] at hle
    have : (heldByChildren permits root fun _ => 1) ≥ 1 := hle
    omega
  · simp [hchild]

theorem heldByChildren_le_size (permits : BTreeMap PermitId PermitRecord) (root : String) :
    (heldByChildren permits root fun _ => 1) ≤ permits.size := by
  have hle : (sumBy permits fun _ record => if isChildOf root record then 1 else 0) ≤
      sumBy permits fun _ _ => 1 := by
    refine sumBy_le_sumBy fun p record _ => ?_
    split <;> omega
  rw [size_eq_sumBy]
  exact hle

theorem isChildOf_iff {stage : TaskStage} :
    guardLabel.held record = some (root, stage) ↔ isChildOf root record = true ∧ record.targetStage = stage := by
  by_cases hchild : record.scope.isChild = true
  · simp [guardLabel, isChildOf, hchild]
  · simp [guardLabel, isChildOf, hchild]

/-! ## Transitions -/

theorem RootBooks.same (h : RootBooks s root) (hroots : s'.roots = s.roots)
    (hpermits : s'.permits = s.permits) : RootBooks s' root := by
  have hread : s'.rootState root = s.rootState root := by
    rw [GovernedState.rootState, GovernedState.rootState, hroots]
  refine ⟨?_, ?_, ?_, fun stage => ?_, ?_⟩
  · rw [hread, hpermits, h.children]
  · rw [hread, hpermits, h.cpu]
  · rw [hread, hpermits, h.memory]
  · rw [hread, h.stages]
    simp only [Label.holds_congr hpermits]
  · rw [hroots, hpermits]
    exact h.present

/-- A record replaced by one that charges its root the same. -/
theorem RootBooks.replaced (h : RootBooks s root) (found : s.permits[p]? = some record)
    (hpermits : s'.permits = s.permits.insert p record') (hroots : s'.roots = s.roots)
    (hguard : guardLabel.held record' = guardLabel.held record)
    (hchild : isChildOf root record' = isChildOf root record) (hcpu : cpuOf record' = cpuOf record)
    (hmemory : memoryOf record' = memoryOf record) : RootBooks s' root := by
  have hread : s'.rootState root = s.rootState root := by
    rw [GovernedState.rootState, GovernedState.rootState, hroots]
  have hsum : ∀ f : PermitRecord → Nat, f record' = f record →
      heldByChildren s'.permits root f = heldByChildren s.permits root f := by
    intro f hf
    have := heldByChildren_replace found record' root f
    rw [hchild, hf] at this
    rw [hpermits]
    exact Nat.add_right_cancel this
  refine ⟨?_, ?_, ?_, fun stage => ?_, ?_⟩
  · rw [hread, hsum _ rfl, h.children]
  · rw [hread, hsum _ hcpu, h.cpu]
  · rw [hread, hsum _ hmemory, h.memory]
  · rw [hread, h.stages]
    simp only [Label.holds_replace hpermits found hguard]
  · rw [hroots, hsum _ rfl]
    exact h.present

theorem rootState_grant (s : GovernedState) (grant : GrantRequest) (root : String) :
    (s.grant grant).roots[root]? =
      if isChildOf root grant.record then
        some (GovernedState.attributeRoot grant.cost grant.targetStage (s.rootState root))
      else s.roots[root]? := by
  have hdef : (s.grant grant).roots =
      if grant.scope.isChild then
        s.roots.insert grant.rootOperationId
          (GovernedState.attributeRoot grant.cost grant.targetStage (s.rootState grant.rootOperationId))
      else s.roots := rfl
  rw [hdef]
  have hchildOf : isChildOf root grant.record =
      (grant.scope.isChild && decide (grant.rootOperationId = root)) := rfl
  rw [hchildOf]
  by_cases hchild : grant.scope.isChild = true
  · simp only [hchild, if_true, Bool.true_and, decide_eq_true_eq, ExtTreeMap.getElem?_insert]
    by_cases hroot : grant.rootOperationId = root
    · subst hroot
      simp
    · simp [hroot]
  · simp [hchild]

/-- A grant keeps the attribution of a root exact while its children have room in `u32`. -/
theorem RootBooks.granted {grant : GrantRequest} (h : RootBooks s root)
    (hnew : s.permits[grant.permitId]? = none)
    (hroom : (heldByChildren (s.grant grant).permits root fun _ => 1) ≤ u32Max) :
    RootBooks (s.grant grant) root := by
  have hpermits : (s.grant grant).permits = s.permits.insert grant.permitId grant.record := rfl
  have hentry := rootState_grant s grant root
  have hsum : ∀ f, heldByChildren (s.grant grant).permits root f =
      (if isChildOf root grant.record then f grant.record else 0) + heldByChildren s.permits root f := by
    intro f
    rw [hpermits]
    exact heldByChildren_insert hnew grant.record root f
  have hholds : ∀ stage, (∃ q, guardLabel.Holds (s.grant grant) q (root, stage)) ↔
      guardLabel.held grant.record = some (root, stage) ∨ ∃ q, guardLabel.Holds s q (root, stage) := by
    intro stage
    simp only [Label.holds_insert hpermits]
    constructor
    · rintro ⟨q, ⟨_, hq⟩ | ⟨_, hq⟩⟩
      · exact Or.inl hq
      · exact Or.inr ⟨q, hq⟩
    · rintro (hq | ⟨q, hq⟩)
      · exact ⟨grant.permitId, Or.inl ⟨rfl, hq⟩⟩
      · refine ⟨q, Or.inr ⟨?_, hq⟩⟩
        rintro rfl
        obtain ⟨record, hrecord, _⟩ := hq
        rw [hnew] at hrecord
        simp at hrecord
  by_cases hchild : isChildOf root grant.record = true
  · have hread : (s.grant grant).rootState root =
        GovernedState.attributeRoot grant.cost grant.targetStage (s.rootState root) := by
      rw [GovernedState.rootState, hentry, if_pos hchild, Option.getD_some]
    refine ⟨?_, ?_, ?_, fun stage => ?_, ?_⟩
    · have hle := hroom
      rw [hsum, if_pos hchild, ← h.children] at hle
      rw [hread, hsum, if_pos hchild, ← h.children]
      show wrappingAdd u32Max (s.rootState root).childInflight 1 = _
      rw [wrappingAdd_of_le (by omega), Nat.add_comm]
    · rw [hread, hsum, if_pos hchild, ← h.cpu]
      exact Nat.add_comm _ _
    · rw [hread, hsum, if_pos hchild, ← h.memory]
      exact Nat.add_comm _ _
    · rw [hread, hholds, ← h.stages, isChildOf_iff]
      show stage ∈ (s.rootState root).activeStages.insert grant.targetStage ↔ _
      rw [ExtTreeSet.mem_insert]
      simp only [Std.LawfulEqCmp.compare_eq_iff_eq, hchild, true_and]
      rfl
    · rw [hentry, if_pos hchild, hsum, if_pos hchild]
      simp
  · have hread : (s.grant grant).rootState root = s.rootState root := by
      rw [GovernedState.rootState, hentry, if_neg hchild, GovernedState.rootState]
    refine ⟨?_, ?_, ?_, fun stage => ?_, ?_⟩
    · rw [hread, hsum, if_neg hchild, Nat.zero_add, h.children]
    · rw [hread, hsum, if_neg hchild, Nat.zero_add, h.cpu]
    · rw [hread, hsum, if_neg hchild, Nat.zero_add, h.memory]
    · rw [hread, hholds, h.stages, isChildOf_iff]
      simp [hchild]
    · rw [hentry, if_neg hchild, hsum, if_neg hchild, Nat.zero_add]
      exact h.present

theorem roots_discharge (s : GovernedState) (p : PermitId) (record : PermitRecord) (root : String) :
    (s.discharge p record).roots[root]? =
      if isChildOf root record then
        (s.roots[root]?.map fun r =>
          ({ childInflight := r.childInflight - 1
             cpuUnits := r.cpuUnits - cpuOf record
             memoryUnits := r.memoryUnits - memoryOf record
             activeStages := r.activeStages.erase record.targetStage } : RootExecutionState)).filter
          fun r => r.childInflight ≠ 0
      else s.roots[root]? := by
  have hdef : (s.discharge p record).roots =
      if record.scope.isChild then GovernedState.unattributeRoot record s.roots else s.roots := rfl
  rw [hdef]
  have hchildOf : isChildOf root record =
      (record.scope.isChild && decide (record.rootOperationId = root)) := rfl
  rw [hchildOf]
  by_cases hchild : record.scope.isChild = true
  · simp only [hchild, if_true, Bool.true_and, decide_eq_true_eq]
    unfold GovernedState.unattributeRoot
    by_cases hroot : record.rootOperationId = root
    · subst hroot
      cases hr : s.roots[record.rootOperationId]? with
      | none => simp [hr]
      | some r =>
        by_cases hz : r.childInflight - 1 = 0
        · simp [hz, Option.filter]
        · simp [hz, Option.filter, cpuOf, memoryOf]
    · cases hr : s.roots[record.rootOperationId]? with
      | none => simp [hroot]
      | some r =>
        by_cases hz : r.childInflight - 1 = 0
        · simp [hz, hroot, ExtTreeMap.getElem?_erase]
        · simp [hz, hroot, ExtTreeMap.getElem?_insert]
  · simp [hchild]

theorem RootBooks.discharged (h : RootBooks s root) (ho : Occupancy s)
    (found : s.permits[p]? = some record) : RootBooks (s.discharge p record) root := by
  have hpermits : (s.discharge p record).permits = s.permits.erase p := rfl
  have hentry := roots_discharge s p record root
  have hsum : ∀ f, heldByChildren s.permits root f =
      (if isChildOf root record then f record else 0) +
        heldByChildren (s.discharge p record).permits root f := by
    intro f
    rw [hpermits]
    exact heldByChildren_erase found root f
  have hholds : ∀ stage, (∃ q, guardLabel.Holds (s.discharge p record) q (root, stage)) ↔
      (∃ q, guardLabel.Holds s q (root, stage)) ∧ guardLabel.held record ≠ some (root, stage) := by
    intro stage
    simp only [Label.holds_erase hpermits]
    constructor
    · rintro ⟨q, hne, hq⟩
      refine ⟨⟨q, hq⟩, fun heq => hne ?_⟩
      exact ho.guards.permits q p _ hq ⟨record, found, heq⟩
    · rintro ⟨⟨q, hq⟩, hne⟩
      refine ⟨q, ?_, hq⟩
      rintro rfl
      obtain ⟨record', hrecord', hb⟩ := hq
      rw [found] at hrecord'
      obtain rfl := Option.some.inj hrecord'
      exact hne hb
  by_cases hchild : isChildOf root record = true
  · have hone := hsum fun _ => 1
    rw [if_pos hchild] at hone
    have hsome : s.roots[root]? = some (s.rootState root) := by
      cases hr : s.roots[root]? with
      | none =>
        have := h.present.mp hr
        omega
      | some r => simp [GovernedState.rootState, hr]
    have hcount := h.children
    rw [if_pos hchild, hsome, Option.map_some] at hentry
    by_cases hlast : (s.rootState root).childInflight - 1 = 0
    · -- The last child leaves: the entry goes, and nothing is left to sum.
      have hnone : (s.discharge p record).roots[root]? = none := by
        rw [hentry]
        simp [Option.filter, hlast]
      have hzero : (heldByChildren (s.discharge p record).permits root fun _ => 1) = 0 := by omega
      have hread : (s.discharge p record).rootState root = {} := by
        simp [GovernedState.rootState, hnone]
      refine ⟨?_, ?_, ?_, fun stage => ?_, ?_⟩
      · rw [hread, hzero]
      · rw [hread, heldByChildren_eq_zero hzero]
      · rw [hread, heldByChildren_eq_zero hzero]
      · rw [hread]
        have hnot : stage ∉ (∅ : BTreeSet TaskStage) := by simp
        refine iff_of_false hnot ?_
        rintro ⟨q, record', hrecord', hb⟩
        have hle := le_heldBy hrecord' fun record => if isChildOf root record then 1 else 0
        simp only [(isChildOf_iff.mp hb).1, if_true] at hle
        have : (heldByChildren (s.discharge p record).permits root fun _ => 1) ≥ 1 := hle
        omega
      · simp [hnone, hzero]
    · have hread : (s.discharge p record).rootState root =
          { childInflight := (s.rootState root).childInflight - 1
            cpuUnits := (s.rootState root).cpuUnits - cpuOf record
            memoryUnits := (s.rootState root).memoryUnits - memoryOf record
            activeStages := (s.rootState root).activeStages.erase record.targetStage } := by
        rw [GovernedState.rootState, hentry]
        simp [Option.filter, hlast]
      refine ⟨?_, ?_, ?_, fun stage => ?_, ?_⟩
      · rw [hread]
        simp only
        omega
      · rw [hread]
        have := hsum cpuOf
        rw [if_pos hchild, ← h.cpu] at this
        simp only
        omega
      · rw [hread]
        have := hsum memoryOf
        rw [if_pos hchild, ← h.memory] at this
        simp only
        omega
      · rw [hread, hholds, ← h.stages, ne_eq, isChildOf_iff]
        simp only [ExtTreeSet.mem_erase, hchild, true_and, ne_eq, Std.LawfulEqCmp.compare_eq_iff_eq]
        exact and_comm
      · rw [hentry]
        have hne : (heldByChildren (s.discharge p record).permits root fun _ => 1) ≠ 0 := by omega
        simp [Option.filter, hlast, hne]
  · have hread : (s.discharge p record).rootState root = s.rootState root := by
      rw [GovernedState.rootState, hentry, if_neg hchild, GovernedState.rootState]
    have hsame : ∀ f, heldByChildren (s.discharge p record).permits root f =
        heldByChildren s.permits root f := by
      intro f
      rw [hsum f, if_neg hchild, Nat.zero_add]
    refine ⟨?_, ?_, ?_, fun stage => ?_, ?_⟩
    · rw [hread, hsame, h.children]
    · rw [hread, hsame, h.cpu]
    · rw [hread, hsame, h.memory]
    · rw [hread, hholds, h.stages, ne_eq, isChildOf_iff]
      simp [hchild]
    · rw [hentry, if_neg hchild, hsame]
      exact h.present

theorem roots_rechargePermit (s : GovernedState) (p : PermitId) (record : PermitRecord)
    (ledger : PermitLedger) (root : String) :
    (s.rechargePermit p record ledger).roots[root]? =
      if isChildOf root record then
        s.roots[root]?.map fun r =>
          { r with
            memoryUnits := shifted (ledger.effectiveUnits - record.ledger.effectiveUnits : Int) r.memoryUnits }
      else s.roots[root]? := by
  obtain ⟨_, _, hroots⟩ := totals_applyMemoryDelta
    { s with permits := s.permits.insert p { record with ledger := ledger } } record.taskClass
    (if record.scope.isChild then some record.rootOperationId else none)
    (ledger.effectiveUnits - record.ledger.effectiveUnits : Int)
  have hdef : (s.rechargePermit p record ledger).roots = _ := hroots
  rw [hdef]
  have hchildOf : isChildOf root record =
      (record.scope.isChild && decide (record.rootOperationId = root)) := rfl
  rw [hchildOf]
  by_cases hchild : record.scope.isChild = true
  · simp only [hchild, if_true, Bool.true_and, decide_eq_true_eq, ExtTreeMap.getElem?_modify]
    by_cases hroot : record.rootOperationId = root
    · subst hroot
      simp
    · simp [hroot]
  · simp [hchild]

theorem RootBooks.recharged {ledger : PermitLedger} (h : RootBooks s root)
    (found : s.permits[p]? = some record) (change : LedgerChange record.ledger ledger) :
    RootBooks (s.rechargePermit p record ledger) root := by
  have hpermits : (s.rechargePermit p record ledger).permits =
      s.permits.insert p { record with ledger := ledger } :=
    (memoryOnly_rechargePermit s p record ledger).permits
  have hentry := roots_rechargePermit s p record ledger root
  have hguard : ∀ q stage, guardLabel.Holds (s.rechargePermit p record ledger) q (root, stage) ↔
      guardLabel.Holds s q (root, stage) := fun q stage =>
    Label.holds_replace hpermits found (guardLabel.recharged record ledger) q (root, stage)
  have hchildOf : isChildOf root { record with ledger := ledger } = isChildOf root record := rfl
  have hsum : ∀ f, heldByChildren (s.rechargePermit p record ledger).permits root f +
      (if isChildOf root record then f record else 0) =
        heldByChildren s.permits root f +
          (if isChildOf root record then f { record with ledger := ledger } else 0) := by
    intro f
    have := heldByChildren_replace found { record with ledger := ledger } root f
    rwa [hchildOf, ← hpermits] at this
  have hsame : ∀ f : PermitRecord → Nat, f { record with ledger := ledger } = f record →
      heldByChildren (s.rechargePermit p record ledger).permits root f =
        heldByChildren s.permits root f := by
    intro f hf
    have := hsum f
    rw [hf] at this
    exact Nat.add_right_cancel this
  have hone := hsame (fun _ => 1) rfl
  have hcpu := hsame cpuOf change.cpuUnits
  by_cases hchild : isChildOf root record = true
  · have hcount := heldByChildren_erase found root fun _ => 1
    rw [if_pos hchild] at hcount
    have hsome : s.roots[root]? = some (s.rootState root) := by
      cases hr : s.roots[root]? with
      | none =>
        have := h.present.mp hr
        omega
      | some r => simp [GovernedState.rootState, hr]
    have hread : (s.rechargePermit p record ledger).rootState root =
        { s.rootState root with
          memoryUnits := shifted (ledger.effectiveUnits - record.ledger.effectiveUnits : Int)
            (s.rootState root).memoryUnits } := by
      rw [GovernedState.rootState, hentry, if_pos hchild, hsome, Option.map_some, Option.getD_some]
    refine ⟨?_, ?_, ?_, fun stage => ?_, ?_⟩
    · rw [hread, hone]
      exact h.children
    · rw [hread, hcpu]
      exact h.cpu
    · rw [hread]
      have hle : memoryOf record ≤ (s.rootState root).memoryUnits := by
        have := heldByChildren_erase found root memoryOf
        rw [if_pos hchild, ← h.memory] at this
        omega
      have hshift := shifted_add hle ledger.effectiveUnits
      have hm := hsum memoryOf
      rw [if_pos hchild, if_pos hchild, ← h.memory] at hm
      exact Nat.add_right_cancel (hshift.trans hm.symm)
    · rw [hread]
      simp only [hguard]
      exact h.stages stage
    · rw [hentry, if_pos hchild, hone, Option.map_eq_none_iff]
      exact h.present
  · have hread : (s.rechargePermit p record ledger).rootState root = s.rootState root := by
      rw [GovernedState.rootState, hentry, if_neg hchild, GovernedState.rootState]
    refine ⟨?_, ?_, ?_, fun stage => ?_, ?_⟩
    · rw [hread, hone, h.children]
    · rw [hread, hcpu, h.cpu]
    · have hm := hsum memoryOf
      rw [if_neg hchild, if_neg hchild] at hm
      rw [hread, h.memory]
      exact (Nat.add_right_cancel hm).symm
    · rw [hread, h.stages]
      simp only [hguard]
    · rw [hentry, if_neg hchild, hone]
      exact h.present

/-- Root attribution stays exact while a root has fewer than `2^32` live children. -/
theorem Effect.rootBooks (h : Effect g caller s s') (ho : Occupancy s) (hr : RootBooks s root)
    (hfew : (heldByChildren s'.permits root fun _ => 1) < 2 ^ 32) : RootBooks s' root := by
  have hgrant : ∀ (base : GovernedState) (grant : GrantRequest), s' = base.grant grant →
      base.permits[grant.permitId]? = none → s.SameLedger base → RootBooks s' root := by
    rintro base grant rfl hnew hledger
    exact (hr.same hledger.roots hledger.permits).granted hnew (Nat.le_of_lt_succ hfew)
  cases h with
  | kept queues ledger guards => exact hr.same ledger.roots ledger.permits
  | queued waker nowMs tags allowed accepted pushed identities ledger guards sound =>
    exact hr.same ledger.roots ledger.permits
  | dropped removed identities ledger guards => exact hr.same ledger.roots ledger.permits
  | admitted nowMs allowed accepted fits result =>
    exact hgrant s _ result accepted.fresh.permit (.refl s)
  | promoted nowMs fits removed identities ledger guards result =>
    have hlive := ho.not_live removed.mem
    rw [← ledger.permits] at hlive
    exact hgrant _ _ result hlive ledger
  | ended found ends queues ledger guards => exact (hr.discharged ho found).same ledger.roots ledger.permits
  | touched found similar queues ledger guards =>
    obtain ⟨waker, touchedMs, heq⟩ := similar.rest
    have hguard := similar.guard
    refine hr.replaced found ledger.permits ledger.roots hguard ?_ ?_ ?_
    · rw [heq]; rfl
    · rw [heq]; rfl
    · rw [heq]; rfl
  | advanced nonces found later result => subst result; exact hr.replaced found rfl rfl rfl rfl rfl rfl
  | recharged allowed found change result => subst result; exact hr.recharged found change

theorem rootBooks_init (root : String) : RootBooks {} root := by
  have hzero : ∀ f, heldByChildren (∅ : BTreeMap PermitId PermitRecord) root f = 0 := by
    intro f
    simp [heldByChildren, heldBy]
  have hread : GovernedState.rootState {} root = {} := by simp [GovernedState.rootState]
  refine ⟨?_, ?_, ?_, fun stage => ?_, ?_⟩
  · rw [hread]
    exact (hzero _).symm
  · rw [hread]
    exact (hzero _).symm
  · rw [hread]
    exact (hzero _).symm
  · rw [hread]
    refine iff_of_false (by simp) ?_
    rintro ⟨p, record, hrecord, _⟩
    simp at hrecord
  · refine iff_of_true ?_ (hzero _)
    simp

end Taskmesh
