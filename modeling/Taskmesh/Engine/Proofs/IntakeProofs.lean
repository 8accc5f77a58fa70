import Taskmesh.Engine.Proofs.TimeProofs

/-!
# Resolved at intake, then frozen

An admission resolves the identity, the class, the cost and the requirements of a request once. A queue
entry and the permit it becomes carry the same resolution, whatever happens in between, and the parent
they are attached to never changes once it is known.
-/

namespace Taskmesh

open Std MachineInt GovernedState Governor

variable {g : Governor} {caller : Caller} {s s' : GovernedState} {c : TaskClass} {policy : ClassPolicy}
  {request : AdmissionRequest} {ids : Ids} {waker : Option Waker} {nowMs : Nat} {effects : TransitionEffects}

/-! ## The class of a request -/

/-- Memory is one of the dimensions that block the request under the class. -/
def MemoryBlocked (g : Governor) (s : GovernedState) (c : TaskClass) (policy : ClassPolicy)
    (request : AdmissionRequest) : Prop :=
  (blockersFor s g.policy c policy.maxInflight.toNat (resolveCost policy) request.capabilities).memory = true

/-- The request was granted or queued under the class. -/
def EnteredUnder (g : Governor) (s : GovernedState) (request : AdmissionRequest) (waker : Option Waker)
    (ids : Ids) (nowMs : Nat) (c : TaskClass) (s' : GovernedState) : Prop :=
  ∃ policy, g.policy.classPolicy c = some policy ∧
    (s' = s.grant (directGrant s policy c request ids nowMs) ∨
      ∃ block, s' = (enqueueTags s c policy (resolveCost policy).cpuUnits nowMs).1.commitPending
        (pendingRequest s policy c request waker ids nowMs block
          (enqueueTags s c policy (resolveCost policy).cpuUnits nowMs).2))

/-- An admission under a class refuses, accepts, or hands over to the fallback of its class. -/
def Admits (g : Governor) (s : GovernedState) (request : AdmissionRequest) (waker : Option Waker) (ids : Ids)
    (nowMs : Nat) (c : TaskClass) (degrade : Option (TaskClass → Admission)) (admission : Admission) : Prop :=
  (∃ verdict, admission.decision = .rejected verdict) ∨
  EnteredUnder g s request waker ids nowMs c admission.state ∨
  ∃ policy fallback admitFallback, g.policy.classPolicy c = some policy ∧
    policy.memoryOvercommitPolicy = .degradeToLight fallback ∧ MemoryBlocked g s c policy request ∧
    degrade = some admitFallback ∧ admission = admitFallback fallback

/-- A refusal is one of the ways an intake ends. -/
theorem admits_refused {degrade : Option (TaskClass → Admission)} (verdict : AdmissionVerdict)
    (s' : GovernedState) : Admits g s request waker ids nowMs c degrade (refuse s' effects waker verdict) :=
  Or.inl ⟨verdict, rfl⟩

/-- Joining the queue is one of the ways an intake ends. -/
theorem admits_enqueued {degrade : Option (TaskClass → Admission)} (hknown : g.policy.classPolicy c = some policy)
    (block : CapacityBlock) : Admits g s request waker ids nowMs c degrade
      (enqueueOrFull s policy c request waker ids nowMs block effects) := by
  unfold enqueueOrFull
  split
  · exact admits_refused _ s
  · exact Or.inr (Or.inl ⟨policy, hknown, Or.inr ⟨block, rfl⟩⟩)

/-- Whatever block the intake finds, it ends by one hop at most. -/
theorem admits_block {degrade : Option (TaskClass → Admission)} (hknown : g.policy.classPolicy c = some policy)
    {block : CapacityBlock} (hmemory : block = .memory → MemoryBlocked g s c policy request) :
    Admits g s request waker ids nowMs c degrade
      (admitBlock s policy c request waker ids nowMs degrade effects block) := by
  cases block with
  | ok => exact Or.inr (Or.inl ⟨policy, hknown, Or.inl rfl⟩)
  | accountingFault => exact admits_refused _ _
  | queuedBehind => exact admits_enqueued hknown _
  | inflight | cpu | capability =>
    unfold admitBlock
    simp only
    split
    · exact admits_enqueued hknown _
    · exact admits_refused _ s
  | memory =>
    unfold admitBlock
    simp only
    split
    · rename_i fallback hpolicy
      cases degrade with
      | none => exact admits_refused _ s
      | some admitFallback =>
        exact Or.inr (Or.inr ⟨policy, fallback, admitFallback, hknown, hpolicy, hmemory rfl, rfl, rfl⟩)
    · exact admits_enqueued hknown _
    · exact admits_refused _ s

theorem memory_of_primary {blockers : BlockerSet} (h : blockers.primary = .memory) : blockers.memory = true := by
  unfold BlockerSet.primary at h
  split_ifs at h with hfault hinflight hpools hcpu hmemory hbehind
  exact hmemory

/-- A block whose primary cause is memory is a block on memory. -/
theorem memoryBlocked_of_primary {blockers : BlockerSet}
    (h : assessIntake s g.policy policy c request = .reversiblyBlocked blockers)
    (hprimary : blockers.primary = .memory) : MemoryBlocked g s c policy request := by
  have hmemory := memory_of_primary hprimary
  unfold assessIntake assess assessScope at h
  simp only at h
  split at h
  · simp at h
  · split at h
    · simp at h
    · obtain rfl := CapacityAssessment.reversiblyBlocked.inj h
      exact hmemory

/-- A chain reports memory only where memory blocks. -/
theorem memory_of_heldByChain {policies : PolicySet} {blockers : BlockerSet} {chain : List PermitRecord}
    {held : List HeldCapacity} (h : heldByChain s policies c blockers chain = some held)
    (hmem : HeldCapacity.memoryBudget ∈ held) : blockers.memory = true := by
  unfold heldByChain at h
  obtain ⟨pools, hpools, h⟩ := Option.bind_eq_some_iff.mp h
  rw [← Option.some.inj h] at hmem
  have hpool : HeldCapacity.memoryBudget ∉ pools := by
    intro hpool
    obtain ⟨id, _, hid⟩ := Traversal.checked_option.source hpools hpool
    obtain ⟨record, _, hrecord⟩ := Option.map_eq_some_iff.mp hid
    simp at hrecord
  simp only [List.mem_append, hpool, or_false] at hmem
  rcases hmem with (hmem | hmem) | hmem
  · split at hmem <;> simp at hmem
  · split at hmem <;> simp at hmem
  · split at hmem
    · rename_i hblocked
      exact (Bool.and_eq_true_iff.mp hblocked).1
    · simp at hmem

theorem memoryBlocked_of_cycle {witness : CycleWitness}
    (h : assessIntake s g.policy policy c request = .irreversibleWaitCycle witness)
    (hmem : HeldCapacity.memoryBudget ∈ witness.held) : MemoryBlocked g s c policy request := by
  unfold assessIntake assess assessScope at h
  simp only at h
  split at h
  · simp at h
  · split at h
    · rename_i witness' hwitness
      obtain rfl := CapacityAssessment.irreversibleWaitCycle.inj h
      unfold cycleWitness at hwitness
      split at hwitness
      · obtain ⟨parent, _, hwitness⟩ := Option.bind_eq_some_iff.mp hwitness
        dsimp only at hwitness
        split at hwitness
        · simp at hwitness
        · obtain ⟨held, hheld, hwitness⟩ := Option.bind_eq_some_iff.mp hwitness
          split at hwitness
          · simp at hwitness
          · rw [← Option.some.inj hwitness] at hmem
            exact memory_of_heldByChain hheld hmem
      · simp at hwitness
    · simp at h

/-- The intake ends in one of its ways, with any continuation for the degraded class. -/
theorem admits_with (degrade : Option (TaskClass → Admission)) (s : GovernedState) (nowMs : Nat)
    (request : AdmissionRequest) (c : TaskClass) (waker : Option Waker) (ids : Ids)
    (effects : TransitionEffects) : Admits g s request waker ids nowMs c degrade
      (admitClassWith degrade s g.policy nowMs request c waker ids effects) := by
  unfold admitClassWith
  cases hknown : g.policy.classPolicy c with
  | none => exact admits_refused _ s
  | some policy =>
    simp only
    split
    · exact admits_refused _ s
    split
    · exact admits_refused _ s
    split
    · exact admits_refused _ s
    cases hassess : assessIntake s g.policy policy c request with
    | runnable => exact admits_block hknown (by simp)
    | reversiblyBlocked blockers => exact admits_block hknown (memoryBlocked_of_primary hassess)
    | irreversibleWaitCycle witness =>
      simp only
      split
      · rename_i fallback hfallback
        unfold cycleFallback at hfallback
        split at hfallback
        · rename_i hmem
          split at hfallback
          · rename_i target hpolicy
            obtain ⟨admitFallback, hdegrade, hadmission⟩ := Option.map_eq_some_iff.mp hfallback
            exact Or.inr (Or.inr ⟨policy, target, admitFallback, hknown, hpolicy,
              memoryBlocked_of_cycle hassess hmem, hdegrade, hadmission.symm⟩)
          · simp at hfallback
        · simp at hfallback
      · split
        · exact admits_refused _ s
        · exact admits_refused _ s

/-- The class a request is accounted under: its own, or, where memory blocked it there, the one its own
class degrades to. -/
def ResolvedClass (g : Governor) (s : GovernedState) (request : AdmissionRequest) (c : TaskClass) : Prop :=
  c = request.spec.taskClass ∨
    ∃ declared, g.policy.classPolicy request.spec.taskClass = some declared ∧
      declared.memoryOvercommitPolicy = .degradeToLight c ∧
      MemoryBlocked g s request.spec.taskClass declared request

/-- An admission refuses, or accepts under the resolved class: a degrade is one hop. -/
theorem admitRequest_resolved (g : Governor) (s : GovernedState) (nowMs : Nat) (request : AdmissionRequest)
    (waker : Option Waker) (ids : Ids) (effects : TransitionEffects) :
    (∃ verdict, (admitRequest s g.policy nowMs request waker ids effects).decision = .rejected verdict) ∨
    ∃ c, ResolvedClass g s request c ∧ EnteredUnder g s request waker ids nowMs c
      (admitRequest s g.policy nowMs request waker ids effects).state := by
  unfold admitRequest admitClass
  split
  · exact Or.inl ⟨_, rfl⟩
  · simp only [if_true]
    rcases admits_with (g := g) (some fun fallback => admitClassWith none s g.policy nowMs request fallback waker
      ids effects) s nowMs request request.spec.taskClass waker ids effects with
      hrefused | hentered | ⟨policy, fallback, admitFallback, hknown, hpolicy, hmemory, hdegrade, hadmission⟩
    · exact Or.inl hrefused
    · exact Or.inr ⟨_, Or.inl rfl, hentered⟩
    · obtain rfl := Option.some.inj hdegrade
      rw [hadmission]
      rcases admits_with (g := g) none s nowMs request fallback waker ids effects with
        hrefused | hentered | ⟨_, _, _, _, _, _, hnone, _⟩
      · exact Or.inl hrefused
      · exact Or.inr ⟨fallback, Or.inr ⟨policy, hknown, hpolicy, hmemory⟩, hentered⟩
      · simp at hnone

/-! ## What is resolved -/

/-- What an admission resolves for a request, but its parent. -/
structure Resolution where
  permitId : PermitId
  taskClass : TaskClass
  operation : String
  rootOperationId : String
  scope : TaskScope
  targetStage : TaskStage
  provenance : Provenance
  capabilities : CapabilityRequirementSet
  cost : ResolvedCost

def PendingRequest.resolution (r : PendingRequest) : Resolution :=
  ⟨r.permitId, r.taskClass, r.operation, r.rootOperationId, r.scope, r.targetStage, r.provenance,
    r.capabilities, r.cost⟩

/-- The resolution a permit was granted by: its charge is that of its grant. -/
def PermitRecord.resolution (record : PermitRecord) : Resolution :=
  ⟨record.permitId, record.taskClass, record.operation, record.rootOperationId, record.scope,
    record.targetStage, record.provenance, record.capabilities,
    ⟨record.ledger.cpuUnits, record.ledger.originalEstimateUnits⟩⟩

/-- The resolution of a request under a class. -/
def AdmissionRequest.resolution (request : AdmissionRequest) (permitId : PermitId) (c : TaskClass)
    (policy : ClassPolicy) : Resolution :=
  ⟨permitId, c, request.spec.operation, request.spec.rootOperationId, request.spec.scope,
    targetStage request.spec, Provenance.ofSpec request.spec, request.capabilities, resolveCost policy⟩

theorem SameCharge.resolution {record record' : PermitRecord} (h : SameCharge record record') :
    record'.resolution = record.resolution := by
  unfold PermitRecord.resolution
  rw [h.permitId, h.taskClass, h.operation, h.rootOperationId, h.scope, h.targetStage, h.provenance,
    h.capabilities, h.cpuUnits, h.originalEstimateUnits]

/-- A queue entry or a live permit carries the resolution, attached to this parent. -/
def Carries (s : GovernedState) (res : Resolution) (parent : Option PermitId) : Prop :=
  (∃ c, ∃ r ∈ s.waiting c, r.resolution = res ∧ r.parentPermitId = parent) ∨
    ∃ (p : PermitId) (record : PermitRecord), s.permits[p]? = some record ∧ record.resolution = res ∧
      record.parentPermitId = parent

/-- A permit identity is carried once. -/
theorem Carries.unique (ho : Occupancy s) (hqueues : QueueInv g s) {res res' : Resolution}
    {parent parent' : Option PermitId} (h : Carries s res parent) (h' : Carries s res' parent')
    (hsame : res.permitId = res'.permitId) : parent = parent' := by
  rcases h with ⟨c, r, hr, rfl, rfl⟩ | ⟨p, record, found, rfl, rfl⟩ <;>
    rcases h' with ⟨c', r', hr', rfl, rfl⟩ | ⟨p', record', found', rfl, rfl⟩
  · obtain rfl := hqueues.permitIds.eq_of_label hr hr' hsame
    rfl
  · exact absurd ⟨record', found', rfl⟩ (ho.permitIds.apart p' record'.permitId
      ⟨c, r, hr, congrArg some hsame⟩)
  · exact absurd ⟨record, found, rfl⟩ (ho.permitIds.apart p record.permitId
      ⟨c', r', hr', congrArg some hsame.symm⟩)
  · obtain rfl : p = p' := by
      rw [← ho.keys p record found, ← ho.keys p' record' found']
      exact hsame
    obtain rfl := Option.some.inj (found.symm.trans found')
    rfl

/-! ## What a move does to the carriers -/

/-- A permit that was not live before a move is granted by it: to its caller, or to a queued request. -/
theorem Effect.granted {p : PermitId} {record' : PermitRecord} (h : Effect g caller s s')
    (hnone : s.permits[p]? = none) (found' : s'.permits[p]? = some record') :
    (∃ ids, caller.ids ids ∧ record'.permitId = ids.permitId) ∨
      ∃ (base : GovernedState) (c : TaskClass) (head : PendingRequest) (nowMs : Nat),
        head.untagged ∈ s.waiting c ∧ record' = (Governor.promotedGrant base c head nowMs).record := by
  have hinsert : ∀ {q : PermitId} {new : PermitRecord}, s'.permits = s.permits.insert q new → record' = new := by
    intro q new hpermits
    rw [hpermits, ExtTreeMap.getElem?_insert] at found'
    split at found'
    · exact (Option.some.inj found').symm
    · simp [hnone] at found'
  have hreplaced : ∀ {q : PermitId} {old new : PermitRecord}, s'.permits = s.permits.insert q new →
      s.permits[q]? = some old → False := by
    intro q old new hpermits found
    rw [hpermits, ExtTreeMap.getElem?_insert] at found'
    split at found'
    · rename_i heq
      obtain rfl : q = p := LawfulEqCmp.eq_of_compare heq
      simp [found] at hnone
    · simp [hnone] at found'
  cases h with
  | kept queues ledger guards => rw [ledger.permits, hnone] at found'; simp at found'
  | queued waker nowMs tags allowed accepted pushed identities ledger guards sound =>
    rw [ledger.permits, hnone] at found'
    simp at found'
  | dropped removed identities ledger guards => rw [ledger.permits, hnone] at found'; simp at found'
  | @admitted policy c request ids nowMs allowed accepted fits result =>
    subst result
    rw [hinsert rfl]
    exact Or.inl ⟨ids, allowed, rfl⟩
  | @promoted policy c index head base nowMs fits removed identities ledger guards result =>
    subst result
    have hpermits : (base.grant (Governor.promotedGrant base c head nowMs)).permits =
        s.permits.insert head.permitId (Governor.promotedGrant base c head nowMs).record := by
      show base.permits.insert _ _ = _
      rw [ledger.permits]
      rfl
    exact Or.inr ⟨base, c, head, nowMs, removed.mem, hinsert hpermits⟩
  | @ended q old foundq ends queues ledger guards =>
    have hpermits : s'.permits = s.permits.erase q := ledger.permits
    rw [hpermits, ExtTreeMap.getElem?_erase, hnone] at found'
    simp at found'
  | touched foundq similar queues ledger guards => exact absurd foundq fun h => hreplaced ledger.permits h
  | advanced nonces foundq later result =>
    subst result
    exact absurd foundq fun h => hreplaced rfl h
  | @recharged q old ledger allowed foundq change result =>
    subst result
    exact absurd foundq fun h => hreplaced (memoryOnly_rechargePermit s q old ledger).permits h

/-- A move brings no resolution but those of its caller; a parent is attached once. -/
theorem Effect.carries (h : Effect g caller s s') (ho : Occupancy s) (hqueues : QueueInv g s)
    {res : Resolution} {parent' : Option PermitId} (hcarries : Carries s' res parent') :
    (∃ parent, Carries s res parent ∧ (parent = none ∨ parent' = parent)) ∨
      ∃ ids, caller.ids ids ∧ res.permitId = ids.permitId := by
  rcases hcarries with ⟨c, r, hr, rfl, rfl⟩ | ⟨p, record', found', rfl, rfl⟩
  · rcases h.mem_waiting hr with hr | ⟨ids, hallowed, hid, _⟩
    · exact Or.inl ⟨_, Or.inl ⟨c, r, hr, rfl, rfl⟩, Or.inr rfl⟩
    · exact Or.inr ⟨ids, hallowed, hid⟩
  · cases found : s.permits[p]? with
    | some record =>
      rcases h.permit ho found with ⟨record'', found'', hstep⟩ | ⟨hgone, _⟩
      · obtain rfl := Option.some.inj (found''.symm.trans found')
        exact Or.inl ⟨record.parentPermitId, Or.inr ⟨p, record, found, hstep.charge.resolution.symm, rfl⟩,
          Or.inr hstep.charge.parentPermitId⟩
      · have hnone := hgone.live
        rw [found'] at hnone
        simp at hnone
    | none =>
      rcases h.granted found found' with ⟨ids, hallowed, hid⟩ | ⟨base, c, head, nowMs, hmem, rfl⟩
      · exact Or.inr ⟨ids, hallowed, hid⟩
      · obtain ⟨policy, hfits⟩ := hqueues.fits c head.untagged hmem
        refine Or.inl ⟨head.parentPermitId, Or.inl ⟨c, head.untagged, hmem, ?_, rfl⟩, ?_⟩
        · have hclass : head.taskClass = c := hfits.taskClass
          unfold PendingRequest.resolution PermitRecord.resolution
          rw [← hclass]
          rfl
        · cases hparent : head.parentPermitId with
          | none => exact Or.inl rfl
          | some parent =>
            right
            show (head.parentPermitId <|> base.parentPermitForScope head.rootOperationId head.scope) = _
            rw [hparent]
            rfl

/-- An admission adds the resolution of its request under the class that accepted it, and no other. -/
theorem EnteredUnder.carries (h : EnteredUnder g s request waker ids nowMs c s') {res : Resolution}
    {parent : Option PermitId} (hcarries : Carries s' res parent) :
    Carries s res parent ∨
      ∃ policy, g.policy.classPolicy c = some policy ∧ res = request.resolution ids.permitId c policy := by
  obtain ⟨policy, hknown, rfl | ⟨block, rfl⟩⟩ := h
  · rcases hcarries with ⟨k, r, hr, hres, hparent⟩ | ⟨p, record, found, hres, hparent⟩
    · rw [(sameQueues_grant _ _).waiting_eq k] at hr
      exact Or.inl (Or.inl ⟨k, r, hr, hres, hparent⟩)
    · have hpermits : (s.grant (directGrant s policy c request ids nowMs)).permits =
          s.permits.insert ids.permitId (directGrant s policy c request ids nowMs).record := rfl
      rw [hpermits, ExtTreeMap.getElem?_insert] at found
      split at found
      · rw [← Option.some.inj found] at hres
        exact Or.inr ⟨policy, hknown, hres.symm⟩
      · exact Or.inl (Or.inr ⟨p, record, found, hres, hparent⟩)
  · have hres := rescheduled_enqueueTags s c policy (resolveCost policy).cpuUnits nowMs
    have hpushed : QueueFamily.Pushed s.waiting _ c (queuedEntry s policy c request waker ids nowMs block
        (enqueueTags s c policy (resolveCost policy).cpuUnits nowMs).2) := pushed_commitPending hres
    rcases hcarries with ⟨k, r, hr, hres', hparent⟩ | ⟨p, record, found, hres', hparent⟩
    · rcases hpushed.mem_iff.mp hr with hr | ⟨rfl, rfl⟩
      · exact Or.inl (Or.inl ⟨k, r, hr, hres', hparent⟩)
      · exact Or.inr ⟨policy, hknown, hres'.symm⟩
    · have hpermits : ((enqueueTags s c policy (resolveCost policy).cpuUnits nowMs).1.commitPending
          (pendingRequest s policy c request waker ids nowMs block
            (enqueueTags s c policy (resolveCost policy).cpuUnits nowMs).2)).permits = s.permits := by
        rw [← hres.ledger.permits]
        unfold commitPending
        split <;> rfl
      rw [hpermits] at found
      exact Or.inl (Or.inr ⟨p, record, found, hres', hparent⟩)

/-! ## What a step does to the carriers -/

variable {σ σ' : g.System} {a : Action} {e : Event}

/-- A step brings no resolution but those of its caller; a parent is attached once. -/
theorem SysInv.step_carries (hinv : SysInv σ) (h : g.step σ a = some (σ', e)) {res : Resolution}
    {parent' : Option PermitId} (hcarries : Carries σ'.state res parent')
    (hids : ∀ ids, (callerOf σ a).ids ids → res.permitId ≠ ids.permitId) :
    ∃ parent, Carries σ.state res parent ∧ (parent = none ∨ parent' = parent) := by
  refine hinv.step_rule h (P := fun s => ∀ parent', Carries s res parent' →
    ∃ parent, Carries σ.state res parent ∧ (parent = none ∨ parent' = parent)) ?_
    (fun parent' hstart => ⟨parent', hstart, Or.inr rfl⟩) parent' hcarries
  intro trend s s' hm hinv₁ _ hsince parent' hcarries'
  rcases (hm.effect hinv₁.queues).carries hinv₁.occupancy hinv₁.queues hcarries' with
    ⟨parent, hbefore, hattached⟩ | ⟨ids, hallowed, hid⟩
  · obtain ⟨first, hfirst, hattached₁⟩ := hsince parent hbefore
    refine ⟨first, hfirst, ?_⟩
    rcases hattached₁ with hnone | rfl
    · exact Or.inl hnone
    · exact hattached
  · exact absurd hid (hids ids hallowed)

/-- A refused request leaves the state as it was. -/
theorem Entered.refused_state {verdict : AdmissionVerdict}
    (h : Entered g s request ids waker nowMs s' (.rejected verdict)) : s' = s := by
  cases h
  rfl

/-- A step that enters the lock adds one resolution at most: that of its request, under the class that
accepted it. -/
theorem SysInv.step_entered_carries (hinv : SysInv σ) {i : Nat} (h : g.step σ (.enter i) = some (σ', e))
    {res : Resolution} {parent : Option PermitId} (hcarries : Carries σ'.state res parent) :
    Carries σ.state res parent ∨
      ∃ (intake : Intake g.policy) (sampledMs : Nat) (ids : Ids) (c : TaskClass) (policy : ClassPolicy),
        σ.threads[i]? = some (.admitting intake sampledMs ids) ∧
        ResolvedClass g (σ.state.commitTime sampledMs) intake.request c ∧
        g.policy.classPolicy c = some policy ∧ res = intake.request.resolution ids.permitId c policy := by
  obtain ⟨p, hp, rfl, _⟩ := step_eq_some h
  simp only [Governor.prepare] at hp
  split at hp
  · rename_i intake sampledMs ids hthread
    obtain rfl := Option.some.inj hp
    have hstate : (Governor.finish (Governor.enter σ i intake sampledMs ids)).state =
        (admitRequest (σ.state.commitTime sampledMs) g.policy (σ.state.commitTime sampledMs).commitWatermarkMs
          intake.request intake.waker ids {}).state := by
      unfold Governor.finish
      rw [commit_of_not_promotes _ _ rfl]
      rfl
    rw [hstate] at hcarries
    rcases admitRequest_resolved g (σ.state.commitTime sampledMs) (σ.state.commitTime sampledMs).commitWatermarkMs
      intake.request intake.waker ids {} with ⟨verdict, hrefused⟩ | ⟨c, hclass, hentered⟩
    · have hfresh := (hinv.fresh (List.mem_of_getElem? hthread)).commitTime sampledMs
      have hentered := admit_entered intake hfresh (σ.state.commitTime sampledMs).commitWatermarkMs {}
      rw [hrefused] at hentered
      rw [hentered.refused_state] at hcarries
      exact Or.inl hcarries
    · rcases hentered.carries hcarries with hbefore | ⟨policy, hknown, hres⟩
      · exact Or.inl hbefore
      · exact Or.inr ⟨intake, sampledMs, ids, c, policy, hthread, hclass, hknown, hres⟩
  · simp at hp

/-! ## Where a submission comes from -/

/-- The spec an admission call submits. -/
def AdmitCall.spec : AdmitCall → TaskSpec
  | .admitSpec spec | .admitWaitable spec _ | .admitResolved spec _ _ => spec
  | .admitValidated plan | .admitValidatedRequirements plan _ _ => plan.spec

/-- The requirement set of an admission call: declared by the stages of its spec, or handed over. -/
def AdmitCall.requirements (policies : PolicySet) : AdmitCall →
    Except CapabilityResolutionError CapabilityRequirementSet
  | .admitSpec spec | .admitWaitable spec _ => declaredRequirements policies spec
  | .admitValidated plan => declaredRequirements policies plan.spec
  | .admitResolved _ capability _ => CapabilityRequirementSet.fromResolved [capability]
  | .admitValidatedRequirements _ requirements _ => .ok requirements

/-- The request the lock decides is the spec and the requirement set of the call. -/
def AdmitCall.Submits (policies : PolicySet) (entry : AdmitCall) (request : AdmissionRequest) : Prop :=
  request.spec = entry.spec ∧ entry.requirements policies = .ok request.capabilities

theorem declaredIntake_submits {policies : PolicySet} {plan : ValidatedTaskPlan} {intake : Intake policies}
    (h : declaredIntake policies plan waker = .ok intake) :
    intake.request.spec = plan.spec ∧ declaredRequirements policies plan.spec = .ok intake.request.capabilities := by
  unfold declaredIntake at h
  split at h
  · rename_i capabilities hdeclared
    obtain rfl := Except.ok.inj h
    exact ⟨rfl, hdeclared⟩
  · simp at h

theorem resolvedIntake_submits {policies : PolicySet} {capability : ResolvedCapability}
    {registered : capability.IsRegistered policies} {plan : ValidatedTaskPlan} {intake : Intake policies}
    (h : resolvedIntake policies capability registered waker plan = .ok intake) :
    intake.request.spec = plan.spec ∧
      CapabilityRequirementSet.fromResolved [capability] = .ok intake.request.capabilities := by
  unfold resolvedIntake at h
  split at h
  · rename_i capabilities hresolved
    obtain rfl := Except.ok.inj h
    exact ⟨rfl, hresolved⟩
  · simp at h

theorem validatePlan_ok {policies : PolicySet} {spec : TaskSpec}
    {next : ValidatedTaskPlan → Preflight policies} {intake : Intake policies}
    (h : validatePlan policies spec next = .ok intake) :
    ∃ plan : ValidatedTaskPlan, plan.spec = spec ∧ next plan = .ok intake := by
  unfold validatePlan at h
  split at h
  · exact ⟨_, rfl, h⟩
  · simp at h

/-- What the preflight passes on is what the call submitted. -/
theorem preflight_submits {policies : PolicySet} {entry : AdmitCall} {intake : Intake policies}
    (h : preflight policies entry = .ok intake) : entry.Submits policies intake.request := by
  cases entry with
  | admitSpec spec =>
    unfold preflight at h
    obtain ⟨plan, rfl, hnext⟩ := validatePlan_ok h
    exact declaredIntake_submits hnext
  | admitValidated plan => exact declaredIntake_submits h
  | admitWaitable spec waker =>
    unfold preflight at h
    obtain ⟨plan, rfl, hnext⟩ := validatePlan_ok h
    exact declaredIntake_submits hnext
  | admitResolved spec capability waker =>
    unfold preflight at h
    simp only at h
    split at h
    · simp at h
    · obtain ⟨plan, rfl, hnext⟩ := validatePlan_ok h
      exact resolvedIntake_submits hnext
  | admitValidatedRequirements plan requirements waker =>
    unfold preflight at h
    simp only at h
    split at h
    · simp at h
    · obtain rfl := Except.ok.inj h
      exact ⟨rfl, rfl⟩

/-- The call was made in the run, and submits the request. -/
def Called (g : Governor) (trace : List (Action × Event)) (intake : Intake g.policy) : Prop :=
  ∃ entry calledMs e, (Action.call entry calledMs, e) ∈ trace ∧ preflight g.policy entry = .ok intake

theorem Called.mono {trace trace' : List (Action × Event)} {intake : Intake g.policy}
    (hsub : ∀ l ∈ trace, l ∈ trace') (h : Called g trace intake) : Called g trace' intake := by
  obtain ⟨entry, calledMs, e, hmem, hchecked⟩ := h
  exact ⟨entry, calledMs, e, hsub _ hmem, hchecked⟩

/-- Every submission a call in progress has still to decide was made in the run. -/
theorem run_called {trace : List (Action × Event)} (hrun : Runs.Run g.step g.init trace σ) {th : Thread g.policy}
    (hth : th ∈ σ.threads) {intake : Intake g.policy} (hintake : th.intake = some intake) :
    Called g trace intake := by
  induction hrun generalizing th with
  | nil => simp [Governor.init] at hth
  | @snoc t u trace a e _ hstep ih =>
    have hsub : ∀ l ∈ trace, l ∈ trace ++ [(a, e)] := fun l hl => List.mem_append_left _ hl
    obtain ⟨prepared, hp, rfl, _⟩ := step_eq_some hstep
    cases prepare_next hp hth with
    | waits same => exact (ih same hintake).mono hsub
    | @called entry sampledMs intake' call checked opened =>
      rw [opened] at hintake
      obtain rfl : intake' = intake := Option.some.inj hintake
      exact ⟨entry, sampledMs, e, List.mem_append_right _ (List.mem_singleton.mpr (by rw [call])), checked⟩
    | goesOn turn sampled same =>
      rcases same with hnone | hsame
      · rw [hnone] at hintake
        simp at hintake
      · rw [hsame] at hintake
        exact (ih (List.mem_of_getElem? turn) hintake).mono hsub
    | operates sampled decided =>
      rw [decided] at hintake
      simp at hintake

/-! ## Runs -/

/-- The resolution of a call that is about to enter the lock: that of the spec and the requirement set it
submitted, under the class resolved in this state. -/
def ResolvedFrom (g : Governor) (σ : g.System) (i : Nat) (entry : AdmitCall) (res : Resolution) : Prop :=
  ∃ (intake : Intake g.policy) (sampledMs : Nat) (ids : Ids) (c : TaskClass) (policy : ClassPolicy),
    σ.threads[i]? = some (.admitting intake sampledMs ids) ∧ entry.Submits g.policy intake.request ∧
    ResolvedClass g (σ.state.commitTime sampledMs) intake.request c ∧ g.policy.classPolicy c = some policy ∧
    res = intake.request.resolution ids.permitId c policy

/-- The resolution was fixed in the run, when one of its admission calls entered the lock. -/
def FixedAtIntake (g : Governor) (trace : List (Action × Event)) (res : Resolution) : Prop :=
  ∃ (before after : List (Action × Event)) (σ : g.System) (i : Nat) (e : Event) (entry : AdmitCall)
    (calledMs : UInt64) (called : Event),
    trace = before ++ (.enter i, e) :: after ∧ Runs.Run g.step g.init before σ ∧
    (.call entry calledMs, called) ∈ before ∧ ResolvedFrom g σ i entry res

/-- A resolution fixed at an intake stays fixed in every longer run. -/
theorem FixedAtIntake.snoc {trace : List (Action × Event)} {res : Resolution} (h : FixedAtIntake g trace res)
    (l : Action × Event) : FixedAtIntake g (trace ++ [l]) res := by
  obtain ⟨before, after, σ, i, e, entry, calledMs, called, rfl, hrest⟩ := h
  exact ⟨before, after ++ [l], σ, i, e, entry, calledMs, called, by simp, hrest⟩

/-- Over a run, everything that carries a resolution took it from the intake of one call. -/
theorem run_fixed {trace : List (Action × Event)} (hrun : Runs.Run g.step g.init trace σ) {res : Resolution}
    {parent : Option PermitId} (hcarries : Carries σ.state res parent) : FixedAtIntake g trace res := by
  induction hrun generalizing parent with
  | nil =>
    rcases hcarries with ⟨c, r, hr, _⟩ | ⟨p, record, found, _⟩
    · simp [Governor.init, waiting_init] at hr
    · simp [Governor.init] at found
  | @snoc t u trace a e hbefore hstep ih =>
    have hinv : SysInv t := SysInv.of_reachable ⟨trace, hbefore⟩
    by_cases henter : ∃ i, a = .enter i
    · obtain ⟨i, rfl⟩ := henter
      rcases hinv.step_entered_carries hstep hcarries with
        hold | ⟨intake, sampledMs, ids, c, policy, hthread, hclass, hknown, hres⟩
      · exact (ih hold).snoc _
      · obtain ⟨entry, calledMs, called, hmem, hchecked⟩ :=
          run_called hbefore (List.mem_of_getElem? hthread) rfl
        exact ⟨trace, [], t, i, e, entry, calledMs, called, rfl, hbefore, hmem, intake, sampledMs, ids, c, policy,
          hthread, preflight_submits hchecked, hclass, hknown, hres⟩
    · obtain ⟨parent₀, hold, _⟩ := hinv.step_carries hstep hcarries fun ids hids =>
        absurd hids (no_ids (fun i heq => henter ⟨i, heq⟩) ids)
      exact (ih hold).snoc _

/-- Every carrier of the identity is attached to the parent. -/
def Attached (p q : PermitId) (s : GovernedState) : Prop :=
  ∀ (res : Resolution) (parent : Option PermitId), res.permitId = p → Carries s res parent → parent = some q

/-- The parent of an identity that was given up stays attached. -/
theorem run_attached (hinv : SysInv σ) {trace : List (Action × Event)} (hrun : Runs.Run g.step σ trace σ')
    {p q : PermitId} (hspent : SpentPermit σ p) (hattached : Attached p q σ.state) : Attached p q σ'.state := by
  have hall : SysInv σ' ∧ SpentPermit σ' p ∧ Attached p q σ'.state := by
    refine hrun.invariant (P := fun σ : g.System => SysInv σ ∧ SpentPermit σ p ∧ Attached p q σ.state) ?_
      ⟨hinv, hspent, hattached⟩
    rintro t a u e ⟨hinv, hspent, hattached⟩ hstep
    refine ⟨hinv.step hstep, hspent.step hstep, ?_⟩
    intro res parent hid hcarries
    obtain ⟨parent₀, hold, hkept⟩ := hinv.step_carries hstep hcarries fun ids hids =>
      hid ▸ (hspent.not_brought hids).symm
    have hparent₀ := hattached res parent₀ hid hold
    rcases hkept with hnone | rfl
    · rw [hparent₀] at hnone
      simp at hnone
    · exact hparent₀
  exact hall.2.2

/-- A resolution is only ever carried under a spent identity. -/
theorem SysInv.spent_carried (hinv : SysInv σ) {res : Resolution} {parent : Option PermitId}
    (h : Carries σ.state res parent) : SpentPermit σ res.permitId := by
  refine hinv.permits.spent_of_used ⟨res.permitId, ?_, rfl⟩
  rcases h with ⟨c, r, hr, rfl, rfl⟩ | ⟨p, record, found, rfl, rfl⟩
  · exact Or.inl ⟨c, r, hr, rfl⟩
  · exact Or.inr ⟨p, record, found, rfl⟩

/-- In every run every live permit carries the resolution that one of the calls of the run was given when
it entered the lock, and a queued request or permit that has a parent keeps it, as long as there is anything
with its identity. -/
theorem resolved_at_intake (g : Governor) :
    (∀ (σ : g.System) trace, Runs.Run g.step g.init trace σ → ∀ (p : PermitId) record,
      σ.state.permits[p]? = some record → record.permitId = p ∧ FixedAtIntake g trace record.resolution) ∧
    ∀ (σ σ' : g.System) trace, g.Reachable σ → Runs.Run g.step σ trace σ' →
      ∀ (res res' : Resolution) q parent, Carries σ.state res (some q) → Carries σ'.state res' parent →
        res'.permitId = res.permitId → parent = some q := by
  refine ⟨?_, ?_⟩
  · intro σ trace hrun p record found
    have hinv : SysInv σ := SysInv.of_reachable ⟨trace, hrun⟩
    have hcarries : Carries σ.state record.resolution record.parentPermitId :=
      Or.inr ⟨p, record, found, rfl, rfl⟩
    exact ⟨hinv.state.occupancy.keys p record found, run_fixed hrun hcarries⟩
  · intro σ σ' trace hreach hrun res res' q parent hcarries hcarries' hsame
    have hinv := SysInv.of_reachable hreach
    refine run_attached hinv hrun (hinv.spent_carried hcarries) ?_ res' parent hsame hcarries'
    intro other parent' hid hother
    exact hother.unique hinv.state.occupancy hinv.state.queues hcarries hid

namespace Sample

/-- A child of the first task. -/
def childTask : TaskSpec := { task "b" with rootOperationId := "a", scope := .child "a" ⟨"spawn"⟩ false }

/-- The first task runs and its child waits behind it. -/
def nested : governor.System :=
  (Runs.replay governor.step governor.init
    (admission (.admitSpec (task "a")) ++ admission (.admitSpec childTask))).getD governor.init

/-- The first task has returned its permit, and its child took its place. -/
def succeeded : governor.System := (Runs.replay governor.step nested [.release ⟨7, 1⟩ 5]).getD nested

end Sample

/-- In the sample the child is granted as it was resolved, still attached to the permit that is gone. -/
theorem sample_resolved : Sample.succeeded.state.permits[(⟨7, 1⟩ : PermitId)]? = none ∧
    ∃ record trace, Sample.succeeded.state.permits[(⟨7, 2⟩ : PermitId)]? = some record ∧
      FixedAtIntake Sample.governor trace record.resolution ∧ record.parentPermitId = some ⟨7, 1⟩ := by
  have hreach : Sample.governor.Reachable Sample.nested := Runs.reachable_replay Sample.governor.init _
  obtain ⟨trace, hrun⟩ : Runs.Reachable Sample.governor.step Sample.nested Sample.succeeded :=
    Runs.reachable_replay Sample.nested _
  obtain ⟨whole, hwhole⟩ := hreach.run hrun
  have hqueued : ((Sample.nested.state.waiting ⟨"work"⟩)[0]?.any fun r =>
      decide (r.permitId = ⟨7, 2⟩ ∧ r.parentPermitId = some ⟨7, 1⟩)) = true := by decide +kernel
  obtain ⟨r, hr, hfound⟩ := (Option.any_eq_true _ _).mp hqueued
  obtain ⟨hid, hparent⟩ := of_decide_eq_true hfound
  have hlive : (Sample.succeeded.state.permits[(⟨7, 2⟩ : PermitId)]?).isSome = true := by decide +kernel
  obtain ⟨record, found⟩ := Option.isSome_iff_exists.mp hlive
  obtain ⟨hkey, hfixed⟩ := (resolved_at_intake Sample.governor).1 _ whole hwhole ⟨7, 2⟩ record found
  refine ⟨by decide +kernel, record, whole, found, hfixed, ?_⟩
  exact (resolved_at_intake Sample.governor).2 Sample.nested Sample.succeeded trace hreach hrun r.resolution
    record.resolution ⟨7, 1⟩ record.parentPermitId (Or.inl ⟨_, r, List.mem_of_getElem? hr, rfl, hparent⟩)
    (Or.inr ⟨_, record, found, rfl, rfl⟩) (hkey.trans hid.symm)

end Taskmesh
