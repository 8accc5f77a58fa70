import Taskmesh.Engine.Proofs.TicketLifeProofs

/-!
# Operation identities and the recursion guard

Over all live and queued requests an operation identity and the stage of a child occur at most once;
the three indexes over them are exact and keep no empty entry. An admission is refused as recursive
exactly when it asks for something occupied.
-/

namespace Taskmesh

open Std MachineInt SetIndex QueueFamily ExtTreeMap Governor

variable {g : Governor} {caller : Caller} {s s' : GovernedState} {σ σ' : g.System} {a : Action}
  {e : Event}

/-! ## Indexes without empty entries -/

/-- No index keeps an entry for nothing. -/
structure NoEmptyEntries (s : GovernedState) : Prop where
  operations : ∀ (root : String) operations, s.operationPermits[root]? = some operations →
    operations.isEmpty = false
  identities : NoEmpty s.queuedOperationIdentities
  guards : NoEmpty s.activeRecursion

namespace RootOperationPermits

theorem isEmpty_insert (o : RootOperationPermits) (root operation : String) (p : PermitId) :
    (o.insert root operation p).isEmpty = false := by
  unfold RootOperationPermits.insert
  split
  · simp [RootOperationPermits.isEmpty]
  · simp [RootOperationPermits.isEmpty]

end RootOperationPermits

/-- A grant leaves no empty entry behind. -/
theorem noEmptyEntries_grant (h : NoEmptyEntries s) (r : GrantRequest) : NoEmptyEntries (s.grant r) := by
  refine ⟨fun root operations hroot => ?_, h.identities, ?_⟩
  · simp only [GovernedState.grant, ExtTreeMap.getElem?_insert] at hroot
    split at hroot
    · obtain rfl := Option.some.inj hroot
      exact RootOperationPermits.isEmpty_insert _ _ _ _
    · exact h.operations root operations hroot
  · simp only [GovernedState.grant]
    split
    · exact noEmpty_insertMember h.guards _ _
    · exact h.guards

/-- A discharge removes the entry it empties. -/
theorem noEmptyEntries_discharge (h : NoEmptyEntries s) (p : PermitId) (record : PermitRecord) :
    NoEmptyEntries (s.discharge p record) := by
  refine ⟨fun root operations hroot => ?_, h.identities, ?_⟩
  · simp only [GovernedState.discharge, GovernedState.removeOperation] at hroot
    split at hroot
    · exact h.operations root operations hroot
    · split at hroot
      · rw [ExtTreeMap.getElem?_erase] at hroot
        split at hroot
        · simp at hroot
        · exact h.operations root operations hroot
      · rename_i hne
        rw [ExtTreeMap.getElem?_insert] at hroot
        split at hroot
        · obtain rfl := Option.some.inj hroot
          simpa using hne
        · exact h.operations root operations hroot
  · simp only [GovernedState.discharge]
    split
    · exact noEmpty_removeMember h.guards _ _
    · exact h.guards

/-- Everything that leaves the operation index, the queued identities and the guards alone. -/
theorem NoEmptyEntries.same (h : NoEmptyEntries s) (operations : s'.operationPermits = s.operationPermits)
    (identities : s'.queuedOperationIdentities = s.queuedOperationIdentities)
    (guards : s'.activeRecursion = s.activeRecursion) : NoEmptyEntries s' where
  operations := by rw [operations]; exact h.operations
  identities := by rw [identities]; exact h.identities
  guards := by rw [guards]; exact h.guards

/-- No effect leaves an empty entry in the index of identities. -/
theorem Effect.noEmptyEntries (h : Effect g caller s s') (hn : NoEmptyEntries s) : NoEmptyEntries s' := by
  cases h with
  | kept queues ledger guards => exact hn.same ledger.operations queues.identities guards
  | queued waker nowMs tags allowed accepted pushed identities ledger guards sound =>
    refine ⟨?_, ?_, ?_⟩
    · rw [ledger.operations]
      exact hn.operations
    · rw [identities]
      exact noEmpty_insertMember hn.identities _ _
    · rw [guards]
      split
      · exact noEmpty_insertMember hn.guards _ _
      · exact hn.guards
  | dropped removed identities ledger guards =>
    refine ⟨?_, ?_, ?_⟩
    · rw [ledger.operations]
      exact hn.operations
    · rw [identities]
      exact noEmpty_removeMember hn.identities _ _
    · rw [guards]
      split
      · exact noEmpty_removeMember hn.guards _ _
      · exact hn.guards
  | admitted nowMs allowed accepted fits result =>
    subst result
    exact noEmptyEntries_grant hn _
  | promoted nowMs fits removed identities ledger guards result =>
    subst result
    refine noEmptyEntries_grant ⟨?_, ?_, ?_⟩ _
    · rw [ledger.operations]
      exact hn.operations
    · rw [identities]
      exact noEmpty_removeMember hn.identities _ _
    · rw [guards]
      exact hn.guards
  | @ended p record found ends queues ledger guards =>
    refine (noEmptyEntries_discharge hn p record).same ledger.operations ?_ guards
    rw [queues.identities]
    rfl
  | touched found similar queues ledger guards => exact hn.same ledger.operations queues.identities guards
  | advanced nonces found later result =>
    subst result
    exact hn.same rfl rfl rfl
  | @recharged p record ledger allowed found change result =>
    subst result
    have hmemory := memoryOnly_rechargePermit s p record ledger
    exact hn.same hmemory.operations (sameQueues_rechargePermit s p record ledger).identities hmemory.guards

/-- No reachable state has an empty entry in the index of identities. -/
theorem NoEmptyEntries.of_reachable (h : g.Reachable σ) : NoEmptyEntries σ.state := by
  refine (Runs.Reachable.invariant (P := fun σ : g.System => SysInv σ ∧ NoEmptyEntries σ.state) h
    ⟨sysInv_init g, ?_⟩ ?_).2
  · refine ⟨fun root operations hroot => ?_, fun k => ?_, fun k => ?_⟩
    · simp [Governor.init] at hroot
    · simp [Governor.init]
    · simp [Governor.init]
  · rintro σ a σ' e ⟨hinv, hn⟩ hstep
    exact ⟨hinv.step hstep, hinv.step_rule hstep (P := NoEmptyEntries)
      (fun _ _ _ hm hinv₁ _ hn₁ => (hm.effect hinv₁.queues).noEmptyEntries hn₁) hn⟩

/-! ## Live and queued requests -/

/-- What a live or queued request occupies: a permit identity, an operation and, for a child, a stage. -/
structure Occupant where
  permitId : PermitId
  rootOperationId : String
  operation : String
  scope : TaskScope
  targetStage : TaskStage

def PendingRequest.occupant (r : PendingRequest) : Occupant :=
  ⟨r.permitId, r.rootOperationId, r.operation, r.scope, r.targetStage⟩

def PermitRecord.occupant (record : PermitRecord) : Occupant :=
  ⟨record.permitId, record.rootOperationId, record.operation, record.scope, record.targetStage⟩

/-- Every queued request, followed by every live permit. -/
def GovernedState.occupants (s : GovernedState) : List Occupant :=
  (s.classes.toList.flatMap fun entry => entry.2.queue.map PendingRequest.occupant) ++
    s.permits.toList.map fun entry => entry.2.occupant

/-- How many live or queued requests carry an operation identity. -/
def identityCount (s : GovernedState) (root operation : String) : Nat :=
  s.occupants.countP fun o => o.rootOperationId = root && o.operation = operation

/-- How many live or queued children of a root have a stage. -/
def stageCount (s : GovernedState) (root : String) (stage : TaskStage) : Nat :=
  s.occupants.countP fun o => o.scope.isChild && o.rootOperationId = root && o.targetStage = stage

/-- An occupant is a queued request or a live permit. -/
theorem mem_occupants {o : Occupant} :
    o ∈ s.occupants ↔ (∃ c, ∃ r ∈ s.waiting c, r.occupant = o) ∨
      ∃ (p : PermitId) (record : PermitRecord), s.permits[p]? = some record ∧ record.occupant = o := by
  unfold GovernedState.occupants
  simp only [List.mem_append, List.mem_flatMap, List.mem_map]
  refine or_congr ⟨?_, ?_⟩ ⟨?_, ?_⟩
  · rintro ⟨⟨c, cs⟩, hcs, r, hr, rfl⟩
    have hcls : s.cls c = cs := by simp [GovernedState.cls, mem_toList.mp hcs]
    exact ⟨c, r.untagged, List.mem_map_of_mem (hcls ▸ hr), rfl⟩
  · rintro ⟨c, r, hr, rfl⟩
    obtain ⟨r', hr', rfl⟩ := List.mem_map.mp hr
    cases hcs : s.classes[c]? with
    | none => simp [GovernedState.cls, hcs, default] at hr'
    | some cs =>
      have hcls : s.cls c = cs := by simp [GovernedState.cls, hcs]
      exact ⟨(c, cs), mem_toList.mpr hcs, r', hcls ▸ hr', rfl⟩
  · rintro ⟨⟨p, record⟩, hp, rfl⟩
    exact ⟨p, record, mem_toList.mp hp, rfl⟩
  · rintro ⟨p, record, hp, rfl⟩
    exact ⟨(p, record), mem_toList.mpr hp, rfl⟩

/-- No permit identity is carried twice. -/
theorem StateInv.nodup_occupants (hinv : StateInv g s) : (s.occupants.map Occupant.permitId).Nodup := by
  have hcls : ∀ c cs, (c, cs) ∈ s.classes.toList → s.waiting c = cs.queue.map PendingRequest.untagged := by
    intro c cs hcs
    simp [GovernedState.waiting, GovernedState.cls, mem_toList.mp hcs, ClassState.queueHalf]
  have hkeys : (s.permits.toList.map fun entry => entry.2.permitId) = s.permits.toList.map Prod.fst := by
    refine List.map_congr_left fun entry hentry => ?_
    exact hinv.occupancy.keys _ _ (mem_toList.mp hentry)
  unfold GovernedState.occupants
  rw [List.map_append, List.map_flatMap, List.map_map]
  refine List.Nodup.append ?_ ?_ ?_
  · rw [List.nodup_flatMap]
    constructor
    · rintro ⟨c, cs⟩ hcs
      have hnodup := hinv.queues.permitIds.within c
      rw [hcls c cs hcs, List.map_map] at hnodup
      rw [List.map_map]
      exact hnodup
    · refine List.Pairwise.imp_of_mem ?_ (ExtTreeMap.distinct_keys_toList (t := s.classes))
      rintro ⟨c, cs⟩ ⟨c', cs'⟩ hcs hcs' hne x hx hx'
      obtain ⟨r, hr, rfl⟩ : ∃ r ∈ cs.queue, r.permitId = x := by
        simpa [List.map_map, PendingRequest.occupant] using hx
      obtain ⟨r', hr', heq⟩ : ∃ r' ∈ cs'.queue, r'.permitId = r.permitId := by
        simpa [List.map_map, PendingRequest.occupant] using hx'
      have hcc := hinv.queues.permitIds.across c c' r.untagged r'.untagged
        (by rw [hcls c cs hcs]; exact List.mem_map_of_mem hr)
        (by rw [hcls c' cs' hcs']; exact List.mem_map_of_mem hr') heq.symm
      exact hne (by simpa using hcc)
  · show (s.permits.toList.map fun entry => entry.2.permitId).Nodup
    rw [hkeys]
    exact (ExtTreeMap.distinct_keys_toList (t := s.permits)).map _ fun a b h heq => h (by simpa using heq)
  · intro x hx hx'
    obtain ⟨⟨c, cs⟩, hcs, hx⟩ := List.mem_flatMap.mp hx
    obtain ⟨r, hr, rfl⟩ : ∃ r ∈ cs.queue, r.permitId = x := by
      simpa [List.map_map, PendingRequest.occupant] using hx
    obtain ⟨⟨p, record⟩, hp, heq⟩ := List.mem_map.mp hx'
    refine hinv.occupancy.permitIds.apart p r.permitId ⟨c, r.untagged, ?_, rfl⟩ ⟨record, mem_toList.mp hp, ?_⟩
    · rw [hcls c cs hcs]
      exact List.mem_map_of_mem hr
    · exact congrArg some heq

/-- At most one element has a property that fixes its key. -/
theorem countP_le_one {α β : Type} {l : List α} {key : α → β} {q : α → Bool} (hnodup : (l.map key).Nodup)
    (hsame : ∀ x ∈ l, ∀ y ∈ l, q x = true → q y = true → key x = key y) : l.countP q ≤ 1 := by
  rw [List.countP_eq_length_filter]
  have hsub : ((l.filter q).map key).Nodup := hnodup.sublist (List.filter_sublist.map key)
  match hf : l.filter q with
  | [] => simp
  | [x] => simp
  | x :: y :: rest =>
    have hx : x ∈ l.filter q := by rw [hf]; simp
    have hy : y ∈ l.filter q := by rw [hf]; simp
    rw [List.mem_filter] at hx hy
    rw [hf] at hsub
    have hkey := hsame x hx.1 y hy.1 hx.2 hy.2
    simp [hkey] at hsub

section Count

variable {β : Type} {l : Label β} {f : Occupant → Option β}

/-- A label is in use when a live or queued request carries it. -/
theorem Label.inUse_iff (hqueued : ∀ r, l.queued r = f r.occupant)
    (hheld : ∀ record, l.held record = f record.occupant) {b : β} :
    l.InUse s b ↔ ∃ o ∈ s.occupants, f o = some b := by
  constructor
  · rintro (⟨c, r, hr, hb⟩ | ⟨p, record, hp, hb⟩)
    · exact ⟨r.occupant, mem_occupants.mpr (Or.inl ⟨c, r, hr, rfl⟩), (hqueued r).symm.trans hb⟩
    · exact ⟨record.occupant, mem_occupants.mpr (Or.inr ⟨p, record, hp, rfl⟩), (hheld record).symm.trans hb⟩
  · rintro ⟨o, ho, hb⟩
    rcases mem_occupants.mp ho with ⟨c, r, hr, rfl⟩ | ⟨p, record, hp, rfl⟩
    · exact Or.inl ⟨c, r, hr, (hqueued r).trans hb⟩
    · exact Or.inr ⟨p, record, hp, (hheld record).trans hb⟩

variable [DecidableEq β]

/-- No two live or queued requests carry the same label. -/
theorem Label.Exclusive.count_le_one (hx : l.Exclusive s) (hinv : StateInv g s)
    (hqueued : ∀ r, l.queued r = f r.occupant) (hheld : ∀ record, l.held record = f record.occupant)
    (b : β) : (s.occupants.countP fun o => f o = some b) ≤ 1 := by
  refine countP_le_one hinv.nodup_occupants fun o ho o' ho' hb hb' => ?_
  simp only [decide_eq_true_eq] at hb hb'
  rcases mem_occupants.mp ho with ⟨c, r, hr, rfl⟩ | ⟨p, record, hp, rfl⟩ <;>
    rcases mem_occupants.mp ho' with ⟨c', r', hr', rfl⟩ | ⟨p', record', hp', rfl⟩
  · exact hx.queues c c' r r' b hr hr' ((hqueued r).trans hb) ((hqueued r').trans hb')
  · exact absurd ⟨record', hp', (hheld record').trans hb'⟩
      (hx.apart p' b ⟨c, r, hr, (hqueued r).trans hb⟩)
  · exact absurd ⟨record, hp, (hheld record).trans hb⟩
      (hx.apart p b ⟨c', r', hr', (hqueued r').trans hb'⟩)
  · obtain rfl := hx.permits p p' b ⟨record, hp, (hheld record).trans hb⟩
      ⟨record', hp', (hheld record').trans hb'⟩
    rw [hp] at hp'
    rw [Option.some.inj hp']

/-- A label is in use when exactly one live or queued request carries it. -/
theorem Label.Exclusive.inUse_iff_count (hx : l.Exclusive s) (hinv : StateInv g s)
    (hqueued : ∀ r, l.queued r = f r.occupant) (hheld : ∀ record, l.held record = f record.occupant)
    (b : β) : l.InUse s b ↔ (s.occupants.countP fun o => f o = some b) = 1 := by
  have hle := hx.count_le_one hinv hqueued hheld b
  rw [Label.inUse_iff hqueued hheld]
  constructor
  · rintro ⟨o, ho, hb⟩
    have hpos : 0 < s.occupants.countP fun o => f o = some b :=
      List.countP_pos_iff.mpr ⟨o, ho, by simpa using hb⟩
    omega
  · intro hone
    obtain ⟨o, ho, hb⟩ := List.countP_pos_iff.mp (Nat.lt_of_lt_of_eq Nat.zero_lt_one hone.symm)
    exact ⟨o, ho, by simpa using hb⟩

end Count

/-! ## Exact identities and guards -/

/-- An operation identity and a child's stage occur at most once, and the indexes say where. -/
structure IdentitiesExact (s : GovernedState) : Prop where
  identity : ∀ root operation, identityCount s root operation ≤ 1
  live : ∀ root operation p, s.permitsForOperation root operation = some p ↔
    ∃ record, s.permits[p]? = some record ∧ record.rootOperationId = root ∧ record.operation = operation
  queued : ∀ root operation, Registered s.queuedOperationIdentities root operation ↔
    ∃ c, ∃ r ∈ (s.cls c).queue, r.rootOperationId = root ∧ r.operation = operation
  guard : ∀ root stage, Registered s.activeRecursion root stage ↔ stageCount s root stage = 1
  stage : ∀ root stage, stageCount s root stage ≤ 1
  noEmpty : NoEmptyEntries s

/-- The label of an operation identity and of a guard, as an occupant carries them. -/
def Occupant.identity (o : Occupant) : Option (String × String) := some (o.rootOperationId, o.operation)

def Occupant.guard (o : Occupant) : Option (String × TaskStage) :=
  if o.scope.isChild then some (o.rootOperationId, o.targetStage) else none

/-- The count the assertion makes is a count of occupants. -/
theorem identityCount_eq (s : GovernedState) (root operation : String) :
    identityCount s root operation = s.occupants.countP fun o => o.identity = some (root, operation) := by
  unfold identityCount
  congr 1
  funext o
  simp [Occupant.identity]

theorem stageCount_eq (s : GovernedState) (root : String) (stage : TaskStage) :
    stageCount s root stage = s.occupants.countP fun o => o.guard = some (root, stage) := by
  unfold stageCount
  congr 1
  funext o
  cases hchild : o.scope.isChild <;> simp [Occupant.guard, hchild]

/-- An identity is in use exactly when one occupant carries it. -/
theorem StateInv.identity_inUse_iff (hinv : StateInv g s) (root operation : String) :
    identityLabel.InUse s (root, operation) ↔ identityCount s root operation = 1 := by
  rw [identityCount_eq]
  exact hinv.occupancy.identities.inUse_iff_count hinv (f := Occupant.identity) (fun _ => rfl) (fun _ => rfl) _

/-- A stage guard is in use exactly when one occupant carries it. -/
theorem StateInv.guard_inUse_iff (hinv : StateInv g s) (root : String) (stage : TaskStage) :
    guardLabel.InUse s (root, stage) ↔ stageCount s root stage = 1 := by
  rw [stageCount_eq]
  exact hinv.occupancy.guards.inUse_iff_count hinv (f := Occupant.guard) (fun _ => rfl) (fun _ => rfl) _

theorem StateInv.identitiesExact (hinv : StateInv g s) (hn : NoEmptyEntries s) : IdentitiesExact s := by
  refine ⟨fun root operation => ?_, fun root operation p => ?_, fun root operation => ?_,
    fun root stage => ?_, fun root stage => ?_, hn⟩
  · rw [identityCount_eq]
    exact hinv.occupancy.identities.count_le_one hinv (f := Occupant.identity) (fun _ => rfl) (fun _ => rfl) _
  · rw [hinv.occupancy.operations]
    simp [Label.Holds, identityLabel]
  · rw [hinv.occupancy.queuedOperations]
    constructor
    · rintro ⟨c, r, hr, hb⟩
      obtain ⟨r', hr', rfl⟩ := List.mem_map.mp hr
      exact ⟨c, r', hr', by simpa [identityLabel] using hb⟩
    · rintro ⟨c, r, hr, rfl, rfl⟩
      exact ⟨c, r.untagged, List.mem_map_of_mem hr, rfl⟩
  · rw [hinv.occupancy.recursion]
    exact hinv.guard_inUse_iff root stage
  · rw [stageCount_eq]
    exact hinv.occupancy.guards.count_le_one hinv (f := Occupant.guard) (fun _ => rfl) (fun _ => rfl) _

/-! ## Assertions -/

/-- What the debug assertions of the transitions check, in the state they run in: an accepted request is
unknown to both operation indexes; a queued request is in the index of queued ones and not in that of
live ones; a live permit is found under its operation. -/
structure AssertionsPass (g : Governor) (s : GovernedState) : Prop where
  enqueue : ∀ policy c request ids, Accepted g s policy c request ids →
    ¬ Registered s.queuedOperationIdentities request.spec.rootOperationId request.spec.operation
  insertAdmitted : ∀ policy c request ids, Accepted g s policy c request ids →
    s.permitsForOperation request.spec.rootOperationId request.spec.operation = none
  removePending : ∀ (c : TaskClass) (index : Nat) r, (s.cls c).queue[index]? = some r →
    Registered s.queuedOperationIdentities r.rootOperationId r.operation
  insertPromoted : ∀ (c : TaskClass) (index : Nat) r, (s.cls c).queue[index]? = some r →
    s.permitsForOperation r.rootOperationId r.operation = none
  unwind : ∀ (p : PermitId) record, s.permits[p]? = some record →
    s.permitsForOperation record.rootOperationId record.operation = some p

/-- The debug assertions of the source hold in every state of the invariant. -/
theorem StateInv.assertionsPass (hinv : StateInv g s) : AssertionsPass g s := by
  refine ⟨fun policy c request ids accepted hmem => ?_, fun policy c request ids accepted => ?_,
    fun c index r hr => ?_, fun c index r hr => ?_, fun p record hp => ?_⟩
  · exact hinv.occupancy.identity_unused accepted.identity
      (Or.inl ((hinv.occupancy.queuedOperations _ _).mp hmem))
  · cases hlive : s.permitsForOperation request.spec.rootOperationId request.spec.operation with
    | none => rfl
    | some p =>
      exact absurd (Or.inr ⟨p, (hinv.occupancy.operations _ _ _).mp hlive⟩)
        (hinv.occupancy.identity_unused accepted.identity)
  · exact (hinv.occupancy.queuedOperations _ _).mpr ⟨c, r.untagged, mem_waiting_of_getElem hr, rfl⟩
  · cases hlive : s.permitsForOperation r.rootOperationId r.operation with
    | none => rfl
    | some p =>
      exact absurd ((hinv.occupancy.operations _ _ _).mp hlive)
        (hinv.occupancy.identities.apart p _ ⟨c, r.untagged, mem_waiting_of_getElem hr, rfl⟩)
  · exact (hinv.occupancy.operations _ _ _).mpr ⟨record, hp, rfl⟩

/-- A move from a state in which every assertion passes. -/
def CheckedMove (g : Governor) (caller : Caller) (s s' : GovernedState) : Prop :=
  AssertionsPass g s ∧ ∃ trend, Move g caller trend s s'

/-- Every move of a step ends in a state that passes the assertions. -/
theorem SysInv.step_checked (hinv : SysInv σ) (h : g.step σ a = some (σ', e)) :
    Relation.ReflTransGen (CheckedMove g (callerOf σ a)) σ.state σ'.state :=
  hinv.step_rule h (P := Relation.ReflTransGen (CheckedMove g (callerOf σ a)) σ.state)
    (fun trend _ _ hm hinv₁ _ hpath => hpath.tail ⟨hinv₁.assertionsPass, trend, hm⟩) .refl

/-! ## Recursive admissions -/

/-- The request asks for an identity, or the stage of a child, that is occupied. -/
def Occupied (s : GovernedState) (spec : TaskSpec) : Prop :=
  identityCount s spec.rootOperationId spec.operation = 1 ∨
    ∃ parent stage awaits, spec.scope = .child parent stage awaits ∧
      stageCount s spec.rootOperationId stage = 1

theorem any_contains_iff {V : Type} [Ord V] [TransOrd V] [LawfulEqOrd V]
    {m : BTreeMap String (BTreeSet V)} {k : String} {v : V} :
    (m[k]?.any fun set => set.contains v) = true ↔ Registered m k v := by
  rw [registered_iff]
  cases m[k]? with
  | none => simp
  | some set => simp

/-- A submission is refused as recursive exactly when an occupant stands in its way. -/
theorem StateInv.occupied_iff (hinv : StateInv g s) (spec : TaskSpec) :
    Occupied s spec ↔ s.hasOperationIdentity spec.rootOperationId spec.operation = true ∨
      isRecursive s spec = true := by
  refine or_congr ?_ ?_
  · rw [← hinv.identity_inUse_iff, GovernedState.hasOperationIdentity, Bool.or_eq_true, any_contains_iff,
      hinv.occupancy.queuedOperations, Option.isSome_iff_exists, or_comm]
    refine or_congr Iff.rfl (exists_congr fun p => ?_)
    rw [hinv.occupancy.operations]
  · unfold isRecursive
    cases hscope : spec.scope with
    | root => simp
    | child parent stage awaits =>
      simp only [TaskScope.child.injEq]
      rw [any_contains_iff, hinv.occupancy.recursion, hinv.guard_inUse_iff]
      constructor
      · rintro ⟨_, _, _, ⟨rfl, rfl, rfl⟩, hcount⟩
        exact hcount
      · exact fun hcount => ⟨parent, stage, awaits, ⟨rfl, rfl, rfl⟩, hcount⟩

section Recursive

variable {policies : PolicySet} {policy : ClassPolicy} {c : TaskClass} {request : AdmissionRequest}
  {waker : Option Waker} {ids : Ids} {nowMs : Nat} {effects : TransitionEffects}
  {degrade : Option (TaskClass → Admission)}

/-- Joining a queue never answers that the admission is recursive. -/
theorem enqueueOrFull_not_recursive {block : CapacityBlock} :
    (enqueueOrFull s policy c request waker ids nowMs block effects).decision ≠
      .rejected .recursiveAdmission := by
  unfold enqueueOrFull
  split
  · cases block <;> simp [refuse, verdictForFullQueue]
  · simp

theorem admitBlock_not_recursive {block : CapacityBlock}
    (hdegrade : ∀ admitFallback, degrade = some admitFallback →
      ∀ fallback, (admitFallback fallback).decision ≠ .rejected .recursiveAdmission) :
    (admitBlock s policy c request waker ids nowMs degrade effects block).decision ≠
      .rejected .recursiveAdmission := by
  have hordinary : ∀ block : CapacityBlock, block ≠ .accountingFault →
      (if policy.overflowPolicy.isQueueable then
        enqueueOrFull s policy c request waker ids nowMs block effects
      else refuse s effects waker (verdictForBlock block (retry policy s c))).decision ≠
        .rejected .recursiveAdmission := by
    intro block hblock
    split
    · exact enqueueOrFull_not_recursive
    · cases block <;> simp [refuse, verdictForBlock]
  cases block with
  | ok => simp [admitBlock]
  | accountingFault => simp [admitBlock, refuse]
  | queuedBehind => exact enqueueOrFull_not_recursive
  | inflight => exact hordinary .inflight (by simp)
  | cpu => exact hordinary .cpu (by simp)
  | capability => exact hordinary .capability (by simp)
  | memory =>
    unfold admitBlock
    simp only
    split
    · split
      · exact hdegrade _ rfl _
      · simp [refuse]
    · exact enqueueOrFull_not_recursive
    · simp [refuse]

/-- A request that asks for nothing occupied is not refused as recursive. -/
theorem admitClassWith_not_recursive
    (hidentity : s.hasOperationIdentity request.spec.rootOperationId request.spec.operation = false)
    (hrecursive : isRecursive s request.spec = false)
    (hdegrade : ∀ admitFallback, degrade = some admitFallback →
      ∀ fallback, (admitFallback fallback).decision ≠ .rejected .recursiveAdmission) :
    (admitClassWith degrade s policies nowMs request c waker ids effects).decision ≠
      .rejected .recursiveAdmission := by
  unfold admitClassWith
  simp only [hidentity, hrecursive]
  split
  · simp [refuse]
  · split
    · simp [refuse]
    · simp only [Bool.false_eq_true, if_false]
      split
      · exact admitBlock_not_recursive hdegrade
      · exact admitBlock_not_recursive hdegrade
      · rename_i witness _
        split
        · rename_i fallback hfallback
          unfold cycleFallback at hfallback
          split at hfallback
          · split at hfallback
            · obtain ⟨admitFallback, hsome, rfl⟩ := Option.map_eq_some_iff.mp hfallback
              exact hdegrade admitFallback hsome _
            · simp at hfallback
          · simp at hfallback
        · split <;> simp [refuse]

/-- A request of a known, enabled class is refused as recursive exactly when its identity or its stage
is taken. -/
theorem admit_recursive_iff (hopen : s.admissionClosed = false)
    (hknown : policies.classPolicy request.spec.taskClass = some policy)
    (henabled : policy.isDisabled = false) :
    (admitRequest s policies nowMs request waker ids effects).decision = .rejected .recursiveAdmission ↔
      s.hasOperationIdentity request.spec.rootOperationId request.spec.operation = true ∨
        isRecursive s request.spec = true := by
  unfold admitRequest
  simp only [hopen, Bool.false_eq_true, if_false]
  constructor
  · intro h
    by_contra hnot
    simp only [not_or, Bool.not_eq_true] at hnot
    refine admitClassWith_not_recursive hnot.1 hnot.2 (fun admitFallback hsome fallback => ?_) h
    obtain rfl := Option.some.inj hsome
    exact admitClassWith_not_recursive hnot.1 hnot.2 (by simp)
  · intro h
    unfold admitClass admitClassWith
    simp only [hknown, henabled, Bool.false_eq_true, if_false]
    cases hidentity : s.hasOperationIdentity request.spec.rootOperationId request.spec.operation with
    | true => simp [refuse]
    | false =>
      rw [hidentity] at h
      simp only [Bool.false_eq_true, false_or] at h
      simp [h, refuse]

end Recursive

/-! ## Every reachable state -/

/-- In every reachable state identities and guards are exact, every assertion passes on the way of every
step, and an open governor refuses a request of a known, enabled class as recursive exactly when it asks
for something occupied. -/
theorem reachable_identities (g : Governor) (σ : g.System) (h : g.Reachable σ) :
    IdentitiesExact σ.state ∧
    (∀ a σ' e, g.step σ a = some (σ', e) →
      Relation.ReflTransGen (CheckedMove g (callerOf σ a)) σ.state σ'.state) ∧
    ∀ i intake sampledMs ids policy, σ.threads[i]? = some (.admitting intake sampledMs ids) →
      σ.state.admissionClosed = false →
      g.policy.classPolicy intake.request.spec.taskClass = some policy → policy.isDisabled = false →
      ∃ σ' decision, g.step σ (.enter i) = some (σ', .decided ids decision) ∧
        (decision = .rejected .recursiveAdmission ↔ Occupied σ.state intake.request.spec) := by
  have hinv := SysInv.of_reachable h
  refine ⟨hinv.state.identitiesExact (NoEmptyEntries.of_reachable h), fun a σ' e => hinv.step_checked, ?_⟩
  intro i intake sampledMs ids policy hthread hopen hknown henabled
  have hprepared : Governor.prepare σ (.enter i) = some (Governor.enter σ i intake sampledMs ids) := by
    simp only [Governor.prepare, hthread]
  refine ⟨_, _, congrArg (Option.map fun p => (finish p, p.sec.outcome)) hprepared, ?_⟩
  have hopen' : (σ.state.commitTime sampledMs).admissionClosed = false := hopen
  rw [hinv.state.occupied_iff]
  exact admit_recursive_iff hopen' hknown henabled

/-- In the sample two operations are live or queued, each once. -/
theorem sample_identities : identityCount Sample.busy.state "a" "a" = 1 ∧
    identityCount Sample.busy.state "b" "b" = 1 ∧ IdentitiesExact Sample.busy.state :=
  ⟨by decide +kernel, by decide +kernel, (reachable_identities Sample.governor Sample.busy
    (Runs.Reachable.of_restrict Sample.busy_reachable)).1⟩

namespace Sample

/-- The busy sample is closed, and its live operation is submitted once more. -/
def resubmitted : governor.System :=
  (Runs.replay governor.step busy
    [.closeAdmission, .call (.admitSpec (task "a")) 0, .allocate 0, .allocate 0, .allocate 0]).getD busy

theorem resubmitted_reachable : governor.Reachable resubmitted := by
  obtain ⟨trace, hrun⟩ : Runs.Reachable governor.step busy resubmitted :=
    Runs.reachable_replay busy _
  exact (Runs.Reachable.of_restrict busy_reachable).run hrun

end Sample

/-- A closed governor refuses an occupied identity with another verdict. -/
theorem closed_refusal_is_not_recursive : ¬ ∀ (g : Governor) (σ σ' : g.System) (i : Nat)
    (intake : Intake g.policy) (sampledMs : Nat) (ids : Ids) (decision : AdmissionDecision), g.Reachable σ →
      σ.threads[i]? = some (.admitting intake sampledMs ids) →
      g.step σ (.enter i) = some (σ', .decided ids decision) →
      (decision = .rejected .recursiveAdmission ↔ Occupied σ.state intake.request.spec) := by
  intro hall
  have hsubmits : ((Sample.resubmitted.threads[0]?.bind Thread.intake).any fun intake =>
      decide (intake.request.spec = Sample.task "a")) = true := by decide +kernel
  have hrefuses : ((Sample.governor.step Sample.resubmitted (.enter 0)).any fun next =>
      decide (next.2 = .decided ⟨⟨7, 3⟩, ⟨7, 3⟩, 3⟩ (.rejected .runtimeUnavailable))) = true := by decide +kernel
  have hcount : identityCount Sample.resubmitted.state "a" "a" = 1 := by decide +kernel
  obtain ⟨⟨σ', e⟩, hstep, hdecision⟩ := (Option.any_eq_true _ _).mp hrefuses
  obtain ⟨intake, sampledMs, ids, decision, hthread, rfl, _⟩ :=
    (SysInv.of_reachable Sample.resubmitted_reachable).step_entered hstep
  obtain ⟨-, rfl⟩ : ids = ⟨⟨7, 3⟩, ⟨7, 3⟩, 3⟩ ∧ decision = .rejected .runtimeUnavailable := by
    simpa using hdecision
  have hspec : intake.request.spec = Sample.task "a" := by
    rw [hthread] at hsubmits
    simpa [Thread.intake] using hsubmits
  have hiff := hall Sample.governor Sample.resubmitted σ' 0 intake sampledMs ids _
    Sample.resubmitted_reachable hthread hstep
  rw [hspec] at hiff
  have hrefused := hiff.mpr (Or.inl hcount)
  simp at hrefused

end Taskmesh
