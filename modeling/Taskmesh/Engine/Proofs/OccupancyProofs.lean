import Taskmesh.Engine.Proofs.EffectProofs

/-!
# Who occupies what

A permit identity, a ticket, an operation identity and a recursion guard are labels that a request
carries while it waits and its permit carries afterwards. No two requests or permits carry the same
label; the two indexes over labels, operation identities and recursion guards, are exact.
-/

namespace Taskmesh

open Std MachineInt SetIndex QueueFamily

/-- A label a request asks for, carries in a queue and hands to its permit. -/
structure Label (β : Type) where
  requested : AdmissionRequest → Ids → Option β
  queued : PendingRequest → Option β
  held : PermitRecord → Option β
  entry : ∀ s policy c request waker ids nowMs block tags,
    queued (queuedEntry s policy c request waker ids nowMs block tags) = requested request ids
  direct : ∀ s policy c request ids nowMs b,
    held (directGrant s policy c request ids nowMs).record = some b → requested request ids = some b
  promotes : ∀ s c head nowMs,
    held (Governor.promotedGrant s c head nowMs).record = queued head.untagged
  touched : ∀ record record' b, Touched record record' → held record' = some b → held record = some b
  advanced : ∀ (record : PermitRecord) phase nonce,
    held { record with phase := phase, leaseNonce := nonce } = held record
  recharged : ∀ (record : PermitRecord) ledger, held { record with ledger := ledger } = held record

namespace Label

variable {β : Type} (l : Label β)

/-- A waiting request carries the label. -/
def Waits (s : GovernedState) (b : β) : Prop := ∃ c r, r ∈ s.waiting c ∧ l.queued r = some b

/-- The permit `p` is live and carries the label. -/
def Holds (s : GovernedState) (p : PermitId) (b : β) : Prop :=
  ∃ record, s.permits[p]? = some record ∧ l.held record = some b

def InUse (s : GovernedState) (b : β) : Prop := l.Waits s b ∨ ∃ p, l.Holds s p b

/-- No two requests or permits carry the same label. -/
structure Exclusive (s : GovernedState) : Prop where
  queues : ∀ c c' r r' b, r ∈ s.waiting c → r' ∈ s.waiting c' → l.queued r = some b →
    l.queued r' = some b → r.permitId = r'.permitId
  permits : ∀ p p' b, l.Holds s p b → l.Holds s p' b → p = p'
  apart : ∀ p b, l.Waits s b → ¬ l.Holds s p b

end Label

variable {g : Governor} {caller : Caller} {s s' : GovernedState} {β : Type} {l : Label β}

/-! ## How labels move -/

theorem Label.holds_congr (h : s'.permits = s.permits) (p : PermitId) (b : β) :
    l.Holds s' p b ↔ l.Holds s p b := by
  rw [Label.Holds, Label.Holds, h]

theorem Label.waits_congr (h : s'.waiting = s.waiting) (b : β) : l.Waits s' b ↔ l.Waits s b := by
  rw [Label.Waits, Label.Waits, h]

theorem Label.holds_insert {p : PermitId} {record : PermitRecord}
    (h : s'.permits = s.permits.insert p record) (q : PermitId) (b : β) :
    l.Holds s' q b ↔ (q = p ∧ l.held record = some b) ∨ (q ≠ p ∧ l.Holds s q b) := by
  unfold Label.Holds
  rw [h]
  by_cases hq : q = p
  · subst hq
    simp
  · have hq' : p ≠ q := Ne.symm hq
    simp [ExtTreeMap.getElem?_insert, hq, hq']

theorem Label.holds_erase {p : PermitId} (h : s'.permits = s.permits.erase p) (q : PermitId) (b : β) :
    l.Holds s' q b ↔ q ≠ p ∧ l.Holds s q b := by
  unfold Label.Holds
  rw [h]
  by_cases hq : q = p
  · subst hq
    simp
  · have hq' : p ≠ q := Ne.symm hq
    simp [ExtTreeMap.getElem?_erase, hq, hq']

/-- Replacing a record that keeps its label keeps who holds what. -/
theorem Label.holds_replace {p : PermitId} {record record' : PermitRecord}
    (h : s'.permits = s.permits.insert p record') (found : s.permits[p]? = some record)
    (same : l.held record' = l.held record) (q : PermitId) (b : β) :
    l.Holds s' q b ↔ l.Holds s q b := by
  rw [Label.holds_insert h]
  by_cases hq : q = p
  · subst hq
    simp [Label.Holds, found, same]
  · simp [hq]

theorem Label.waits_pushed {c : TaskClass} {r : PendingRequest}
    (h : Pushed s.waiting s'.waiting c r) (b : β) :
    l.Waits s' b ↔ l.Waits s b ∨ l.queued r = some b := by
  unfold Label.Waits
  constructor
  · rintro ⟨c', r', hr', hb⟩
    rcases h.mem_iff.mp hr' with hr' | ⟨rfl, rfl⟩
    · exact Or.inl ⟨c', r', hr', hb⟩
    · exact Or.inr hb
  · rintro (⟨c', r', hr', hb⟩ | hb)
    · exact ⟨c', r', h.mem_iff.mpr (Or.inl hr'), hb⟩
    · exact ⟨c, r, h.mem_iff.mpr (Or.inr ⟨rfl, rfl⟩), hb⟩

theorem Label.waits_of_removed {c : TaskClass} {index : Nat} {r : PendingRequest} {b : β}
    (h : Removed s.waiting s'.waiting c index r) (hb : l.Waits s' b) : l.Waits s b := by
  obtain ⟨c', r', hr', hb⟩ := hb
  exact ⟨c', r', h.mem_of_mem hr', hb⟩

/-- A request that left its queue took its labels with it. -/
theorem Label.Exclusive.waits_removed (hx : l.Exclusive s) (hinv : QueueInv g s) {c : TaskClass}
    {index : Nat} {r : PendingRequest} (h : Removed s.waiting s'.waiting c index r) (b : β) :
    l.Waits s' b ↔ l.Waits s b ∧ l.queued r ≠ some b := by
  constructor
  · rintro ⟨c', r', hr', hb⟩
    obtain ⟨hmem, hne⟩ := (h.mem_iff hinv.permitIds).mp hr'
    exact ⟨⟨c', r', hmem, hb⟩, fun hrb => hne (hx.queues c' c r' r b hmem h.mem hb hrb)⟩
  · rintro ⟨⟨c', r', hr', hb⟩, hne⟩
    refine ⟨c', r', (h.mem_iff hinv.permitIds).mpr ⟨hr', fun heq => hne ?_⟩, hb⟩
    have hrr' : r' = r := hinv.permitIds.eq_of_label hr' h.mem heq
    rw [← hrr']
    exact hb

/-! ## Labels stay exclusive -/

theorem Label.Exclusive.of_less (hx : l.Exclusive s) (hw : s'.waiting = s.waiting)
    (hh : ∀ p b, l.Holds s' p b → l.Holds s p b) : l.Exclusive s' where
  queues := by rw [hw]; exact hx.queues
  permits p p' b h h' := hx.permits p p' b (hh p b h) (hh p' b h')
  apart p b h h' := hx.apart p b ((Label.waits_congr hw b).mp h) (hh p b h')

theorem Label.Exclusive.pushed (hx : l.Exclusive s) {c : TaskClass} {r : PendingRequest}
    (h : Pushed s.waiting s'.waiting c r) (hpermits : s'.permits = s.permits)
    (hnew : ∀ b, l.queued r = some b → ¬ l.InUse s b) : l.Exclusive s' where
  queues c₁ c₂ r₁ r₂ b h₁ h₂ hb₁ hb₂ := by
    rcases h.mem_iff.mp h₁ with h₁ | ⟨rfl, rfl⟩ <;> rcases h.mem_iff.mp h₂ with h₂ | ⟨rfl, rfl⟩
    · exact hx.queues c₁ c₂ r₁ r₂ b h₁ h₂ hb₁ hb₂
    · exact absurd (Or.inl ⟨c₁, r₁, h₁, hb₁⟩) (hnew b hb₂)
    · exact absurd (Or.inl ⟨c₂, r₂, h₂, hb₂⟩) (hnew b hb₁)
    · rfl
  permits p p' b h h' :=
    hx.permits p p' b ((Label.holds_congr hpermits p b).mp h) ((Label.holds_congr hpermits p' b).mp h')
  apart p b hw hh := by
    rw [Label.holds_congr hpermits] at hh
    rcases (Label.waits_pushed h b).mp hw with hw | hw
    · exact hx.apart p b hw hh
    · exact hnew b hw (Or.inr ⟨p, hh⟩)

theorem Label.Exclusive.dropped (hx : l.Exclusive s) {c : TaskClass} {index : Nat} {r : PendingRequest}
    (h : Removed s.waiting s'.waiting c index r) (hpermits : s'.permits = s.permits) :
    l.Exclusive s' where
  queues c₁ c₂ r₁ r₂ b h₁ h₂ := hx.queues c₁ c₂ r₁ r₂ b (h.mem_of_mem h₁) (h.mem_of_mem h₂)
  permits p p' b h h' :=
    hx.permits p p' b ((Label.holds_congr hpermits p b).mp h) ((Label.holds_congr hpermits p' b).mp h')
  apart p b hw hh :=
    hx.apart p b (Label.waits_of_removed h hw) ((Label.holds_congr hpermits p b).mp hh)

/-- A new permit whose labels nobody else carries. -/
theorem Label.Exclusive.granted (hx : l.Exclusive s) {p : PermitId} {record : PermitRecord}
    (hpermits : s'.permits = s.permits.insert p record) (hwaiting : s'.waiting = s.waiting)
    (hnew : ∀ b, l.held record = some b → ¬ l.InUse s b) : l.Exclusive s' where
  queues := by rw [hwaiting]; exact hx.queues
  permits q q' b hq hq' := by
    rcases (Label.holds_insert hpermits q b).mp hq with ⟨rfl, hb⟩ | ⟨_, hq⟩ <;>
      rcases (Label.holds_insert hpermits q' b).mp hq' with ⟨rfl, hb'⟩ | ⟨_, hq'⟩
    · rfl
    · exact absurd (Or.inr ⟨q', hq'⟩) (hnew b hb)
    · exact absurd (Or.inr ⟨q, hq⟩) (hnew b hb')
    · exact hx.permits q q' b hq hq'
  apart q b hw hh := by
    rw [Label.waits_congr hwaiting] at hw
    rcases (Label.holds_insert hpermits q b).mp hh with ⟨rfl, hb⟩ | ⟨_, hh⟩
    · exact hnew b hb (Or.inl hw)
    · exact hx.apart q b hw hh

/-- The permit of a promoted request is new to every label it carries, once the request left its
queue. -/
theorem Label.Exclusive.unused_of_removed (hx : l.Exclusive s) (hinv : QueueInv g s) {c : TaskClass}
    {index : Nat} {r : PendingRequest} (h : Removed s.waiting s'.waiting c index r)
    (hpermits : s'.permits = s.permits) {b : β} (hb : l.queued r = some b) : ¬ l.InUse s' b := by
  rintro (hw | ⟨p, hp⟩)
  · exact ((hx.waits_removed hinv h b).mp hw).2 hb
  · exact hx.apart p b ⟨c, r, h.mem, hb⟩ ((Label.holds_congr hpermits p b).mp hp)

/-- Labels stay exclusive, when a request asks only for labels nobody carries. -/
theorem Effect.exclusive (h : Effect g caller s s') (hinv : QueueInv g s) (hx : l.Exclusive s)
    (hnew : ∀ policy c request ids b, Accepted g s policy c request ids →
      l.requested request ids = some b → ¬ l.InUse s b) : l.Exclusive s' := by
  cases h with
  | kept queues ledger guards =>
    exact hx.of_less (funext queues.waiting_eq) fun p b => (Label.holds_congr ledger.permits p b).mp
  | queued waker nowMs tags allowed accepted pushed identities ledger guards sound =>
    refine hx.pushed pushed ledger.permits fun b hb => ?_
    rw [l.entry] at hb
    exact hnew _ _ _ _ b accepted hb
  | dropped removed identities ledger guards => exact hx.dropped removed ledger.permits
  | admitted nowMs allowed accepted fits result =>
    subst result
    refine hx.granted rfl (funext (GovernedState.sameQueues_grant _ _).waiting_eq) fun b hb => ?_
    exact hnew _ _ _ _ b accepted (l.direct _ _ _ _ _ _ b hb)
  | @promoted policy c index head base nowMs fits removed identities ledger guards result =>
    subst result
    refine (hx.dropped removed ledger.permits).granted rfl
      (funext (GovernedState.sameQueues_grant _ _).waiting_eq) fun b hb => ?_
    rw [l.promotes] at hb
    exact hx.unused_of_removed hinv removed ledger.permits hb
  | ended found ends queues ledger guards =>
    refine hx.of_less (funext queues.waiting_eq) fun p b hp => ?_
    exact ((Label.holds_erase (s := s) (ledger.permits.trans rfl) p b).mp hp).2
  | touched found similar queues ledger guards =>
    refine hx.of_less (funext queues.waiting_eq) fun q b hq => ?_
    rcases (Label.holds_insert (s := s) ledger.permits q b).mp hq with ⟨rfl, hb⟩ | ⟨_, hq⟩
    · exact ⟨_, found, l.touched _ _ b similar hb⟩
    · exact hq
  | advanced nonces found later result =>
    subst result
    refine hx.of_less (funext (GovernedState.sameQueues_advancedTo s _ _ _ _).waiting_eq) fun q b hq => ?_
    exact (Label.holds_replace (s := s) rfl found (l.advanced _ _ _) q b).mp hq
  | recharged allowed found change result =>
    subst result
    refine hx.of_less (funext (sameQueues_rechargePermit s _ _ _).waiting_eq) fun q b hq => ?_
    exact (Label.holds_replace (memoryOnly_rechargePermit s _ _ _).permits found (l.recharged _ _) q b).mp hq

/-! ## The four labels -/

def permitLabel : Label PermitId where
  requested _ ids := some ids.permitId
  queued r := some r.permitId
  held record := some record.permitId
  entry _ _ _ _ _ _ _ _ _ := rfl
  direct _ _ _ _ _ _ _ h := h
  promotes _ _ _ _ := rfl
  touched record record' b h hb := by
    obtain ⟨waker, touchedMs, heq⟩ := h.rest
    rw [heq] at hb
    exact hb
  advanced _ _ _ := rfl
  recharged _ _ := rfl

def ticketLabel : Label Ticket where
  requested _ ids := some ids.ticket
  queued r := some r.ticket
  held record := record.pendingTicket
  entry _ _ _ _ _ _ _ _ _ := rfl
  direct _ _ _ _ _ _ b h := by simp [GrantRequest.record, directGrant] at h
  promotes _ _ _ _ := rfl
  touched record record' b h hb := by
    rcases h.ticket with heq | heq
    · rwa [heq] at hb
    · rw [heq] at hb
      simp at hb
  advanced _ _ _ := rfl
  recharged _ _ := rfl

/-- The operation identity: root operation and operation. -/
def identityLabel : Label (String × String) where
  requested request _ := some (request.spec.rootOperationId, request.spec.operation)
  queued r := some (r.rootOperationId, r.operation)
  held record := some (record.rootOperationId, record.operation)
  entry _ _ _ _ _ _ _ _ _ := rfl
  direct _ _ _ _ _ _ _ h := h
  promotes _ _ _ _ := rfl
  touched record record' b h hb := by
    obtain ⟨waker, touchedMs, heq⟩ := h.rest
    rw [heq] at hb
    exact hb
  advanced _ _ _ := rfl
  recharged _ _ := rfl

/-- The recursion guard of a child: root operation and stage. -/
def guardLabel : Label (String × TaskStage) where
  requested request _ :=
    if request.spec.scope.isChild then some (request.spec.rootOperationId, targetStage request.spec)
    else none
  queued r := if r.scope.isChild then some (r.rootOperationId, r.targetStage) else none
  held record := if record.scope.isChild then some (record.rootOperationId, record.targetStage) else none
  entry _ _ _ _ _ _ _ _ _ := rfl
  direct _ _ _ _ _ _ _ h := h
  promotes _ _ _ _ := rfl
  touched record record' b h hb := by
    obtain ⟨waker, touchedMs, heq⟩ := h.rest
    rw [heq] at hb
    exact hb
  advanced _ _ _ := rfl
  recharged _ _ := rfl

/-! ## Exact indexes -/

/-- The indexes over operation identities and recursion guards say exactly who occupies what. -/
structure LabelIndexes (s : GovernedState) : Prop where
  operations : ∀ root operation p, s.permitsForOperation root operation = some p ↔
    identityLabel.Holds s p (root, operation)
  queuedOperations : ∀ root operation, Registered s.queuedOperationIdentities root operation ↔
    identityLabel.Waits s (root, operation)
  recursion : ∀ root stage, Registered s.activeRecursion root stage ↔ guardLabel.InUse s (root, stage)

/-- Labels are exclusive, their indexes exact, and a permit is stored under its own identity. -/
structure Occupancy (s : GovernedState) : Prop extends LabelIndexes s where
  permitIds : permitLabel.Exclusive s
  identities : identityLabel.Exclusive s
  guards : guardLabel.Exclusive s
  keys : ∀ (p : PermitId) record, s.permits[p]? = some record → record.permitId = p

/-- A request whose identity is unknown to the indexes is unknown to the queues and the permits. -/
theorem Occupancy.identity_unused (ho : Occupancy s) {request : AdmissionRequest}
    (h : s.hasOperationIdentity request.spec.rootOperationId request.spec.operation = false) :
    ¬ identityLabel.InUse s (request.spec.rootOperationId, request.spec.operation) := by
  unfold GovernedState.hasOperationIdentity at h
  rw [Bool.or_eq_false_iff] at h
  rintro (hw | ⟨p, hp⟩)
  · obtain ⟨set, hset, hmem⟩ := registered_iff.mp ((ho.queuedOperations _ _).mpr hw)
    have h2 := h.2
    rw [hset, Option.any_some] at h2
    rw [← ExtTreeSet.contains_iff_mem] at hmem
    rw [hmem] at h2
    simp at h2
  · rw [(ho.operations _ _ _).mpr hp] at h
    simp at h

theorem Occupancy.guard_unused (ho : Occupancy s) {request : AdmissionRequest} {ids : Ids}
    {b : String × TaskStage} (h : isRecursive s request.spec = false)
    (hb : guardLabel.requested request ids = some b) : ¬ guardLabel.InUse s b := by
  intro huse
  cases hscope : request.spec.scope with
  | root => simp [guardLabel, hscope, TaskScope.isChild] at hb
  | child parentOperationId parentStage awaits =>
    have hstage : targetStage request.spec = parentStage := by simp [targetStage, hscope]
    obtain rfl : (request.spec.rootOperationId, parentStage) = b := by
      simpa [guardLabel, hscope, TaskScope.isChild, hstage] using hb
    obtain ⟨set, hset, hmem⟩ := registered_iff.mp ((ho.recursion _ _).mpr huse)
    unfold isRecursive at h
    rw [hscope] at h
    simp only [hset, Option.any_some] at h
    rw [← ExtTreeSet.contains_iff_mem] at hmem
    rw [hmem] at h
    simp at h

/-- The identity of a waiting request is not live. -/
theorem Occupancy.not_live (ho : Occupancy s) {c : TaskClass} {r : PendingRequest}
    (hr : r ∈ s.waiting c) : s.permits[r.permitId]? = none := by
  cases h : s.permits[r.permitId]? with
  | none => rfl
  | some record =>
    have hkey := ho.keys _ _ h
    exact absurd ⟨record, h, congrArg some hkey⟩ (ho.permitIds.apart r.permitId r.permitId ⟨c, r, hr, rfl⟩)

/-! ### The operation index -/

namespace RootOperationPermits

theorem get_insert (o : RootOperationPermits) (root operation operation' : String) (p : PermitId) :
    (o.insert root operation p).get root operation' =
      if operation = operation' then some p else o.get root operation' := by
  unfold RootOperationPermits.insert RootOperationPermits.get
  by_cases h : operation = root
  · by_cases h' : operation' = root
    · simp [h, h']
    · have : root ≠ operation' := Ne.symm h'
      simp [h, h', this]
  · by_cases h' : operation' = root
    · have : operation ≠ root := h
      simp [h, h']
    · by_cases h'' : operation = operation'
      · simp [h', h'']
      · simp [h, h', h'', ExtTreeMap.getElem?_insert]

theorem get_remove (o : RootOperationPermits) (root operation operation' : String) :
    (o.remove root operation).get root operation' =
      if operation = operation' then none else o.get root operation' := by
  unfold RootOperationPermits.remove RootOperationPermits.get
  by_cases h : operation = root
  · by_cases h' : operation' = root
    · simp [h, h']
    · have : root ≠ operation' := Ne.symm h'
      simp [h, h', this]
  · by_cases h' : operation' = root
    · simp [h, h']
    · by_cases h'' : operation = operation'
      · simp [h', h'']
      · simp [h, h', h'', ExtTreeMap.getElem?_erase]

theorem get_of_isEmpty {o : RootOperationPermits} (h : o.isEmpty = true) (root operation : String) :
    o.get root operation = none := by
  unfold RootOperationPermits.isEmpty at h
  simp only [Bool.and_eq_true, Option.isNone_iff_eq_none] at h
  have hempty : o.descendants = ∅ := by simpa using h.2
  unfold RootOperationPermits.get
  split
  · exact h.1
  · rw [hempty]
    simp

end RootOperationPermits

theorem permitsForOperation_grant (s : GovernedState) (r : GrantRequest) (root operation : String) :
    (s.grant r).permitsForOperation root operation =
      if (r.rootOperationId, r.operation) = (root, operation) then some r.permitId
      else s.permitsForOperation root operation := by
  simp only [GovernedState.permitsForOperation, GovernedState.grant, ExtTreeMap.getElem?_insert]
  by_cases hroot : r.rootOperationId = root
  · subst hroot
    simp only [compare_self, if_true, Option.bind_some, RootOperationPermits.get_insert, Prod.mk.injEq,
      true_and]
    split
    · rfl
    · cases s.operationPermits[r.rootOperationId]? with
      | none => simp [RootOperationPermits.get]
      | some o => simp
  · simp [hroot]

theorem permitsForOperation_discharge (s : GovernedState) (p : PermitId) (record : PermitRecord)
    (root operation : String) :
    (s.discharge p record).permitsForOperation root operation =
      if (record.rootOperationId, record.operation) = (root, operation) then none
      else s.permitsForOperation root operation := by
  have hdef : (s.discharge p record).permitsForOperation root operation =
      ((GovernedState.removeOperation record s.operationPermits)[root]?.bind
        fun operations => operations.get root operation) := rfl
  rw [hdef]
  unfold GovernedState.removeOperation GovernedState.permitsForOperation
  cases ho : s.operationPermits[record.rootOperationId]? with
  | none =>
    by_cases hroot : record.rootOperationId = root
    · subst hroot
      simp [ho]
    · simp [hroot]
  | some o =>
    have hget := o.get_remove record.rootOperationId record.operation operation
    by_cases hroot : record.rootOperationId = root
    · subst hroot
      simp only [Prod.mk.injEq, true_and, ho, Option.bind_some]
      rw [← hget]
      by_cases hempty : (o.remove record.rootOperationId record.operation).isEmpty = true
      · simp [hempty, RootOperationPermits.get_of_isEmpty hempty]
      · simp [hempty]
    · by_cases hempty : (o.remove record.rootOperationId record.operation).isEmpty = true
      · simp [hempty, hroot, ExtTreeMap.getElem?_erase]
      · simp [hempty, hroot, ExtTreeMap.getElem?_insert]

/-! ### The indexes stay exact -/

/-- Nothing that is indexed changed hands. -/
theorem LabelIndexes.same (hi : LabelIndexes s) (hwaiting : s'.waiting = s.waiting)
    (hidentity : ∀ p b, identityLabel.Holds s' p b ↔ identityLabel.Holds s p b)
    (hguard : ∀ p b, guardLabel.Holds s' p b ↔ guardLabel.Holds s p b)
    (hoperations : s'.operationPermits = s.operationPermits)
    (hqueued : s'.queuedOperationIdentities = s.queuedOperationIdentities)
    (hrecursion : s'.activeRecursion = s.activeRecursion) : LabelIndexes s' where
  operations root operation p := by
    rw [hidentity, ← hi.operations, GovernedState.permitsForOperation, GovernedState.permitsForOperation,
      hoperations]
  queuedOperations root operation := by
    rw [hqueued, Label.waits_congr hwaiting]
    exact hi.queuedOperations root operation
  recursion root stage := by
    rw [hrecursion, hi.recursion, Label.InUse, Label.InUse, Label.waits_congr hwaiting]
    simp only [hguard]

theorem Touched.identity {record record' : PermitRecord} (h : Touched record record') :
    identityLabel.held record' = identityLabel.held record := by
  obtain ⟨waker, touchedMs, heq⟩ := h.rest
  rw [heq]
  rfl

theorem Touched.guard {record record' : PermitRecord} (h : Touched record record') :
    guardLabel.held record' = guardLabel.held record := by
  obtain ⟨waker, touchedMs, heq⟩ := h.rest
  rw [heq]
  rfl

/-- A guard label that is registered when its owner is a child. -/
theorem registered_guard_insert {m : BTreeMap String (BTreeSet TaskStage)} {scope : TaskScope}
    {root root' : String} {stage stage' : TaskStage} :
    Registered (if scope.isChild then insertMember m root stage else m) root' stage' ↔
      Registered m root' stage' ∨ (if scope.isChild then some (root, stage) else none) =
        some (root', stage') := by
  by_cases hchild : scope.isChild = true
  · simp only [hchild, if_true, registered_insertMember, Option.some.injEq, Prod.mk.injEq]
    tauto
  · simp [hchild]

theorem registered_guard_remove {m : BTreeMap String (BTreeSet TaskStage)} {scope : TaskScope}
    {root root' : String} {stage stage' : TaskStage} :
    Registered (if scope.isChild then removeMember m root stage else m) root' stage' ↔
      Registered m root' stage' ∧ (if scope.isChild then some (root, stage) else none) ≠
        some (root', stage') := by
  by_cases hchild : scope.isChild = true
  · simp only [hchild, if_true, registered_removeMember, ne_eq, Option.some.injEq, Prod.mk.injEq]
  · simp [hchild]

/-- The indexes after a request was queued. -/
theorem LabelIndexes.queued (hi : LabelIndexes s) {c : TaskClass} {r : PendingRequest}
    (pushed : Pushed s.waiting s'.waiting c r) (ledger : s.SameLedger s')
    (identities : s'.queuedOperationIdentities =
      insertMember s.queuedOperationIdentities r.rootOperationId r.operation)
    (guards : s'.activeRecursion =
      if r.scope.isChild then insertMember s.activeRecursion r.rootOperationId r.targetStage
      else s.activeRecursion) : LabelIndexes s' where
  operations root operation p := by
    rw [Label.holds_congr ledger.permits, ← hi.operations, GovernedState.permitsForOperation,
      GovernedState.permitsForOperation, ledger.operations]
  queuedOperations root operation := by
    rw [identities, registered_insertMember, Label.waits_pushed pushed, hi.queuedOperations, or_comm]
    simp [identityLabel]
  recursion root stage := by
    rw [guards, registered_guard_insert, hi.recursion, Label.InUse, Label.InUse,
      Label.waits_pushed pushed]
    simp only [Label.holds_congr ledger.permits]
    simp only [guardLabel]
    tauto

/-- The indexes after a request left its queue for good. -/
theorem LabelIndexes.dropped (ho : Occupancy s) (hinv : QueueInv g s) {c : TaskClass} {index : Nat}
    {r : PendingRequest} (removed : Removed s.waiting s'.waiting c index r) (ledger : s.SameLedger s')
    (identities : s'.queuedOperationIdentities =
      removeMember s.queuedOperationIdentities r.rootOperationId r.operation)
    (guards : s'.activeRecursion =
      if r.scope.isChild then removeMember s.activeRecursion r.rootOperationId r.targetStage
      else s.activeRecursion) : LabelIndexes s' where
  operations root operation p := by
    rw [Label.holds_congr ledger.permits, ← ho.operations, GovernedState.permitsForOperation,
      GovernedState.permitsForOperation, ledger.operations]
  queuedOperations root operation := by
    rw [identities, registered_removeMember, ho.identities.waits_removed hinv removed,
      ho.queuedOperations]
    simp [identityLabel]
  recursion root stage := by
    rw [guards, registered_guard_remove, ho.recursion, Label.InUse, Label.InUse,
      ho.guards.waits_removed hinv removed]
    simp only [Label.holds_congr ledger.permits]
    show _ ∧ guardLabel.queued r ≠ some (root, stage) ↔ _
    constructor
    · rintro ⟨hw | hp, hne⟩
      · exact Or.inl ⟨hw, hne⟩
      · exact Or.inr hp
    · rintro (⟨hw, hne⟩ | ⟨p, hp⟩)
      · exact ⟨Or.inl hw, hne⟩
      · exact ⟨Or.inr ⟨p, hp⟩, fun heq => ho.guards.apart p _ ⟨c, r, removed.mem, heq⟩ hp⟩

/-- The indexes after a grant to an identity that is not live. -/
theorem LabelIndexes.granted {base : GovernedState} {grant : GrantRequest}
    (hlive : s.permits[grant.permitId]? = none) (hpermits : base.permits = s.permits)
    (hoperations : ∀ root operation p, base.permitsForOperation root operation = some p ↔
      identityLabel.Holds s p (root, operation))
    (hunused : ∀ p, ¬ identityLabel.Holds s p (grant.rootOperationId, grant.operation))
    (hqueued : ∀ root operation, Registered base.queuedOperationIdentities root operation ↔
      identityLabel.Waits base (root, operation))
    (hrecursion : ∀ root stage, Registered base.activeRecursion root stage ∨
        guardLabel.held grant.record = some (root, stage) ↔
      guardLabel.InUse base (root, stage) ∨ guardLabel.held grant.record = some (root, stage)) :
    LabelIndexes (base.grant grant) := by
  have hwaiting : (base.grant grant).waiting = base.waiting :=
    funext (GovernedState.sameQueues_grant base grant).waiting_eq
  have hnew : ∀ {β : Type} (l : Label β) q b, l.Holds (base.grant grant) q b ↔
      (q = grant.permitId ∧ l.held grant.record = some b) ∨ l.Holds s q b := by
    intro β l q b
    rw [Label.holds_insert (s := base) rfl, Label.holds_congr hpermits]
    constructor
    · rintro (h | ⟨_, h⟩)
      · exact Or.inl h
      · exact Or.inr h
    · rintro (h | h)
      · exact Or.inl h
      · refine Or.inr ⟨?_, h⟩
        rintro rfl
        obtain ⟨record, hrecord, _⟩ := h
        rw [hlive] at hrecord
        simp at hrecord
  constructor
  · intro root operation p
    rw [permitsForOperation_grant, hnew]
    by_cases hlabel : (grant.rootOperationId, grant.operation) = (root, operation)
    · rw [if_pos hlabel, ← hlabel]
      have hheld : identityLabel.held grant.record = some (grant.rootOperationId, grant.operation) := rfl
      simp only [Option.some.injEq, hheld, and_true]
      constructor
      · intro h
        exact Or.inl h.symm
      · rintro (h | h)
        · exact h.symm
        · exact absurd h (hunused p)
    · rw [if_neg hlabel, hoperations]
      have hheld : identityLabel.held grant.record ≠ some (root, operation) := by
        simpa [identityLabel, GrantRequest.record] using hlabel
      simp [hheld]
  · intro root operation
    rw [Label.waits_congr hwaiting]
    exact hqueued root operation
  · intro root stage
    have hdef : (base.grant grant).activeRecursion =
        if grant.scope.isChild then
          insertMember base.activeRecursion grant.rootOperationId grant.targetStage
        else base.activeRecursion := rfl
    rw [hdef, registered_guard_insert]
    refine (hrecursion root stage).trans ?_
    rw [Label.InUse, Label.InUse, Label.waits_congr hwaiting]
    simp only [hnew, Label.holds_congr hpermits]
    constructor
    · rintro ((h | ⟨p, h⟩) | h)
      · exact Or.inl h
      · exact Or.inr ⟨p, Or.inr h⟩
      · exact Or.inr ⟨grant.permitId, Or.inl ⟨rfl, h⟩⟩
    · rintro (h | ⟨p, ⟨_, h⟩ | h⟩)
      · exact Or.inl (Or.inl h)
      · exact Or.inr h
      · exact Or.inl (Or.inr ⟨p, h⟩)

/-- The indexes after a permit ended. -/
theorem LabelIndexes.ended (ho : Occupancy s) {p : PermitId} {record : PermitRecord}
    (found : s.permits[p]? = some record) (queues : s.SameQueues s')
    (ledger : (s.discharge p record).SameLedger s')
    (guards : s'.activeRecursion = (s.discharge p record).activeRecursion) : LabelIndexes s' := by
  have hwaiting : s'.waiting = s.waiting := funext queues.waiting_eq
  have hgone : ∀ {β : Type} (l : Label β) q b, l.Holds s' q b ↔ q ≠ p ∧ l.Holds s q b :=
    fun l q b => Label.holds_erase (s := s) (ledger.permits.trans rfl) q b
  constructor
  · intro root operation q
    have hops : s'.permitsForOperation root operation =
        (s.discharge p record).permitsForOperation root operation := by
      rw [GovernedState.permitsForOperation, GovernedState.permitsForOperation, ledger.operations]
    rw [hops, permitsForOperation_discharge, hgone]
    have hheld : identityLabel.Holds s p (record.rootOperationId, record.operation) :=
      ⟨record, found, rfl⟩
    by_cases hlabel : (record.rootOperationId, record.operation) = (root, operation)
    · rw [if_pos hlabel, ← hlabel]
      simp only [reduceCtorEq, false_iff, not_and]
      intro hne hq
      exact hne (ho.identities.permits q p _ hq hheld)
    · rw [if_neg hlabel, ho.operations]
      refine ⟨fun h => ⟨?_, h⟩, fun h => h.2⟩
      rintro rfl
      obtain ⟨record', hrecord', hb⟩ := h
      rw [found] at hrecord'
      obtain rfl := Option.some.inj hrecord'
      exact hlabel (by simpa [identityLabel] using hb)
  · intro root operation
    rw [Label.waits_congr hwaiting, queues.identities]
    exact ho.queuedOperations root operation
  · intro root stage
    have hdef : (s.discharge p record).activeRecursion =
        if record.scope.isChild then removeMember s.activeRecursion record.rootOperationId record.targetStage
        else s.activeRecursion := rfl
    rw [guards, hdef, registered_guard_remove, ho.recursion, Label.InUse, Label.InUse,
      Label.waits_congr hwaiting]
    simp only [hgone]
    show _ ∧ guardLabel.held record ≠ some (root, stage) ↔ _
    constructor
    · rintro ⟨hw | ⟨q, hq⟩, hne⟩
      · exact Or.inl hw
      · refine Or.inr ⟨q, ?_, hq⟩
        rintro rfl
        obtain ⟨record', hrecord', hb⟩ := hq
        rw [found] at hrecord'
        obtain rfl := Option.some.inj hrecord'
        exact hne hb
    · rintro (hw | ⟨q, hqp, hq⟩)
      · exact ⟨Or.inl hw, fun heq => ho.guards.apart p _ hw ⟨record, found, heq⟩⟩
      · exact ⟨Or.inr ⟨q, hq⟩, fun heq => hqp (ho.guards.permits q p _ hq ⟨record, found, heq⟩)⟩

theorem Effect.labelIndexes (h : Effect g caller s s') (hinv : QueueInv g s) (ho : Occupancy s) :
    LabelIndexes s' := by
  cases h with
  | kept queues ledger guards =>
    exact ho.toLabelIndexes.same (funext queues.waiting_eq) (Label.holds_congr ledger.permits)
      (Label.holds_congr ledger.permits) ledger.operations queues.identities guards
  | queued waker nowMs tags allowed accepted pushed identities ledger guards sound =>
    exact ho.toLabelIndexes.queued pushed ledger identities guards
  | dropped removed identities ledger guards =>
    exact LabelIndexes.dropped ho hinv removed ledger identities guards
  | @admitted policy c request ids nowMs allowed accepted fits result =>
    subst result
    have hunused := ho.identity_unused accepted.identity
    exact LabelIndexes.granted accepted.fresh.permit rfl ho.operations
      (fun p hp => hunused (Or.inr ⟨p, hp⟩)) ho.queuedOperations
      fun root stage => by rw [ho.recursion]
  | @promoted policy c index head base nowMs fits removed identities ledger guards result =>
    subst result
    have hmem := removed.mem
    have hlive := ho.not_live hmem
    rw [PendingRequest.untagged_permitId] at hlive
    refine LabelIndexes.granted (s := s) hlive ledger.permits ?_ ?_ ?_ ?_
    · intro root operation p
      rw [← ho.operations, GovernedState.permitsForOperation, GovernedState.permitsForOperation,
        ledger.operations]
    · exact fun p hp => ho.identities.apart p _ ⟨c, _, hmem, rfl⟩ hp
    · intro root operation
      rw [identities, registered_removeMember, ho.identities.waits_removed hinv removed,
        ho.queuedOperations]
      simp [identityLabel]
    · intro root stage
      rw [guards, ho.recursion, guardLabel.promotes, Label.InUse, Label.InUse,
        ho.guards.waits_removed hinv removed]
      simp only [Label.holds_congr ledger.permits]
      tauto
  | ended found ends queues ledger guards => exact LabelIndexes.ended ho found queues ledger guards
  | touched found similar queues ledger guards =>
    exact ho.toLabelIndexes.same (funext queues.waiting_eq)
      (Label.holds_replace ledger.permits found similar.identity)
      (Label.holds_replace ledger.permits found similar.guard) ledger.operations queues.identities guards
  | advanced nonces found later result =>
    subst result
    exact ho.toLabelIndexes.same (funext (GovernedState.sameQueues_advancedTo s _ _ _ _).waiting_eq)
      (Label.holds_replace rfl found (identityLabel.advanced _ _ _))
      (Label.holds_replace rfl found (guardLabel.advanced _ _ _)) rfl rfl rfl
  | @recharged p record ledger allowed found change result =>
    subst result
    have hmemory := memoryOnly_rechargePermit s p record ledger
    have hqueues := sameQueues_rechargePermit s p record ledger
    exact ho.toLabelIndexes.same (funext hqueues.waiting_eq)
      (Label.holds_replace hmemory.permits found (identityLabel.recharged _ _))
      (Label.holds_replace hmemory.permits found (guardLabel.recharged _ _)) hmemory.operations
      hqueues.identities hmemory.guards

theorem keys_insert {p : PermitId} {record : PermitRecord}
    (hkeys : ∀ (q : PermitId) found, s.permits[q]? = some found → found.permitId = q)
    (h : s'.permits = s.permits.insert p record) (hp : record.permitId = p) :
    ∀ (q : PermitId) found, s'.permits[q]? = some found → found.permitId = q := by
  intro q found hq
  rw [h, ExtTreeMap.getElem?_insert] at hq
  by_cases hqp : p = q
  · subst hqp
    simp only [compare_self, if_true, Option.some.injEq] at hq
    rw [← hq]
    exact hp
  · simp only [Std.LawfulEqCmp.compare_eq_iff_eq, hqp, if_false] at hq
    exact hkeys q found hq

theorem Effect.keys (h : Effect g caller s s') (ho : Occupancy s) :
    ∀ (p : PermitId) record, s'.permits[p]? = some record → record.permitId = p := by
  cases h with
  | kept queues ledger guards => rw [ledger.permits]; exact ho.keys
  | queued waker nowMs tags allowed accepted pushed identities ledger guards sound =>
    rw [ledger.permits]; exact ho.keys
  | dropped removed identities ledger guards => rw [ledger.permits]; exact ho.keys
  | admitted nowMs allowed accepted fits result => subst result; exact keys_insert ho.keys rfl rfl
  | @promoted policy c index head base nowMs fits removed identities ledger guards result =>
    subst result
    refine keys_insert (s := base) ?_ rfl rfl
    rw [ledger.permits]
    exact ho.keys
  | ended found ends queues ledger guards =>
    intro q record hq
    rw [ledger.permits] at hq
    refine ho.keys q record ?_
    have hq' : (s.permits.erase _)[q]? = some record := hq
    rw [ExtTreeMap.getElem?_erase] at hq'
    split at hq'
    · simp at hq'
    · exact hq'
  | touched found similar queues ledger guards =>
    obtain ⟨waker, touchedMs, heq⟩ := similar.rest
    refine keys_insert (s := s) ho.keys ledger.permits (Eq.trans ?_ (ho.keys _ _ found))
    rw [heq]
  | advanced nonces found later result =>
    subst result
    have hkey := ho.keys _ _ found
    exact keys_insert (s := s) ho.keys rfl hkey
  | recharged allowed found change result =>
    subst result
    have hkey := ho.keys _ _ found
    exact keys_insert (s := s) ho.keys (memoryOnly_rechargePermit s _ _ _).permits hkey

/-- Occupancy is preserved by every effect. -/
theorem Effect.occupancy (h : Effect g caller s s') (hinv : QueueInv g s) (ho : Occupancy s) :
    Occupancy s' where
  toLabelIndexes := h.labelIndexes hinv ho
  permitIds := by
    refine h.exclusive hinv ho.permitIds fun policy c request ids b accepted hb => ?_
    obtain rfl : ids.permitId = b := by simpa [permitLabel] using hb
    rintro (⟨c', r, hr, hb⟩ | ⟨p, record, hp, hb⟩)
    · exact (accepted.fresh.waiting c' r hr).1 (by simpa [permitLabel] using hb)
    · have hrecord : record.permitId = ids.permitId := by simpa [permitLabel] using hb
      rw [← ho.keys p record hp, hrecord, accepted.fresh.permit] at hp
      simp at hp
  identities := by
    refine h.exclusive hinv ho.identities fun policy c request ids b accepted hb => ?_
    obtain rfl : (request.spec.rootOperationId, request.spec.operation) = b := by
      simpa [identityLabel] using hb
    exact ho.identity_unused accepted.identity
  guards := h.exclusive hinv ho.guards fun policy c request ids b accepted hb =>
    ho.guard_unused accepted.recursion hb
  keys := h.keys ho

theorem occupancy_init : Occupancy {} := by
  have hwaits : ∀ {β : Type} (l : Label β) b, ¬ l.Waits {} b := by
    rintro β l b ⟨c, r, hr, _⟩
    simp [waiting_init] at hr
  have hholds : ∀ {β : Type} (l : Label β) p b, ¬ l.Holds {} p b := by
    rintro β l p b ⟨record, h, _⟩
    simp at h
  have hx : ∀ {β : Type} (l : Label β), l.Exclusive {} := fun l =>
    ⟨fun c c' r r' b hr => by simp [waiting_init] at hr, fun p p' b h => absurd h (hholds l p b),
      fun p b h => absurd h (hwaits l b)⟩
  refine ⟨⟨fun root operation p => ?_, fun root operation => ?_, fun root stage => ?_⟩, hx _, hx _, hx _,
    fun p record h => by simp at h⟩
  · simp [GovernedState.permitsForOperation, hholds]
  · simp [Registered, hwaits]
  · simp [Registered, Label.InUse, hwaits, hholds]

end Taskmesh
