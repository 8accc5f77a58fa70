import Taskmesh.Engine.Proofs.CustodyProofs
import Taskmesh.Engine.Proofs.OracleProofs

/-!
# The order of grants within a class

While a request waits, nothing of its class that needs a pool it needs, or that needs none like it, is
granted unless it was queued earlier. Intake looks for a waiting request of the domain, promotion for
an earlier one; arrival numbers only grow, so what arrives later stays behind.
-/

namespace Taskmesh

open Std MachineInt SetIndex QueueFamily ExtTreeMap Governor

variable {g : Governor} {caller : Caller} {s₀ s s' : GovernedState} {σ σ' : g.System} {a : Action} {e : Event}
  {c : TaskClass} {r : PendingRequest} {p : PermitId} {record : PermitRecord}

/-! ## Where a new permit comes from -/

/-- A permit that was just granted: directly, or to a request of a queue. -/
inductive Granted (g : Governor) (s s' : GovernedState) (p : PermitId) (record : PermitRecord) : Prop
  | direct {policy : ClassPolicy} {c : TaskClass} {request : AdmissionRequest} {ids : Ids} (nowMs : Nat)
      (runnable : assessIntake s g.policy policy c request = .runnable)
      (queues : s'.waiting = s.waiting)
      (granted : record = (directGrant s policy c request ids nowMs).record)
  | promoted {nowMs : Nat} {grant : GrantRequest} {c : TaskClass} {policy : ClassPolicy} {index : Nat}
      {r head : PendingRequest} {chosen served : GovernedState}
      (promotes : Promotes g nowMs s s' grant c policy index r head chosen served)
      (id : p = r.permitId) (granted : record = grant.record)

/-- A permit that is live after an effect but not before is new in the map. -/
theorem Effect.size_of_new (h : Effect g caller s s') (ho : Occupancy s) (hnone : s.permits[p]? = none)
    (found : s'.permits[p]? = some record) : s.permits.size < s'.permits.size := by
  have hsame : s'.permits ≠ s.permits := by
    intro heq
    rw [heq, hnone] at found
    simp at found
  -- A record written over a live permit makes no other one live.
  have hlive : ∀ {q : PermitId} {old new : PermitRecord}, s.permits[q]? = some old →
      s'.permits ≠ s.permits.insert q new := by
    intro q old new hq heq
    rw [heq, ExtTreeMap.getElem?_insert] at found
    split at found
    · rename_i hcmp
      obtain rfl := LawfulEqOrd.eq_of_compare hcmp
      rw [hnone] at hq
      simp at hq
    · rw [hnone] at found
      simp at found
  have hgrows : ∀ {q : PermitId} {new : PermitRecord}, s.permits[q]? = none →
      s'.permits = s.permits.insert q new → s.permits.size < s'.permits.size := by
    intro q new hq heq
    have hmem : q ∉ s.permits := by
      rw [ExtTreeMap.mem_iff_isSome_getElem?, hq]
      simp
    rw [heq, ExtTreeMap.size_insert, if_neg (by simpa [ExtTreeMap.contains_iff_mem] using hmem)]
    omega
  cases h with
  | kept queues ledger guards => exact absurd ledger.permits hsame
  | queued waker nowMs tags allowed accepted pushed identities ledger guards sound =>
    exact absurd ledger.permits hsame
  | dropped removed identities ledger guards => exact absurd ledger.permits hsame
  | admitted nowMs allowed accepted fits result =>
    subst result
    exact hgrows accepted.fresh.permit rfl
  | @promoted policy c index head base nowMs fits removed identities ledger guards result =>
    subst result
    have hfree := ho.not_live removed.mem
    rw [PendingRequest.untagged_permitId] at hfree
    refine hgrows hfree (?_ : (base.grant (promotedGrant base c head nowMs)).permits =
      s.permits.insert head.permitId (promotedGrant base c head nowMs).record)
    show base.permits.insert _ _ = _
    rw [ledger.permits]
    rfl
  | @ended q old foundq ends queues ledger guards =>
    have hpermits : s'.permits = s.permits.erase q := ledger.permits
    rw [hpermits, ExtTreeMap.getElem?_erase] at found
    split at found
    · simp at found
    · rw [hnone] at found
      simp at found
  | touched foundq similar queues ledger guards => exact absurd ledger.permits (hlive foundq)
  | advanced nonces foundq later result =>
    subst result
    exact absurd rfl (hlive foundq)
  | @recharged q old ledger allowed foundq change result =>
    subst result
    exact absurd (memoryOnly_rechargePermit s q old ledger).permits (hlive foundq)

/-- Only a direct admission and a promotion make a permit live. -/
theorem Move.granted {trend : Trend} (h : Move g caller trend s s') (hinv : StateInv g s)
    (hnone : s.permits[p]? = none) (found : s'.permits[p]? = some record) : Granted g s s' p record := by
  have hnew : ∀ {q : PermitId} {new : PermitRecord}, s'.permits = s.permits.insert q new →
      p = q ∧ record = new := by
    intro q new heq
    rw [heq, ExtTreeMap.getElem?_insert] at found
    split at found
    · rename_i hcmp
      exact ⟨(LawfulEqOrd.eq_of_compare hcmp).symm, (Option.some.inj found).symm⟩
    · rw [hnone] at found
      simp at found
  have hsame : s'.permits ≠ s.permits := by
    intro heq
    rw [heq, hnone] at found
    simp at found
  cases trend with
  | shrinking =>
    have hgrew := (h.effect hinv.queues).size_of_new hinv.occupancy hnone found
    have hshrank := h.shrinks
    omega
  | growing =>
    cases h with
    | rescheduled h => exact absurd h.ledger.permits hsame
    | flagged _ pending => exact absurd rfl hsame
    | admitted nowMs allowed accepted runnable =>
      exact .direct nowMs runnable (funext (GovernedState.sameQueues_grant s _).waiting_eq) (hnew rfl).2
    | promoted nowMs h =>
      obtain ⟨c, policy, index, r, head, chosen, served, hpromotes⟩ := promoteStep_some h
      obtain ⟨hid, hrecord⟩ := hnew hpromotes.permits
      have hsameid : head.permitId = r.permitId := (congrArg PendingRequest.permitId hpromotes.same :)
      exact .promoted hpromotes (hid.trans hsameid) hrecord
    | @cycled _ c index witness r held h found first =>
      exact absurd (rescheduled_unserved g (s.removedPending c index r) c).ledger.permits hsame

/-! ## Behind a waiting request -/

/-- Every permit of the class that shares the request's domain was live at the start, or belongs to a
request queued before it. -/
def NoneOvertook (s₀ s : GovernedState) (c : TaskClass) (r : PendingRequest) : Prop :=
  ∀ (p : PermitId) record, s.permits[p]? = some record → record.taskClass = c →
    r.capabilities.intersects record.capabilities = true →
    s₀.permits[p]? ≠ none ∨ ∃ r₂ ∈ s₀.waiting c, r₂.permitId = p ∧ r₂.queueOrder < r.queueOrder

/-- How the states after `s₀` look from a request that still waits: what was queued since is later, and
nothing overtook. -/
structure KeptBehind (s₀ s : GovernedState) (c : TaskClass) (r : PendingRequest) : Prop where
  stamped : r.queueOrder ≤ s.nextQueueOrder
  queue : r ∈ s.waiting c → ∀ r₂ ∈ s.waiting c, r₂ ∈ s₀.waiting c ∨ r.queueOrder < r₂.queueOrder
  granted : r ∈ s.waiting c → NoneOvertook s₀ s c r

theorem KeptBehind.refl (hinv : QueueInv g s) (hr : r ∈ s.waiting c) : KeptBehind s s c r where
  stamped := (hinv.indexed c).bounded r hr
  queue _ r₂ hr₂ := Or.inl hr₂
  granted _ p record found _ _ := Or.inl (by simp [found])

/-- A request that waits after a move was there before, unless it is the one that just arrived. -/
theorem QueueEffect.waiting_before {r₂ : PendingRequest} (h : QueueEffect g s s') (hr : r₂ ∈ s'.waiting c) :
    r₂ ∈ s.waiting c ∨ s.nextQueueOrder < r₂.queueOrder := by
  cases h with
  | same h =>
    rw [h.waiting_eq] at hr
    exact Or.inl hr
  | pushed waker nowMs tags accepted blocked sound room order classes =>
    rcases (waiting_pushed classes).mem_iff.mp hr with hr | ⟨_, rfl⟩
    · exact Or.inl hr
    · exact Or.inr (Nat.lt_succ_self _)
  | removed found order classes => exact Or.inl ((waiting_removed found classes).mem_of_mem hr)

theorem QueueEffect.order_le (h : QueueEffect g s s') : s.nextQueueOrder ≤ s'.nextQueueOrder := by
  cases h with
  | same h => exact Nat.le_of_eq h.order.symm
  | pushed waker nowMs tags accepted blocked sound room order classes => omega
  | removed found order classes => exact Nat.le_of_eq order.symm

/-- Intake grants nothing of a domain that waits. -/
theorem QueueInv.direct_apart (hinv : QueueInv g s) {policy : ClassPolicy} {request : AdmissionRequest}
    (hrunnable : assessIntake s g.policy policy c request = .runnable) (hr : r ∈ s.waiting c) :
    r.capabilities.intersects request.capabilities = false := by
  have hbehind := (assessScope_runnable hrunnable).2
  rw [Bool.eq_false_iff]
  intro hdomain
  have hqueued := (hinv.hasQueuedDomain_iff c request.capabilities).mpr ⟨r, hr, hdomain⟩
  have hread : s.classes[c]?.any (fun cs => cs.hasQueuedDomain request.capabilities) = true := by
    unfold GovernedState.cls at hqueued
    cases hclass : s.classes[c]? with
    | none => simp [GovernedState.waiting, GovernedState.cls, ClassState.queueHalf, hclass, default] at hr
    | some cs =>
      rw [hclass] at hqueued
      exact hqueued
  have hblocked : queuedBehind s policy c request.capabilities = true := by
    unfold queuedBehind
    rw [hread]
    rfl
  exact absurd hbehind (by rw [hblocked]; simp)

/-- A promoted request comes before every other waiting request of its class that shares its domain. -/
theorem Promotes.first {nowMs : Nat} {grant : GrantRequest} {policy : ClassPolicy} {index : Nat}
    {r₁ head : PendingRequest} {chosen served : GovernedState}
    (h : Promotes g nowMs s s' grant c policy index r₁ head chosen served) (hinv : QueueInv g s)
    (hr : r ∈ s.waiting c) (hdomain : r.capabilities.intersects r₁.capabilities = true) :
    r₁.queueOrder ≤ r.queueOrder := by
  have hrunnable := h.runnable
  simp only [isRunnableCandidate, Bool.and_eq_true, Bool.not_eq_true'] at hrunnable
  by_contra hlater
  have hbehind := (hinv.hasQueuedPredecessor_iff c r₁).mpr ⟨r, hr, hdomain, by omega⟩
  rw [hrunnable.1] at hbehind
  simp at hbehind

/-- Nothing a move grants overtakes a request that still waits after it. -/
theorem Move.inOrder {trend : Trend} (h : Move g caller trend s s') (hinv : StateInv g s) (hinv' : StateInv g s')
    (hordered : KeptBehind s₀ s c r) : KeptBehind s₀ s' c r := by
  have hqueue := h.queueEffect
  -- The request was stamped before, so it is not the one that arrives.
  have hwaited : r ∈ s'.waiting c → r ∈ s.waiting c := by
    intro hr
    rcases hqueue.waiting_before hr with hr | hlater
    · exact hr
    · have := hordered.stamped
      omega
  refine ⟨Nat.le_trans hordered.stamped hqueue.order_le, fun hr r₂ hr₂ => ?_, fun hr => ?_⟩
  · rcases hqueue.waiting_before hr₂ with hr₂ | hlater
    · exact hordered.queue (hwaited hr) r₂ hr₂
    · have := hordered.stamped
      exact Or.inr (by omega)
  · intro p record found hclass hdomain
    cases hbefore : s.permits[p]? with
    | some old =>
      rcases (h.effect hinv.queues).permit hinv.occupancy hbefore with ⟨record', found', hstep⟩ | ⟨hgone, _⟩
      · obtain rfl : record = record' := Option.some.inj (found.symm.trans found')
        refine hordered.granted (hwaited hr) p old hbefore (hstep.charge.taskClass.symm.trans hclass) ?_
        rwa [← hstep.charge.capabilities]
      · rw [hgone.live] at found
        simp at found
    | none =>
      rcases h.granted hinv hbefore found with ⟨nowMs, hrunnable, _, rfl⟩ | ⟨hpromotes, rfl, rfl⟩
      · obtain rfl := hclass
        have hapart := hinv.queues.direct_apart hrunnable (hwaited hr)
        exact absurd hdomain (by rw [Bool.not_eq_true]; exact hapart)
      · rename_i nowMs grant c₁ policy index r₁ head chosen served
        have hcaps : grant.record.capabilities = r₁.capabilities := by
          have hsame : head.capabilities = r₁.capabilities :=
            (congrArg PendingRequest.capabilities hpromotes.same :)
          rw [← hsame, hpromotes.grants]
          rfl
        have hclass₁ : grant.record.taskClass = c₁ := by
          rw [hpromotes.grants]
          rfl
        obtain rfl : c₁ = c := hclass₁.symm.trans hclass
        rw [hcaps] at hdomain
        have hle := hpromotes.first hinv.queues (hwaited hr) hdomain
        have hmem := mem_waiting_of_getElem hpromotes.queued
        -- The request still waits, so it is not the one that was promoted.
        have hne : r₁.queueOrder ≠ r.queueOrder := by
          intro heq
          have horders := (hinv.queues.indexed c₁).orders_nodup
          obtain rfl : r₁.untagged = r := List.inj_on_of_nodup_map horders hmem (hwaited hr) heq
          have hfree := hinv'.occupancy.not_live hr
          rw [PendingRequest.untagged_permitId, found] at hfree
          simp at hfree
        rcases hordered.queue (hwaited hr) r₁.untagged hmem with hstart | hlater
        · exact Or.inr ⟨r₁.untagged, hstart, rfl, by rw [PendingRequest.untagged_queueOrder]; omega⟩
        · rw [PendingRequest.untagged_queueOrder] at hlater
          omega

/-- From any reachable state on, as long as a request waits, no request of its class and domain is granted
before it, except those that were queued earlier. -/
theorem granted_in_order (g : Governor) (σ σ' : g.System) (trace : List (Action × Event)) (h : g.Reachable σ)
    (hrun : Runs.Run g.step σ trace σ') (c : TaskClass) (r : PendingRequest) (hr : r ∈ σ.state.waiting c)
    (hwaits : r ∈ σ'.state.waiting c) : NoneOvertook σ.state σ'.state c r := by
  have hinv := SysInv.of_reachable h
  have hlast := hrun.invariant (P := fun τ : g.System => SysInv τ ∧ KeptBehind σ.state τ.state c r) ?_
    ⟨hinv, KeptBehind.refl hinv.state.queues hr⟩
  · exact hlast.2.granted hwaits
  · rintro τ a τ' e ⟨hinv₁, hordered⟩ hstep
    refine ⟨hinv₁.step hstep, hinv₁.step_rule hstep (P := fun s => KeptBehind σ.state s c r) ?_ hordered⟩
    exact fun _ _ _ hm hinv₂ hseq hbefore => hm.inOrder hinv₂ (hm.stateInv hinv₂ hseq) hbefore

namespace Sample

deriving instance DecidableEq for PendingRequest

/-- A third task arrives while the second one waits. -/
def crowded : governor.System :=
  (Runs.replay governor.step busy
    [.call (.admitSpec (task "c")) 6, .allocate 0, .allocate 0, .allocate 0, .enter 0]).getD busy

end Sample

theorem sample_in_order : ∃ r, r ∈ Sample.busy.state.waiting ⟨"work"⟩ ∧ r ∈ Sample.crowded.state.waiting ⟨"work"⟩ ∧
    NoneOvertook Sample.busy.state Sample.crowded.state ⟨"work"⟩ r := by
  have hwaits : ((Sample.busy.state.waiting ⟨"work"⟩).any fun r =>
      (Sample.crowded.state.waiting ⟨"work"⟩).contains r) = true := by decide +kernel
  obtain ⟨r, hr, hstill⟩ := List.any_eq_true.mp hwaits
  have hstill : r ∈ Sample.crowded.state.waiting ⟨"work"⟩ := by simpa using hstill
  obtain ⟨trace, hrun⟩ : Runs.Reachable Sample.governor.step Sample.busy Sample.crowded :=
    Runs.reachable_replay Sample.busy _
  exact ⟨r, hr, hstill, granted_in_order Sample.governor Sample.busy Sample.crowded trace
    (Runs.Reachable.of_restrict Sample.busy_reachable) hrun ⟨"work"⟩ r hr hstill⟩

end Taskmesh
