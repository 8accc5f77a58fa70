import Taskmesh.Engine.Proofs.PanicAdmissionProofs

/-!
# Promotion does not panic

Cycle scans, the grant loop and the pass they make up, from a sound state and to a state with few
permits. Every queued class belongs to the policy, every selected request is where it was selected,
and every grant is new.
-/

namespace Taskmesh

open Std MachineInt SetIndex QueueFamily ExtTreeMap Faults

variable {g : Governor} {s s' : GovernedState} {n : Nat} {c : TaskClass} {index : Nat} {r : PendingRequest}

/-- A class that keeps some of what waited in it is still priced by a class policy. -/
theorem SmallCosts.removedPending (hq : QueueInv g s) (found : (s.cls c).queue[index]? = some r) :
    SmallCosts (s.removedPending c index r) c :=
  SmallCosts.of_waiting hq fun _ hr => (GovernedState.removed_removedPending found).mem_of_mem hr

theorem SmallCosts.congr (h : SmallCosts s c) (hqueues : s.SameQueues s') : SmallCosts s' c := by
  intro r hr
  have hwaiting : r.untagged ∈ s'.waiting c := List.mem_map_of_mem hr
  rw [hqueues.waiting_eq] at hwaiting
  obtain ⟨r', hr', heq⟩ := List.mem_map.mp hwaiting
  have hcost : r'.cost = r.cost := (congrArg PendingRequest.cost heq :)
  rw [← hcost]
  exact h r' hr'

/-- A waiting request has a class the policy knows. -/
theorem QueueInv.class_known (hq : QueueInv g s) (found : (s.cls c).queue[index]? = some r) :
    ∃ policy, g.policy.classPolicy c = some policy := by
  obtain ⟨policy, hfits⟩ := hq.fits c r.untagged (mem_waiting_of_getElem found)
  exact ⟨policy, hfits.known⟩

/-- No live permit has the operation of a waiting request. -/
theorem Occupancy.operation_free (ho : Occupancy s) (hr : r ∈ s.waiting c) :
    s.permitsForOperation r.rootOperationId r.operation = none := by
  cases h : s.permitsForOperation r.rootOperationId r.operation with
  | none => rfl
  | some p =>
    have hholds := (ho.operations r.rootOperationId r.operation p).mp h
    exact absurd hholds (ho.identities.apart p _ ⟨c, r, hr, rfl⟩)

/-- A growing part that ends with few permits started with few. -/
theorem few_of_moves (h : Moves g Caller.nobody .growing s s') (hfew : s'.permits.size < 2 ^ 32) :
    s.permits.size < 2 ^ 32 := Nat.lt_of_le_of_lt h.grows hfew

namespace Panicky

/-! ## Wait cycles -/

theorem unserved_ok (hknown : ∃ policy, g.policy.classPolicy c = some policy) (hcosts : SmallCosts s c) :
    unserved g s c = .ok (g.unserved s c) := by
  obtain ⟨policy, hpolicy⟩ := hknown
  unfold unserved policyOf Governor.unserved
  rw [hpolicy, expect_some, ok_bind]
  exact onUnservedRemoved_ok policy hcosts

theorem served_ok {selection : Selection}
    (hknown : ∃ policy, g.policy.classPolicy selection.taskClass = some policy)
    (hcosts : SmallCosts s selection.taskClass) : served g s selection = .ok (g.served s selection) := by
  obtain ⟨policy, hpolicy⟩ := hknown
  unfold served policyOf Governor.served
  rw [hpolicy, expect_some, ok_bind]
  exact onRequestServed_ok policy hcosts _ _

theorem cycleIn_ok (hs : Sound g n s) (c : TaskClass) (cs : ClassState) :
    cycleIn g s c cs = .ok (g.cycleIn s c cs) := by
  unfold cycleIn Governor.cycleIn
  split
  · rfl
  · cases hpolicy : g.policy.classPolicy c with
    | none => rfl
    | some policy =>
      refine findFirst_ok fun entry _ => ?_
      obtain ⟨r, index⟩ := entry
      unfold cycleOf
      by_cases hawaited : r.seqNo ∈ cs.queuedAwaitedChildren
      · simp only [if_pos hawaited]
        rw [assessPending_ok hs, ok_bind]
        cases Taskmesh.assessPending s g.policy r policy.maxInflight.toNat false <;> rfl
      · simp only [if_neg hawaited]
        rfl

theorem findCycle_ok (hs : Sound g n s) : findCycle g s = .ok (g.findCycle s) := by
  refine findFirst_ok fun entry _ => ?_
  unfold cycleOfClass
  rw [cycleIn_ok hs]
  rfl

theorem terminalizeWaitCycle_ok (hs : Sound g n s) (effects : TransitionEffects) :
    terminalizeWaitCycle g s effects = .ok (g.terminalizeWaitCycle s effects) := by
  unfold terminalizeWaitCycle
  rw [findCycle_ok hs, ok_bind]
  rcases terminalizeWaitCycle_cases g s effects with ⟨hnone, heq⟩ | ⟨c, index, witness, r, held, hfind, hr,
    hheld, heq⟩
  · rw [hnone, heq]
    rfl
  · rw [hfind, heq]
    simp only
    rw [removePending_ok hs, GovernedState.removePending_of_getElem hr, ok_bind]
    simp only
    rw [unserved_ok (hs.inv.queues.class_known hr) (SmallCosts.removedPending hs.inv.queues hr), ok_bind, hheld]
    rfl

/-! ## The grant loop -/

/-- A promotion grants a new permit over the same ledger. -/
theorem promotedGrant_ok {nowMs : Nat} {grant : GrantRequest} {policy : ClassPolicy} {head : PendingRequest}
    {chosen base : GovernedState} (hs : Sound g n s)
    (h : Promotes g nowMs s s' grant c policy index r head chosen base) (hs' : Sound g n s') :
    Panicky.grant (base.removeTicket head.ticket) grant = .ok s' := by
  have hwaiting : r.untagged ∈ s.waiting c := mem_waiting_of_getElem h.queued
  have hfits := h.grantFits hs.inv.queues
  have hpermit : grant.permitId = r.permitId := by
    rw [h.grants]
    exact (congrArg PendingRequest.permitId h.same :)
  have hroot : grant.rootOperationId = r.rootOperationId := by
    rw [h.grants]
    exact (congrArg PendingRequest.rootOperationId h.same :)
  have hoperation : grant.operation = r.operation := by
    rw [h.grants]
    exact (congrArg PendingRequest.operation h.same :)
  have hsame : s.SameLedger (base.removeTicket head.ticket) :=
    (h.chose.ledger.trans (GovernedState.sameLedger_removedPending _ _ _ _)).trans
      (h.serves.ledger.trans ⟨fun _ => rfl, rfl, rfl, rfl, rfl, rfl, rfl⟩)
  rw [h.result] at hs' ⊢
  refine grant_ok hs hsame ?_ ?_ ?_ hs'
  · rw [hfits.cost]
    exact resolveCost_le policy
  · rw [hpermit]
    exact hs.inv.occupancy.not_live (r := r.untagged) hwaiting
  · rw [hroot, hoperation]
    exact hs.inv.occupancy.operation_free (r := r.untagged) hwaiting

theorem promoteStep_ok (hs : Sound g n s) (hclasses : g.policy.FewClasses) (nowMs : Nat)
    (hfew : (g.promoteStep nowMs s).1.permits.size < 2 ^ 32) :
    promoteStep g nowMs s = .ok (g.promoteStep nowMs s) := by
  unfold promoteStep
  rw [select_ok hs hclasses, ok_bind]
  by_cases hnil : Taskmesh.runnableCandidates s g.policy = []
  · unfold Governor.promoteStep
    rw [select_nil hnil]
    rfl
  · obtain ⟨chosen, candidate, hmem, hres, hsel⟩ := select_spec hnil
    obtain ⟨c, cs, hcs, hcand⟩ := mem_runnableCandidates.mp hmem
    obtain ⟨policy, r, hpolicy, hclass, hr, hrun, _, _⟩ := classCandidate_spec hcand
    have hcls : s.cls c = cs := by simp [GovernedState.cls, hcs]
    rw [← hcls] at hr hrun
    obtain ⟨head, hhead, hsame⟩ := hres.getElem_queue hr
    subst hclass
    have hchosen := hs.rescheduled hres
    have hremove := GovernedState.removePending_of_getElem hhead
    have hserved : served g (chosen.removedPending candidate.taskClass candidate.queueIndex head)
        ⟨candidate.taskClass, candidate.queueIndex, candidate.headFinishTag⟩ =
        .ok (g.served (chosen.removedPending candidate.taskClass candidate.queueIndex head)
          ⟨candidate.taskClass, candidate.queueIndex, candidate.headFinishTag⟩) :=
      served_ok ⟨policy, hpolicy⟩ (SmallCosts.removedPending hchosen.inv.queues hhead)
    have hstep : ∃ s' grant, g.promoteStep nowMs s = (s', some grant) ∧
        Promotes g nowMs s s' grant candidate.taskClass policy candidate.queueIndex r head chosen
          (g.served (chosen.removedPending candidate.taskClass candidate.queueIndex head)
            ⟨candidate.taskClass, candidate.queueIndex, candidate.headFinishTag⟩) := by
      refine ⟨_, _, ?_, hpolicy, hr, hrun, hsame, hres, hhead, rescheduled_served g _ _, rfl, rfl⟩
      unfold Governor.promoteStep
      rw [hsel]
      simp only [hremove]
    obtain ⟨s', grant, hstep, hpromotes⟩ := hstep
    have hmove : Move g Caller.nobody .growing s s' := Move.promoted nowMs hstep
    rw [hstep] at hfew ⊢
    have hgranted := promotedGrant_ok hs hpromotes (hmove.sound_plain Caller.plain_nobody hs hfew)
    rw [hsel]
    simp only
    rw [removePending_ok hchosen, hremove, ok_bind]
    simp only
    rw [hserved, ok_bind, ← hpromotes.grants, hgranted]
    rfl

theorem promoteLoop_ok (hs : Sound g n s) (hclasses : g.policy.FewClasses) (nowMs slots : Nat)
    (effects : TransitionEffects) (changed : Bool)
    (hfew : (g.promoteLoop nowMs slots s effects changed).state.permits.size < 2 ^ 32) :
    promoteLoop g nowMs slots s effects changed = .ok (g.promoteLoop nowMs slots s effects changed) := by
  induction slots generalizing s effects changed with
  | zero => rfl
  | succ slots ih =>
    unfold promoteLoop
    unfold Governor.promoteLoop at hfew ⊢
    cases hstep : g.promoteStep nowMs s with
    | mk s' grant =>
      rw [hstep] at hfew
      cases grant with
      | none =>
        have hok := promoteStep_ok hs hclasses nowMs (by rw [hstep]; exact hfew)
        rw [hok, hstep]
        rfl
      | some grant =>
        have hmove : Move g Caller.nobody .growing s s' := Move.promoted nowMs hstep
        -- The grants that follow only add permits.
        have hfew' := few_of_moves (promoteLoop_moves g nowMs slots s' _ true) hfew
        have hok := promoteStep_ok hs hclasses nowMs (by rw [hstep]; exact hfew')
        rw [hok, hstep]
        exact ih (hmove.sound_plain Caller.plain_nobody hs hfew') _ true hfew

theorem lastScan_ok {pass : Governor.GrantPass} (hs : Sound g n pass.state) :
    lastScan g pass = .ok (g.lastScan pass) := by
  unfold lastScan Governor.lastScan
  split
  · exact terminalizeWaitCycle_ok hs _
  · rfl

theorem probeMore_ok {pass : Governor.GrantPass} {last : Governor.CycleScan} (hs : Sound g n last.state) :
    probeMore g pass last =
      .ok (last.removed || (pass.exhausted && Taskmesh.hasRunnable last.state g.policy)) := by
  unfold probeMore
  cases last.removed with
  | true => rfl
  | false =>
    cases pass.exhausted with
    | true => exact hasRunnable_ok hs g.policy
    | false => rfl

/-- A promotion pass from a sound state to a state with few permits does not panic. -/
theorem promote_ok (hs : Sound g n s) (hclasses : g.policy.FewClasses) (nowMs : Nat)
    (hfew : (g.promote s nowMs).1.permits.size < 2 ^ 32) : promote g s nowMs = .ok (g.promote s nowMs) := by
  have hfewLast : (g.lastScan (g.grantPass s nowMs)).state.permits.size < 2 ^ 32 := hfew
  have hfewPass := few_of_moves (lastScan_moves g (g.grantPass s nowMs)) hfewLast
  have hfirst : Sound g n (g.terminalizeWaitCycle s {}).state :=
    (terminalizeWaitCycle_moves g s {}).sound_growing Caller.plain_nobody hs
      (few_of_moves (promoteLoop_moves g nowMs _ _ _ _) hfewPass)
  have hpass : Sound g n (g.grantPass s nowMs).state :=
    (grantPass_moves g s nowMs).sound_growing Caller.plain_nobody hs hfewPass
  have hlast : Sound g n (g.lastScan (g.grantPass s nowMs)).state :=
    (lastScan_moves g _).sound_growing Caller.plain_nobody hpass hfewLast
  have hloop : promoteLoop g nowMs promotionBudget (g.terminalizeWaitCycle s {}).state
      (g.terminalizeWaitCycle s {}).effects (g.terminalizeWaitCycle s {}).removed = .ok (g.grantPass s nowMs) :=
    promoteLoop_ok hfirst hclasses nowMs promotionBudget _ _ hfewPass
  unfold promote
  rw [terminalizeWaitCycle_ok hs, ok_bind, hloop, ok_bind, lastScan_ok hpass, ok_bind, probeMore_ok hlast, ok_bind]
  rfl

theorem commit_ok {α : Type} {sec : Governor.Section α} {nowMs : Nat} (hs : Sound g n sec.state)
    (hclasses : g.policy.FewClasses) (hfew : (g.commit sec nowMs).1.permits.size < 2 ^ 32) :
    commit g sec nowMs = .ok (g.commit sec nowMs) := by
  unfold commit
  unfold Governor.commit at hfew ⊢
  split
  · rename_i hpromotes
    rw [if_pos hpromotes] at hfew
    rw [promote_ok hs hclasses nowMs hfew]
    rfl
  · rfl

end Panicky

end Taskmesh
