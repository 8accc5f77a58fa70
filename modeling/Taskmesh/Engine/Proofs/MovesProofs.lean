import Taskmesh.Engine.Moves

/-!
# Every locked section is a path of moves

What `promote`, `admit`, `claim`, `abandon`, the releases and the memory operations do to the state,
as moves. Nothing is assumed of the state, except where an identity has to be unknown to it.
-/

namespace Taskmesh

open Std MachineInt SetIndex

variable {g : Governor} {caller : Caller}

/-! ## One grant of a promotion pass -/

/-- A promotion: the runnable request `r` at `index` of the queue of `c`, which scheduling left in
place as `head`, becomes the permit of `grant`. -/
structure Promotes (g : Governor) (nowMs : Nat) (s s' : GovernedState) (grant : GrantRequest)
    (c : TaskClass) (policy : ClassPolicy) (index : Nat) (r head : PendingRequest)
    (chosen served : GovernedState) : Prop where
  known : g.policy.classPolicy c = some policy
  queued : (s.cls c).queue[index]? = some r
  runnable : isRunnableCandidate s g.policy policy.maxInflight.toNat (s.cls c) r = true
  same : head.untagged = r.untagged
  chose : s.Rescheduled chosen
  found : (chosen.cls c).queue[index]? = some head
  serves : (chosen.removedPending c index head).Rescheduled served
  grants : grant = Governor.promotedGrant (served.removeTicket head.ticket) c head nowMs
  result : s' = (served.removeTicket head.ticket).grant grant

/-- Scheduling leaves every request at its position. -/
theorem GovernedState.Rescheduled.getElem_queue {s s' : GovernedState} (h : s.Rescheduled s')
    {c : TaskClass} {index : Nat} {r : PendingRequest} (hr : (s.cls c).queue[index]? = some r) :
    ∃ head, (s'.cls c).queue[index]? = some head ∧ head.untagged = r.untagged := by
  have heq : ((s'.cls c).queue.map PendingRequest.untagged)[index]? = some r.untagged := by
    have := congrArg ClassState.queue (h.queues.classes c)
    simp only [ClassState.queueHalf] at this
    rw [this]
    simp [hr]
  simpa using heq

/-- A round of the grant loop finds nothing runnable and changes nothing, or promotes. -/
theorem promoteStep_cases (g : Governor) (nowMs : Nat) (s : GovernedState) :
    (hasRunnable s g.policy = false ∧ g.promoteStep nowMs s = (s, none)) ∨
      ∃ s' grant c policy index r head chosen served,
        g.promoteStep nowMs s = (s', some grant) ∧
          Promotes g nowMs s s' grant c policy index r head chosen served := by
  by_cases hnil : runnableCandidates s g.policy = []
  · refine Or.inl ⟨hasRunnable_eq_false_iff.mpr hnil, ?_⟩
    unfold Governor.promoteStep
    rw [select_nil hnil]
  · obtain ⟨chosen, candidate, hmem, hres, hsel⟩ := select_spec hnil
    obtain ⟨c, cs, hcs, hcand⟩ := mem_runnableCandidates.mp hmem
    obtain ⟨policy, r, hpolicy, hclass, hr, hrun, _, _⟩ := classCandidate_spec hcand
    have hcls : s.cls c = cs := by simp [GovernedState.cls, hcs]
    rw [← hcls] at hr hrun
    obtain ⟨head, hhead, hsame⟩ := hres.getElem_queue hr
    subst hclass
    have hremove := GovernedState.removePending_of_getElem hhead
    refine Or.inr ⟨_, _, candidate.taskClass, policy, candidate.queueIndex, r, head, chosen,
      g.served (chosen.removedPending candidate.taskClass candidate.queueIndex head)
        ⟨candidate.taskClass, candidate.queueIndex, candidate.headFinishTag⟩, ?_,
      ⟨hpolicy, hr, hrun, hsame, hres, hhead, rescheduled_served g _ _, rfl, rfl⟩⟩
    unfold Governor.promoteStep
    rw [hsel]
    simp only [hremove]

/-- A round that grants is a promotion. -/
theorem promoteStep_some {nowMs : Nat} {s s' : GovernedState} {grant : GrantRequest}
    (h : g.promoteStep nowMs s = (s', some grant)) :
    ∃ c policy index r head chosen served,
      Promotes g nowMs s s' grant c policy index r head chosen served := by
  rcases promoteStep_cases g nowMs s with ⟨_, hnone⟩ | ⟨s₁, grant₁, c, policy, index, r, head, chosen,
    served, hsome, hpromotes⟩
  · rw [hnone] at h
    simp at h
  · rw [hsome] at h
    simp only [Prod.mk.injEq, Option.some.injEq] at h
    obtain ⟨rfl, rfl⟩ := h
    exact ⟨c, policy, index, r, head, chosen, served, hpromotes⟩

/-- A round that grants nothing found nothing runnable and changed nothing. -/
theorem promoteStep_none {nowMs : Nat} {s s' : GovernedState}
    (h : g.promoteStep nowMs s = (s', none)) : hasRunnable s g.policy = false ∧ s' = s := by
  rcases promoteStep_cases g nowMs s with ⟨hfalse, hnone⟩ | ⟨s₁, grant₁, c, policy, index, r, head,
    chosen, served, hsome, _⟩
  · rw [hnone] at h
    simp only [Prod.mk.injEq, and_true] at h
    exact ⟨hfalse, h.symm⟩
  · rw [hsome] at h
    simp at h

/-! ## Cycle scans -/

theorem findSome?_zipIdx {α β : Type} {l : List α} {f : α × Nat → Option β} {b : β}
    (h : l.zipIdx.findSome? f = some b) : ∃ a index, l[index]? = some a ∧ f (a, index) = some b := by
  obtain ⟨⟨a, index⟩, hmem, hf⟩ := List.exists_of_findSome?_eq_some h
  exact ⟨a, index, List.mem_zipIdx_iff_getElem?.mp hmem, hf⟩

/-- What a cycle scan found: a queued awaited child whose assessment is an irreversible cycle. -/
theorem findCycle_spec {s : GovernedState} {c : TaskClass} {index : Nat} {witness : CycleWitness}
    (h : g.findCycle s = some (c, index, witness)) :
    ∃ policy r, g.policy.classPolicy c = some policy ∧ (s.cls c).queue[index]? = some r ∧
      r.seqNo ∈ (s.cls c).queuedAwaitedChildren ∧
      assessPending s g.policy r policy.maxInflight.toNat false = .irreversibleWaitCycle witness := by
  unfold Governor.findCycle at h
  obtain ⟨⟨c', cs⟩, hmem, hf⟩ := List.exists_of_findSome?_eq_some h
  have hcs : s.classes[c']? = some cs := ExtTreeMap.mem_toList.mp hmem
  have hcls : s.cls c' = cs := by simp [GovernedState.cls, hcs]
  simp only [Option.map_eq_some_iff] at hf
  obtain ⟨⟨index', witness'⟩, hcycle, heq⟩ := hf
  simp only [Prod.mk.injEq] at heq
  obtain ⟨rfl, rfl, rfl⟩ := heq
  unfold Governor.cycleIn at hcycle
  split at hcycle
  · simp at hcycle
  · split at hcycle
    · simp at hcycle
    · rename_i policy hpolicy
      obtain ⟨r, i, hr, hfound⟩ := findSome?_zipIdx hcycle
      simp only at hfound
      split at hfound
      · rename_i hawaited
        split at hfound
        · rename_i w hassess
          simp only [Option.some.injEq, Prod.mk.injEq] at hfound
          obtain ⟨rfl, rfl⟩ := hfound
          exact ⟨policy, r, hpolicy, by rw [hcls]; exact hr, by rw [hcls]; exact hawaited, hassess⟩
        · simp at hfound
      · simp at hfound

/-- No scan result: no indexed request of a known class is in an irreversible cycle. -/
theorem findCycle_none {s : GovernedState} (h : g.findCycle s = none) {c : TaskClass}
    {policy : ClassPolicy} {r : PendingRequest} (hpolicy : g.policy.classPolicy c = some policy)
    (hr : r ∈ (s.cls c).queue) (hindexed : r.seqNo ∈ (s.cls c).queuedAwaitedChildren)
    (witness : CycleWitness) :
    assessPending s g.policy r policy.maxInflight.toNat false ≠ .irreversibleWaitCycle witness := by
  intro hassess
  cases hcs : s.classes[c]? with
  | none => simp [GovernedState.cls, hcs, default] at hr
  | some cs =>
    have hcls : s.cls c = cs := by simp [GovernedState.cls, hcs]
    rw [hcls] at hr hindexed
    have hclass := List.findSome?_eq_none_iff.mp h (c, cs) (ExtTreeMap.mem_toList.mpr hcs)
    simp only [Option.map_eq_none_iff] at hclass
    unfold Governor.cycleIn at hclass
    have hne : cs.queuedAwaitedChildren.isEmpty = false := by
      rw [ExtTreeSet.isEmpty_eq_false_iff]
      rintro hempty
      rw [hempty] at hindexed
      simp at hindexed
    rw [hne] at hclass
    simp only [Bool.false_eq_true, if_false, hpolicy] at hclass
    obtain ⟨index, hindex⟩ := List.mem_iff_getElem?.mp hr
    have := List.findSome?_eq_none_iff.mp hclass (r, index) (List.mem_zipIdx_iff_getElem?.mpr hindex)
    simp [hindexed, hassess] at this

/-- A witness of a cycle names held capacity. -/
theorem cycleWitness_held {s : GovernedState} {policies : PolicySet} {root : String} {scope : TaskScope}
    {parent : Option PermitId} {c : TaskClass} {blockers : BlockerSet} {witness : CycleWitness}
    (h : cycleWitness s policies root scope parent c blockers = some witness) : witness.held ≠ [] := by
  unfold cycleWitness at h
  split at h
  · simp only [Option.bind_eq_bind, Option.bind_eq_some_iff] at h
    obtain ⟨p, _, h⟩ := h
    split at h
    · simp at h
    · simp only [Option.bind_eq_some_iff] at h
      obtain ⟨held, _, h⟩ := h
      split at h
      · simp at h
      · rename_i hne
        simp only [Option.some.injEq] at h
        subst h
        simpa using hne
  · simp at h

theorem assessScope_cycle {s : GovernedState} {policies : PolicySet} {q : ScopeAssessment}
    {witness : CycleWitness} (h : assessScope s policies q = .irreversibleWaitCycle witness) :
    cycleWitness s policies q.rootOperationId q.scope q.parentPermitId q.taskClass
      { blockersFor s policies q.taskClass q.maxInflight q.cost q.capabilities with
        queuedBehind := q.queuedBehind } = some witness := by
  unfold assessScope at h
  simp only at h
  split at h
  · simp at h
  · split at h
    · rename_i w hw
      simp only [CapacityAssessment.irreversibleWaitCycle.injEq] at h
      subst h
      exact hw
    · simp at h

/-- A cycle scan changes nothing, or terminalizes the first cycle. -/
theorem terminalizeWaitCycle_cases (g : Governor) (s : GovernedState) (effects : TransitionEffects) :
    (g.findCycle s = none ∧ g.terminalizeWaitCycle s effects = ⟨s, effects, false⟩) ∨
      ∃ c index witness r held, g.findCycle s = some (c, index, witness) ∧
        (s.cls c).queue[index]? = some r ∧ witness.held.head? = some held ∧
        g.terminalizeWaitCycle s effects =
          ⟨g.terminalizeCycle (s.removedPending c index r) c r held, effects.pushWake r.waker, true⟩ := by
  cases hfind : g.findCycle s with
  | none =>
    refine Or.inl ⟨rfl, ?_⟩
    unfold Governor.terminalizeWaitCycle
    rw [hfind]
  | some found =>
    obtain ⟨c, index, witness⟩ := found
    obtain ⟨policy, r, _, hr, _, hassess⟩ := findCycle_spec hfind
    have hheld := cycleWitness_held (assessScope_cycle hassess)
    obtain ⟨held, rest, hcons⟩ := List.exists_cons_of_ne_nil hheld
    refine Or.inr ⟨c, index, witness, r, held, rfl, hr, by rw [hcons]; rfl, ?_⟩
    unfold Governor.terminalizeWaitCycle
    rw [hfind]
    simp only [GovernedState.removePending_of_getElem hr, hcons]

theorem terminalizeWaitCycle_moves (g : Governor) (s : GovernedState) (effects : TransitionEffects) :
    Moves g caller .growing s (g.terminalizeWaitCycle s effects).state := by
  rcases terminalizeWaitCycle_cases g s effects with ⟨_, heq⟩ | ⟨c, index, witness, r, held, hfind, hr,
    hheld, heq⟩
  · rw [heq]
  · rw [heq]
    exact Moves.single (Move.cycled hfind hr hheld)

theorem promoteLoop_moves (g : Governor) (nowMs slots : Nat) (s : GovernedState)
    (effects : TransitionEffects) (granted : Bool) :
    Moves g caller .growing s (g.promoteLoop nowMs slots s effects granted).state := by
  induction slots generalizing s effects granted with
  | zero => exact .refl
  | succ slots ih =>
    unfold Governor.promoteLoop
    cases h : g.promoteStep nowMs s with
    | mk s' grant =>
      cases grant with
      | none =>
        obtain ⟨_, rfl⟩ := promoteStep_none h
        exact .refl
      | some grant =>
        exact (Moves.single (Move.promoted nowMs h)).trans (ih s' _ true)

theorem grantPass_moves (g : Governor) (s : GovernedState) (nowMs : Nat) :
    Moves g caller .growing s (g.grantPass s nowMs).state :=
  (terminalizeWaitCycle_moves g s {}).trans (promoteLoop_moves g nowMs _ _ _ _)

theorem lastScan_moves (g : Governor) (pass : Governor.GrantPass) :
    Moves g caller .growing pass.state (g.lastScan pass).state := by
  unfold Governor.lastScan
  split
  · exact terminalizeWaitCycle_moves g _ _
  · exact .refl

theorem promote_moves (g : Governor) (s : GovernedState) (nowMs : Nat) :
    Moves g caller .growing s (g.promote s nowMs).1 :=
  ((grantPass_moves g s nowMs).trans (lastScan_moves g _)).tail (Move.flagged _ _)

/-- The state and effects of a section with its promotion pass. -/
theorem commit_path {α : Type} {s : GovernedState} (sec : Governor.Section α) (nowMs : Nat)
    (h : Path g caller s sec.state) : Path g caller s (g.commit sec nowMs).1 := by
  unfold Governor.commit
  split
  · exact h.then_growing (promote_moves g sec.state nowMs)
  · exact h

/-! ## Admission -/

/-- A limit that blocks a request other than the ledger's own fault. -/
theorem BlockerSet.sound_of_primary {blockers : BlockerSet}
    (h : blockers.primary ≠ .accountingFault) : blockers.accountingFault = false := by
  by_contra hc
  simp only [Bool.not_eq_false] at hc
  exact h (by simp [BlockerSet.primary, hc])

/-- What an admission under the lock does: it refuses, it grants, or it queues. -/
inductive AdmissionMove (g : Governor) (s : GovernedState) (request : AdmissionRequest) (ids : Ids)
    (waker : Option Waker) (nowMs : Nat) : Admission → Prop
  | refused (effects : TransitionEffects) {verdict : AdmissionVerdict}
      (cycle : ∀ held, verdict = .nestedWaitCycle held → ∃ c policy witness,
        PassedChecks g s request c policy ∧
          assessIntake s g.policy policy c request = .irreversibleWaitCycle witness ∧
          witness.held.head? = some held) :
      AdmissionMove g s request ids waker nowMs ⟨s, effects, .rejected verdict⟩
  | faulted {policy : ClassPolicy} {c : TaskClass} {blockers : BlockerSet} (effects : TransitionEffects)
      (what : String) (checks : PassedChecks g s request c policy)
      (blocked : assessIntake s g.policy policy c request = .reversiblyBlocked blockers)
      (unsound : blockers.accountingFault = true) :
      AdmissionMove g s request ids waker nowMs
        ⟨s.recordAccountingFault what, effects, .rejected .runtimeUnavailable⟩
  | granted {policy : ClassPolicy} {c : TaskClass} (effects : TransitionEffects)
      (checks : PassedChecks g s request c policy)
      (runnable : assessIntake s g.policy policy c request = .runnable) :
      AdmissionMove g s request ids waker nowMs
        ⟨s.grant (directGrant s policy c request ids nowMs), effects, .admitted ids.permitId⟩
  | queued {policy : ClassPolicy} {c : TaskClass} {blockers : BlockerSet} (effects : TransitionEffects)
      (checks : PassedChecks g s request c policy)
      (blocked : assessIntake s g.policy policy c request = .reversiblyBlocked blockers)
      (sound : blockers.accountingFault = false) (room : s.queued c < policy.maxQueueDepth.toNat) :
      AdmissionMove g s request ids waker nowMs
        ⟨(enqueueTags s c policy (resolveCost policy).cpuUnits nowMs).1.commitPending
            (pendingRequest s policy c request waker ids nowMs blockers.primary
              (enqueueTags s c policy (resolveCost policy).cpuUnits nowMs).2),
          effects, .queued ids.ticket⟩

section Admission

variable {s : GovernedState} {request : AdmissionRequest} {ids : Ids} {waker : Option Waker} {nowMs : Nat}

theorem refuse_move (effects : TransitionEffects) {verdict : AdmissionVerdict}
    (h : ∀ held, verdict ≠ .nestedWaitCycle held) :
    AdmissionMove g s request ids waker nowMs (refuse s effects waker verdict) :=
  AdmissionMove.refused _ fun held heq => absurd heq (h held)

theorem enqueueOrFull_move {policy : ClassPolicy} {c : TaskClass} {blockers : BlockerSet}
    {effects : TransitionEffects} (checks : PassedChecks g s request c policy)
    (blocked : assessIntake s g.policy policy c request = .reversiblyBlocked blockers)
    (sound : blockers.accountingFault = false) :
    AdmissionMove g s request ids waker nowMs
      (enqueueOrFull s policy c request waker ids nowMs blockers.primary effects) := by
  unfold enqueueOrFull
  split
  · refine refuse_move _ fun held => ?_
    unfold verdictForFullQueue
    split <;> simp
  · rename_i hroom
    exact AdmissionMove.queued _ checks blocked sound (by omega)

theorem assessScope_blockers {policies : PolicySet} {q : ScopeAssessment} {blockers : BlockerSet}
    (h : assessScope s policies q = .reversiblyBlocked blockers) :
    blockers = { blockersFor s policies q.taskClass q.maxInflight q.cost q.capabilities with
      queuedBehind := q.queuedBehind } ∧ blockers.isEmpty = false := by
  unfold assessScope at h
  simp only at h
  split at h
  · simp at h
  · rename_i hne
    split at h
    · simp at h
    · simp only [CapacityAssessment.reversiblyBlocked.injEq] at h
      subst h
      exact ⟨rfl, by simpa using hne⟩

/-- Blockers without a fault are those of a state without one. -/
theorem assessScope_sound {policies : PolicySet} {q : ScopeAssessment} {blockers : BlockerSet}
    (h : assessScope s policies q = .reversiblyBlocked blockers)
    (sound : blockers.accountingFault = false) : s.accountingFault = none := by
  rw [(assessScope_blockers h).1] at sound
  simp only [blockersFor, Bool.or_eq_false_iff] at sound
  simpa using sound.1

/-- A non-empty set of blockers has a blocking limit. -/
theorem BlockerSet.primary_ne_ok {blockers : BlockerSet} (h : blockers.isEmpty = false) :
    blockers.primary ≠ .ok := by
  unfold BlockerSet.isEmpty at h
  unfold BlockerSet.primary
  rcases blockers with ⟨inflight, capabilities, cpu, memory, behind, fault⟩
  cases fault <;> cases inflight <;> cases cpu <;> cases memory <;> cases behind <;>
    cases capabilities <;> simp_all

/-- The fallback admission of a class, when its policy degrades and a degrade is still allowed. -/
def FallbackMoves (g : Governor) (s : GovernedState) (request : AdmissionRequest) (ids : Ids)
    (waker : Option Waker) (nowMs : Nat) (policy : ClassPolicy)
    (degrade : Option (TaskClass → Admission)) : Prop :=
  ∀ admitFallback fallback, degrade = some admitFallback →
    policy.memoryOvercommitPolicy = .degradeToLight fallback →
    AdmissionMove g s request ids waker nowMs (admitFallback fallback)

theorem admitBlock_move {policy : ClassPolicy} {c : TaskClass} {blockers : BlockerSet}
    {effects : TransitionEffects} {degrade : Option (TaskClass → Admission)}
    (checks : PassedChecks g s request c policy)
    (hdegrade : FallbackMoves g s request ids waker nowMs policy degrade)
    (blocked : assessIntake s g.policy policy c request = .reversiblyBlocked blockers) :
    AdmissionMove g s request ids waker nowMs
      (admitBlock s policy c request waker ids nowMs degrade effects blockers.primary) := by
  have hne := BlockerSet.primary_ne_ok (assessScope_blockers blocked).2
  have henqueue : ∀ block, block = blockers.primary → block ≠ .accountingFault →
      AdmissionMove g s request ids waker nowMs
        (enqueueOrFull s policy c request waker ids nowMs block effects) := by
    rintro block rfl hfault
    exact enqueueOrFull_move checks blocked (BlockerSet.sound_of_primary hfault)
  have hoverflow : ∀ block, block = blockers.primary → block ≠ .accountingFault →
      AdmissionMove g s request ids waker nowMs
        (if policy.overflowPolicy.isQueueable then
          enqueueOrFull s policy c request waker ids nowMs block effects
        else refuse s effects waker (verdictForBlock block (retry policy s c))) := by
    intro block hblock hfault
    split
    · exact henqueue block hblock hfault
    · refine refuse_move _ fun held => ?_
      cases block <;> simp [verdictForBlock]
  unfold admitBlock
  cases hprimary : blockers.primary with
  | ok => exact absurd hprimary hne
  | accountingFault =>
    refine AdmissionMove.faulted _ _ checks blocked ?_
    by_contra hc
    simp only [Bool.not_eq_true] at hc
    unfold BlockerSet.primary at hprimary
    rw [hc] at hprimary
    simp only [Bool.false_eq_true, if_false] at hprimary
    repeat' split at hprimary
    all_goals simp at hprimary
  | queuedBehind => exact henqueue .queuedBehind hprimary.symm (by simp)
  | inflight => exact hoverflow .inflight hprimary.symm (by simp)
  | cpu => exact hoverflow .cpu hprimary.symm (by simp)
  | capability => exact hoverflow .capability hprimary.symm (by simp)
  | memory =>
    cases hmem : policy.memoryOvercommitPolicy with
    | degradeToLight fallback =>
      cases hdeg : degrade with
      | some admitFallback => exact hdegrade admitFallback fallback hdeg hmem
      | none => exact refuse_move _ (by simp)
    | queue => exact henqueue .memory hprimary.symm (by simp)
    | reject => exact refuse_move _ (by simp)

theorem admitClassWith_move {degrade : Option (TaskClass → Admission)} {c : TaskClass}
    {effects : TransitionEffects} (heffective : EffectiveClass g request c)
    (hdegrade : ∀ policy, g.policy.classPolicy c = some policy →
      FallbackMoves g s request ids waker nowMs policy degrade) :
    AdmissionMove g s request ids waker nowMs
      (admitClassWith degrade s g.policy nowMs request c waker ids effects) := by
  unfold admitClassWith
  split
  · exact refuse_move _ (by simp)
  · rename_i policy hpolicy
    split
    · exact refuse_move _ (by simp)
    · rename_i henabled
      split
      · exact refuse_move _ (by simp)
      · rename_i hidentity
        split
        · exact refuse_move _ (by simp)
        · rename_i hrecursion
          have checks : PassedChecks g s request c policy :=
            ⟨hpolicy, by simpa using henabled, by simpa using hidentity, by simpa using hrecursion,
              heffective⟩
          split
          · rename_i hrun
            exact AdmissionMove.granted _ checks hrun
          · rename_i blockers hblocked
            exact admitBlock_move checks (hdegrade policy hpolicy) hblocked
          · rename_i witness hcycle
            split
            · rename_i fallback hfallback
              unfold cycleFallback at hfallback
              split at hfallback
              · split at hfallback
                · rename_i target hmem
                  obtain ⟨admitFallback, hdeg, rfl⟩ := Option.map_eq_some_iff.mp hfallback
                  exact hdegrade policy hpolicy admitFallback target hdeg hmem
                · simp at hfallback
              · simp at hfallback
            · split
              · rename_i held rest hheld
                refine AdmissionMove.refused _ fun held' heq => ?_
                obtain rfl : held = held' := by simpa using heq
                exact ⟨c, policy, witness, checks, hcycle, by rw [hheld]; rfl⟩
              · exact refuse_move _ (by simp)

/-- Admission under the lock, as a move. -/
theorem admit_move (g : Governor) (s : GovernedState) (request : AdmissionRequest) (ids : Ids)
    (waker : Option Waker) (nowMs : Nat) (effects : TransitionEffects) :
    AdmissionMove g s request ids waker nowMs (admitRequest s g.policy nowMs request waker ids effects) ∧
      ((admitRequest s g.policy nowMs request waker ids effects).state = s ∨ s.admissionClosed = false) := by
  unfold admitRequest
  split
  · exact ⟨refuse_move _ (by simp), Or.inl rfl⟩
  · rename_i hopen
    refine ⟨admitClassWith_move (Or.inl rfl) ?_, Or.inr (by simpa using hopen)⟩
    intro policy hpolicy admitFallback fallback hdeg hmem
    simp only [if_true, Option.some.injEq] at hdeg
    subst hdeg
    refine admitClassWith_move (Or.inr ⟨policy, hpolicy, hmem⟩) ?_
    intro _ _ _ _ hnone
    simp at hnone

end Admission

end Taskmesh
