import Taskmesh.Engine.Proofs.SectionProofs

/-!
# Every step of the system is a path of moves

A step runs one section under the lock, followed by a promotion pass where the section ends with
one. The identities a call holds have to be unknown to the state, and a claim in progress has to
name the permit its ticket names; that both always hold is an invariant proved later.
-/

namespace Taskmesh

open Std MachineInt SetIndex

variable {g : Governor}

/-- What an action may do: end a leased permit with the token it spends, use the identities its call
has taken, change the memory of the permit it names, and claim or give up the ticket it names. -/
def callerOf (σ : g.System) (a : Action) : Caller where
  custody p proof :=
    proof = none ∨ ∃ token sampledMs, a = .releaseLeased token sampledMs ∧ token.permitId = p ∧
      proof = some token.nonce
  ids ids := ∃ i intake sampledMs, a = .enter i ∧ σ.threads[i]? = some (.admitting intake sampledMs ids)
  memory p :=
    (∃ measuredBytes epoch sampledMs, a = .reconcileMemory p measuredBytes epoch sampledMs) ∨
      ∃ freedUnits sequence sampledMs, a = .releaseStageMemory p freedUnits sequence sampledMs
  tickets t :=
    (∃ sampledMs, a = .claim t sampledMs) ∨ (∃ sampledMs, a = .abandon t sampledMs) ∨
      ∃ i panicked p effects sampledMs, a = .finishClaim i panicked ∧
        σ.threads[i]? = some (.claiming t p effects sampledMs)

/-- What the calls in progress may rely on. -/
structure Ready (σ : g.System) : Prop where
  fresh : ∀ (intake : Intake g.policy) sampledMs ids,
    Thread.admitting intake sampledMs ids ∈ σ.threads → Fresh σ.state ids
  claims : ∀ ticket p effects sampledMs, Thread.claiming ticket p effects sampledMs ∈ σ.threads →
    ∀ p', σ.state.tickets[ticket]? = some (.claiming p') → p' = p
  keys : ∀ (p : PermitId) record, σ.state.permits[p]? = some record → record.permitId = p

theorem Fresh.commitTime {s : GovernedState} {ids : Ids} (h : Fresh s ids) (sampledMs : Nat) :
    Fresh (s.commitTime sampledMs) ids := ⟨h.permit, h.ticket, h.waiting⟩

theorem path_commitTime {caller : Caller} {s s' : GovernedState}
    {sampledMs : Nat} (h : Path g caller (s.commitTime sampledMs) s') : Path g caller s s' :=
  Path.after_shrinking (Moves.rescheduled (rescheduled_commitTime s sampledMs)) h

/-- The section of a step, up to its promotion pass, is a path. -/
theorem prepare_path {σ : g.System} {a : Action} {p : g.Prepared} (hready : Ready σ)
    (h : Governor.prepare σ a = some p) : Path g (callerOf σ a) σ.state p.sec.state := by
  have hnone : ∀ p, (callerOf σ a).custody p none := fun p => Or.inl rfl
  cases a with
  | call entry sampledMs =>
    simp only [Governor.prepare, Option.some.injEq] at h
    subst h
    unfold Governor.call
    split <;> exact Path.of_shrinking .refl
  | allocate i =>
    simp only [Governor.prepare] at h
    split at h
    · rename_i intake sampledMs taken _
      simp only [Option.some.injEq] at h
      subst h
      have hstate : (Governor.allocate σ i intake sampledMs taken).sec.state = σ.state := by
        unfold Governor.allocate
        cases taken <;> simp only <;> split <;> rfl
      rw [hstate]
      exact Path.of_shrinking .refl
    · simp at h
  | enter i =>
    simp only [Governor.prepare] at h
    split at h
    · rename_i intake sampledMs ids hthread
      simp only [Option.some.injEq] at h
      subst h
      have hfresh := hready.fresh intake sampledMs ids (List.mem_of_getElem? hthread)
      have hids : (callerOf σ (.enter i)).ids ids := ⟨i, intake, sampledMs, rfl, hthread⟩
      exact path_commitTime (admit_path intake hids (hfresh.commitTime sampledMs) _)
    · simp at h
  | settle i panicked =>
    simp only [Governor.prepare] at h
    split at h
    · rename_i decision effects sampledMs _
      split at h
      · simp at h
      · simp only [Option.some.injEq] at h
        subst h
        unfold Governor.settle
        split
        · exact Path.of_shrinking .refl
        · exact path_commitTime (releaseWithProof_path _ _ none (hnone _))
        · exact Path.of_shrinking .refl
    · simp at h
  | claim ticket sampledMs =>
    simp only [Governor.prepare, Option.some.injEq] at h
    subst h
    exact path_commitTime (beginClaim_path _ _ _ (Or.inl ⟨_, rfl⟩))
  | finishClaim i panicked =>
    simp only [Governor.prepare] at h
    split at h
    · rename_i ticket p effects sampledMs hthread
      split at h
      · simp at h
      · simp only [Option.some.injEq] at h
        subst h
        unfold Governor.endClaim
        split
        · refine path_commitTime (compensateClaim_path ?_ (hnone p))
          exact hready.claims ticket p effects sampledMs (List.mem_of_getElem? hthread)
        · exact path_commitTime (finishClaim_path _ _ _
            (Or.inr (Or.inr ⟨i, panicked, p, effects, sampledMs, rfl, hthread⟩)))
    · simp at h
  | abandon ticket sampledMs =>
    simp only [Governor.prepare, Option.some.injEq] at h
    subst h
    exact path_commitTime (abandon_path _ _ hnone (Or.inr (Or.inl ⟨_, rfl⟩)))
  | release permitId sampledMs =>
    simp only [Governor.prepare, Option.some.injEq] at h
    subst h
    exact path_commitTime (releaseWithProof_path _ _ none (hnone _))
  | releaseLeased token sampledMs =>
    simp only [Governor.prepare, Option.some.injEq] at h
    subst h
    exact path_commitTime
      (releaseWithProof_path _ _ _ (Or.inr ⟨token, sampledMs, rfl, rfl, rfl⟩))
  | advancePhase permitId phase =>
    simp only [Governor.prepare, Option.some.injEq] at h
    subst h
    unfold Governor.advance
    rcases GovernedState.advancePhase_cases σ.state permitId phase σ.leaseNonces with
      ⟨refusal, heq⟩ | ⟨record, hrecord, hrank, hstate, _⟩
    · rw [heq]
      exact Path.of_shrinking .refl
    · simp only [hstate]
      exact Path.of_shrinking (Moves.single (Move.advanced σ.leaseNonces hrecord hrank))
  | reconcileMemory permitId measuredBytes epoch sampledMs =>
    simp only [Governor.prepare, Option.some.injEq] at h
    subst h
    exact path_commitTime (reconcileMemory_path _ _ _ _ _ (Or.inl ⟨_, _, _, rfl⟩))
  | releaseStageMemory permitId freedUnits sequence sampledMs =>
    simp only [Governor.prepare, Option.some.injEq] at h
    subst h
    exact path_commitTime (releaseStage_path _ _ _ _ _ (Or.inr ⟨_, _, _, rfl⟩))
  | reapLeaks staleAfterMs sampledMs =>
    simp only [Governor.prepare, Option.some.injEq] at h
    subst h
    exact path_commitTime (reapLeaksWith_path _ _ _ hready.keys)
  | closeAdmission =>
    simp only [Governor.prepare, Option.some.injEq] at h
    subst h
    exact Path.of_shrinking (Moves.single (Move.closed σ.state))
  | drain i =>
    simp only [Governor.prepare] at h
    split at h
    · rename_i effects sampledMs _
      simp only [Option.some.injEq] at h
      subst h
      unfold Governor.drain
      split
      · exact path_commitTime (Path.of_shrinking .refl)
      · exact Path.of_shrinking .refl
    · simp at h
  | mintElsewhere =>
    simp only [Governor.prepare, Option.some.injEq] at h
    subst h
    exact Path.of_shrinking .refl

theorem step_eq_some {σ σ' : g.System} {a : Action} {e : Event} (h : g.step σ a = some (σ', e)) :
    ∃ p, Governor.prepare σ a = some p ∧ σ' = Governor.finish p ∧ e = p.sec.outcome := by
  unfold Governor.step at h
  obtain ⟨p, hp, heq⟩ := Option.map_eq_some_iff.mp h
  simp only [Prod.mk.injEq] at heq
  exact ⟨p, hp, heq.1.symm, heq.2.symm⟩

/-- Every step is a path. -/
theorem step_path {σ σ' : g.System} {a : Action} {e : Event} (hready : Ready σ)
    (h : g.step σ a = some (σ', e)) : Path g (callerOf σ a) σ.state σ'.state := by
  obtain ⟨p, hp, rfl, _⟩ := step_eq_some h
  exact commit_path p.sec p.nowMs (prepare_path hready hp)

end Taskmesh
