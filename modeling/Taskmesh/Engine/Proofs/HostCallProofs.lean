import Taskmesh.Engine.Delivery

/-!
# What an application of effects does to its references

Every reference is destroyed once unless the process aborts, and none is woken twice. A panic that is contained
passes nobody over; a payload whose destructor panics, where it is not the first, leaves the application there.
-/

namespace Taskmesh

open Governor

variable {g : Governor}

/-! ## Contained calls -/

/-- The payload of the call at position `k` is not the first one, and its destructor panics. -/
def Lethal (fates : Nat → Fate) (k : Nat) : Prop := fates k = .panics true ∧ ∃ j < k, fates j ≠ .returns

instance (fates : Nat → Fate) (k : Nat) : Decidable (Lethal fates k) :=
  inferInstanceAs (Decidable (fates k = .panics true ∧ ∃ j < k, fates j ≠ .returns))

/-- Such a payload comes up before the last wake. -/
def Skips (fates : Nat → Fate) (effects : TransitionEffects) : Prop :=
  ∃ k < 2 * effects.wake.length - 2, Lethal fates k

instance (fates : Nat → Fate) (effects : TransitionEffects) : Decidable (Skips fates effects) :=
  inferInstanceAs (Decidable (∃ k < 2 * effects.wake.length - 2, Lethal fates k))

/-- Where no payload panics when it is destroyed, nothing is skipped. -/
theorem not_skips_of_calm {fates : Nat → Fate} (hcalm : ∀ k, fates k ≠ .panics true) (effects : TransitionEffects) :
    ¬ Skips fates effects := by
  rintro ⟨k, _, hpanics, _⟩
  exact hcalm k hpanics

/-- What host calls for `wakes` and `drops` make of a run: only an abort leaves a reference undestroyed, and
as long as every panic is contained nobody is passed over. -/
structure Applies (wakes drops : List Waker) (run run' : HostRun) : Prop where
  contained : run'.ending = .contained → run.ending = .contained
  alive : run'.ending ≠ .aborted → run.ending ≠ .aborted
  dropped : run'.ending ≠ .aborted → ∀ w, run'.calls.count (.drop w) = run.calls.count (.drop w) + drops.count w
  ge : ∀ w, run.calls.count (.wake w) ≤ run'.calls.count (.wake w)
  le : ∀ w, run'.calls.count (.wake w) ≤ run.calls.count (.wake w) + wakes.count w
  woken : run'.ending = .contained → ∀ w, run'.calls.count (.wake w) = run.calls.count (.wake w) + wakes.count w

section Applies

variable {fates : Nat → Fate} {wakes wakes' drops drops' : List Waker} {run run' run'' : HostRun}

theorem Applies.refl (run : HostRun) : Applies [] [] run run :=
  ⟨id, id, by simp, by simp, by simp, by simp⟩

/-- What two stretches of host calls apply, they apply one after the other. -/
theorem Applies.trans (h : Applies wakes drops run run') (h' : Applies wakes' drops' run' run'') :
    Applies (wakes ++ wakes') (drops ++ drops') run run'' where
  contained hc := h.contained (h'.contained hc)
  alive ha := h.alive (h'.alive ha)
  dropped ha w := by
    rw [h'.dropped ha w, h.dropped (h'.alive ha) w, List.count_append, Nat.add_assoc]
  ge w := (h.ge w).trans (h'.ge w)
  le w := by
    have hfirst := h.le w
    have hsecond := h'.le w
    rw [List.count_append]
    omega
  woken hc w := by
    rw [h'.woken hc w, h.woken (h'.contained hc) w, List.count_append, Nat.add_assoc]

/-- Nothing is called. -/
theorem Applies.of_calls (hcalls : run'.calls = run.calls) (hcontained : run'.ending = .contained → run.ending = .contained)
    (halive : run'.ending ≠ .aborted → run.ending ≠ .aborted) : Applies [] [] run run' :=
  ⟨hcontained, halive, by simp [hcalls], by simp [hcalls], by simp [hcalls], by simp [hcalls]⟩

/-- Nobody is woken: a run that goes on so has woken whom it had. -/
theorem Applies.wakes_eq (h : Applies [] drops run run') (w : Waker) :
    run'.calls.count (.wake w) = run.calls.count (.wake w) := by
  have hle := h.le w
  have hge := h.ge w
  simp only [List.count_nil, Nat.add_zero] at hle
  omega

@[simp] theorem calls_getOrInsert (run : HostRun) (payloadPanics : Bool) :
    (run.getOrInsert payloadPanics).calls = run.calls := by
  unfold HostRun.getOrInsert
  split
  · rfl
  · split <;> rfl

/-- A payload that panics where it is dropped starts an unwinding, it does not abort. -/
theorem getOrInsert_alive (run : HostRun) (payloadPanics : Bool) (h : run.ending ≠ .aborted) :
    (run.getOrInsert payloadPanics).ending ≠ .aborted := by
  unfold HostRun.getOrInsert
  split
  · exact h
  · split
    · simp
    · exact h

/-- As long as panics are contained, every call is made. -/
theorem contain_contained (fates : Nat → Fate) (h : run.ending = .contained) (call : HostCall) :
    (run.contain fates call).calls = run.calls ++ [call] ∧ (run.contain fates call).ending ≠ .aborted := by
  unfold HostRun.contain
  rw [h]
  simp only
  split
  · exact ⟨rfl, by simp⟩
  · exact ⟨calls_getOrInsert _ _, getOrInsert_alive _ _ (by simp)⟩

/-- A call that is left stays left: it wakes nobody, and destroys what it holds unless that panics. -/
theorem contain_left (fates : Nat → Fate) (h : run.ending ≠ .contained) (call : HostCall) :
    (run.contain fates call).ending ≠ .contained ∧
      ((run.contain fates call).ending ≠ .aborted → run.ending ≠ .aborted) ∧
      ((run.contain fates call).calls = run.calls ∧ ((∃ w, call = .drop w) → run.ending = .aborted) ∨
        ∃ w, call = .drop w ∧ (run.contain fates call).calls = run.calls ++ [call]) := by
  unfold HostRun.contain
  cases hending : run.ending with
  | contained => exact absurd hending h
  | aborted => cases call <;> simp [hending]
  | unwinding =>
    cases call with
    | drop w =>
      simp only
      split <;> simp
    | wake w => simp [hending]
    | settled => simp [hending]

/-- A contained destructor call is made, whatever it does. -/
theorem applies_drop (fates : Nat → Fate) (run : HostRun) (w : Waker) :
    Applies [] [w] run (run.contain fates (.drop w)) := by
  by_cases hc : run.ending = .contained
  · obtain ⟨hcalls, halive⟩ := contain_contained fates hc (.drop w)
    refine ⟨fun _ => hc, fun _ => by simp [hc], fun _ v => ?_, fun v => ?_, fun v => ?_, fun _ v => ?_⟩
    · rw [hcalls, List.count_append]
      simp [List.count_cons]
    all_goals simp [hcalls]
  · obtain ⟨hleft, halive, hcalls⟩ := contain_left fates hc (.drop w)
    rcases hcalls with ⟨_, haborted⟩ | ⟨_, _, hcalls⟩
    · have haborted := haborted ⟨w, rfl⟩
      have hsame : run.contain fates (.drop w) = run := by
        unfold HostRun.contain
        rw [haborted]
      rw [hsame]
      exact ⟨id, id, fun h => absurd haborted h, by simp, by simp, fun h => absurd h hc⟩
    · refine ⟨fun h => absurd h hleft, halive, fun _ v => ?_, fun v => ?_, fun v => ?_, fun h => absurd h hleft⟩
      · rw [hcalls, List.count_append]
        simp [List.count_cons]
      all_goals simp [hcalls]

/-- A contained wake is made, whatever it does. -/
theorem applies_wake (fates : Nat → Fate) (run : HostRun) (w : Waker) :
    Applies [w] [] run (run.contain fates (.wake w)) := by
  by_cases hc : run.ending = .contained
  · obtain ⟨hcalls, halive⟩ := contain_contained fates hc (.wake w)
    refine ⟨fun _ => hc, fun _ => by simp [hc], fun _ v => ?_, fun v => ?_, fun v => ?_, fun _ v => ?_⟩
    · simp [hcalls]
    all_goals
      rw [hcalls, List.count_append]
      simp [List.count_cons]
  · obtain ⟨hleft, halive, ⟨hcalls, _⟩ | ⟨v, hdrop, _⟩⟩ := contain_left fates hc (.wake w)
    · exact ⟨fun h => absurd h hleft, halive, by simp [hcalls], by simp [hcalls], by simp [hcalls],
        fun h => absurd h hleft⟩
    · simp at hdrop

theorem applies_settled (fates : Nat → Fate) (run : HostRun) : Applies [] [] run (run.contain fates .settled) := by
  by_cases hc : run.ending = .contained
  · obtain ⟨hcalls, halive⟩ := contain_contained fates hc .settled
    exact ⟨fun _ => hc, fun _ => by simp [hc], by simp [hcalls], by simp [hcalls], by simp [hcalls], by simp [hcalls]⟩
  · obtain ⟨hleft, halive, ⟨hcalls, _⟩ | ⟨v, hdrop, _⟩⟩ := contain_left fates hc .settled
    · exact Applies.of_calls hcalls (fun h => absurd h hleft) halive
    · simp at hdrop

theorem applies_dropPayload (run : HostRun) : Applies [] [] run run.dropPayload := by
  unfold HostRun.dropPayload
  split
  · rename_i hboth
    simp only [Bool.and_eq_true, decide_eq_true_eq] at hboth
    exact Applies.of_calls rfl (by simp) (by simp)
  · exact Applies.refl run

/-- Every woken reference is woken and then destroyed, unless the call is left in between. -/
theorem applies_wakeEach (fates : Nat → Fate) (wakers : List Waker) (run : HostRun) :
    Applies wakers wakers run (run.wakeEach fates wakers) := by
  induction wakers generalizing run with
  | nil => exact Applies.refl run
  | cons w rest ih => exact ((applies_wake fates run w).trans (applies_drop fates _ w)).trans (ih _)

theorem applies_dropEach (fates : Nat → Fate) (wakers : List Waker) (run : HostRun) :
    Applies [] wakers run (run.dropEach fates wakers) := by
  induction wakers generalizing run with
  | nil => exact Applies.refl run
  | cons w rest ih => exact (applies_drop fates run w).trans (ih _)

theorem Applies.dropPayload (h : Applies wakes drops run run') : Applies wakes drops run run'.dropPayload := by
  have hboth := h.trans (applies_dropPayload run')
  rwa [List.append_nil, List.append_nil] at hboth

/-- What comes after the wakes. -/
theorem applies_retire (fates : Nat → Fate) (wakers : List Waker) (run : HostRun) :
    Applies [] wakers run (run.dropPayload.dropEach fates wakers).dropPayload :=
  ((applies_dropPayload run).trans (applies_dropEach fates wakers _)).dropPayload

/-- The effects of a transition are applied in full, unless the call is left in between. -/
theorem applies_effects (fates : Nat → Fate) (effects : TransitionEffects) :
    Applies effects.wake (effects.wake ++ effects.retire) {} (applyEffects fates effects) := by
  have h := (applies_wakeEach fates effects.wake {}).trans (applies_retire fates effects.retire _)
  rw [List.append_nil] at h
  exact h

/-- Keeping the first panic of a round makes no host call. -/
theorem applies_keep (frame : Frame) (run : HostRun) : Applies [] [] run (frame.keep run) := by
  unfold Frame.keep
  simp only
  split
  · rename_i hending _
    exact (Applies.of_calls (by simp) (fun _ => hending) (fun _ => by simp [hending])).dropPayload
  · refine Applies.dropPayload ?_
    exact Applies.of_calls rfl id id

/-- Compensating makes no host call either. -/
theorem applies_compensate (frame : Frame) (run : HostRun) : Applies [] [] run (frame.compensate run) := by
  unfold Frame.compensate
  split
  · refine Applies.dropPayload ?_
    split
    · rename_i hboth
      simp only [Bool.and_eq_true, decide_eq_true_eq] at hboth
      exact Applies.of_calls rfl (by simp) (fun _ => by simp [hboth.1])
    · exact Applies.of_calls rfl id id
  · exact Applies.refl run

/-- A round of a drain does no more than apply the effects. -/
theorem applies_hostRun (fates : Nat → Fate) (frame : Frame) (σ : g.System) (a : Action) :
    Applies [] [] (applyEffects fates (owedBy σ a)) (hostRun fates frame σ a) := by
  unfold hostRun
  simp only
  split
  · split
    · exact ((applies_keep frame _).trans (applies_settled fates _).dropPayload).trans (applies_compensate frame _)
    · split
      · exact (applies_keep frame _).trans (applies_compensate frame _)
      · exact applies_keep frame _
  · exact Applies.refl _

end Applies

/-! ## Who is passed over -/

/-- The run after `n` calls of an application: it is left exactly if a payload panicked on the way. -/
structure Follows (fates : Nat → Fate) (n : Nat) (run : HostRun) : Prop where
  contained : run.ending = .contained ↔ ∀ k < n, ¬ Lethal fates k
  length : run.ending = .contained → run.calls.length = n
  first : run.ending = .contained → (run.firstPanic.isSome = true ↔ ∃ j < n, fates j ≠ .returns)

theorem follows_init (fates : Nat → Fate) : Follows fates 0 {} :=
  ⟨by simp, by simp, by simp⟩

/-- One more host call follows the fates one position further. -/
theorem Follows.contain {fates : Nat → Fate} {n : Nat} {run : HostRun} (h : Follows fates n run) (call : HostCall) :
    Follows fates (n + 1) (run.contain fates call) := by
  by_cases hc : run.ending = .contained
  · obtain rfl := h.length hc
    have hcalls := (contain_contained fates hc call).1
    have hnext : (∀ k < run.calls.length + 1, ¬ Lethal fates k) ↔ ¬ Lethal fates run.calls.length := by
      rw [← not_iff_not]
      push Not
      rw [Nat.exists_lt_succ_right, or_iff_right_iff_imp]
      rintro ⟨k, hk, hlethal⟩
      exact absurd hlethal (h.contained.mp hc k hk)
    have hmade : (run.contain fates call).ending = .contained ↔ ¬ Lethal fates run.calls.length := by
      have hfirst := h.first hc
      unfold HostRun.contain HostRun.getOrInsert Lethal
      rw [hc]
      simp only
      cases hfate : fates run.calls.length with
      | returns => simp
      | panics payloadPanics =>
        rw [← hfirst]
        cases run.firstPanic <;> cases payloadPanics <;> simp
    refine ⟨hmade.trans hnext.symm, fun _ => by simp [hcalls], fun _ => ?_⟩
    rw [Nat.exists_lt_succ_right, ← h.first hc]
    unfold HostRun.contain HostRun.getOrInsert
    rw [hc]
    simp only
    cases hfate : fates run.calls.length with
    | returns => simp
    | panics payloadPanics => cases run.firstPanic <;> cases payloadPanics <;> simp
  · have hleft := (contain_left fates hc call).1
    refine ⟨⟨fun h' => absurd h' hleft, fun hall => ?_⟩, fun h' => absurd h' hleft, fun h' => absurd h' hleft⟩
    exact absurd (h.contained.mpr fun k hk => hall k (by omega)) hc

/-- A loop of wakes takes two positions for each reference. -/
theorem follows_wakeEach (fates : Nat → Fate) (wakers : List Waker) {n : Nat} {run : HostRun}
    (h : Follows fates n run) : Follows fates (n + 2 * wakers.length) (run.wakeEach fates wakers) := by
  induction wakers generalizing n run with
  | nil => exact h
  | cons w rest ih =>
    have hrest := ih ((h.contain (.wake w)).contain (.drop w))
    have hn : n + 1 + 1 + 2 * rest.length = n + 2 * (w :: rest).length := by
      rw [List.length_cons]
      omega
    rwa [hn] at hrest

theorem wakeEach_concat (fates : Nat → Fate) (before : List Waker) (last : Waker) (run : HostRun) :
    run.wakeEach fates (before ++ [last]) =
      ((run.wakeEach fates before).contain fates (.wake last)).contain fates (.drop last) := by
  simp [HostRun.wakeEach]

/-- Everybody is woken once, unless a payload panics before the last wake. -/
theorem woken_iff (fates : Nat → Fate) (effects : TransitionEffects) :
    (∀ w, (applyEffects fates effects).calls.count (.wake w) = effects.wake.count w) ↔ ¬ Skips fates effects := by
  have hretire : ∀ w, (applyEffects fates effects).calls.count (.wake w) =
      (HostRun.wakeEach fates effects.wake {}).calls.count (.wake w) :=
    fun w => (applies_retire fates effects.retire _).wakes_eq w
  simp only [hretire]
  unfold Skips
  rcases List.eq_nil_or_concat effects.wake with hnil | ⟨before, last, hlast⟩
  · simp [hnil, HostRun.wakeEach]
  · have hfollows := follows_wakeEach fates before (follows_init fates)
    have happlies := applies_wakeEach fates before {}
    rw [hlast, List.concat_eq_append, wakeEach_concat]
    generalize HostRun.wakeEach fates before {} = run at hfollows happlies ⊢
    have hlength : 2 * (before ++ [last]).length - 2 = 0 + 2 * before.length := by
      rw [List.length_append, List.length_singleton]
      omega
    have hdrop : ∀ w, ((run.contain fates (.wake last)).contain fates (.drop last)).calls.count (.wake w) =
        (run.contain fates (.wake last)).calls.count (.wake w) := fun w => (applies_drop fates _ last).wakes_eq w
    rw [hlength]
    push Not
    rw [← hfollows.contained]
    simp only [hdrop]
    constructor
    · intro hall
      by_contra hleft
      -- The last one is not woken by a call that was left before.
      have hle := happlies.le last
      have hsame := hall last
      obtain ⟨_, _, ⟨hcalls, _⟩ | ⟨_, hcall, _⟩⟩ := contain_left fates hleft (.wake last)
      · rw [hcalls, List.count_append, List.count_singleton_self] at hsame
        simp only [List.count_nil, Nat.zero_add] at hle
        omega
      · simp at hcall
    · intro hc w
      rw [(contain_contained fates hc _).1, List.count_append, happlies.woken hc w, List.count_append]
      simp [List.count_cons]

end Taskmesh
