import Taskmesh.Engine.Budget
import Taskmesh.Engine.Proofs.ContinuationProofs
import Taskmesh.Engine.Proofs.RotationProofs
import Taskmesh.Engine.Proofs.ScheduleProofs

/-!
# The promotion budget is not observable

Where a pass is cut is decided before the next selection, and the question whether anything is left moves
nothing. So the passes of a call make the same grants in the same order, and end in the same state, as one
pass without a budget. A pass with nothing to terminalize is its grant loop.
-/

namespace Taskmesh

open Std MachineInt ExtTreeMap GovernedState Governor

variable {g : Governor} {s s' t : GovernedState} {nowMs : Nat} {grants : List GrantRequest}

/-! ## What the grant loop does not read -/

/-- The record of terminal tickets and the flag of an owed continuation replaced. -/
def GovernedState.stamped (s : GovernedState) (book : TicketBook) (pending : Bool) : GovernedState :=
  { s.withBook book with promotionPending := pending }

/-- Only the flag replaced. -/
def GovernedState.flagged (s : GovernedState) (pending : Bool) : GovernedState :=
  { s with promotionPending := pending }

/-- The book once a queued ticket is granted. -/
def TicketBook.granted (b : TicketBook) (grant : GrantRequest) : TicketBook :=
  match grant.pendingTicket with
  | some ticket => { b with tickets := (b.tickets.erase ticket).insert ticket (.granted grant.permitId) }
  | none => b

variable {book : TicketBook} {pending : Bool}

theorem sameHoldings_stamped (s : GovernedState) (book : TicketBook) (pending : Bool) :
    SameHoldings s (s.stamped book pending) :=
  ⟨fun _ => rfl, rfl, fun _ => rfl, rfl, rfl, rfl, rfl⟩

/-- Whether a request can run does not depend on tickets or the flag. -/
theorem assessPending_stamped (s : GovernedState) (policies : PolicySet) (r : PendingRequest)
    (maxInflight : Nat) (behind : Bool) :
    assessPending (s.stamped book pending) policies r maxInflight behind =
      assessPending s policies r maxInflight behind :=
  assessScope_congr (sameHoldings_stamped s book pending) rfl _

/-- The cycle search reads neither tickets nor the flag. -/
theorem findCycle_stamped (s : GovernedState) : g.findCycle (s.stamped book pending) = g.findCycle s := by
  have hclasses : (s.stamped book pending).classes = s.classes := rfl
  unfold Governor.findCycle Governor.cycleIn
  simp only [assessPending_stamped, hclasses]

/-- Nor do the candidates. -/
theorem runnableCandidates_stamped (s : GovernedState) (policies : PolicySet) :
    runnableCandidates (s.stamped book pending) policies = runnableCandidates s policies := by
  unfold runnableCandidates classCandidate isRunnableCandidate
  simp only [assessPending_stamped]
  rfl

theorem creditVisits_stamped (book : TicketBook) (pending : Bool) (ringSize winningPos : Nat)
    (plan : List PlannedVisit) (s : GovernedState) :
    plan.foldl (creditVisit ringSize winningPos) (s.stamped book pending) =
      (plan.foldl (creditVisit ringSize winningPos) s).stamped book pending := by
  induction plan generalizing s with
  | nil => rfl
  | cons v plan ih =>
    have hvisit : creditVisit ringSize winningPos (s.stamped book pending) v =
        (creditVisit ringSize winningPos s v).stamped book pending := by
      unfold creditVisit
      split <;> rfl
    rw [List.foldl_cons, hvisit, ih]
    rfl

theorem drrSelect_stamped (s : GovernedState) (pool : List Candidate) :
    drrSelect (s.stamped book pending) pool =
      ((drrSelect s pool).1.stamped book pending, (drrSelect s pool).2) := by
  have hserves : drrCursorServes (s.stamped book pending) pool = drrCursorServes s pool := rfl
  have hplan : planVisits (s.stamped book pending) pool (drrStart (s.stamped book pending) pool) =
      planVisits s pool (drrStart s pool) := rfl
  unfold drrSelect
  rw [hserves, hplan]
  split
  · rfl
  · split
    · rfl
    · rename_i first rest _
      have hcredit := creditVisits_stamped book pending pool.length
        (earliestVisit first rest).visitPos (first :: rest)
        { s with drrRingVisits := saturatingAdd u64Max s.drrRingVisits pool.length }
      simp only
      refine Prod.ext ?_ rfl
      simp only
      unfold GovernedState.stamped at hcredit ⊢
      simp only [GovernedState.withBook] at hcredit ⊢
      rw [hcredit]
      rfl

theorem dispatchChoice_stamped (s : GovernedState) (first : Candidate) (rest : List Candidate) :
    dispatchChoice (s.stamped book pending) first rest =
      ((dispatchChoice s first rest).1.stamped book pending, (dispatchChoice s first rest).2) := by
  unfold dispatchChoice
  cases first.fairness with
  | deficitRoundRobin quantum => exact drrSelect_stamped s (first :: rest)
  | _ => rfl

/-- A selection commutes with other tickets and another flag. -/
theorem select_stamped (s : GovernedState) (policies : PolicySet) :
    select (s.stamped book pending) policies =
      ((select s policies).1.stamped book pending, (select s policies).2) := by
  have hsame : runnableCandidates (s.stamped book pending) policies = runnableCandidates s policies :=
    runnableCandidates_stamped s policies
  by_cases hnil : runnableCandidates s policies = []
  · rw [select_nil hnil, select_nil (hsame.trans hnil)]
  · obtain ⟨first, rest, candidate, hselects⟩ := selects_of_runnable hnil
    obtain ⟨first', rest', candidate', hselects'⟩ := selects_of_runnable (hsame.symm ▸ hnil)
    have htier := hselects'.tier
    rw [hsame, hselects.tier] at htier
    obtain ⟨rfl, rfl⟩ := List.cons.inj htier
    have hclass := hselects'.chose
    rw [dispatchChoice_stamped, hselects.chose] at hclass
    have hmem : candidate' ∈ runnableCandidates s policies := hsame ▸ hselects'.mem
    obtain rfl := candidate_unique hselects.mem hmem (Option.some.inj hclass)
    rw [hselects'.selects, hselects.selects, dispatchChoice_stamped]

/-- So does taking a request out of its queue. -/
theorem removePending_stamped (s : GovernedState) (c : TaskClass) (index : Nat) :
    (s.stamped book pending).removePending c index =
      (s.removePending c index).map fun removed => (removed.1.stamped book pending, removed.2) := by
  have hclasses : (s.stamped book pending).classes = s.classes := rfl
  unfold GovernedState.removePending
  rw [hclasses]
  cases s.classes[c]? with
  | none => rfl
  | some cs =>
    simp only
    cases cs.queue[index]? <;> rfl

/-- And so does crediting a service. -/
theorem served_stamped (s : GovernedState) (selection : Selection) :
    g.served (s.stamped book pending) selection = (g.served s selection).stamped book pending := by
  unfold Governor.served
  cases g.policy.classPolicy selection.taskClass <;> rfl

/-- A round of the grant loop reads neither the tickets nor the flag; it writes the granted ticket. -/
theorem promoteStep_stamped (nowMs : Nat) (s : GovernedState) (book : TicketBook) (pending : Bool) :
    g.promoteStep nowMs (s.stamped book pending) =
      ((g.promoteStep nowMs s).1.stamped (((g.promoteStep nowMs s).2.map book.granted).getD book) pending,
        (g.promoteStep nowMs s).2) := by
  unfold Governor.promoteStep
  rw [select_stamped]
  cases hselect : select s g.policy with
  | mk chosen selection =>
    cases selection with
    | none => rfl
    | some selection =>
      simp only [removePending_stamped]
      cases hremove : chosen.removePending selection.taskClass selection.queueIndex with
      | none => rfl
      | some removed =>
        simp only [Option.map_some, served_stamped]
        rfl

/-- A promotion answers the ticket of its request, and no other. -/
theorem Promotes.granted {grant : GrantRequest} {c : TaskClass} {policy : ClassPolicy} {index : Nat}
    {r head : PendingRequest} {chosen served : GovernedState}
    (h : Promotes g nowMs s s' grant c policy index r head chosen served) : s'.book = s.book.granted grant := by
  have hserved : served.book = s.book := h.serves.tickets.trans h.chose.tickets
  have htickets : served.tickets = s.tickets := congrArg TicketBook.tickets hserved
  rw [h.result, h.grants, ← hserved]
  rfl

/-- A round of the loop writes the ticket it grants. -/
theorem book_promoteStep (nowMs : Nat) (s : GovernedState) :
    (g.promoteStep nowMs s).1.book = ((g.promoteStep nowMs s).2.map s.book.granted).getD s.book := by
  rcases promoteStep_cases g nowMs s with ⟨_, heq⟩ | ⟨s', grant, c, policy, index, r, head, chosen, served,
    heq, hpromotes⟩
  · rw [heq]
    rfl
  · rw [heq]
    exact hpromotes.granted

/-- A round does not read whether a continuation is owed. -/
theorem promoteStep_flagged (nowMs : Nat) (s : GovernedState) (pending : Bool) :
    g.promoteStep nowMs (s.flagged pending) =
      ((g.promoteStep nowMs s).1.flagged pending, (g.promoteStep nowMs s).2) := by
  have hstamped := promoteStep_stamped (g := g) nowMs s s.book pending
  rw [← book_promoteStep] at hstamped
  exact hstamped

theorem Governor.GrantsAll.flagged (h : g.GrantsAll nowMs s grants t) (pending : Bool) :
    g.GrantsAll nowMs (s.flagged pending) grants (t.flagged pending) := by
  induction h with
  | done hdone =>
    refine .done ?_
    rw [promoteStep_flagged, hdone]
  | grant hgrant _ ih =>
    refine .grant ?_ ih
    rw [promoteStep_flagged, hgrant]

/-! ## The loop without a budget -/

/-- The loop ends: every grant takes a queued request. -/
theorem grantsAll_exists (g : Governor) (nowMs : Nat) (s : GovernedState) :
    ∃ grants t, g.GrantsAll nowMs s grants t ∧ grants.length ≤ queuedTotal s := by
  induction hn : queuedTotal s using Nat.strong_induction_on generalizing s with
  | _ n ih =>
    cases hround : g.promoteStep nowMs s with
    | mk s₁ grant =>
      cases grant with
      | none =>
        obtain ⟨_, rfl⟩ := promoteStep_none hround
        exact ⟨[], s₁, .done hround, Nat.zero_le _⟩
      | some grant =>
        have hless := queuedTotal_promoteStep hround
        obtain ⟨rest, t, hrest, hlen⟩ := ih (queuedTotal s₁) (by omega) s₁ rfl
        refine ⟨grant :: rest, t, .grant hround hrest, ?_⟩
        rw [List.length_cons]
        omega

/-- The whole loop runs at one time. -/
theorem Governor.GrantsAll.watermark (h : g.GrantsAll nowMs s grants t) : t.commitWatermarkMs = s.commitWatermarkMs := by
  induction h with
  | done _ => rfl
  | grant hgrant _ ih => exact ih.trans (promoteStep_frame hgrant).1

/-- The loop without a budget has one outcome. -/
theorem Governor.GrantsAll.unique {grants' : List GrantRequest} {t' : GovernedState} (h : g.GrantsAll nowMs s grants t)
    (h' : g.GrantsAll nowMs s grants' t') : grants = grants' ∧ t = t' := by
  induction h generalizing grants' with
  | done hdone =>
    cases h' with
    | done _ => exact ⟨rfl, rfl⟩
    | grant hgrant _ =>
      rw [hdone] at hgrant
      simp at hgrant
  | grant hgrant _ ih =>
    cases h' with
    | done hdone =>
      rw [hdone] at hgrant
      simp at hgrant
    | grant hgrant' more' =>
      rw [hgrant] at hgrant'
      obtain ⟨rfl, hsame⟩ := Prod.mk.inj hgrant'
      obtain rfl := Option.some.inj hsame
      obtain ⟨rfl, rfl⟩ := ih more'
      exact ⟨rfl, rfl⟩

/-- A loop that is not over grants again exactly when something is runnable. -/
theorem Governor.GrantsAll.hasRunnable_iff (h : g.GrantsAll nowMs s grants t) :
    hasRunnable s g.policy = !grants.isEmpty := by
  cases h with
  | done hdone => exact (promoteStep_none hdone).1
  | grant hgrant _ =>
    by_contra hnot
    have hnone : hasRunnable s g.policy = false := by simpa using hnot
    rcases promoteStep_cases g nowMs s with ⟨_, heq⟩ |
      ⟨s', grant', c, policy, index, r, head, chosen, served, _, hpromotes⟩
    · rw [heq] at hgrant
      simp at hgrant
    · rw [hasRunnable_iff.mpr ⟨c, policy, r, hpromotes.known, List.mem_of_getElem? hpromotes.queued,
        hpromotes.runnable⟩] at hnone
      simp at hnone

/-- A budgeted loop makes the first grants of the loop without a budget, and stops where that one would
go on; it is exhausted unless it makes them all with a slot to spare. -/
theorem promoteLoop_cut (h : g.GrantsAll nowMs s grants t) (slots : Nat) (effects : TransitionEffects)
    (changed : Bool) :
    g.loopGrants nowMs slots s = grants.take slots ∧
      g.GrantsAll nowMs (g.promoteLoop nowMs slots s effects changed).state (grants.drop slots) t ∧
      (g.promoteLoop nowMs slots s effects changed).exhausted = decide (slots ≤ grants.length) := by
  induction h generalizing slots effects changed with
  | @done s hdone =>
    cases slots with
    | zero => exact ⟨rfl, .done hdone, by simp [Governor.promoteLoop]⟩
    | succ slots =>
      unfold Governor.loopGrants Governor.promoteLoop
      rw [hdone]
      exact ⟨rfl, .done hdone, rfl⟩
  | @grant s s₁ s' grant rest hgrant more ih =>
    cases slots with
    | zero => exact ⟨rfl, .grant hgrant more, by simp [Governor.promoteLoop]⟩
    | succ slots =>
      obtain ⟨hgrants, hrest, hexhausted⟩ := ih slots (effects.pushWake grant.claimWaker) true
      unfold Governor.loopGrants Governor.promoteLoop
      rw [hgrant]
      simp only [List.take_succ_cons, List.drop_succ_cons, List.length_cons]
      refine ⟨by rw [hgrants], hrest, ?_⟩
      rw [hexhausted]
      simp

/-! ## No wait cycle without an awaited child -/

/-- No queued request is an awaited child. -/
def NoneAwaited (s : GovernedState) : Prop :=
  ∀ c, ∀ r ∈ (s.cls c).queue, r.scope.isAwaitedChild = false

theorem noneAwaited_iff_toList : NoneAwaited s ↔
    ∀ entry ∈ s.classes.toList, ∀ r ∈ entry.2.queue, r.scope.isAwaitedChild = false := by
  constructor
  · rintro h ⟨c, cs⟩ hcs r hr
    have hcls : s.cls c = cs := by simp [GovernedState.cls, mem_toList.mp hcs]
    exact h c r (hcls ▸ hr)
  · intro h c r hr
    cases hcs : s.classes[c]? with
    | none => simp [GovernedState.cls, hcs, default] at hr
    | some cs =>
      have hcls : s.cls c = cs := by simp [GovernedState.cls, hcs]
      exact h (c, cs) (mem_toList.mpr hcs) r (hcls ▸ hr)

instance : Decidable (NoneAwaited s) := decidable_of_iff _ noneAwaited_iff_toList.symm

/-- Only an awaited child can close a wait cycle. -/
theorem NoneAwaited.findCycle (h : NoneAwaited s) : g.findCycle s = none := by
  cases hfind : g.findCycle s with
  | none => rfl
  | some found =>
    obtain ⟨c, index, witness⟩ := found
    obtain ⟨_, r, _, hr, _, _⟩ := findCycle_spec hfind
    have hawaited := findCycle_awaited hfind hr
    rw [h c r (List.mem_of_getElem? hr)] at hawaited
    simp at hawaited

/-- Without awaited children a scan finds nothing. -/
theorem NoneAwaited.scan (h : NoneAwaited s) (effects : TransitionEffects) :
    g.terminalizeWaitCycle s effects = ⟨s, effects, false⟩ := by
  unfold Governor.terminalizeWaitCycle
  rw [h.findCycle]

/-- Whether anyone is awaited can be read off the waiting requests without their tags. -/
theorem noneAwaited_iff : NoneAwaited s ↔ ∀ c, ∀ r ∈ s.waiting c, r.scope.isAwaitedChild = false := by
  refine forall_congr' fun c => ⟨fun h r hr => ?_, fun h r hr => ?_⟩
  · obtain ⟨r', hr', rfl⟩ := List.mem_map.mp hr
    exact h r' hr'
  · exact h r.untagged (List.mem_map_of_mem hr)

/-- A grant queues nothing. -/
theorem NoneAwaited.promoteStep (h : NoneAwaited s) {grant : GrantRequest}
    (hgrant : g.promoteStep nowMs s = (s', some grant)) : NoneAwaited s' := by
  obtain ⟨c, policy, index, r, head, chosen, served, hpromotes⟩ := promoteStep_some hgrant
  have hremoved := hpromotes.removed
  rw [← hpromotes.waiting_eq] at hremoved
  rw [noneAwaited_iff] at h ⊢
  intro c' r' hr'
  exact h c' r' (hremoved.mem_of_mem hr')

/-- The loop queues nobody. -/
theorem Governor.GrantsAll.noneAwaited (hall : g.GrantsAll nowMs s grants t) (h : NoneAwaited s) : NoneAwaited t := by
  induction hall with
  | done _ => exact h
  | grant hgrant _ ih => exact ih (h.promoteStep hgrant)

theorem NoneAwaited.loop (h : NoneAwaited s) (slots : Nat) (effects : TransitionEffects) (changed : Bool) :
    NoneAwaited (g.promoteLoop nowMs slots s effects changed).state := by
  induction slots generalizing s effects changed with
  | zero => exact h
  | succ slots ih =>
    unfold Governor.promoteLoop
    cases hround : g.promoteStep nowMs s with
    | mk s₁ grant =>
      cases grant with
      | none =>
        obtain ⟨_, rfl⟩ := promoteStep_none hround
        exact h
      | some grant => exact ih (h.promoteStep hround) _ _

/-- Without awaited children the scan after a pass finds nothing. -/
theorem lastScan_idle (g : Governor) (pass : GrantPass) (h : NoneAwaited pass.state) :
    g.lastScan pass = ⟨pass.state, pass.effects, false⟩ := by
  unfold Governor.lastScan
  split
  · exact h.scan pass.effects
  · rfl

/-! ## Where the passes are cut -/

/-- A pass makes as many grants as fit, owes a continuation exactly when more follow, and leaves them to
the passes after it. -/
theorem NoneAwaited.promoteWithin (h : NoneAwaited s) (hall : g.GrantsAll nowMs s grants t) (budget : Nat) :
    ∃ cut, g.passGrants budget s nowMs = grants.take budget ∧ NoneAwaited cut ∧
      g.GrantsAll nowMs cut (grants.drop budget) t ∧
      (g.promoteWithin budget s nowMs).1 = cut.flagged (decide (budget < grants.length)) ∧
      (g.promoteWithin budget s nowMs).2.moreRunnable = decide (budget < grants.length) := by
  obtain ⟨hgrants, hrest, hexhausted⟩ := promoteLoop_cut hall budget {} false
  have hcut : NoneAwaited (g.promoteLoop nowMs budget s {} false).state := h.loop budget {} false
  have hmore : ((g.promoteLoop nowMs budget s {} false).exhausted &&
      hasRunnable (g.promoteLoop nowMs budget s {} false).state g.policy) = decide (budget < grants.length) := by
    rw [hexhausted, hrest.hasRunnable_iff]
    by_cases hlt : budget < grants.length
    · have hle : budget ≤ grants.length := by omega
      simp [hlt, hle]
    · have hover : grants.drop budget = [] := List.drop_of_length_le (by omega)
      simp [hlt, hover]
  refine ⟨(g.promoteLoop nowMs budget s {} false).state, ?_, hcut, hrest, ?_, ?_⟩
  · unfold Governor.passGrants
    rw [h.scan]
    exact hgrants
  · unfold Governor.promoteWithin
    simp only [h.scan, lastScan_idle g _ hcut, Bool.false_or, hmore]
    rfl
  · unfold Governor.promoteWithin
    simp only [h.scan, lastScan_idle g _ hcut, Bool.false_or, hmore]

theorem NoneAwaited.flagged (h : NoneAwaited s) (pending : Bool) : NoneAwaited (s.flagged pending) := h

/-- A sample that is not later than the committed time moves nothing. -/
theorem commitTime_idle {sampledMs : Nat} (h : sampledMs ≤ s.commitWatermarkMs) : s.commitTime sampledMs = s := by
  unfold GovernedState.commitTime
  rw [Nat.max_eq_right h]

/-- The passes of a call make the grants of the loop without a budget. -/
theorem NoneAwaited.runPasses {sampledMs budget fuel : Nat} (h : NoneAwaited s) (hbudget : 1 ≤ budget)
    (hall : g.GrantsAll (s.commitTime sampledMs).commitWatermarkMs (s.commitTime sampledMs) grants t)
    (hfuel : grants.length < fuel) :
    g.runPasses budget sampledMs fuel s = some (t.flagged false, grants) := by
  -- Induction on the passes: each one that owes another makes `budget` grants, which is at least one.
  induction fuel generalizing s grants t with
  | zero => omega
  | succ fuel ih =>
    have hcommitted : NoneAwaited (s.commitTime sampledMs) := h
    obtain ⟨cut, hgrants, hcut, hrest, hstate, hmore⟩ := hcommitted.promoteWithin hall budget
    unfold Governor.runPasses
    simp only [hgrants, hstate, hmore]
    by_cases hlt : budget < grants.length
    · have hwatermark : cut.commitWatermarkMs = (s.commitTime sampledMs).commitWatermarkMs :=
        hrest.watermark.symm.trans hall.watermark
      have hidle : (cut.flagged true).commitTime sampledMs = cut.flagged true := by
        refine commitTime_idle ?_
        show sampledMs ≤ cut.commitWatermarkMs
        rw [hwatermark]
        exact Nat.le_max_left _ _
      have hall' : g.GrantsAll ((cut.flagged true).commitTime sampledMs).commitWatermarkMs
          ((cut.flagged true).commitTime sampledMs) (grants.drop budget) (t.flagged true) := by
        rw [hidle]
        show g.GrantsAll cut.commitWatermarkMs _ _ _
        rw [hwatermark]
        exact hrest.flagged true
      have hlen : (grants.drop budget).length < fuel := by
        rw [List.length_drop]
        omega
      simp only [hlt, decide_true, if_true]
      rw [ih (hcut.flagged true) hall' hlen]
      simp only [Option.map_some, List.take_append_drop]
      rfl
    · have hover : grants.drop budget = [] := List.drop_of_length_le (by omega)
      have hwhole : grants.take budget = grants := List.take_of_length_le (by omega)
      rw [hover] at hrest
      cases hrest
      simp only [hlt, decide_false, Bool.false_eq_true, if_false, hwhole]

/-! ## The passes of the system -/

/-- The turns of a draining call that nothing interleaves with run its passes. -/
theorem drain_runPasses {σ : g.System} {i sampledMs fuel : Nat} {effects : TransitionEffects}
    {final : GovernedState} (hthread : σ.threads[i]? = some (.draining effects sampledMs))
    (hmore : effects.moreRunnable = true)
    (hpasses : g.runPasses promotionBudget sampledMs fuel σ.state = some (final, grants)) :
    ∃ passes σ', passes ≤ fuel ∧ Runs.replay g.step σ (List.replicate (passes + 1) (.drain i)) = some σ' ∧
      σ'.state = final ∧ σ'.threads = σ.threads.eraseIdx i := by
  induction fuel generalizing σ effects grants with
  | zero => simp [Governor.runPasses] at hpasses
  | succ fuel ih =>
    obtain ⟨σ₁, effects₁, hstep, hthreads, hstate, hmore₁⟩ := step_drain_owed hthread hmore
    obtain ⟨hlt, _⟩ := List.getElem?_eq_some_iff.mp hthread
    have hthread₁ : σ₁.threads[i]? = some (.draining effects₁ sampledMs) := by
      rw [hthreads, List.getElem?_set_self hlt]
    unfold Governor.runPasses at hpasses
    simp only [promoteWithin_promotionBudget, ← hstate, ← hmore₁] at hpasses
    cases hpass : effects₁.moreRunnable with
    | true =>
      rw [hpass] at hpasses
      simp only [if_true, Option.map_eq_some_iff, Prod.mk.injEq] at hpasses
      obtain ⟨⟨final', rest⟩, hrest, rfl, _⟩ := hpasses
      obtain ⟨passes, σ', hle, hreplay, hend, hover⟩ := ih hthread₁ hpass hrest
      refine ⟨passes + 1, σ', by omega, ?_, hend, ?_⟩
      · rw [List.replicate_succ]
        simp only [Runs.replay, hstep]
        exact hreplay
      · rw [hover, hthreads, List.eraseIdx_set_eq]
    | false =>
      rw [hpass] at hpasses
      simp only [Bool.false_eq_true, if_false, Option.some.injEq, Prod.mk.injEq] at hpasses
      refine ⟨1, { σ₁ with threads := σ₁.threads.eraseIdx i }, by omega, ?_, hpasses.1, ?_⟩
      · simp only [List.replicate, Runs.replay, hstep, step_drain_done hthread₁ hpass]
      · show σ₁.threads.eraseIdx i = _
        rw [hthreads, List.eraseIdx_set_eq]

/-! ## Any two budgets -/

/-- With no awaited child queued, the passes of a call that nothing interleaves with make the same grants in
the same order and end in the same state whatever the budget of a pass, which is what one pass without a
budget does. The turns of a draining call end in that state. -/
theorem budget_unobservable (g : Governor) (s : GovernedState) (h : NoneAwaited s) (sampledMs : Nat) :
    ∃ grants final, (∀ grants' final', g.RunsUnlimited sampledMs s grants' final' ↔
        grants' = grants ∧ final' = final) ∧
      (∀ budget, 1 ≤ budget → ∀ fuel, queuedTotal s < fuel →
        g.runPasses budget sampledMs fuel s = some (final, grants)) ∧
      ∀ (σ : g.System) i effects, σ.state = s → σ.threads[i]? = some (.draining effects sampledMs) →
        effects.moreRunnable = true →
        ∃ passes σ', passes ≤ queuedTotal s + 1 ∧
          Runs.replay g.step σ (List.replicate (passes + 1) (.drain i)) = some σ' ∧
          σ'.state = final ∧ σ'.threads = σ.threads.eraseIdx i := by
  obtain ⟨grants, t, hall, hlen⟩ :=
    grantsAll_exists g (s.commitTime sampledMs).commitWatermarkMs (s.commitTime sampledMs)
  have hqueued : queuedTotal (s.commitTime sampledMs) = queuedTotal s := rfl
  have hcommitted : NoneAwaited (s.commitTime sampledMs) := h
  have hpasses : ∀ budget, 1 ≤ budget → ∀ fuel, queuedTotal s < fuel →
      g.runPasses budget sampledMs fuel s = some (t.flagged false, grants) :=
    fun budget hbudget fuel hfuel => h.runPasses hbudget hall (by omega)
  refine ⟨grants, t.flagged false, fun grants' final' => ?_, hpasses, ?_⟩
  · constructor
    · intro hunlimited
      cases hunlimited with
      | @pass granted effects last loop scan settled =>
        rw [hcommitted.scan] at loop
        obtain ⟨rfl, rfl⟩ := loop.unique hall
        have hgranted : NoneAwaited granted := hall.noneAwaited hcommitted
        rw [lastScan_idle g _ hgranted] at scan
        rw [scan]
        exact ⟨rfl, rfl⟩
    · rintro ⟨rfl, rfl⟩
      have hgranted : NoneAwaited t := hall.noneAwaited hcommitted
      have hscan := lastScan_idle g ⟨t, {},
        (g.terminalizeWaitCycle (s.commitTime sampledMs) {}).removed || !grants'.isEmpty, false⟩ hgranted
      exact .pass (by rw [hcommitted.scan]; exact hall) hscan.symm rfl
  · rintro σ i effects rfl hthread hmore
    exact drain_runPasses hthread hmore
      (hpasses promotionBudget (by decide) (queuedTotal σ.state + 1) (by omega))

/-- In the sample four requests wait for the permits just given back. A pass of one grant leaves the others
to the passes after it, and these make the grants that one pass of any larger budget makes. -/
theorem sample_budget : RingSample.wideGovernor.runPasses 1 5 1 RingSample.freed = none ∧
    ∃ grants final, grants.length = 4 ∧
      ∀ budget, 1 ≤ budget → RingSample.wideGovernor.runPasses budget 5 5 RingSample.freed = some (final, grants) := by
  have hnone : NoneAwaited RingSample.freed := by decide +kernel
  have hqueued : queuedTotal RingSample.freed < 5 := by decide +kernel
  obtain ⟨grants, final, _, hpasses, _⟩ := budget_unobservable RingSample.wideGovernor RingSample.freed hnone 5
  have hone := hpasses 1 (by decide) 5 hqueued
  have hlen : ((RingSample.wideGovernor.runPasses 1 5 5 RingSample.freed).map fun p => p.2.length) = some 4 := by
    decide +kernel
  have hcut : (RingSample.wideGovernor.runPasses 1 5 1 RingSample.freed).isNone = true := by decide +kernel
  rw [hone] at hlen
  exact ⟨Option.isNone_iff_eq_none.mp hcut, grants, final, Option.some.inj hlen,
    fun budget hbudget => hpasses budget hbudget 5 hqueued⟩

end Taskmesh
