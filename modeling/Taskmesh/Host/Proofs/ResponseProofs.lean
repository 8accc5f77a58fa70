import Taskmesh.Host.Proofs.HolderProofs

/-!
# Responses

A submission only moves forward: its job starts once at most, its permit is gone before it answers with a
value, and an answer it gave stays.
-/

namespace Taskmesh.Host

open Governor

variable {g : Governor} {usizeMax : Nat} {T E : Type} {settings : Settings} {σ σ' : HostSys g usizeMax T E}
  {k : Nat} {sub next : Submission usizeMax T E} {around : Around}

/-- Whatever a request comes to, it satisfies `P`. -/
def Request.Ends (P : Submission usizeMax T E → Prop) : Request usizeMax T E → Prop
  | .goOn next => P next
  | .ask _ hears => ∀ e, P (hears e)

namespace Submission

/-- The job was not started, and still may be. -/
def mayStart (sub : Submission usizeMax T E) : Bool :=
  match sub.worker, sub.caller.standing with
  | .submitted, _ => true
  | .idle, .seeking | .idle, .reserving => true
  | _, _ => false

/-- The value a submission answered with. -/
def value (sub : Submission usizeMax T E) : Option T :=
  match sub.caller with
  | .answered (.ok value) => some value
  | _ => none

/-- One turn goes forward. -/
structure Forward (sub next : Submission usizeMax T E) : Prop where
  plan : next.plan = sub.plan
  closes : next.caller.standing = .closing → sub.caller.standing = .closing ∨ sub.caller.standing = .releasing
  starts : next.mayStart = true → sub.mayStart = true
  answered : ∀ response, sub.caller = .answered response → next.caller = .answered response

/-- The caller moves, and has not answered yet. -/
theorem forward_go {next : Submission usizeMax T E} (hplan : next.plan = sub.plan) (hworker : next.worker = sub.worker)
    (hcloses : next.caller.standing = .closing → sub.caller.standing = .closing ∨ sub.caller.standing = .releasing)
    (hstarts : next.caller.standing = .seeking ∨ next.caller.standing = .reserving →
      sub.caller.standing = .seeking ∨ sub.caller.standing = .reserving)
    (hopen : ∀ response, sub.caller ≠ .answered response) : sub.Forward next := by
  refine ⟨hplan, hcloses, fun hmay => ?_, fun response hanswered => absurd hanswered (hopen response)⟩
  unfold mayStart at hmay ⊢
  rw [hworker] at hmay
  cases hsub : sub.worker with
  | submitted => rfl
  | idle =>
    rw [hsub] at hmay
    have hnext : next.caller.standing = .seeking ∨ next.caller.standing = .reserving := by
      generalize next.caller.standing = standing at hmay
      cases standing <;> simp_all
    rcases hstarts hnext with heq | heq <;> rw [heq]
  | _ =>
    rw [hsub] at hmay
    simp at hmay

/-- A caller that still seeks has not answered, and may go anywhere but to its close. -/
theorem forward_seeking {next : Submission usizeMax T E} (hseeks : sub.caller.standing = .seeking)
    (hplan : next.plan = sub.plan) (hworker : next.worker = sub.worker) (hcloses : next.caller.standing ≠ .closing) :
    sub.Forward next := by
  refine forward_go hplan hworker (fun heq => absurd heq hcloses) (fun _ => Or.inl hseeks) ?_
  intro response heq
  rw [heq] at hseeks
  cases response <;> simp [CallerPoint.standing] at hseeks

/-- The worker moves on, past its start. -/
theorem forward_work (hplan : next.plan = sub.plan) (hcaller : next.caller = sub.caller) (hidle : next.worker ≠ .idle)
    (hsubmitted : next.worker ≠ .submitted) : sub.Forward next := by
  refine ⟨hplan, fun hcloses => Or.inl (hcaller ▸ hcloses), fun hmay => ?_, fun response hanswered => hcaller.trans hanswered⟩
  unfold mayStart at hmay
  cases hnext : next.worker with
  | submitted => exact absurd hnext hsubmitted
  | idle => exact absurd hnext hidle
  | _ => simp [hnext] at hmay

theorem ends_dropLease {P : Submission usizeMax T E → Prop} {sampledMs : UInt64}
    {f : Submission usizeMax T E → Submission usizeMax T E} (h : ∀ lease, P (f { sub with lease := lease })) :
    (sub.dropLease sampledMs f).Ends P := by
  unfold dropLease
  split
  · exact h sub.lease
  · split
    · exact h _
    · exact fun _ => h _

theorem ends_advance {P : Submission usizeMax T E → Prop} {phase : ExecutionPhase}
    {f : Submission usizeMax T E → Except GovernorError Unit → Submission usizeMax T E} {r : Request usizeMax T E}
    (hself : P sub) (h : ∀ lease result, P (f { sub with lease := lease } result))
    (hr : sub.advance phase f = some r) : r.Ends P := by
  unfold advance at hr
  obtain ⟨lease, _, rfl⟩ := Option.map_eq_some_iff.mp hr
  split
  · exact h sub.lease _
  · intro e
    cases e with
    | advanced p outcome => exact h _ _
    | _ => exact hself

theorem forward_leave {lease : Option ExecutionLease} {queued : Bool} {error error' : GovernorError}
    (hpoint : sub.caller = .unstarted queued error') :
    sub.Forward (leave { sub with lease := lease } queued error) := by
  unfold leave
  split
  · exact forward_go rfl rfl (by simp [go, CallerPoint.standing]) (by simp [go, CallerPoint.standing]) (by simp [hpoint])
  · exact forward_go rfl rfl (by simp [answer, go, CallerPoint.standing]) (by simp [answer, go, CallerPoint.standing])
      (by simp [hpoint])

/-- Leaving keeps the answer and the start of the submission where they were. -/
theorem forward_left {why : Leaving} (hpoint : sub.caller = .leaving why ∨ sub.caller = .abandoning why) :
    sub.Forward (sub.left why) := by
  have hopen : ∀ response, sub.caller ≠ .answered response := by
    rcases hpoint with hpoint | hpoint <;> simp [hpoint]
  cases why with
  | acquired =>
    refine forward_go rfl rfl (by simp [left, go, CallerPoint.standing]) (fun _ => Or.inr ?_) hopen
    rcases hpoint with hpoint | hpoint <;> rw [hpoint] <;> rfl
  | failed error =>
    exact forward_go rfl rfl (by simp [left, answer, go, CallerPoint.standing])
      (by simp [left, answer, go, CallerPoint.standing]) hopen
  | dropped => exact forward_go rfl rfl (by simp [left, go, CallerPoint.standing]) (by simp [left, go, CallerPoint.standing]) hopen

/-- Each answer of the intake moves a seeking caller forward. -/
theorem forward_admitted (hseeks : sub.caller.standing = .seeking) (answer : AdmitAnswer) :
    sub.Forward (sub.admitted answer) := by
  cases answer with
  | error error => exact forward_seeking hseeks rfl rfl (by simp [admitted, Submission.answer, go, CallerPoint.standing])
  | ok decision =>
    cases decision with
    | admitted p => exact forward_seeking hseeks rfl rfl (by simp [admitted, CallerPoint.standing])
    | queued t => exact forward_seeking hseeks rfl rfl (by simp [admitted, CallerPoint.standing])
    | rejected verdict =>
      exact forward_seeking hseeks rfl rfl (by simp [admitted, Submission.answer, go, CallerPoint.standing])

/-- Each outcome of a claim moves a seeking caller forward. -/
theorem forward_claimed (hseeks : sub.caller.standing = .seeking) (t : Ticket)
    (expired : Option AcquisitionRejection) (blocked : Bool) (outcome : ClaimOutcome) :
    sub.Forward (sub.claimed t expired blocked outcome) := by
  cases outcome with
  | pending =>
    cases expired with
    | some rejection => exact forward_seeking hseeks rfl rfl (by simp [claimed, go, CallerPoint.standing])
    | none => exact forward_seeking hseeks rfl rfl (by simp [claimed, go, CallerPoint.standing])
  | _ => exact forward_seeking hseeks rfl rfl (by simp [claimed, go, CallerPoint.standing])

/-- Handing the job to the substrate moves the caller forward, whether the phase change was accepted or
refused. -/
theorem forward_dispatched (hp : sub.Placed) (hpoint : sub.caller = .accepting) (instantMax now : Nat)
    (lease : Option ExecutionLease) (result : Except GovernorError Unit) :
    sub.Forward (dispatched instantMax now { sub with lease := lease } result) := by
  have hworker : sub.worker = .idle := (hp.at .reserving (by rw [hpoint]; rfl)).of_reserving.1
  have hmay : sub.mayStart = true := by
    unfold mayStart
    rw [hworker, hpoint]
    rfl
  have hopen : ∀ response, sub.caller ≠ .answered response := by simp [hpoint]
  unfold dispatched
  cases result with
  | error error => exact forward_go rfl rfl (by simp [go, CallerPoint.standing]) (by simp [go, CallerPoint.standing]) hopen
  | ok done =>
    simp only
    split
    · split
      · exact forward_go rfl rfl (by simp [go, CallerPoint.standing]) (by simp [go, CallerPoint.standing]) hopen
      · exact forward_go rfl rfl (by simp [go, CallerPoint.standing]) (by simp [go, CallerPoint.standing]) hopen
    · exact ⟨rfl, by simp [CallerPoint.standing], fun _ => hmay, fun response hanswered => absurd hanswered (hopen response)⟩

/-- A turn of the caller never takes the submission back, wherever its request ends. -/
theorem forward_callerTurn (hp : sub.Placed) {now : Nat} {sampledMs : UInt64} {r : Request usizeMax T E}
    (h : sub.callerTurn around now sampledMs = some r) : r.Ends sub.Forward := by
  unfold callerTurn at h
  -- The caller goes on to a point where it has not answered yet, or is refused.
  have hgo : ∀ (lease : Option ExecutionLease) {point : CallerPoint T E}, point.standing ≠ .closing →
      (point.standing = .seeking ∨ point.standing = .reserving →
        sub.caller.standing = .seeking ∨ sub.caller.standing = .reserving) →
      (∀ response, sub.caller ≠ .answered response) →
      sub.Forward (({ sub with lease := lease } : Submission usizeMax T E).go point) := by
    intro lease point hcloses hstarts hopen
    exact forward_go rfl rfl (fun heq => absurd heq hcloses) hstarts hopen
  cases hpoint : sub.caller with
  | checking =>
    rw [hpoint] at h hgo
    simp only at h
    split at h <;> obtain rfl := Option.some.inj h
    · exact hgo sub.lease (by simp [CallerPoint.standing]) (by simp [CallerPoint.standing]) (by simp)
    · exact hgo sub.lease (by simp [CallerPoint.standing]) (by simp [CallerPoint.standing]) (by simp)
  | submitting =>
    rw [hpoint] at h hgo
    simp only at h
    split at h <;> obtain rfl := Option.some.inj h
    · exact hgo sub.lease (by simp [CallerPoint.standing]) (by simp [CallerPoint.standing]) (by simp)
    · intro e
      cases e with
      | answered answer => exact forward_admitted (by rw [hpoint]; rfl) answer
      | _ => exact hgo sub.lease (by simp [CallerPoint.standing]) (by simp [CallerPoint.standing]) (by simp)
  | acquired queued blocked =>
    rw [hpoint] at h hgo
    simp only at h
    split at h <;> obtain rfl := Option.some.inj h
    · exact hgo sub.lease (by simp [CallerPoint.standing]) (by simp [CallerPoint.standing]) (by simp)
    · cases queued with
      | true => exact hgo sub.lease (by simp [CallerPoint.standing]) (by simp [CallerPoint.standing]) (by simp)
      | false => exact hgo sub.lease (by simp [CallerPoint.standing]) (by simp [CallerPoint.standing]) (by simp)
  | unstarted queued error =>
    rw [hpoint] at h
    obtain rfl := Option.some.inj h
    exact ends_dropLease fun lease => forward_leave hpoint
  | looking =>
    rw [hpoint] at h hgo
    obtain ⟨t, _, rfl⟩ := Option.map_eq_some_iff.mp h
    exact hgo sub.lease (by simp [CallerPoint.standing]) (by simp [CallerPoint.standing]) (by simp)
  | deciding blocked =>
    rw [hpoint] at h hgo
    obtain rfl := Option.some.inj h
    exact hgo sub.lease (by simp [CallerPoint.standing]) (by simp [CallerPoint.standing]) (by simp)
  | asking expired blocked =>
    rw [hpoint] at h hgo
    obtain ⟨t, _, rfl⟩ := Option.map_eq_some_iff.mp h
    intro e
    cases e with
    | claimed ticket outcome => exact forward_claimed (by rw [hpoint]; rfl) _ _ _ outcome
    | _ => exact hgo sub.lease (by simp [CallerPoint.standing]) (by simp [CallerPoint.standing]) (by simp)
  | leaving why =>
    rw [hpoint] at h
    obtain ⟨t, _, rfl⟩ := Option.map_eq_some_iff.mp h
    have habandons : sub.Forward (sub.go (.abandoning why)) := by
      refine forward_go rfl rfl ?_ (fun hstanding => ?_) (by simp [hpoint])
      · cases why <;> simp [go, CallerPoint.standing]
      · rw [hpoint]
        cases why <;> simp_all [go, CallerPoint.standing]
    split
    · exact forward_left (Or.inl hpoint)
    · exact forward_left (Or.inl hpoint)
    · exact habandons
    · exact habandons
  | abandoning why =>
    rw [hpoint] at h
    obtain ⟨t, _, rfl⟩ := Option.map_eq_some_iff.mp h
    exact fun _ => forward_left (Or.inr hpoint)
  | dispatching =>
    rw [hpoint] at h hgo
    simp only at h
    split at h <;> obtain rfl := Option.some.inj h
    · exact hgo sub.lease (by simp [CallerPoint.standing]) (by simp [CallerPoint.standing]) (by simp)
    · exact hgo sub.lease (by simp [CallerPoint.standing]) (by simp [CallerPoint.standing]) (by simp)
  | accepting =>
    rw [hpoint] at h
    refine ends_advance ?_ (fun lease result => forward_dispatched hp hpoint _ _ lease result) h
    exact ⟨rfl, Or.inl, id, fun _ => id⟩
  | refused error =>
    rw [hpoint] at h hgo
    obtain rfl := Option.some.inj h
    exact ends_dropLease fun lease => hgo lease (by simp [CallerPoint.standing]) (by simp [CallerPoint.standing]) (by simp)
  | releasing response =>
    rw [hpoint] at h
    obtain rfl := Option.some.inj h
    refine ends_dropLease fun lease => forward_go rfl rfl (fun _ => Or.inr ?_) (by simp [go, CallerPoint.standing]) (by simp [hpoint])
    rw [hpoint]
    rfl
  | settling response =>
    rw [hpoint] at h hgo
    simp only at h
    split at h
    · obtain rfl := Option.some.inj h
      exact hgo sub.lease (by simp [CallerPoint.standing]) (by simp [CallerPoint.standing]) (by simp)
    · split at h <;> obtain rfl := Option.some.inj h
      · exact hgo sub.lease (by simp [CallerPoint.standing]) (by simp [CallerPoint.standing]) (by simp)
      · refine forward_go rfl rfl (fun _ => Or.inl ?_) ?_ (by simp [hpoint])
        · rw [hpoint]
          rfl
        · cases response <;> simp [go, CallerPoint.standing]
  | discarding =>
    rw [hpoint] at h hgo
    obtain rfl := Option.some.inj h
    exact ends_dropLease fun lease => hgo lease (by simp [CallerPoint.standing]) (by simp [CallerPoint.standing]) (by simp)
  | admitting | claiming | parked | spawning | polling | awaiting | answered | dropped => simp [hpoint] at h

/-- The same for the worker, which has the lease. -/
theorem forward_workerTurn {now : Nat} {sampledMs : UInt64} {r : Request usizeMax T E}
    (h : sub.workerTurn around now sampledMs = some r) : r.Ends sub.Forward := by
  unfold workerTurn at h
  have hself : sub.Forward sub := ⟨rfl, Or.inl, id, fun _ => id⟩
  cases hworker : sub.worker with
  | ready =>
    rw [hworker] at h
    refine ends_advance hself (fun lease result => ?_) h
    unfold started
    cases result with
    | error error =>
      simp only
      split <;> exact forward_work rfl rfl (by simp [terminate, work]) (by simp [terminate, work])
    | ok done =>
      simp only
      split
      · split <;> exact forward_work rfl rfl (by simp [work]) (by simp [work])
      · exact forward_work rfl rfl (by simp) (by simp)
  | ended result =>
    rw [hworker] at h
    simp only at h
    split at h
    · obtain rfl := Option.some.inj h
      exact forward_work rfl rfl (by simp [terminate]) (by simp [terminate])
    · refine ends_advance hself (fun lease answer => ?_) h
      unfold finished
      cases answer with
      | error error =>
        simp only
        split <;> exact forward_work rfl rfl (by simp [terminate, work]) (by simp [terminate, work])
      | ok done =>
        simp only
        split <;> exact forward_work rfl rfl (by simp [terminate, work]) (by simp [terminate, work])
  | sending response =>
    rw [hworker] at h
    obtain rfl := Option.some.inj h
    split
    · exact forward_work rfl rfl (by simp [work]) (by simp [work])
    · exact forward_work rfl rfl (by simp [work]) (by simp [work])
  | tearing =>
    rw [hworker] at h
    obtain rfl := Option.some.inj h
    exact ends_dropLease fun lease => forward_work rfl rfl (by simp [work]) (by simp [work])
  | _ => simp [hworker] at h

/-- A caller that waits stops waiting, and drops what it did not receive. -/
theorem forward_closed {point : CallerPoint T E} (hover : point.standing = .over)
    (hopen : ∀ response, sub.caller ≠ .answered response) : sub.Forward (sub.go point).closeChannel := by
  have hcaller : (sub.go point).closeChannel.caller = point := by
    unfold closeChannel
    split <;> rfl
  have hplan : (sub.go point).closeChannel.plan = sub.plan := by
    unfold closeChannel
    split <;> rfl
  refine ⟨hplan, fun hcloses => ?_, fun hmay => ?_, fun response hanswered => absurd hanswered (hopen response)⟩
  · rw [hcaller, hover] at hcloses
    simp at hcloses
  · unfold mayStart at hmay ⊢
    rw [hcaller, hover] at hmay
    unfold closeChannel at hmay
    cases hworker : sub.worker with
    | submitted => rfl
    | _ => simp [hworker, go, work] at hmay

/-- A poll never takes the submission back. -/
theorem forward_poll {now : Nat} (h : sub.poll around now = some next) : sub.Forward next := by
  unfold poll at h
  cases hpoint : sub.caller with
  | awaiting =>
    rw [hpoint] at h
    simp only at h
    have hopen : ∀ response, sub.caller ≠ .answered response := by simp [hpoint]
    have hanswers : ∀ error, sub.Forward (sub.go (.answered (.error error))) := fun error =>
      forward_go rfl rfl (by simp [go, CallerPoint.standing]) (by simp [go, CallerPoint.standing]) hopen
    split at h
    · obtain rfl := Option.some.inj h
      exact forward_closed rfl hopen
    · split at h
      · obtain rfl := Option.some.inj h
        exact forward_closed rfl hopen
      · split at h
        · obtain rfl := Option.some.inj h
          exact forward_closed rfl hopen
        · split at h
          · obtain rfl := Option.some.inj h
            exact ⟨rfl, by simp [CallerPoint.standing], by simp [mayStart], fun response heq => absurd heq (hopen response)⟩
          · obtain rfl := Option.some.inj h
            exact hanswers _
          · obtain rfl := Option.some.inj h
            exact hanswers _
          · obtain rfl := Option.some.inj h
            exact hanswers _
          · obtain rfl := Option.some.inj h
            exact hanswers _
          · simp at h
  | _ => simp [hpoint] at h

/-- A resumed wait never takes the submission back. -/
theorem forward_resume {now : Nat} (h : sub.resume around now = some next) : sub.Forward next := by
  unfold resume at h
  cases hpoint : sub.caller with
  | parked =>
    rw [hpoint] at h
    simp only at h
    have hseeks : sub.caller.standing = .seeking := by rw [hpoint]; rfl
    split at h
    · obtain rfl := Option.some.inj h
      exact forward_seeking hseeks rfl rfl (by simp [go, CallerPoint.standing])
    · split at h
      · obtain rfl := Option.some.inj h
        exact forward_seeking hseeks rfl rfl (by simp [CallerPoint.standing])
      · split at h
        · obtain rfl := Option.some.inj h
          exact forward_seeking hseeks rfl rfl (by simp [go, CallerPoint.standing])
        · simp at h
  | _ => simp [hpoint] at h

/-- A poll of the job never takes the submission back. -/
theorem forward_pollJob {now completedAt : Nat} {job : Option (JobOutcome T E)}
    (h : sub.pollJob around now completedAt job = some next) : sub.Forward next := by
  unfold pollJob at h
  split at h
  · rename_i deadline worker hpoint
    have hopen : ∀ response, sub.caller ≠ .answered response := by simp [hpoint]
    obtain ⟨result, _, rfl⟩ := Option.map_eq_some_iff.mp h
    cases result with
    | some response => exact forward_go rfl rfl (by simp [go, CallerPoint.standing]) (by simp [go, CallerPoint.standing]) hopen
    | none => exact forward_go rfl rfl (by simp [go, CallerPoint.standing]) (by simp [go, CallerPoint.standing]) hopen
  · split at h
    · split at h
      · obtain rfl := Option.some.inj h
        exact forward_work rfl rfl (by simp [work]) (by simp [work])
      · obtain ⟨result, _, rfl⟩ := Option.map_eq_some_iff.mp h
        exact forward_work rfl rfl (by simp [work]) (by simp [work])
    · simp at h
  · simp at h

/-- Dropping the caller never takes the submission back. -/
theorem forward_dropCaller (h : sub.dropCaller = some next) : sub.Forward next := by
  unfold dropCaller at h
  cases hpoint : sub.caller with
  | checking | parked | polling deadline =>
    rw [hpoint] at h
    obtain rfl := Option.some.inj h
    exact forward_go rfl rfl (by simp [go, CallerPoint.standing]) (by simp [go, CallerPoint.standing]) (by simp [hpoint])
  | awaiting =>
    rw [hpoint] at h
    obtain rfl := Option.some.inj h
    exact forward_closed rfl (by simp [hpoint])
  | _ => simp [hpoint] at h

/-- The return of the spawn never takes the submission back. -/
theorem forward_spawnReturned {accepted : Bool} (h : sub.spawnReturned accepted = some next) : sub.Forward next := by
  have hrefused : sub.caller = .spawning → ∀ error,
      sub.Forward { sub with worker := .idle, caller := .refused error } := fun hpoint error =>
    ⟨rfl, by simp [CallerPoint.standing], by simp [mayStart, CallerPoint.standing], by simp [hpoint]⟩
  unfold spawnReturned at h
  split at h
  · rename_i hpoint
    obtain rfl := Option.some.inj h
    exact forward_go rfl rfl (by simp [go, CallerPoint.standing]) (by simp [go, CallerPoint.standing]) (by simp [hpoint])
  · rename_i hpoint _
    obtain rfl := Option.some.inj h
    exact forward_closed rfl (by simp [hpoint])
  · rename_i hpoint _ _
    obtain rfl := Option.some.inj h
    exact hrefused hpoint _
  · rename_i hpoint _ _
    obtain rfl := Option.some.inj h
    exact hrefused hpoint _
  · simp at h

/-- The executor starts a job that was not started before, and may not start it again. -/
theorem forward_start {now : Nat} (h : sub.start now = some next) :
    sub.Forward next ∧ sub.mayStart = true ∧ next.mayStart = false := by
  unfold start at h
  cases hworker : sub.worker with
  | submitted =>
    rw [hworker] at h
    simp only at h
    have hmay : sub.mayStart = true := by simp [mayStart, hworker]
    split at h <;> obtain rfl := Option.some.inj h
    · exact ⟨forward_work rfl rfl (by simp [work]) (by simp [work]), hmay, by simp [mayStart, work]⟩
    · exact ⟨forward_work rfl rfl (by simp [work]) (by simp [work]), hmay, by simp [mayStart, work]⟩
  | _ => simp [hworker] at h

/-- Every turn goes forward. -/
theorem turn_forward (hp : sub.Placed) {t : Turn T E} {r : Request usizeMax T E} (h : sub.turn around t = some r) :
    r.Ends sub.Forward := by
  cases t with
  | caller now sampledMs => exact forward_callerTurn hp h
  | worker now sampledMs => exact forward_workerTurn h
  | resume now =>
    obtain ⟨next, hnext, rfl⟩ := Option.map_eq_some_iff.mp h
    exact forward_resume hnext
  | poll now =>
    obtain ⟨next, hnext, rfl⟩ := Option.map_eq_some_iff.mp h
    exact forward_poll hnext
  | pollJob now completedAt job =>
    obtain ⟨next, hnext, rfl⟩ := Option.map_eq_some_iff.mp h
    exact forward_pollJob hnext
  | dropCaller =>
    obtain ⟨next, hnext, rfl⟩ := Option.map_eq_some_iff.mp h
    exact forward_dropCaller hnext
  | spawnReturned accepted =>
    obtain ⟨next, hnext, rfl⟩ := Option.map_eq_some_iff.mp h
    exact forward_spawnReturned hnext
  | start now =>
    obtain ⟨next, hnext, rfl⟩ := Option.map_eq_some_iff.mp h
    exact (forward_start hnext).1
  | discard =>
    obtain ⟨next, hnext, rfl⟩ := Option.map_eq_some_iff.mp h
    unfold discard at hnext
    split at hnext
    · obtain rfl := Option.some.inj hnext
      exact forward_work rfl rfl (by simp [work]) (by simp [work])
    · simp at hnext
  | runtimeFailed =>
    obtain ⟨next, hnext, rfl⟩ := Option.map_eq_some_iff.mp h
    unfold runtimeFailed at hnext
    split at hnext
    · split at hnext
      · obtain rfl := Option.some.inj hnext
        exact forward_work rfl rfl (by simp [terminate]) (by simp [terminate])
      · simp at hnext
    · simp at hnext
  | jobEnds outcome =>
    obtain ⟨next, hnext, rfl⟩ := Option.map_eq_some_iff.mp h
    unfold jobEnds at hnext
    split at hnext
    · split at hnext
      · simp at hnext
      · obtain rfl := Option.some.inj hnext
        exact forward_work rfl rfl (by simp [work]) (by simp [work])
    · simp at hnext

theorem forward_hears (e : Event) : sub.Forward (sub.hears e) := by
  unfold hears
  split
  · rename_i hpoint
    exact forward_admitted (by rw [hpoint]; rfl) _
  · rename_i hpoint
    exact forward_claimed (by rw [hpoint]; rfl) _ _ _ _
  · exact ⟨rfl, Or.inl, id, fun _ => id⟩

theorem Forward.of_alike {woken : Submission usizeMax T E} (h : sub.Alike woken) (hforward : woken.Forward next) :
    sub.Forward next := by
  obtain ⟨notified, rfl⟩ := h
  exact ⟨hforward.plan, hforward.closes, hforward.starts, hforward.answered⟩

end Submission

/-- One submission under one step of a runtime. -/
inductive Submission.Moved (settings : Settings) (σ σ' : HostSys g usizeMax T E) (act : HostAction T E) (k : Nat)
    (sub : Submission usizeMax T E) : Submission usizeMax T E → Prop
  | alone {next : Submission usizeMax T E} (quiet : ∀ t, act ≠ .turn k t) (alike : sub.Alike next) :
      Moved settings σ σ' act k sub next
  | hears {woken : Submission usizeMax T E} (e : Event) (quiet : ∀ t, act ≠ .turn k t) (alike : sub.Alike woken) :
      Moved settings σ σ' act k sub (woken.hears e)
  | goes {t : Turn T E} {next : Submission usizeMax T E} (turns : act = .turn k t)
      (turn : sub.turn (σ.around settings) t = some (.goOn next)) (engine : σ'.engine = σ.engine) :
      Moved settings σ σ' act k sub next
  | asks {t : Turn T E} {a : Action} {e : Event} {hears : Event → Submission usizeMax T E} (turns : act = .turn k t)
      (turn : sub.turn (σ.around settings) t = some (.ask a hears))
      (step : g.step σ.engine a = some (σ'.engine, e)) : Moved settings σ σ' act k sub (hears e)

/-- A submission that is there stays, and moves. -/
theorem HostMove.at {act : HostAction T E} {ev : HostEvent} (h : HostMove settings σ act σ' ev)
    (hsub : σ.submissions[k]? = some sub) :
    ∃ next, σ'.submissions[k]? = some next ∧ sub.Moved settings σ σ' act k next := by
  have hlt := (List.getElem?_eq_some_iff.mp hsub).1
  cases h with
  | fires token => exact ⟨sub, hsub, .alone (by simp) (Submission.Alike.refl sub)⟩
  | refuses quiet error => exact ⟨sub, hsub, .alone (quiet k) (Submission.Alike.refl sub)⟩
  | joins quiet fresh =>
    refine ⟨sub, ?_, .alone (quiet k) (Submission.Alike.refl sub)⟩
    exact (List.getElem?_append_left hlt).trans hsub
  | @goes k' t sub' next has turn =>
    by_cases hk : k' = k
    · subst hk
      obtain rfl := Option.some.inj (hsub.symm.trans has)
      exact ⟨next, List.getElem?_set_self hlt, .goes rfl turn rfl⟩
    · exact ⟨sub, (List.getElem?_set_ne hk).trans hsub, .alone (by simp [hk]) (Submission.Alike.refl sub)⟩
  | @asks k' t sub' a e engine hears has turn step =>
    by_cases hk : k' = k
    · subst hk
      obtain rfl := Option.some.inj (hsub.symm.trans has)
      exact ⟨hears e, List.getElem?_set_self (by simpa [HostSys.wake] using hlt), .asks rfl turn step⟩
    · obtain ⟨woken, hwoken, halike⟩ := wake_at hsub (Governor.owedBy σ.engine a).wake
      exact ⟨woken, (List.getElem?_set_ne hk).trans hwoken, .alone (by simp [hk]) halike⟩
  | @outside a e engine permits step =>
    obtain ⟨woken, hwoken, halike⟩ := wake_at hsub (Governor.owedBy σ.engine a).wake
    cases howner : σ.ownerOf a with
    | none =>
      obtain ⟨_, _, hsubs⟩ := heard_none ({ σ with
        engine := engine
        owners := σ.nextOwners engine none a
        submissions := σ.wake (Governor.owedBy σ.engine a).wake } : HostSys g usizeMax T E) a e
      rw [hsubs]
      exact ⟨woken, hwoken, .alone (by simp) halike⟩
    | some k' =>
      by_cases hk : k' = k
      · subst hk
        refine ⟨woken.hears e, ?_, .hears e (by simp) halike⟩
        simp [HostSys.heard, hwoken]
      · refine ⟨woken, ?_, .alone (by simp) halike⟩
        simp [HostSys.heard, hwoken, hk]

/-- A host move adds at most one submission, at the end of the list. -/
theorem HostMove.length {act : HostAction T E} {ev : HostEvent} (h : HostMove settings σ act σ' ev) :
    σ'.submissions.length = σ.submissions.length ∨
      ∃ sub : Submission usizeMax T E, sub.Fresh ∧ sub.Planned g settings ∧
        σ'.submissions = σ.submissions ++ [sub] := by
  cases h with
  | fires token => exact Or.inl rfl
  | refuses quiet error => exact Or.inl rfl
  | joins quiet fresh planned => exact Or.inr ⟨_, fresh, planned, rfl⟩
  | goes has turn => exact Or.inl (List.length_set ..)
  | asks has turn step => exact Or.inl (by simp [HostSys.wake])
  | @outside a e engine permits step =>
    refine Or.inl ?_
    cases howner : σ.ownerOf a with
    | none =>
      rw [(heard_none _ a e).2.2]
      simp [HostSys.wake]
    | some k => simp [HostSys.heard, HostSys.wake]

/-- A submission that was not there has its plan, and is about to look at its bounds. -/
theorem HostMove.fresh {act : HostAction T E} {ev : HostEvent} (h : HostMove settings σ act σ' ev)
    (hnone : σ.submissions[k]? = none) (hnext : σ'.submissions[k]? = some next) :
    next.caller = .checking ∧ next.Planned g settings := by
  have hge := List.getElem?_eq_none_iff.mp hnone
  have hlt := (List.getElem?_eq_some_iff.mp hnext).1
  rcases h.length with hlength | ⟨sub, hfresh, hplanned, hsubs⟩
  · omega
  · rw [hsubs] at hlt hnext
    simp only [List.length_append, List.length_singleton] at hlt
    obtain rfl : k = σ.submissions.length := by omega
    simp only [List.getElem?_concat_length, Option.some.injEq] at hnext
    rw [← hnext]
    exact ⟨hfresh.caller, hplanned⟩

/-! ## Along a run -/

/-- The executor starts to run the job of the submission. -/
def starts (k : Nat) (l : HostAction T E × HostEvent) : Bool :=
  match l.1 with
  | .turn k' (.start _) => k' = k
  | _ => false

/-- A label starts a submission exactly when it is the start turn of its job. -/
theorem starts_iff {l : HostAction T E × HostEvent} : starts k l = true ↔ ∃ now, l.1 = .turn k (.start now) := by
  unfold starts
  split
  · rename_i k' now hl
    rw [hl]
    simp [eq_comm]
  · rename_i hother
    refine ⟨fun h => by simp at h, ?_⟩
    rintro ⟨now, hl⟩
    exact absurd hl (hother k now)

/-- A submission goes forward in every step, and a start is what it was open to. -/
theorem Submission.Moved.forward {act : HostAction T E} (ev : HostEvent) (h : sub.Moved settings σ σ' act k next)
    (hp : sub.Placed) :
    sub.Forward next ∧ (starts k (act, ev) = true → sub.mayStart = true ∧ next.mayStart = false) := by
  rw [starts_iff]
  cases h with
  | alone quiet alike =>
    refine ⟨.of_alike alike ⟨rfl, Or.inl, id, fun _ => id⟩, ?_⟩
    rintro ⟨now, hact⟩
    exact absurd hact (quiet _)
  | hears e quiet alike =>
    refine ⟨.of_alike alike (Submission.forward_hears e), ?_⟩
    rintro ⟨now, hact⟩
    exact absurd hact (quiet _)
  | @goes t next turns turn engine =>
    refine ⟨Submission.turn_forward hp turn, ?_⟩
    rintro ⟨now, hact⟩
    obtain ⟨_, rfl⟩ := HostAction.turn.inj (turns.symm.trans hact)
    obtain ⟨next', hnext, heq⟩ := Option.map_eq_some_iff.mp turn
    obtain rfl := Request.goOn.inj heq
    exact (Submission.forward_start hnext).2
  | @asks t a e hears turns turn step =>
    refine ⟨Submission.turn_forward hp turn e, ?_⟩
    rintro ⟨now, hact⟩
    obtain ⟨_, rfl⟩ := HostAction.turn.inj (turns.symm.trans hact)
    obtain ⟨next', hnext, heq⟩ := Option.map_eq_some_iff.mp turn
    simp at heq

/-- Once the job was started it is started no more. -/
theorem HostInv.starts_once (hinv : HostInv σ) {trace : List (HostAction T E × HostEvent)}
    (hrun : Runs.Run (hostStep g settings) σ trace σ') (k : Nat) :
    trace.countP (starts k) ≤ 1 ∧ (0 < trace.countP (starts k) →
      ∃ next, σ'.submissions[k]? = some next ∧ next.mayStart = false) := by
  induction hrun with
  | nil => simp
  | @snoc τ υ trace act ev hrun hstep ih =>
    obtain ⟨hcount, hspent⟩ := ih
    have hinvτ : HostInv τ := hrun.invariant (fun _ _ _ _ hinv hstep => hinv.step hstep) hinv
    have hmove := hostStep_move hstep
    rw [List.countP_append, List.countP_singleton]
    cases hsub : τ.submissions[k]? with
    | none =>
      have hzero : trace.countP (starts k) = 0 := by
        by_contra hne
        obtain ⟨next, hnext, _⟩ := hspent (by omega)
        rw [hsub] at hnext
        simp at hnext
      have hidle : starts k (act, ev) = false := by
        rw [Bool.eq_false_iff, Ne, starts_iff]
        rintro ⟨now, rfl⟩
        simp [hostStep, hsub] at hstep
      simp [hzero, hidle]
    | some sub =>
      obtain ⟨next, hnext, hmoved⟩ := hmove.at hsub
      obtain ⟨hforward, hstart⟩ := hmoved.forward ev (hinvτ.sound k sub hsub).placed
      cases hstarts : starts k (act, ev) with
      | true =>
        obtain ⟨hmay, hdone⟩ := hstart hstarts
        have hzero : trace.countP (starts k) = 0 := by
          by_contra hne
          obtain ⟨sub', hsub', hspent'⟩ := hspent (by omega)
          obtain rfl := Option.some.inj (hsub.symm.trans hsub')
          rw [hspent'] at hmay
          simp at hmay
        exact ⟨by simp [hzero], fun _ => ⟨next, hnext, hdone⟩⟩
      | false =>
        simp only [Bool.false_eq_true, if_false, Nat.add_zero]
        refine ⟨hcount, fun hpos => ⟨next, hnext, ?_⟩⟩
        obtain ⟨sub', hsub', hspent'⟩ := hspent hpos
        obtain rfl := Option.some.inj (hsub.symm.trans hsub')
        by_contra hmay
        rw [Bool.not_eq_false] at hmay
        rw [hforward.starts hmay] at hspent'
        simp at hspent'

/-- The permit of a submission that is about to answer with a value, or did, is gone. -/
def Returned (σ : HostSys g usizeMax T E) : Prop :=
  ∀ (k : Nat) sub, σ.submissions[k]? = some sub → sub.caller.standing = .closing →
    ∃ p, sub.lease = some ⟨p, .gone⟩ ∧ Gone σ.engine.state p

/-- A host move leaves the engine alone or is one action of it. -/
theorem HostMove.engine {act : HostAction T E} {ev : HostEvent} (h : HostMove settings σ act σ' ev) :
    σ'.engine = σ.engine ∨ ∃ a e, g.step σ.engine a = some (σ'.engine, e) := by
  cases h with
  | fires | refuses | joins | goes => exact Or.inl rfl
  | asks has turn step => exact Or.inr ⟨_, _, step⟩
  | @outside a e engine permits step =>
    refine Or.inr ⟨a, e, ?_⟩
    cases howner : σ.ownerOf a with
    | none =>
      rw [(heard_none _ a e).1]
      exact step
    | some k => exact step

/-- A submission without a call in progress hears nothing. -/
theorem Submission.hears_of_quiet (hquiet : sub.caller.calls = false) (e : Event) : sub.hears e = sub := by
  unfold hears
  split
  · rename_i hpoint
    simp [hpoint, CallerPoint.calls] at hquiet
  · rename_i hpoint
    simp [hpoint, CallerPoint.calls] at hquiet
  · rfl

theorem Submission.quiet_of_closing (h : sub.caller.standing = .closing ∨ sub.caller.standing = .releasing) :
    sub.caller.calls = false := by
  by_contra hcalls
  rw [Bool.not_eq_false] at hcalls
  rw [Submission.seeking_of_calls hcalls] at h
  simp at h

/-- A caller that is about to answer with a value has no engine call to make but the return of its permit, and
that is the call it has made. -/
theorem HostInv.asked_closing (hinv : HostInv σ) (hsub : σ.submissions[k]? = some sub) {a : Action} {e : Event}
    {hears : Event → Submission usizeMax T E} {engine : g.System} (hasks : sub.Asks a hears)
    (hstep : g.step σ.engine a = some (engine, e)) (hplaced : (hears e).Placed)
    (hcloses : (hears e).caller.standing = .closing)
    (hbefore : sub.caller.standing = .closing ∨ sub.caller.standing = .releasing) :
    ∃ p, (hears e).lease = some ⟨p, .gone⟩ ∧ Gone engine.state p := by
  have hsound := hinv.sound k sub hsub
  obtain ⟨_, q, hgone⟩ := (hplaced.at _ hcloses).of_closing
  cases hasks with
  | admission sampledMs point => simp [point, CallerPoint.standing] at hbefore
  | claim sampledMs holds point => simp [point, CallerPoint.standing] at hbefore
  | @abandonment t why sampledMs holds point =>
    rw [point] at hbefore
    cases why <;> simp [CallerPoint.standing] at hbefore
  | @phase hears lease phase has keeps advanced =>
    exfalso
    rcases hbefore with hclosing | hreleasing
    · obtain ⟨_, p, hlease⟩ := (hsound.placed.at _ hclosing).of_closing
      obtain rfl := Option.some.inj (has.symm.trans hlease)
      exact keeps rfl
    · obtain ⟨_, p, token, hlease⟩ := (hsound.placed.at _ hreleasing).of_releasing
      obtain rfl := Option.some.inj (has.symm.trans hlease)
      obtain ⟨outcome, rfl, haccepts, _⟩ := (hsound.lease _ has).advanced hinv.engine keeps hstep
      have hlost := (advanced p outcome haccepts).lease
      rw [hgone] at hlost
      rcases haccepts rfl with rfl | ⟨current, rfl⟩ <;> simp [ExecutionLease.advanced, ExecutionLease.token] at hlost
  | @drop hears lease a sampledMs has action dropped =>
    obtain ⟨_, _, hreturned⟩ := (hsound.lease _ has).dropped hinv.engine action hstep
    have htoken : lease.token.isSome = true := by
      rcases hbefore with hclosing | hreleasing
      · obtain ⟨_, p, hlease⟩ := (hsound.placed.at _ hclosing).of_closing
        obtain rfl := Option.some.inj (has.symm.trans hlease)
        simp [ExecutionLease.dropAction] at action
      · obtain ⟨_, p, token, hlease⟩ := (hsound.placed.at _ hreleasing).of_releasing
        obtain rfl := Option.some.inj (has.symm.trans hlease)
        rfl
    exact ⟨lease.permitId, (dropped e).lease, (hreturned htoken).1⟩

/-- One host step keeps the permit of every closing caller gone. -/
theorem HostInv.step_returned (hinv : HostInv σ) (hreturned : Returned σ) {act : HostAction T E} {ev : HostEvent}
    (h : hostStep g settings σ act = some (σ', ev)) : Returned σ' := by
  intro k next hnext hcloses
  have hmove := hostStep_move h
  cases hsub : σ.submissions[k]? with
  | none =>
    rw [(hmove.fresh hsub hnext).1] at hcloses
    simp [CallerPoint.standing] at hcloses
  | some sub =>
    obtain ⟨next', hnext', hmoved⟩ := hmove.at hsub
    obtain rfl := Option.some.inj (hnext.symm.trans hnext')
    have hsound := hinv.sound k sub hsub
    have hplaced := ((hinv.step h).sound k next hnext).placed
    have hbefore := (hmoved.forward ev hsound.placed).1.closes hcloses
    -- Nothing brings the identity of a permit back that is gone.
    have hkept : sub.caller.standing = .closing → next.lease = sub.lease →
        ∃ p, next.lease = some ⟨p, .gone⟩ ∧ Gone σ'.engine.state p := by
      intro hclosing hsame
      obtain ⟨p, hlease, hgone⟩ := hreturned k sub hsub hclosing
      refine ⟨p, hsame.trans hlease, ?_⟩
      rcases hmove.engine with heq | ⟨a, e, hstep⟩
      · rw [heq]
        exact hgone
      · exact hinv.engine.step_gone hstep (hsound.lease _ hlease).given.spent hgone
    cases hmoved with
    | alone quiet alike =>
      obtain ⟨notified, rfl⟩ := alike
      exact hkept hcloses rfl
    | hears e quiet alike =>
      obtain ⟨notified, rfl⟩ := alike
      have hunheard : ({ sub with notified := notified } : Submission usizeMax T E).hears e =
          { sub with notified := notified } := Submission.hears_of_quiet (by exact Submission.quiet_of_closing hbefore) e
      rw [hunheard] at hcloses hkept ⊢
      exact hkept hcloses rfl
    | goes turns turn engine =>
      have hlease : next.lease = sub.lease := by
        cases Submission.turned hsound.placed turn with
        | comes hcomes => exact hcomes.lease
        | disarmed hbecomes => exact hbecomes.lease
      rcases hbefore with hclosing | hreleasing
      · exact hkept hclosing hlease
      · obtain ⟨_, p, token, hleased⟩ := (hsound.placed.at _ hreleasing).of_releasing
        obtain ⟨_, q, hgone⟩ := (hplaced.at _ hcloses).of_closing
        rw [hlease, hleased] at hgone
        simp at hgone
    | asks turns turn step =>
      exact hinv.asked_closing hsub (Submission.turned hsound.placed turn) step hplaced hcloses hbefore

/-- In every reachable host state the permit is gone before a value is seen. -/
theorem returned_of_reachable (h : HostReachable g settings σ) : Returned σ := by
  obtain ⟨trace, hrun⟩ := h
  refine (hostInv_init g usizeMax T E).along (fun k sub hsub => ?_) hrun fun hinv hreturned hstep =>
    hinv.step_returned hreturned hstep
  simp [hostInit] at hsub

/-- Only a closing caller holds a value. -/
theorem Submission.closing_of_value {t : T} (h : sub.value = some t) : sub.caller.standing = .closing := by
  unfold Submission.value at h
  split at h
  · rename_i hcaller
    rw [hcaller]
    rfl
  · simp at h

/-- An answer stays what it is. -/
theorem HostInv.answered_stays (hinv : HostInv σ) {trace : List (HostAction T E × HostEvent)}
    (hrun : Runs.Run (hostStep g settings) σ trace σ') {response : Response T E}
    (hsub : σ.submissions[k]? = some sub) (hanswered : sub.caller = .answered response) :
    ∃ next, σ'.submissions[k]? = some next ∧ next.caller = .answered response := by
  refine hinv.along (P := fun τ => ∃ next, τ.submissions[k]? = some next ∧ next.caller = .answered response)
    ⟨sub, hsub, hanswered⟩ hrun ?_
  rintro τ υ act ev hinvτ ⟨sub', hsub', hanswered'⟩ hstep
  obtain ⟨next, hnext, hmoved⟩ := (hostStep_move hstep).at hsub'
  have hforward := (hmoved.forward ev (hinvτ.sound k sub' hsub').placed).1
  exact ⟨next, hnext, hforward.answered response hanswered'⟩

/-- Along every run from a reachable state the job of a submission is started once at most, and an answer it
has given stays what it is. A submission that answered with a value had returned its permit before: nothing in
the engine has the identity of the permit any more. -/
theorem responds_once (g : Governor) (settings : Settings) (σ σ' : HostSys g usizeMax T E)
    (trace : List (HostAction T E × HostEvent)) (h : HostReachable g settings σ)
    (hrun : Runs.Run (hostStep g settings) σ trace σ') (k : Nat) :
    trace.countP (starts k) ≤ 1 ∧
    (∀ sub response, σ.submissions[k]? = some sub → sub.caller = .answered response →
      ∃ next, σ'.submissions[k]? = some next ∧ next.caller = .answered response) ∧
    ∀ sub value, σ'.submissions[k]? = some sub → sub.value = some value →
      ∃ p, sub.lease = some ⟨p, .gone⟩ ∧ Gone σ'.engine.state p := by
  have hinv := HostInv.of_reachable h
  refine ⟨(hinv.starts_once hrun k).1, fun sub response hsub hanswered => hinv.answered_stays hrun hsub hanswered, ?_⟩
  intro sub value hsub hanswered
  exact returned_of_reachable (h.run hrun) k sub hsub (Submission.closing_of_value hanswered)

namespace Sample

open Taskmesh.Sample

/-- A submission whose caller polls its own job to the end and answers with its value. -/
def served : HostSys governor (2 ^ 64 - 1) Nat Nat :=
  (Runs.replay (hostStep governor hostSettings) (hostInit governor (2 ^ 64 - 1) Nat Nat)
    (acquisition ++ [.turn 0 (.caller 0 0), .turn 0 (.caller 0 0), .turn 0 (.caller 0 0),
      .turn 0 (.pollJob 0 0 (some (.value 3))), .turn 0 (.caller 0 0), .turn 0 (.caller 0 0)])).getD
        (hostInit governor (2 ^ 64 - 1) Nat Nat)

end Sample

/-- In the sample the submission has answered, and its permit is gone. -/
theorem sample_responds : ∃ sub p, Sample.served.submissions[0]? = some sub ∧ sub.value = some 3 ∧
    sub.lease = some ⟨p, .gone⟩ ∧ Gone Sample.served.engine.state p := by
  obtain ⟨trace, hrun⟩ : HostReachable Sample.governor Sample.hostSettings Sample.served := Runs.reachable_replay _ _
  have hanswers : Sample.served.submissions[0]?.bind Submission.value = some 3 := by decide +kernel
  obtain ⟨sub, hsub, hvalue⟩ := Option.bind_eq_some_iff.mp hanswers
  obtain ⟨p, hlease, hgone⟩ := (responds_once _ _ _ _ trace (Runs.Reachable.refl _) hrun 0).2.2 sub 3 hsub hvalue
  exact ⟨sub, p, hsub, hvalue, hlease, hgone⟩

end Taskmesh.Host
