import Taskmesh.Engine.Proofs.FaultProofs
import Taskmesh.Engine.Proofs.IdleProofs

/-!
# A root with `2^32` live children

The number of live children of a root is counted in 32 bits and wraps. A run with `2^32` live children of
one root therefore loses the root's entry with the first release, and the entry that the next child opens
knows its memory only: a stage release of an older child then underflows the root's total, and a healthy
governor stops.
-/

namespace Taskmesh

open Std MachineInt ExtTreeMap Governor

/-! ## Names -/

namespace Crowd

/-- A number below `2^34`, written with two letters. -/
def letters (n : Nat) : List Char := (List.range 34).map fun i => if n.testBit i then 'b' else 'a'

def name (n : Nat) : String := String.ofList (letters n)

/-- Different numbers spell different words. -/
theorem letters_inj {m n : Nat} (hm : m < 2 ^ 34) (hn : n < 2 ^ 34) (h : letters m = letters n) : m = n := by
  refine Nat.eq_of_testBit_eq fun i => ?_
  by_cases hi : i < 34
  · have hget : (letters m)[i]? = (letters n)[i]? := by rw [h]
    simp only [letters, List.getElem?_map, List.getElem?_range hi, Option.map_some, Option.some.injEq] at hget
    cases hmi : m.testBit i <;> cases hni : n.testBit i <;> simp [hmi, hni] at hget ⊢
  · have hpow : 2 ^ 34 ≤ 2 ^ i := Nat.pow_le_pow_right (by decide) (by omega)
    rw [Nat.testBit_lt_two_pow (Nat.lt_of_lt_of_le hm hpow),
      Nat.testBit_lt_two_pow (Nat.lt_of_lt_of_le hn hpow)]

/-- Different numbers name different operations. -/
theorem name_inj {m n : Nat} (hm : m < 2 ^ 34) (hn : n < 2 ^ 34) (h : name m = name n) : m = n :=
  letters_inj hm hn (String.ofList_injective h)

theorem length_letters (n : Nat) : (letters n).length = 34 := by simp [letters]

theorem mem_letters {n : Nat} {c : Char} (h : c ∈ letters n) : c = 'a' ∨ c = 'b' := by
  simp only [letters, List.mem_map] at h
  obtain ⟨i, _, rfl⟩ := h
  split
  · exact Or.inr rfl
  · exact Or.inl rfl

theorem name_ne {n : Nat} {text : String} (h : text.toList.length ≠ 34) : name n ≠ text := by
  rintro rfl
  simp [name, length_letters] at h

theorem firstInvalidCharacter_letters {l : List Char} (h : ∀ c ∈ l, c = 'a' ∨ c = 'b') (offset : Nat) :
    firstInvalidCharacter l offset = none := by
  induction l generalizing offset with
  | nil => rfl
  | cons c rest ih =>
    have hc : isIdentifierCharacter c = true := by
      rcases h c List.mem_cons_self with rfl | rfl <;> decide
    unfold firstInvalidCharacter
    rw [if_pos hc]
    exact ih (fun c' hc' => h c' (List.mem_cons_of_mem _ hc')) _

theorem utf8ByteSize_letters {l : List Char} (h : ∀ c ∈ l, c = 'a' ∨ c = 'b') :
    (String.ofList l).utf8ByteSize = l.length := by
  induction l with
  | nil => rfl
  | cons c rest ih =>
    have hc : c.utf8Size = 1 := by
      rcases h c List.mem_cons_self with rfl | rfl <;> decide
    have hrest := ih fun c' hc' => h c' (List.mem_cons_of_mem _ hc')
    rw [String.ofList_cons, String.utf8ByteSize_append, String.utf8ByteSize_singleton, hc, hrest,
      List.length_cons, Nat.add_comm]

/-- Every name is an identifier the intake accepts. -/
theorem validateIdentifier_name (field : TaskIdentifierField) (n : Nat) :
    validateIdentifier field (name n) = .ok () := by
  have hletters : ∀ c ∈ letters n, c = 'a' ∨ c = 'b' := fun c => mem_letters
  have hspace : ∀ c ∈ letters n, isUnicodeWhitespace c = false := by
    intro c hc
    rcases hletters c hc with rfl | rfl <;> decide
  have hsurrounding : hasSurroundingWhitespace (letters n) = false := by
    unfold hasSurroundingWhitespace
    rw [Bool.or_eq_false_iff]
    constructor
    · cases hhead : (letters n).head? with
      | none => rfl
      | some c => simpa using hspace c (List.mem_of_head? hhead)
    · cases hlast : (letters n).getLast? with
      | none => rfl
      | some c => simpa using hspace c (List.mem_of_getLast? hlast)
  have hne : (letters n).isEmpty = false := by
    rw [List.isEmpty_eq_false_iff_exists_mem]
    exact ⟨_, List.getElem_mem (show 0 < (letters n).length by rw [length_letters]; decide)⟩
  have hsize : ¬ (name n).utf8ByteSize > maxTaskIdentifierLen := by
    rw [name, utf8ByteSize_letters hletters, length_letters]
    decide
  have hviolation : identifierViolation (name n) = none := by
    have htext : (name n).toList = letters n := String.toList_ofList
    unfold identifierViolation
    simp only [htext, hne, hsurrounding, Bool.false_eq_true, if_false]
    rw [if_neg hsize]
    exact firstInvalidCharacter_letters hletters 0
  unfold validateIdentifier
  rw [hviolation]

/-! ## The governor -/

/-- A class with as much room as its gauge can count, whose permits hold some memory. -/
def classPolicy (memoryUnits : UInt32) : ClassPolicy :=
  { ClassPolicy.new with
    permitCost := ⟨0, memoryUnits⟩
    memoryReleasePolicy := .onStageBoundary }

def wide : TaskClass := ⟨"wide"⟩
def late : TaskClass := ⟨"late"⟩

/-- Two such classes, and no budget. -/
def policy : PolicySet :=
  PolicySet.new ⟨0, 0, 0, 0, ⟨0⟩⟩
    (((∅ : BTreeMap TaskClass ClassPolicy).insert wide (classPolicy 2)).insert late (classPolicy 1)) 1

def governor : Governor := ⟨7, policy, by decide +kernel⟩

/-- The first `2^32 - 1` children fill one class, the others belong to the other. -/
def classOf (n : Nat) : TaskClass := if n < 2 ^ 32 - 1 then wide else late

/-- The `n`-th child of the root. -/
def child (n : Nat) : TaskSpec where
  taskClass := classOf n
  operation := name n
  rootOperationId := "root"
  source := ⟨"sample"⟩
  reason := .explicitMapping
  scope := .child "parent" ⟨name n⟩ false
  stackSizeBytes := none
  stages := [⟨classOf n, ⟨"run"⟩, .asyncIo, false, none⟩]

/-- Every child is a task the intake accepts. -/
theorem valid_child (n : Nat) : validateTaskSpec (child n) = .ok () := by
  have hroot : ¬ name n = "root" := name_ne (by decide)
  have hparent : ¬ name n = "parent" := name_ne (by decide)
  have hclass : validateIdentifier .taskClass (classOf n).name = .ok () := by
    unfold classOf
    split <;> decide +kernel
  have hstages : validateStages (child n) [] 0 (child n).stages = .ok () := by
    have hstage : validateIdentifier (.stage 0) "run" = .ok () := by decide +kernel
    simp only [child, validateStages, hstage]
    simp [bind, Except.bind]
  have hscope : validateScope (child n) = .ok () := by
    have hp : validateIdentifier .parentOperationId "parent" = .ok () := by decide +kernel
    simp only [child, validateScope, hp, validateIdentifier_name, bind, Except.bind, hroot, hparent, if_false]
  have hrootName : validateIdentifier .rootOperationId "root" = .ok () := by decide +kernel
  unfold validateTaskSpec
  simp only [hscope, hstages]
  simp only [child, hclass, hrootName, validateIdentifier_name, bind, Except.bind]
  rfl

/-- What the admission of a child hands to the lock. -/
def intake (n : Nat) : Intake governor.policy where
  request := ⟨child n, CapabilityRequirementSet.empty⟩
  waker := none
  valid := valid_child n
  registered := registeredWith_empty _

/-- Every child passes the preflight. -/
theorem preflight_child (n : Nat) : preflight governor.policy (.admitSpec (child n)) = .ok (intake n) :=
  preflight_admitSpec (valid_child n) rfl (registeredWith_empty _)

/-! ## One more child -/

/-- A class of the governor and the memory its permits hold. -/
theorem classPolicy_classOf (n : Nat) : governor.policy.classPolicy (classOf n) =
    some (classPolicy (if n < 2 ^ 32 - 1 then 2 else 1)) := by
  unfold classOf
  split
  · decide +kernel
  · decide +kernel

end Crowd

namespace Crowd

/-- What is stored of the `n`-th child. -/
structure IsChild (n : Nat) (record : PermitRecord) : Prop where
  operation : record.operation = name n
  root : record.rootOperationId = "root"
  stage : record.targetStage = ⟨name n⟩
  scope : record.scope.isChild = true
  taskClass : record.taskClass = classOf n
  memory : record.ledger.effectiveUnits = if n < 2 ^ 32 - 1 then 2 else 1
  lease : record.leaseNonce = none
  ticket : record.pendingTicket = none

/-- Nothing is in progress, queued or owed, and everything live is one of the first `n` children. -/
structure Settled (n : Nat) (σ : governor.System) : Prop where
  reached : governor.Reachable σ
  threads : σ.threads = []
  empty : ∀ c, σ.state.waiting c = []
  isOpen : σ.state.admissionClosed = false
  sound : σ.state.accountingFault = none
  owes : σ.state.promotionPending = false
  permit : σ.nextPermit = n + 1
  ticket : σ.nextTicket = n + 1
  seq : σ.nextSeq = n + 1
  only : ∀ (p : PermitId) record, σ.state.permits[p]? = some record →
    ∃ i, i < n ∧ p = ⟨7, i + 1⟩ ∧ IsChild i record

variable {n : Nat} {σ : governor.System}

/-- The grant of the next child. -/
def grantOf (σ : governor.System) (n : Nat) : GrantRequest :=
  directGrant (σ.state.commitTime 0) (classPolicy (if n < 2 ^ 32 - 1 then 2 else 1)) (classOf n)
    (intake n).request (nextIds σ) (σ.state.commitTime 0).commitWatermarkMs

/-- The system once the next child is admitted. -/
def next (σ : governor.System) (n : Nat) : governor.System :=
  { σ with
    state := (σ.state.commitTime 0).grant (grantOf σ n)
    nextPermit := σ.nextPermit + 1
    nextTicket := σ.nextTicket + 1
    nextSeq := σ.nextSeq + 1 }

theorem isChild_grantOf (σ : governor.System) (n : Nat) : IsChild n (grantOf σ n).record := by
  refine ⟨rfl, rfl, rfl, rfl, rfl, ?_, rfl, rfl⟩
  show (if n < 2 ^ 32 - 1 then (2 : UInt32) else 1).toNat = _
  split <;> rfl

/-- The identity of the next child is free. -/
theorem Settled.identity (h : Settled n σ) (hn : n < 2 ^ 34) :
    σ.state.hasOperationIdentity "root" (name n) = false := by
  have ho := (SysInv.of_reachable h.reached).state.occupancy
  unfold GovernedState.hasOperationIdentity
  rw [Bool.or_eq_false_iff]
  constructor
  · rw [Option.isSome_eq_false_iff, Option.isNone_iff_eq_none]
    by_contra hsome
    obtain ⟨p, hp⟩ := Option.ne_none_iff_exists'.mp hsome
    obtain ⟨record, found, hlabel⟩ := (ho.operations "root" (name n) p).mp hp
    obtain ⟨i, hi, _, hchild⟩ := h.only p record found
    have hname : record.operation = name n := by
      simpa [identityLabel] using congrArg (Option.map Prod.snd) hlabel
    rw [hchild.operation] at hname
    have := name_inj (by omega) hn hname
    omega
  · by_contra hsome
    rw [Bool.not_eq_false, any_contains_iff, ho.queuedOperations] at hsome
    obtain ⟨c, r, hr, _⟩ := hsome
    rw [h.empty c] at hr
    simp at hr

/-- The stage of the next child is free. -/
theorem Settled.guard (h : Settled n σ) (hn : n < 2 ^ 34) : isRecursive σ.state (child n) = false := by
  have ho := (SysInv.of_reachable h.reached).state.occupancy
  by_contra hsome
  have hregistered : SetIndex.Registered σ.state.activeRecursion "root" (⟨name n⟩ : TaskStage) := by
    rw [← any_contains_iff]
    simpa [isRecursive, child] using hsome
  rcases (ho.recursion _ _).mp hregistered with ⟨c, r, hr, _⟩ | ⟨p, record, found, hlabel⟩
  · rw [h.empty c] at hr
    simp at hr
  · obtain ⟨i, hi, _, hchild⟩ := h.only p record found
    have hstage : record.targetStage = ⟨name n⟩ := by
      have := isChildOf_iff.mp hlabel
      exact this.2
    rw [hchild.stage] at hstage
    have := name_inj (by omega) hn (TaskStage.mk.inj hstage)
    omega

/-- The next child is admitted, as long as its class has room. -/
theorem Settled.next (h : Settled n σ) (hn : n < 2 ^ 34)
    (hroom : σ.state.inflight (classOf n) < 2 ^ 32 - 1) : Settled (n + 1) (next σ n) := by
  have hinv := SysInv.of_reachable h.reached
  have hseq := Nat.lt_of_le_of_lt (terminalSeq_le_load _) hinv.terminalSeq_lt
  have hleft : CountersLeft σ := by
    have hpermit := h.permit
    have hticket := h.ticket
    have hseqNo := h.seq
    refine ⟨?_, ?_, ?_⟩ <;> simp only [u64Max] <;> omega
  have hrunnable : assessIntake (σ.state.commitTime 0) governor.policy
      (classPolicy (if n < 2 ^ 32 - 1 then 2 else 1)) (child n).taskClass (intake n).request = .runnable := by
    unfold assessIntake assess assessScope
    rw [not_queuedBehind (s := σ.state.commitTime 0)
      (stateInv_commitTime hinv.state 0 hseq).queues (h.empty _) h.owes]
    refine if_pos ?_
    have hfull : decide (σ.state.inflight (classOf n) ≥ 2 ^ 32 - 1) = false := by
      rw [decide_eq_false_iff_not]
      omega
    have hinflight : decide ((σ.state.commitTime 0).inflight (child n).taskClass ≥
        (classPolicy (if n < 2 ^ 32 - 1 then 2 else 1)).maxInflight.toNat) = false := hfull
    have hfault : (σ.state.commitTime 0).accountingFault = none := h.sound
    have hcpu : ∀ held cost, overBudget governor.policy.resources.maxCpuUnits.toNat held cost = false :=
      fun _ _ => rfl
    have hmemory : ∀ held cost, overBudget governor.policy.resources.maxMemoryUnits.toNat held cost = false :=
      fun _ _ => rfl
    unfold BlockerSet.isEmpty blockersFor
    simp only [hinflight, hfault, hcpu, hmemory]
    rfl
  have hadmits : admitRequest (σ.state.commitTime 0) governor.policy
      (σ.state.commitTime 0).commitWatermarkMs (intake n).request none (nextIds σ) {} =
      ⟨(σ.state.commitTime 0).grant (grantOf σ n), ({} : TransitionEffects).pushRetire none,
        .admitted (nextIds σ).permitId⟩ :=
    admitRequest_of_runnable _ h.isOpen (classPolicy_classOf n) (by split <;> decide) (h.identity hn)
      (h.guard hn) hrunnable _ none (nextIds σ) {}
  refine ⟨?_, h.threads, fun c => ?_, h.isOpen, h.sound, h.owes, ?_, ?_, ?_, fun p record found => ?_⟩
  · exact decided_alone h.reached h.threads hleft (preflight_child n) hadmits
  · exact ((GovernedState.sameQueues_grant _ _).waiting_eq c).trans (h.empty c)
  · exact congrArg (· + 1) h.permit
  · exact congrArg (· + 1) h.ticket
  · exact congrArg (· + 1) h.seq
  · have hpermits : (Crowd.next σ n).state.permits =
        σ.state.permits.insert (grantOf σ n).permitId (grantOf σ n).record := rfl
    rw [hpermits, ExtTreeMap.getElem?_insert] at found
    split at found
    · rename_i heq
      obtain rfl := LawfulEqOrd.eq_of_compare heq
      obtain rfl := Option.some.inj found
      refine ⟨n, Nat.lt_succ_self n, ?_, isChild_grantOf σ n⟩
      show (⟨7, σ.nextPermit⟩ : PermitId) = _
      rw [h.permit]
    · obtain ⟨i, hi, hp, hchild⟩ := h.only p record found
      exact ⟨i, Nat.lt_succ_of_lt hi, hp, hchild⟩

/-! ## The wrap -/

/-- The first `n` children are live. -/
structure Crowded (n : Nat) (σ : governor.System) : Prop extends Settled n σ where
  live : ∀ i, i < n → σ.state.permits[(⟨7, i + 1⟩ : PermitId)]? ≠ none
  wideLoad : σ.state.inflight wide = min n (2 ^ 32 - 1)
  lateLoad : σ.state.inflight late = n - (2 ^ 32 - 1)
  counted : (σ.state.rootState "root").childInflight = n % 2 ^ 32

/-- The run begins with no child. -/
theorem crowded_init : Crowded 0 governor.init where
  reached := Runs.Reachable.refl _
  threads := rfl
  empty c := waiting_init c
  isOpen := rfl
  sound := rfl
  owes := rfl
  permit := rfl
  ticket := rfl
  seq := rfl
  only p record found := by simp [Governor.init] at found
  live i hi := absurd hi (Nat.not_lt_zero i)
  wideLoad := rfl
  lateLoad := rfl
  counted := rfl

/-- One more child raises the load of its own class. -/
theorem inflight_next {c : TaskClass} (hroom : classOf n = c → σ.state.inflight c < 2 ^ 32 - 1) :
    (next σ n).state.inflight c = σ.state.inflight c + if classOf n = c then 1 else 0 := by
  unfold GovernedState.inflight at hroom ⊢
  have hcls := GovernedState.cls_grant (σ.state.commitTime 0) (grantOf σ n) c
  have hclass : (grantOf σ n).taskClass = classOf n := rfl
  rw [hclass] at hcls
  show (((σ.state.commitTime 0).grant (grantOf σ n)).cls c).inflight = _
  rw [hcls]
  split
  · rename_i hsame
    have hlt := hroom hsame
    show wrappingAdd u32Max (σ.state.cls c).inflight 1 = _
    simp only [wrappingAdd, u32Max]
    omega
  · rfl

/-- Up to `2 ^ 32` children there is room in the class whose turn it is. -/
theorem Crowded.room (h : Crowded n σ) (hn : n < 2 ^ 32) : σ.state.inflight (classOf n) < 2 ^ 32 - 1 := by
  have hwide := h.wideLoad
  have hlate := h.lateLoad
  unfold classOf
  split
  · omega
  · omega

/-- One more child is admitted at once. -/
theorem Crowded.next (h : Crowded n σ) (hn : n < 2 ^ 32) : Crowded (n + 1) (next σ n) where
  toSettled := h.toSettled.next (by omega) (h.room hn)
  live i hi := by
    have hpermits : (Crowd.next σ n).state.permits =
        σ.state.permits.insert (⟨7, n + 1⟩ : PermitId) (grantOf σ n).record := by
      show σ.state.permits.insert (⟨7, σ.nextPermit⟩ : PermitId) _ = _
      rw [h.permit]
    rw [hpermits, ExtTreeMap.getElem?_insert]
    split
    · simp
    · rename_i hne
      refine h.live i ?_
      rcases Nat.lt_or_ge i n with hlt | hge
      · exact hlt
      · obtain rfl : i = n := by omega
        simp at hne
  wideLoad := by
    have hwide := h.wideLoad
    have hroom := h.room hn
    rw [inflight_next fun hsame => hsame ▸ hroom]
    by_cases hlt : n < 2 ^ 32 - 1
    · simp only [classOf, hlt, if_true]
      omega
    · have hne : ¬ late = wide := by decide
      simp only [classOf, hlt, if_false, hne]
      omega
  lateLoad := by
    have hlate := h.lateLoad
    have hroom := h.room hn
    rw [inflight_next fun hsame => hsame ▸ hroom]
    by_cases hlt : n < 2 ^ 32 - 1
    · have hne : ¬ wide = late := by decide
      simp only [classOf, hlt, if_true, hne, if_false]
      rw [hlate, Nat.sub_eq_zero_of_le (Nat.le_of_lt hlt), Nat.sub_eq_zero_of_le hlt]
    · simp only [classOf, hlt, if_false, if_true]
      rw [hlate, ← Nat.sub_add_comm (Nat.le_of_not_lt hlt)]
  counted := by
    have hcounted := h.counted
    have hentry := rootState_grant (σ.state.commitTime 0) (grantOf σ n) "root"
    have hchild : isChildOf "root" (grantOf σ n).record = true := rfl
    rw [if_pos hchild] at hentry
    have hread : ((Crowd.next σ n).state.rootState "root").childInflight =
        wrappingAdd u32Max (σ.state.rootState "root").childInflight 1 := by
      have hstate : (Crowd.next σ n).state = (σ.state.commitTime 0).grant (grantOf σ n) := rfl
      have hbefore : (σ.state.commitTime 0).rootState "root" = σ.state.rootState "root" := rfl
      rw [GovernedState.rootState, hstate, hentry, hbefore, Option.getD_some, GovernedState.attributeRoot]
    rw [hread, hcounted]
    simp only [wrappingAdd, u32Max]
    omega

/-- Any number of children up to `2 ^ 32` can be live together. -/
theorem exists_crowded (n : Nat) (hn : n ≤ 2 ^ 32) : ∃ σ, Crowded n σ := by
  induction n with
  | zero => exact ⟨governor.init, crowded_init⟩
  | succ n ih =>
    obtain ⟨σ, hσ⟩ := ih (by omega)
    exact ⟨next σ n, hσ.next hn⟩

theorem Crowded.record (h : Crowded n σ) {i : Nat} (hi : i < n) :
    ∃ record, σ.state.permits[(⟨7, i + 1⟩ : PermitId)]? = some record ∧ IsChild i record := by
  obtain ⟨record, found⟩ := Option.ne_none_iff_exists'.mp (h.live i hi)
  obtain ⟨j, _, hp, hchild⟩ := h.only _ record found
  obtain rfl : i = j := by
    have := congrArg PermitId.sequence hp
    simpa using this
  exact ⟨record, found, hchild⟩

/-- The state after the first child returned its permit. -/
def released (s : GovernedState) (record : PermitRecord) : GovernedState :=
  { (s.commitTime 0).discharge ⟨7, 1⟩ record with promotionPending := false }

/-- The release of a child that nobody waits for. -/
theorem Settled.release (h : Settled n σ) {record : PermitRecord}
    (found : σ.state.permits[(⟨7, 1⟩ : PermitId)]? = some record) (hchild : IsChild 0 record) :
    governor.Reachable { σ with state := released σ.state record } := by
  have hunwind : (σ.state.commitTime 0).unwind ⟨7, 1⟩ .released {} =
      some ((σ.state.commitTime 0).discharge ⟨7, 1⟩ record,
        ({} : TransitionEffects).pushRetire record.claimWaker) := by
    have hfound : (σ.state.commitTime 0).permits[(⟨7, 1⟩ : PermitId)]? = some record := found
    unfold GovernedState.unwind
    simp only [hfound, hchild.ticket]
  have hrelease : releaseWithProof (σ.state.commitTime 0) ⟨7, 1⟩ none =
      ⟨(σ.state.commitTime 0).discharge ⟨7, 1⟩ record,
        ({} : TransitionEffects).pushRetire record.claimWaker, .released, true⟩ := by
    have hfound : (σ.state.commitTime 0).permits[(⟨7, 1⟩ : PermitId)]? = some record := found
    unfold Governor.releaseWithProof GovernedState.releaseWithProofReason
    simp only [hfound, hchild.lease, hunwind]
    rfl
  have hempty : ∀ c, (((σ.state.commitTime 0).discharge ⟨7, 1⟩ record).cls c).queue = [] := by
    intro c
    have hwaiting : ((σ.state.commitTime 0).discharge ⟨7, 1⟩ record).waiting c = [] :=
      ((GovernedState.sameQueues_discharge _ _ _).waiting_eq c).trans (h.empty c)
    exact List.map_eq_nil_iff.mp hwaiting
  let effects := (({} : TransitionEffects).pushRetire record.claimWaker).absorb {}
  let draining : governor.System :=
    { σ with
      state := released σ.state record
      threads := [.draining effects 0] }
  have hstep : governor.step σ (.release ⟨7, 1⟩ 0) =
      some (draining, .released ⟨7, 1⟩ .released) := by
    have hpass := promote_of_empty (g := governor) hempty (σ.state.commitTime 0).commitWatermarkMs
    simp only [Governor.step, Governor.prepare, Option.map_some, operation, locked, finish, commit,
      UInt64.toNat_zero, hrelease, if_true, hpass, h.threads, List.nil_append]
    rfl
  have hdone : governor.step draining (.drain 0) = some ({ draining with threads := [] }, .progressed) := rfl
  have hreached := (h.reached.next hstep).next hdone
  rw [show σ.threads = [] from h.threads]
  exact hreached

theorem Settled.released (h : Settled n σ) {record : PermitRecord}
    (found : σ.state.permits[(⟨7, 1⟩ : PermitId)]? = some record) (hchild : IsChild 0 record) :
    Settled n { σ with state := released σ.state record } where
  reached := h.release found hchild
  threads := h.threads
  empty c :=
    ((GovernedState.sameQueues_discharge (σ.state.commitTime 0) ⟨7, 1⟩ record).waiting_eq c).trans (h.empty c)
  isOpen := h.isOpen
  sound := h.sound
  owes := rfl
  permit := h.permit
  ticket := h.ticket
  seq := h.seq
  only p record' found' := by
    have hfound : (σ.state.permits.erase ⟨7, 1⟩)[p]? = some record' := found'
    rw [ExtTreeMap.getElem?_erase] at hfound
    split at hfound
    · simp at hfound
    · exact h.only p record' hfound

/-- With `2^32` children counted as none, the first release erases the root's entry. -/
theorem Crowded.roots_released (h : Crowded (2 ^ 32) σ) {record : PermitRecord} (hchild : IsChild 0 record) :
    (Crowd.released σ.state record).roots["root"]? = none := by
  have hroots := roots_discharge (σ.state.commitTime 0) ⟨7, 1⟩ record "root"
  have hchildOf : isChildOf "root" record = true := by
    simp [isChildOf, hchild.scope, hchild.root]
  rw [if_pos hchildOf] at hroots
  refine hroots.trans ?_
  have hcounted := h.counted
  cases hentry : σ.state.roots["root"]? with
  | none =>
    have hnone : (σ.state.commitTime 0).roots["root"]? = none := hentry
    rw [hnone]
    rfl
  | some entry =>
    have hsome : (σ.state.commitTime 0).roots["root"]? = some entry := hentry
    have hzero : entry.childInflight = 0 := by
      simpa [GovernedState.rootState, hentry] using hcounted
    rw [hsome]
    simp [Option.filter, hzero]

/-- The state in which the wrap shows: one more child was admitted after the first one left. -/
structure Miscounted (σ : governor.System) : Prop extends Settled (2 ^ 32 + 1) σ where
  held : ∃ record, σ.state.permits[(⟨7, 2⟩ : PermitId)]? = some record ∧ IsChild 1 record
  total : ∃ entry, σ.state.roots["root"]? = some entry ∧ entry.memoryUnits = 1

/-- There is a reachable state whose root counts fewer children than it has. -/
theorem exists_miscounted : ∃ σ, Miscounted σ := by
  obtain ⟨σ, hσ⟩ := exists_crowded (2 ^ 32) (Nat.le_refl _)
  obtain ⟨first, hfirst, hfirstChild⟩ := hσ.record (i := 0) (by decide)
  obtain ⟨second, hsecond, hsecondChild⟩ := hσ.record (i := 1) (by decide)
  have hroots := hσ.roots_released hfirstChild
  have hsettled := hσ.toSettled.released hfirst hfirstChild
  have hclass : classOf (2 ^ 32) = late := rfl
  have hlate : (Crowd.released σ.state first).inflight late ≤ 1 := by
    have hle := (uncharged_discharge (σ.state.commitTime 0) ⟨7, 1⟩ first).inflight late
    have hload := hσ.lateLoad
    have hbefore : (σ.state.commitTime 0).inflight late = σ.state.inflight late := rfl
    have hafter : (Crowd.released σ.state first).inflight late =
        ((σ.state.commitTime 0).discharge ⟨7, 1⟩ first).inflight late := rfl
    rw [hbefore, hload] at hle
    rw [hafter]
    exact hle
  have hnext := hsettled.next (by decide) (by rw [hclass]; exact Nat.lt_of_le_of_lt hlate (by decide))
  refine ⟨_, hnext, ⟨second, ?_, hsecondChild⟩, ?_⟩
  · have hpermits : (Crowd.next { σ with state := Crowd.released σ.state first } (2 ^ 32)).state.permits =
        (σ.state.permits.erase ⟨7, 1⟩).insert (⟨7, σ.nextPermit⟩ : PermitId)
          (grantOf { σ with state := Crowd.released σ.state first } (2 ^ 32)).record := rfl
    have hnew : ¬ (⟨7, 2 ^ 32 + 1⟩ : PermitId) = ⟨7, 2⟩ := by decide
    have hother : ¬ (⟨7, 1⟩ : PermitId) = ⟨7, 2⟩ := by decide
    rw [hpermits, hσ.permit, ExtTreeMap.getElem?_insert, ExtTreeMap.getElem?_erase]
    simp only [Std.compare_eq_iff_eq, hnew, hother, if_false]
    exact hsecond
  · have hentry := rootState_grant ((Crowd.released σ.state first).commitTime 0)
      (grantOf { σ with state := Crowd.released σ.state first } (2 ^ 32)) "root"
    have hchild : isChildOf "root"
        (grantOf { σ with state := Crowd.released σ.state first } (2 ^ 32)).record = true := rfl
    have hfresh : ((Crowd.released σ.state first).commitTime 0).rootState "root" = {} := by
      have hnone : ((Crowd.released σ.state first).commitTime 0).roots["root"]? = none := hroots
      rw [GovernedState.rootState, hnone, Option.getD_none]
    rw [if_pos hchild, hfresh] at hentry
    exact ⟨_, hentry, rfl⟩

/-- A drop that a total cannot pay records a fault. -/
theorem applyMemoryDelta_underflows {s : GovernedState} {c : TaskClass} {root : Option String} {delta : Int}
    (hdrop : delta < 0) (hunderflow : s.memoryUnderflow c root delta.natAbs = true) :
    (s.applyMemoryDelta c root delta).accountingFault ≠ none := by
  unfold GovernedState.applyMemoryDelta
  rw [if_neg (by omega)]
  simp only [hunderflow, if_true]
  unfold GovernedState.recordAccountingFault
  split
  · simp
  · rename_i hsome
    simpa using hsome

/-- A stage release of the second child then finds a root total that does not know it. -/
theorem Miscounted.underflow {σ : governor.System} (h : Miscounted σ) :
    ∃ σ', governor.step σ (.releaseStageMemory ⟨7, 2⟩ 2 none 0) =
        some (σ', .stageReleased ⟨7, 2⟩ (.released 2)) ∧ σ'.state.accountingFault ≠ none := by
  obtain ⟨record, found, hchild⟩ := h.held
  obtain ⟨entry, hentry, htotal⟩ := h.total
  let s := σ.state.commitTime 0
  let ledger := record.ledger.staged 2 none s.commitWatermarkMs
  have hmemory : record.ledger.effectiveUnits = 2 := hchild.memory
  have hpolicy : governor.policy.classPolicy record.taskClass = some (classPolicy 2) := by
    rw [hchild.taskClass]
    exact classPolicy_classOf 1
  have hsection : governor.releaseStage s ⟨7, 2⟩ 2 none s.commitWatermarkMs =
      ⟨s.rechargePermit ⟨7, 2⟩ record ledger, {}, .released 2, true⟩ := by
    have hfound : s.permits[(⟨7, 2⟩ : PermitId)]? = some record := found
    unfold Governor.releaseStage releaseStageMemory
    simp only [hfound, hpolicy, hmemory]
    rfl
  have hunderflow : s.memoryUnderflow record.taskClass (chargedRoot record) 2 = true := by
    have hroot : chargedRoot record = some "root" := by
      simp [chargedRoot, hchild.scope, hchild.root]
    have hread : ((some "root").bind fun root => s.roots[root]?) = some entry := hentry
    unfold GovernedState.memoryUnderflow
    rw [hroot, hread, Option.any_some, htotal]
    simp [checkedSub]
  have hfault : (s.rechargePermit ⟨7, 2⟩ record ledger).accountingFault ≠ none := by
    have hdelta : (ledger.effectiveUnits - record.ledger.effectiveUnits : Int) = -2 := by
      have hrest : ledger.effectiveUnits = record.ledger.effectiveUnits - 2 := rfl
      omega
    refine applyMemoryDelta_underflows ?_ ?_
    · rw [hdelta]
      decide
    · rw [hdelta]
      exact hunderflow
  have hprepared : Governor.prepare σ (.releaseStageMemory ⟨7, 2⟩ 2 none 0) = some
      (operationUnless σ 0 (fun s now => governor.releaseStage s ⟨7, 2⟩ 2 none now) (.stageReleased ⟨7, 2⟩)
        stageReleaseEarly) := rfl
  refine ⟨finish (operationUnless σ 0 (fun s now => governor.releaseStage s ⟨7, 2⟩ 2 none now)
    (.stageReleased ⟨7, 2⟩) stageReleaseEarly), ?_, ?_⟩
  · unfold Governor.step
    rw [hprepared, Option.map_some]
    have hevent := congrArg (fun sec => Event.stageReleased ⟨7, 2⟩ sec.outcome) hsection
    exact congrArg (fun e => some (_, e)) hevent
  · rw [state_operationUnless, fault_commit]
    exact (congrArg (fun sec => sec.state.accountingFault) hsection).trans_ne hfault

end Crowd

/-- A healthy governor with `2^32` live children of one root stops at a stage release. -/
theorem crowd_fails_stop : ∃ σ σ' : Crowd.governor.System, Crowd.governor.Reachable σ ∧
    σ.state.accountingFault = none ∧
    Crowd.governor.step σ (.releaseStageMemory ⟨7, 2⟩ 2 none 0) =
      some (σ', .stageReleased ⟨7, 2⟩ (.released 2)) ∧
    σ'.state.accountingFault ≠ none := by
  obtain ⟨σ, hσ⟩ := Crowd.exists_miscounted
  obtain ⟨σ', hstep, hfault⟩ := hσ.underflow
  exact ⟨σ, σ', hσ.reached, hσ.sound, hstep, hfault⟩

end Taskmesh
