import Taskmesh.Collections.BinarySearch
import Taskmesh.Engine.Proofs.PoolProofs

/-!
# Canonical requirement sets

A requirement set lists each of its pools once, in ascending order, so it says which pools were asked
for and nothing about how. The set is built and queried by binary search.
-/

namespace Taskmesh

open Std MachineInt BinarySearch

variable {id : CapabilityId} {l l' : List CapabilityId}

/-! ## Insertion by binary search -/

theorem insertId_of_mem (hl : l.Pairwise fun a b => compare a b = .lt) (hid : id ∈ l) : insertId id l = l := by
  induction l with
  | nil => simp at hid
  | cons x xs ih =>
    obtain ⟨hx, hxs⟩ := List.pairwise_cons.mp hl
    unfold insertId
    rcases List.mem_cons.mp hid with rfl | hid
    · simp
    · have hgt : compare id x = .gt := OrientedCmp.gt_of_lt (hx id hid)
      simp only [hgt]
      rw [ih hxs hid]

/-- The border between the smaller and the greater elements is where an insertion puts the element. -/
theorem insertId_of_vacant {i : Nat} (hi : i ≤ l.length)
    (hbelow : ∀ j b, j < i → l[j]? = some b → compare b id = .lt)
    (habove : ∀ j b, i ≤ j → l[j]? = some b → compare b id = .gt) : insertId id l = l.insertIdx i id := by
  induction l generalizing i with
  | nil =>
    obtain rfl : i = 0 := by simpa using hi
    rfl
  | cons x xs ih =>
    unfold insertId
    cases i with
    | zero =>
      have hlt : compare id x = .lt := OrientedCmp.lt_of_gt (habove 0 x (Nat.le_refl _) rfl)
      simp [hlt]
    | succ i =>
      have hgt : compare id x = .gt := OrientedCmp.gt_of_lt (hbelow 0 x (Nat.succ_pos _) rfl)
      simp only [hgt, List.insertIdx_succ_cons]
      rw [ih (Nat.le_of_succ_le_succ hi) (fun j b hj hb => hbelow (j + 1) b (by omega) (by simpa using hb))
        fun j b hj hb => habove (j + 1) b (by omega) (by simpa using hb)]

/-- An insertion is a binary search, and nothing more if it finds the pool. -/
theorem insertId_eq_search (hl : l.Pairwise fun a b => compare a b = .lt) :
    insertId id l = match binarySearch id l with
      | .found _ => l
      | .vacant index => l.insertIdx index id := by
  have hfinds := binarySearch_finds (a := id) hl
  generalize binarySearch id l = slot at hfinds
  cases hfinds with
  | found element equal =>
    have hmem := List.mem_of_getElem? element
    rw [LawfulEqOrd.eq_of_compare equal] at hmem
    exact insertId_of_mem hl hmem
  | vacant within below above => exact insertId_of_vacant within below above

/-! ## From resolved capabilities -/

/-- The registered capabilities of a resolution, in its order and with its repetitions. -/
def registeredIds (resolved : List ResolvedCapability) : List CapabilityId :=
  resolved.filterMap fun
    | .ungated => none
    | .registered id => some id

theorem length_le_insertId (id : CapabilityId) (l : List CapabilityId) : l.length ≤ (insertId id l).length := by
  induction l with
  | nil => simp [insertId]
  | cons x xs ih =>
    unfold insertId
    split
    · simp
    · simp
    · simpa using ih

/-- The ids of a resolution inserted one after the other, without a bound. -/
def insertAll (ids start : List CapabilityId) : List CapabilityId :=
  ids.foldl (fun l id => insertId id l) start

theorem mem_insertAll {ids start : List CapabilityId} : id ∈ insertAll ids start ↔ id ∈ ids ∨ id ∈ start := by
  induction ids generalizing start with
  | nil => simp [insertAll]
  | cons x xs ih =>
    have hstep : insertAll (x :: xs) start = insertAll xs (insertId x start) := rfl
    rw [hstep, ih, mem_insertId, List.mem_cons]
    tauto

theorem insertAll_ascending (ids : List CapabilityId) {start : List CapabilityId} (h : start.Pairwise fun a b => compare a b = .lt) :
    (insertAll ids start).Pairwise fun a b => compare a b = .lt := by
  induction ids generalizing start with
  | nil => exact h
  | cons x xs ih => exact ih (insertId_ascending h)

theorem length_le_insertAll (ids start : List CapabilityId) : start.length ≤ (insertAll ids start).length := by
  induction ids generalizing start with
  | nil => exact Nat.le_refl _
  | cons x xs ih => exact (length_le_insertId x start).trans (ih (insertId x start))

/-- The check inside the loop fails where a check at its end would: the list never gets shorter. -/
theorem fromResolved_loop (resolved : List ResolvedCapability) (start : CapabilityRequirementSet) :
    resolved.foldlM CapabilityRequirementSet.addResolved start =
      if h : (insertAll (registeredIds resolved) start.ids).length ≤ maxCapabilityRequirements then
        .ok ⟨insertAll (registeredIds resolved) start.ids, insertAll_ascending _ start.ascending, h⟩
      else .error (.tooManyRequirements maxCapabilityRequirements) := by
  induction resolved generalizing start with
  | nil =>
    rw [dif_pos (show (insertAll (registeredIds []) start.ids).length ≤ _ from start.bounded)]
    rfl
  | cons r rest ih =>
    rw [List.foldlM_cons]
    cases r with
    | ungated => exact ih start
    | registered id =>
      have hids : insertAll (registeredIds (.registered id :: rest)) start.ids =
          insertAll (registeredIds rest) (insertId id start.ids) := rfl
      simp only [hids]
      unfold CapabilityRequirementSet.addResolved
      simp only
      split
      · exact ih _
      · rename_i hover
        have hlonger := length_le_insertAll (registeredIds rest) (insertId id start.ids)
        rw [dif_neg (by omega)]
        rfl

theorem nodup_of_ascending (h : l.Pairwise fun a b => compare a b = .lt) : l.Nodup := by
  refine h.imp ?_
  rintro a b hab rfl
  simp at hab

/-- Two ascending lists of the same ids are the same list. -/
theorem eq_of_ascending (h : l.Pairwise fun a b => compare a b = .lt) (h' : l'.Pairwise fun a b => compare a b = .lt)
    (hmem : ∀ id, id ∈ l ↔ id ∈ l') : l = l' := by
  have hperm : l.Perm l' :=
    (List.perm_ext_iff_of_nodup (nodup_of_ascending h) (nodup_of_ascending h')).mpr hmem
  refine List.Perm.eq_of_pairwise (fun a b _ _ hab hba => ?_) h h' hperm
  rw [OrientedCmp.gt_of_lt hba] at hab
  simp at hab

/-- The canonical list has one element for each distinct registered id. -/
theorem length_insertAll (ids : List CapabilityId) : (insertAll ids []).length = ids.dedup.length := by
  have hnodup := nodup_of_ascending (insertAll_ascending ids List.Pairwise.nil)
  refine List.Perm.length_eq ((List.perm_ext_iff_of_nodup hnodup (List.nodup_dedup ids)).mpr fun id => ?_)
  rw [mem_insertAll, List.mem_dedup]
  simp

theorem fromResolved_eq (resolved : List ResolvedCapability) :
    CapabilityRequirementSet.fromResolved resolved =
      if h : (insertAll (registeredIds resolved) []).length ≤ maxCapabilityRequirements then
        .ok ⟨insertAll (registeredIds resolved) [], insertAll_ascending _ List.Pairwise.nil, h⟩
      else .error (.tooManyRequirements maxCapabilityRequirements) :=
  fromResolved_loop resolved CapabilityRequirementSet.empty

theorem fromResolved_ids {resolved : List ResolvedCapability} {set : CapabilityRequirementSet}
    (h : CapabilityRequirementSet.fromResolved resolved = .ok set) : set.ids = insertAll (registeredIds resolved) [] := by
  rw [fromResolved_eq] at h
  split at h
  · rw [← Except.ok.inj h]
  · simp at h

/-! ## Charging a set -/

theorem inUse_grant (s : GovernedState) (r : GrantRequest) (id : CapabilityId) :
    (s.grant r).inUse id =
      if id ∈ r.capabilities.ids then saturatingAdd u32Max (s.inUse id) 1 else s.inUse id := by
  have hpools : (s.grant r).capabilityInUse = GovernedState.occupyPools r.capabilities.ids s.capabilityInUse := rfl
  unfold GovernedState.inUse
  rw [hpools, getElem?_occupyPools r.capabilities.nodup]
  split <;> rfl

theorem inUse_unwind {s s' : GovernedState} {p : PermitId} {record : PermitRecord} {reason : TerminalReason}
    {effects effects' : TransitionEffects} (found : s.permits[p]? = some record)
    (h : s.unwind p reason effects = some (s', effects')) (id : CapabilityId) :
    s'.inUse id = s.inUse id - if id ∈ record.capabilities.ids then 1 else 0 := by
  have hpools : s'.capabilityInUse = GovernedState.vacatePools record.capabilities.ids s.capabilityInUse := by
    unfold GovernedState.unwind at h
    simp only [found] at h
    split at h <;>
    · simp only [Option.some.injEq, Prod.mk.injEq] at h
      rw [← h.1]
      rfl
  unfold GovernedState.inUse
  rw [hpools, getElem?_vacatePools record.capabilities.nodup]
  by_cases hid : id ∈ record.capabilities.ids
  · simp only [hid, if_true]
    cases s.capabilityInUse[id]? with
    | none => rfl
    | some slot =>
      by_cases hz : slot - 1 = 0
      · simp [hz, Option.filter]
      · simp [hz, Option.filter]
  · simp [hid]

/-! ## The sets are canonical -/

/-- A resolution makes a set unless it names more than 32 registered capabilities; the set is the
ascending list of exactly those, whatever their order and repetitions were. Sets are compared and
inserted into by binary search, `intersects` is symmetric, and a permit charges and returns each pool
of its set once. -/
theorem requirement_sets_canonical :
    (∀ resolved, (∃ error, CapabilityRequirementSet.fromResolved resolved = .error error) ↔
      32 < (registeredIds resolved).dedup.length) ∧
    (∀ resolved set, CapabilityRequirementSet.fromResolved resolved = .ok set →
      (set.ids.Pairwise fun a b => compare a b = .lt) ∧
        ∀ id, id ∈ set.ids ↔ ResolvedCapability.registered id ∈ resolved) ∧
    (∀ resolved resolved', (∀ id, ResolvedCapability.registered id ∈ resolved ↔
        ResolvedCapability.registered id ∈ resolved') →
      CapabilityRequirementSet.fromResolved resolved = CapabilityRequirementSet.fromResolved resolved') ∧
    (∀ a b : CapabilityRequirementSet, a.intersects b = b.intersects a ∧
      (a.intersects b = true ↔ (∃ id ∈ a.ids, id ∈ b.ids) ∨ (a.ids = [] ∧ b.ids = []))) ∧
    (∀ (id : CapabilityId) (l : List CapabilityId), (l.Pairwise fun a b => compare a b = .lt) →
      insertId id l = match binarySearch id l with
        | .found _ => l
        | .vacant index => l.insertIdx index id) ∧
    (∀ (s : GovernedState) (r : GrantRequest) id, (s.grant r).inUse id =
      if id ∈ r.capabilities.ids then saturatingAdd u32Max (s.inUse id) 1 else s.inUse id) ∧
    ∀ (s s' : GovernedState) (p : PermitId) record reason effects effects', s.permits[p]? = some record →
      s.unwind p reason effects = some (s', effects') →
      ∀ id, s'.inUse id = s.inUse id - if id ∈ record.capabilities.ids then 1 else 0 := by
  have hregistered : ∀ (resolved : List ResolvedCapability) id,
      id ∈ registeredIds resolved ↔ ResolvedCapability.registered id ∈ resolved := by
    intro resolved id
    unfold registeredIds
    rw [List.mem_filterMap]
    constructor
    · rintro ⟨r, hr, hid⟩
      cases r with
      | ungated => simp at hid
      | registered id' => rwa [← Option.some.inj hid]
    · intro hr
      exact ⟨_, hr, rfl⟩
  refine ⟨?_, ?_, ?_, ?_, fun id l => insertId_eq_search, inUse_grant, ?_⟩
  · intro resolved
    rw [← length_insertAll, fromResolved_eq]
    have hmax : maxCapabilityRequirements = 32 := rfl
    split
    · simp only [reduceCtorEq, exists_false, false_iff]
      omega
    · simp only [Except.error.injEq, exists_eq', true_iff]
      omega
  · intro resolved set h
    refine ⟨set.ascending, fun id => ?_⟩
    rw [fromResolved_ids h, mem_insertAll, hregistered]
    simp
  · intro resolved resolved' hsame
    have hids : insertAll (registeredIds resolved) [] = insertAll (registeredIds resolved') [] := by
      refine eq_of_ascending (insertAll_ascending _ List.Pairwise.nil) (insertAll_ascending _ List.Pairwise.nil) ?_
      intro id
      rw [mem_insertAll, mem_insertAll, hregistered, hregistered, hsame]
    rw [fromResolved_eq, fromResolved_eq]
    simp only [hids]
  · intro a b
    refine ⟨CapabilityRequirementSet.intersects_comm a b, ?_⟩
    rw [CapabilityRequirementSet.intersects_iff]
    exact or_comm
  · intro s s' p record reason effects effects' found h id
    exact inUse_unwind found h id

/-- Order, repetitions and ungated stages leave no trace in a set, and the set has what was asked for. -/
theorem sample_requirements :
    CapabilityRequirementSet.fromResolved [.registered ⟨"disk", 1⟩, .ungated, .registered ⟨"cpu", 1⟩,
      .registered ⟨"disk", 1⟩] = CapabilityRequirementSet.fromResolved [.registered ⟨"cpu", 1⟩,
      .registered ⟨"disk", 1⟩] ∧
    ∃ set, CapabilityRequirementSet.fromResolved [.registered ⟨"cpu", 1⟩, .registered ⟨"disk", 1⟩] = .ok set ∧
      ((⟨"disk", 1⟩ : CapabilityId) ∈ set.ids ↔
        ResolvedCapability.registered ⟨"disk", 1⟩ ∈
          [ResolvedCapability.registered ⟨"cpu", 1⟩, .registered ⟨"disk", 1⟩]) := by
  refine ⟨requirement_sets_canonical.2.2.1 _ _ (fun id => by simp; tauto), ?_⟩
  have hok : (CapabilityRequirementSet.fromResolved
      [.registered ⟨"cpu", 1⟩, .registered ⟨"disk", 1⟩]).toBool = true := rfl
  cases hset : CapabilityRequirementSet.fromResolved [.registered ⟨"cpu", 1⟩, .registered ⟨"disk", 1⟩] with
  | error error =>
    rw [hset] at hok
    simp [Except.toBool] at hok
  | ok set => exact ⟨set, rfl, (requirement_sets_canonical.2.1 _ set hset).2 _⟩

end Taskmesh
