import Mathlib.Tactic

/-!
# Walking a ring of slots

A ring is visited one slot at a time. Every visit credits the slot its quantum, and the walk stops at
the first visited slot whose credit covers its cost. Where it stops, and what it credited on the way,
have closed forms: a slot needs so many visits, and its visits are a full lap apart.
-/

namespace RingWalk

/-! ## Counting visits -/

/-- The visits of slot `i` among the first `t` visits of a ring of `n` slots walked from `start`. -/
def visits (n start i : Nat) : Nat → Nat
  | 0 => 0
  | t + 1 => visits n start i t + if (start + t) % n = i then 1 else 0

/-- How far slot `i` lies behind `start`. -/
def offset (n start i : Nat) : Nat := (i + n - start) % n

theorem visits_add (n start i t u : Nat) :
    visits n start i (t + u) = visits n start i t + visits n ((start + t) % n) i u := by
  induction u with
  | zero => rfl
  | succ u ih =>
    rw [← Nat.add_assoc t u 1, visits, ih, visits, Nat.mod_add_mod, Nat.add_assoc start t u, Nat.add_assoc]

section Offset

variable {n start i j t : Nat}

theorem offset_lt (h : 0 < n) : offset n start i < n := Nat.mod_lt _ h

/-- Visit `t` falls on the slot that lies `t` behind the start, up to whole laps. -/
theorem mod_eq_iff_offset (hi : i < n) (hstart : start < n) :
    (start + t) % n = i ↔ t % n = offset n start i := by
  have hpos : 0 < n := by omega
  have hleft : (start + t) % n = (start + t % n) % n := (Nat.add_mod_mod start t n).symm
  have hlt : t % n < n := Nat.mod_lt _ hpos
  rw [hleft]
  unfold offset
  by_cases hle : start ≤ i
  · have hoffset : (i + n - start) % n = i - start := by
      rw [show i + n - start = i - start + n by omega, Nat.add_mod_right]
      exact Nat.mod_eq_of_lt (by omega)
    rw [hoffset]
    by_cases hwrap : start + t % n < n
    · rw [Nat.mod_eq_of_lt hwrap]
      omega
    · rw [Nat.mod_eq_sub_mod (by omega), Nat.mod_eq_of_lt (by omega)]
      omega
  · have hoffset : (i + n - start) % n = i + n - start := Nat.mod_eq_of_lt (by omega)
    rw [hoffset]
    by_cases hwrap : start + t % n < n
    · rw [Nat.mod_eq_of_lt hwrap]
      omega
    · rw [Nat.mod_eq_sub_mod (by omega), Nat.mod_eq_of_lt (by omega)]
      omega

/-- Slots are told apart by their offsets. -/
theorem offset_inj (hi : i < n) (hj : j < n) (hstart : start < n)
    (h : offset n start i = offset n start j) : i = j := by
  have hlt : offset n start j < n := offset_lt (by omega)
  have hvisit : (start + offset n start j) % n = i := by
    rw [mod_eq_iff_offset hi hstart, h, Nat.mod_eq_of_lt hlt]
  have hvisit' : (start + offset n start j) % n = j := by
    rw [mod_eq_iff_offset hj hstart, Nat.mod_eq_of_lt hlt]
  exact hvisit.symm.trans hvisit'

theorem visits_eq (hi : i < n) (hstart : start < n) (t : Nat) :
    visits n start i t = (t + (n - 1 - offset n start i)) / n := by
  have hpos : 0 < n := by omega
  have hlt : offset n start i < n := offset_lt hpos
  induction t with
  | zero =>
    rw [visits, Nat.zero_add, Nat.div_eq_of_lt]
    omega
  | succ t ih =>
    have hdvd : n ∣ t + (n - 1 - offset n start i) + 1 ↔ (start + t) % n = i := by
      rw [mod_eq_iff_offset hi hstart, Nat.dvd_iff_mod_eq_zero,
        show t + (n - 1 - offset n start i) + 1 = t + (n - offset n start i) by omega]
      have hmod : (t + (n - offset n start i)) % n = (t % n + (n - offset n start i)) % n :=
        (Nat.mod_add_mod t n _).symm
      have htlt : t % n < n := Nat.mod_lt _ hpos
      rw [hmod]
      by_cases hge : offset n start i ≤ t % n
      · rw [show t % n + (n - offset n start i) = t % n - offset n start i + n by omega,
          Nat.add_mod_right, Nat.mod_eq_of_lt (by omega)]
        omega
      · rw [Nat.mod_eq_of_lt (by omega)]
        omega
    rw [visits, ih, show t + 1 + (n - 1 - offset n start i) = t + (n - 1 - offset n start i) + 1 by omega,
      Nat.succ_div]
    simp only [hdvd]

/-- No slot is a visit ahead of another by more than one. -/
theorem visits_le_succ (hi : i < n) (hj : j < n) (hstart : start < n) (t : Nat) :
    visits n start i t ≤ visits n start j t + 1 := by
  have hpos : 0 < n := by omega
  rw [visits_eq hi hstart, visits_eq hj hstart, ← Nat.add_div_right _ hpos]
  refine Nat.div_le_div_right ?_
  omega

/-- The visits of a slot up to and with the visit at `pos`. -/
theorem visits_succ_eq (hi : i < n) (hstart : start < n) {pos : Nat} (h : offset n start i ≤ pos) :
    visits n start i (pos + 1) = (pos - offset n start i) / n + 1 := by
  have hpos : 0 < n := by omega
  rw [visits_eq hi hstart,
    show pos + 1 + (n - 1 - offset n start i) = pos - offset n start i + n by
      have : offset n start i < n := offset_lt hpos
      omega,
    Nat.add_div_right _ hpos]

theorem visits_of_lt (hi : i < n) (hstart : start < n) {pos : Nat} (h : pos < offset n start i) :
    visits n start i (pos + 1) = 0 := by
  have hlt : offset n start i < n := offset_lt (by omega)
  rw [visits_eq hi hstart]
  exact Nat.div_eq_of_lt (by omega)

end Offset

/-! ## The walk -/

/-- A slot of the ring: whose it is, what a visit credits it, what its next service costs. -/
structure Slot (κ : Type) where
  key : κ
  quantum : Nat
  cost : Nat

variable {κ : Type}

/-- The visits a slot needs until its credit covers its cost; it is never served without a visit. -/
def Slot.needed (slot : Slot κ) (credit : Nat) : Nat :=
  if slot.cost ≤ credit then 1 else (slot.cost - credit + slot.quantum - 1) / slot.quantum

theorem Slot.needed_pos {slot : Slot κ} (h : 0 < slot.quantum) (credit : Nat) : 0 < slot.needed credit := by
  unfold Slot.needed
  split
  · omega
  · rw [Nat.div_pos_iff]
    omega

theorem Slot.needed_le_iff {slot : Slot κ} (h : 0 < slot.quantum) (credit m : Nat) :
    slot.needed credit ≤ m + 1 ↔ slot.cost ≤ credit + (m + 1) * slot.quantum := by
  unfold Slot.needed
  split
  · rename_i hle
    constructor
    · intro _
      exact Nat.le_add_right_of_le hle
    · omega
  · rename_i hlt
    rw [← Nat.lt_succ_iff, Nat.div_lt_iff_lt_mul h, Nat.succ_mul]
    omega

/-- The visit at which a slot, walked towards from `start`, first affords its cost. -/
def position (n start i : Nat) (slot : Slot κ) (credit : Nat) : Nat :=
  offset n start i + (slot.needed credit - 1) * n

theorem position_mod {n start i credit : Nat} {slot : Slot κ} (h : 0 < n) :
    position n start i slot credit % n = offset n start i := by
  unfold position
  rw [Nat.add_mul_mod_self_right]
  exact Nat.mod_eq_of_lt (offset_lt h)

/-- A visit to a slot covers its cost exactly from its position on. -/
theorem affords_iff {n start i t credit : Nat} {slot : Slot κ} (hi : i < n) (hstart : start < n)
    (hquantum : 0 < slot.quantum) (hvisit : t % n = offset n start i) :
    slot.cost ≤ credit + (visits n start i t + 1) * slot.quantum ↔ position n start i slot credit ≤ t := by
  have hpos : 0 < n := by omega
  have hcount : visits n start i t = t / n := by
    have hlt : t % n < n := Nat.mod_lt _ hpos
    have hdiv := Nat.div_add_mod t n
    rw [visits_eq hi hstart, ← hvisit]
    rw [show t + (n - 1 - t % n) = n - 1 + n * (t / n) by omega, Nat.add_mul_div_left _ _ hpos,
      Nat.div_eq_of_lt (by omega), Nat.zero_add]
  rw [hcount, ← Slot.needed_le_iff hquantum]
  have hneeded := slot.needed_pos hquantum credit
  have hdiv := Nat.mod_add_div t n
  unfold position
  rw [← hvisit]
  constructor
  · intro hle
    have hmul : (slot.needed credit - 1) * n ≤ t / n * n := Nat.mul_le_mul_right n (by omega)
    rw [Nat.mul_comm (t / n) n] at hmul
    omega
  · intro hle
    have hmul : (slot.needed credit - 1) * n ≤ t / n * n := by
      rw [Nat.mul_comm (t / n) n]
      omega
    have := Nat.le_of_mul_le_mul_right hmul hpos
    omega

/-- The walk, one visit at a time: credit the slot, serve it if its credit covers its cost, else go on
to the next one. `none` when it has not stopped within the visits allowed. -/
def walk [DecidableEq κ] (ring : List (Slot κ)) : Nat → (κ → Nat) → Nat → Option (κ × (κ → Nat))
  | 0, _, _ => none
  | fuel + 1, credit, index =>
    match ring[index]? with
    | none => none
    | some slot =>
      let credit := Function.update credit slot.key (credit slot.key + slot.quantum)
      if slot.cost ≤ credit slot.key then
        some (slot.key, Function.update credit slot.key (credit slot.key - slot.cost))
      else walk ring fuel credit ((index + 1) % ring.length)

/-- The credit after `t` visits from `start`, none of them served. -/
structure Credited (ring : List (Slot κ)) (start : Nat) (credit : κ → Nat) (t : Nat)
    (credit' : κ → Nat) : Prop where
  slots : ∀ i slot, ring[i]? = some slot →
    credit' slot.key = credit slot.key + visits ring.length start i t * slot.quantum
  others : ∀ key, (∀ slot ∈ ring, slot.key ≠ key) → credit' key = credit key

section Walk

variable {ring : List (Slot κ)} {start : Nat} {credit credit' credit'' : κ → Nat} {t : Nat}

theorem key_inj (hkeys : (ring.map Slot.key).Nodup) {i j : Nat} {slot slot' : Slot κ}
    (hi : ring[i]? = some slot) (hj : ring[j]? = some slot') (h : slot.key = slot'.key) : i = j := by
  have hlt : i < (ring.map Slot.key).length := by
    rw [List.length_map]
    exact (List.getElem?_eq_some_iff.mp hi).1
  refine (List.getElem?_inj hlt hkeys).mp ?_
  rw [List.getElem?_map, List.getElem?_map, hi, hj]
  simp [h]

theorem Credited.zero (ring : List (Slot κ)) (start : Nat) (credit : κ → Nat) :
    Credited ring start credit 0 credit := by
  refine ⟨fun i slot _ => ?_, fun _ _ => rfl⟩
  simp [visits]

/-- One more visit. -/
theorem Credited.step [DecidableEq κ] (hkeys : (ring.map Slot.key).Nodup) (h : Credited ring start credit t credit')
    {slot : Slot κ} (hslot : ring[(start + t) % ring.length]? = some slot) :
    Credited ring start credit (t + 1)
      (Function.update credit' slot.key (credit' slot.key + slot.quantum)) := by
  refine ⟨fun i other hi => ?_, fun key hkey => ?_⟩
  · by_cases hsame : (start + t) % ring.length = i
    · subst hsame
      obtain rfl : slot = other := Option.some.inj (hslot.symm.trans hi)
      rw [Function.update_self, h.slots _ _ hi, visits, if_pos rfl, Nat.add_mul, Nat.one_mul,
        Nat.add_assoc]
    · have hne : other.key ≠ slot.key := fun hkey => hsame (key_inj hkeys hslot hi hkey.symm)
      rw [Function.update_of_ne hne, h.slots _ _ hi, visits, if_neg hsame, Nat.add_zero]
  · have hne : key ≠ slot.key := fun heq => hkey slot (List.mem_of_getElem? hslot) heq.symm
    rw [Function.update_of_ne hne]
    exact h.others key hkey

theorem Credited.unique (h : Credited ring start credit t credit')
    (h' : Credited ring start credit t credit'') : credit' = credit'' := by
  funext key
  by_cases hmem : ∃ slot ∈ ring, slot.key = key
  · obtain ⟨slot, hslot, rfl⟩ := hmem
    obtain ⟨i, hi⟩ := List.mem_iff_getElem?.mp hslot
    rw [h.slots i slot hi, h'.slots i slot hi]
  · push Not at hmem
    rw [h.others key hmem, h'.others key hmem]

/-- Slot `winner` is the first to afford its cost, at the visit `pos`. -/
structure Earliest (ring : List (Slot κ)) (start : Nat) (credit : κ → Nat) (pos winner : Nat)
    (slot : Slot κ) : Prop where
  found : ring[winner]? = some slot
  pos_eq : pos = position ring.length start winner slot (credit slot.key)
  least : ∀ i other, ring[i]? = some other →
    pos ≤ position ring.length start i other (credit other.key)

variable {pos winner : Nat} {slot : Slot κ}

theorem Earliest.winner_lt (h : Earliest ring start credit pos winner slot) : winner < ring.length :=
  (List.getElem?_eq_some_iff.mp h.found).1

theorem Earliest.pos_mod (h : Earliest ring start credit pos winner slot) :
    pos % ring.length = offset ring.length start winner := by
  rw [h.pos_eq]
  exact position_mod (by have := h.winner_lt; omega)

/-- Any other slot comes later. -/
theorem Earliest.lt_position (h : Earliest ring start credit pos winner slot)
    (hstart : start < ring.length) {i : Nat} {other : Slot κ} (hi : ring[i]? = some other)
    (hne : i ≠ winner) : pos < position ring.length start i other (credit other.key) := by
  have hilt : i < ring.length := (List.getElem?_eq_some_iff.mp hi).1
  refine lt_of_le_of_ne (h.least i other hi) fun heq => hne ?_
  refine offset_inj hilt h.winner_lt hstart ?_
  rw [← h.pos_mod, heq]
  exact (position_mod (by omega)).symm

/-- The walk from a point before its end. The induction is on the visits left. -/
theorem walk_from [DecidableEq κ] (hkeys : (ring.map Slot.key).Nodup) (hquanta : ∀ slot ∈ ring, 0 < slot.quantum)
    (hstart : start < ring.length) (h : Earliest ring start credit pos winner slot)
    (hend : Credited ring start credit (pos + 1) credit'') (left : Nat) :
    ∀ t credit', t + left = pos → Credited ring start credit t credit' → ∀ fuel,
      walk ring fuel credit' ((start + t) % ring.length) =
        if left < fuel then
          some (slot.key, Function.update credit'' slot.key (credit'' slot.key - slot.cost))
        else none := by
  induction left with
  | zero =>
    intro t credit' ht hcredited fuel
    obtain rfl : t = pos := by omega
    have hwinner : (start + t) % ring.length = winner :=
      (mod_eq_iff_offset h.winner_lt hstart).mpr h.pos_mod
    cases fuel with
    | zero => rfl
    | succ fuel =>
      have hvisited : ring[(start + t) % ring.length]? = some slot := by rw [hwinner, h.found]
      obtain rfl := (hcredited.step hkeys hvisited).unique hend
      have hafford : slot.cost ≤ credit' slot.key + slot.quantum := by
        rw [hcredited.slots winner slot h.found, Nat.add_assoc, ← Nat.succ_mul,
          affords_iff h.winner_lt hstart (hquanta slot (List.mem_of_getElem? h.found)) h.pos_mod, ← h.pos_eq]
      simp only [walk, hvisited, Function.update_self, hafford, if_true, Nat.zero_lt_succ]
  | succ left ih =>
    intro t credit' ht hcredited fuel
    have hlt : (start + t) % ring.length < ring.length := Nat.mod_lt _ (by omega)
    obtain ⟨visited, hvisited⟩ : ∃ visited, ring[(start + t) % ring.length]? = some visited :=
      ⟨_, List.getElem?_eq_getElem hlt⟩
    cases fuel with
    | zero => rfl
    | succ fuel =>
      have hmod : t % ring.length = offset ring.length start ((start + t) % ring.length) :=
        (mod_eq_iff_offset hlt hstart).mp rfl
      have hshort : ¬ visited.cost ≤ credit' visited.key + visited.quantum := by
        rw [hcredited.slots _ visited hvisited, Nat.add_assoc, ← Nat.succ_mul,
          affords_iff hlt hstart (hquanta visited (List.mem_of_getElem? hvisited)) hmod]
        have := h.least _ visited hvisited
        omega
      simp only [walk, hvisited, Function.update_self, hshort, if_false]
      rw [Nat.mod_add_mod, Nat.add_assoc start t 1, ih (t + 1) _ (by omega) (hcredited.step hkeys hvisited) fuel]
      simp only [Nat.succ_lt_succ_iff]

theorem credited_exists [DecidableEq κ] (hkeys : (ring.map Slot.key).Nodup) (hring : 0 < ring.length) (start : Nat)
    (credit : κ → Nat) (t : Nat) : ∃ credit', Credited ring start credit t credit' := by
  induction t with
  | zero => exact ⟨credit, Credited.zero ring start credit⟩
  | succ t ih =>
    obtain ⟨credit', h⟩ := ih
    have hlt : (start + t) % ring.length < ring.length := Nat.mod_lt _ hring
    exact ⟨_, h.step hkeys (List.getElem?_eq_getElem hlt)⟩

/-- The walk stops at the earliest position, with exactly the visits up to it credited. -/
theorem walk_eq [DecidableEq κ] (hkeys : (ring.map Slot.key).Nodup) (hquanta : ∀ slot ∈ ring, 0 < slot.quantum)
    (hstart : start < ring.length) (h : Earliest ring start credit pos winner slot)
    (hend : Credited ring start credit (pos + 1) credit') (fuel : Nat) :
    walk ring fuel credit start =
      if pos < fuel then
        some (slot.key, Function.update credit' slot.key (credit' slot.key - slot.cost))
      else none := by
  have hwalk := walk_from hkeys hquanta hstart h hend pos 0 credit (Nat.zero_add pos)
    (Credited.zero ring start credit) fuel
  rwa [Nat.add_zero, Nat.mod_eq_of_lt hstart] at hwalk

/-- A slot passed on the way does not afford its cost yet, unless the walk never reached it. -/
theorem Earliest.passed (h : Earliest ring start credit pos winner slot)
    (hquanta : ∀ slot ∈ ring, 0 < slot.quantum) (hstart : start < ring.length)
    (hend : Credited ring start credit (pos + 1) credit') {i : Nat} {other : Slot κ}
    (hi : ring[i]? = some other) (hne : i ≠ winner) :
    credit' other.key < other.cost ∨ credit' other.key = credit other.key := by
  have hilt : i < ring.length := (List.getElem?_eq_some_iff.mp hi).1
  have hquantum := hquanta other (List.mem_of_getElem? hi)
  rw [hend.slots i other hi]
  by_cases hreached : offset ring.length start i ≤ pos
  · refine Or.inl ?_
    rw [visits_succ_eq hilt hstart hreached]
    by_contra hafford
    have hneeded := (other.needed_le_iff hquantum _ _).mpr (Nat.not_lt.mp hafford)
    have hlater := h.lt_position hstart hi hne
    have hdiv := Nat.div_mul_le_self (pos - offset ring.length start i) ring.length
    have hmul : (other.needed (credit other.key) - 1) * ring.length ≤
        (pos - offset ring.length start i) / ring.length * ring.length :=
      Nat.mul_le_mul_right _ (Nat.sub_le_of_le_add hneeded)
    rw [position] at hlater
    omega
  · refine Or.inr ?_
    rw [visits_of_lt hilt hstart (by omega), Nat.zero_mul, Nat.add_zero]

/-- The served slot affords its cost, and did not before its last visit, unless it needed only one. -/
theorem Earliest.served (h : Earliest ring start credit pos winner slot)
    (hquanta : ∀ slot ∈ ring, 0 < slot.quantum) (hstart : start < ring.length)
    (hend : Credited ring start credit (pos + 1) credit') :
    slot.cost ≤ credit' slot.key ∧
      (credit' slot.key < slot.cost + slot.quantum ∨ credit' slot.key = credit slot.key + slot.quantum) := by
  have hquantum := hquanta slot (List.mem_of_getElem? h.found)
  have hpos : 0 < ring.length := by have := h.winner_lt; omega
  have hneeded := slot.needed_pos hquantum (credit slot.key)
  have hcount : visits ring.length start winner (pos + 1) = slot.needed (credit slot.key) := by
    have hreached : offset ring.length start winner ≤ pos := by
      rw [h.pos_eq]
      exact Nat.le_add_right _ _
    rw [visits_succ_eq h.winner_lt hstart hreached]
    have hsub : pos - offset ring.length start winner = (slot.needed (credit slot.key) - 1) * ring.length := by
      rw [h.pos_eq, position, Nat.add_sub_cancel_left]
    rw [hsub, Nat.mul_div_cancel _ hpos]
    omega
  rw [hend.slots winner slot h.found, hcount]
  obtain ⟨m, hm⟩ : ∃ m, slot.needed (credit slot.key) = m + 1 := ⟨slot.needed (credit slot.key) - 1, by omega⟩
  refine ⟨?_, ?_⟩
  · rw [hm]
    exact (slot.needed_le_iff hquantum _ _).mp (by omega)
  · cases m with
    | zero =>
      refine Or.inr ?_
      rw [hm, Nat.zero_add, Nat.one_mul]
    | succ m =>
      refine Or.inl ?_
      have hshort : ¬ slot.cost ≤ credit slot.key + (m + 1) * slot.quantum := by
        rw [← slot.needed_le_iff hquantum]
        omega
      rw [hm, Nat.succ_mul]
      omega

end Walk

end RingWalk
