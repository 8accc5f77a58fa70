import Taskmesh.Engine.Proofs.RootProofs

/-!
# The record of terminal tickets

The retention order and its reverse index are inverse maps over the terminal tickets. Recording an
outcome retains it as the newest and drops at most the oldest one; forgetting an outcome drops that
one alone.
-/

namespace Taskmesh

open Std MachineInt ExtTreeMap

namespace TicketBook

/-- The index of retained outcomes is exact. The retention sequence never repeats. -/
structure Retains (b : TicketBook) : Prop where
  terminal : ∀ t : Ticket, isTerminal b.tickets[t]? = true ↔ b.terminalIndex[t]? ≠ none
  inverse : ∀ (t : Ticket) (n : Nat), b.terminalIndex[t]? = some n ↔ b.terminalOrder[n]? = some t
  recent : ∀ (n : Nat) t, b.terminalOrder[n]? = some t → n < b.terminalSeq

variable {b b' b'' : TicketBook} {t t' : Ticket} {reason : TerminalReason} {n : Nat}

/-! ## Writing one ticket -/

/-- Writing a state that is not terminal over one that is not. -/
theorem Retains.set (h : b.Retains) {state : TicketState} (hold : isTerminal b.tickets[t]? = false)
    (hnew : isTerminal (some state) = false) :
    Retains { b with tickets := b.tickets.insert t state } := by
  refine ⟨fun t' => ?_, h.inverse, h.recent⟩
  rw [ExtTreeMap.getElem?_insert]
  by_cases heq : t = t'
  · subst heq
    have := h.terminal t
    rw [hold] at this
    simpa [hnew] using this
  · simp only [Std.LawfulEqCmp.compare_eq_iff_eq, heq, if_false]
    exact h.terminal t'

/-- A ticket that is not terminal can be dropped without touching the record of answers. -/
theorem Retains.unset (h : b.Retains) (hold : isTerminal b.tickets[t]? = false) :
    Retains { b with tickets := b.tickets.erase t } := by
  refine ⟨fun t' => ?_, h.inverse, h.recent⟩
  rw [ExtTreeMap.getElem?_erase]
  by_cases heq : t = t'
  · subst heq
    have := h.terminal t
    rw [hold] at this
    simpa [isTerminal] using this
  · simp only [Std.LawfulEqCmp.compare_eq_iff_eq, heq, if_false]
    exact h.terminal t'

theorem Retains.not_indexed (h : b.Retains) (hold : isTerminal b.tickets[t]? = false) :
    b.terminalIndex[t]? = none := by
  by_contra hne
  rw [(h.terminal t).mpr hne] at hold
  simp at hold

/-! ## Recording -/

/-- The book with one more outcome, before the bound is enforced. -/
def recorded (b : TicketBook) (t : Ticket) (reason : TerminalReason) : TicketBook where
  tickets := b.tickets.insert t (.terminal reason)
  terminalOrder := b.terminalOrder.insert b.terminalSeq t
  terminalIndex := b.terminalIndex.insert t b.terminalSeq
  terminalSeq := b.terminalSeq + 1

/-- Recording an answer keeps the record and its index in step. -/
theorem Retains.recorded (h : b.Retains) (hold : isTerminal b.tickets[t]? = false) :
    (b.recorded t reason).Retains := by
  have hnone := h.not_indexed hold
  refine ⟨fun t' => ?_, fun t' n => ?_, fun n t' hn => ?_⟩
  · simp only [TicketBook.recorded, ExtTreeMap.getElem?_insert]
    by_cases heq : t = t'
    · subst heq
      simp [isTerminal]
    · simp only [Std.LawfulEqCmp.compare_eq_iff_eq, heq, if_false]
      exact h.terminal t'
  · simp only [TicketBook.recorded, ExtTreeMap.getElem?_insert, Std.LawfulEqCmp.compare_eq_iff_eq]
    by_cases heq : t = t'
    · subst heq
      by_cases hn : b.terminalSeq = n
      · simp [hn]
      · simp only [if_true, Option.some.injEq, hn, if_false, false_iff]
        rw [← h.inverse, hnone]
        simp
    · by_cases hn : b.terminalSeq = n
      · subst hn
        simp only [heq, if_false, if_true, Option.some.injEq, iff_false]
        intro hidx
        exact Nat.lt_irrefl _ (h.recent _ _ ((h.inverse t' _).mp hidx))
      · simp only [heq, hn, if_false]
        exact h.inverse t' n
  · simp only [TicketBook.recorded, ExtTreeMap.getElem?_insert, Std.LawfulEqCmp.compare_eq_iff_eq] at hn ⊢
    split at hn
    · omega
    · have := h.recent n t' hn
      omega

/-- Recording a first answer writes it down and then evicts past the bound. -/
theorem recordTerminal_eq (h : b.Retains) (hold : isTerminal b.tickets[t]? = false)
    (hseq : b.terminalSeq < u64Max) :
    b.recordTerminal t reason =
      evict (b.recorded t reason).terminalOrder.size (b.recorded t reason) := by
  have hnone := h.not_indexed hold
  have herase : b.terminalIndex.erase t = b.terminalIndex := by
    ext t' n
    rw [ExtTreeMap.getElem?_erase]
    by_cases heq : t = t'
    · subst heq
      simp [hnone]
    · simp [heq]
  have hwrap : wrappingAdd u64Max b.terminalSeq 1 = b.terminalSeq + 1 := wrappingAdd_of_le (by omega)
  unfold recordTerminal TicketBook.recorded
  simp only [hnone, herase, hwrap]

/-! ## Eviction -/

/-- The oldest retained outcome, and what evicting it leaves. -/
theorem evictOldest_spec (h : b.Retains) (hne : b.terminalOrder.size ≠ 0) :
    ∃ (n : Nat) (t : Ticket), b.terminalOrder[n]? = some t ∧
      (∀ (m : Nat) t', b.terminalOrder[m]? = some t' → n ≤ m) ∧
      b.evictOldest =
        { b with
          tickets := b.tickets.erase t
          terminalOrder := b.terminalOrder.erase n
          terminalIndex := b.terminalIndex.erase t } := by
  have hlen : b.terminalOrder.toList ≠ [] := by
    intro hnil
    rw [← ExtTreeMap.length_toList, hnil] at hne
    exact hne rfl
  obtain ⟨⟨n, t⟩, rest, hlist⟩ := List.exists_cons_of_ne_nil hlen
  have hn : b.terminalOrder[n]? = some t := mem_toList.mp (by rw [hlist]; exact List.mem_cons_self)
  refine ⟨n, t, hn, fun m t' hm => ?_, ?_⟩
  · have hmem := mem_toList.mpr hm
    have hordered := ExtTreeMap.ordered_keys_toList (t := b.terminalOrder)
    rw [hlist] at hmem hordered
    rcases List.mem_cons.mp hmem with heq | hmem
    · simp only [Prod.mk.injEq] at heq
      omega
    · have := (List.pairwise_cons.mp hordered).1 (m, t') hmem
      rw [Nat.compare_eq_lt] at this
      exact Nat.le_of_lt this
  · have hterminal : isTerminal b.tickets[t]? = true := by
      rw [h.terminal, (h.inverse t n).mpr hn]
      simp
    unfold evictOldest
    rw [hlist]
    simp only [List.head?_cons, hterminal, if_true]

/-- Evicting the oldest answer keeps the record and its index in step. -/
theorem Retains.evicted (h : b.Retains) {n : Nat} (hn : b.terminalOrder[n]? = some t) :
    Retains
      { b with
        tickets := b.tickets.erase t
        terminalOrder := b.terminalOrder.erase n
        terminalIndex := b.terminalIndex.erase t } := by
  refine ⟨fun t' => ?_, fun t' m => ?_, fun m t' hm => ?_⟩
  · simp only [ExtTreeMap.getElem?_erase, Std.LawfulEqCmp.compare_eq_iff_eq]
    by_cases heq : t = t'
    · simp [heq, isTerminal]
    · simp only [heq, if_false]
      exact h.terminal t'
  · simp only [ExtTreeMap.getElem?_erase, Std.LawfulEqCmp.compare_eq_iff_eq]
    by_cases heq : t = t'
    · subst heq
      by_cases hm : n = m
      · simp [hm]
      · simp only [if_true, reduceCtorEq, hm, if_false, false_iff]
        rw [← h.inverse, (h.inverse t n).mpr hn]
        simpa using hm
    · by_cases hm : n = m
      · subst hm
        simp only [heq, if_false, if_true, reduceCtorEq, iff_false]
        rw [h.inverse, hn]
        simpa using heq
      · simp only [heq, hm, if_false]
        exact h.inverse t' m
  · simp only [ExtTreeMap.getElem?_erase, Std.LawfulEqCmp.compare_eq_iff_eq] at hm
    split at hm
    · simp at hm
    · exact h.recent m t' hm

theorem evict_of_le (fuel : Nat) (hle : b.terminalOrder.size ≤ maxTerminalTickets) : b.evict fuel = b := by
  cases fuel with
  | zero => rfl
  | succ fuel =>
    unfold evict
    rw [if_neg (by omega)]

/-! ## What recording and forgetting do -/

/-- One ticket was written, and otherwise at most retained outcomes were dropped. -/
structure Changed (b b' : TicketBook) (t : Ticket) (state : Option TicketState) : Prop where
  written : b'.tickets[t]? = state
  others : ∀ t' : Ticket, t' ≠ t → b'.tickets[t']? = b.tickets[t']? ∨
    (isTerminal b.tickets[t']? = true ∧ b'.tickets[t']? = none)

/-- A ticket that is not terminal has no place in the record. -/
theorem Retains.not_retained (h : b.Retains) (hold : isTerminal b.tickets[t]? = false) (n : Nat) :
    b.terminalOrder[n]? ≠ some t := by
  intro hn
  have hindex := (h.inverse t n).mpr hn
  rw [h.not_indexed hold] at hindex
  simp at hindex

theorem size_recorded (t : Ticket) (reason : TerminalReason) (h : b.Retains) :
    (b.recorded t reason).terminalOrder.size = b.terminalOrder.size + 1 := by
  have hmem : b.terminalSeq ∉ b.terminalOrder := by
    rw [ExtTreeMap.mem_iff_isSome_getElem?]
    cases hx : b.terminalOrder[b.terminalSeq]? with
    | none => simp
    | some t' => exact absurd (h.recent _ _ hx) (Nat.lt_irrefl _)
  show (b.terminalOrder.insert b.terminalSeq t).size = _
  rw [ExtTreeMap.size_insert]
  simp [hmem]

/-- The book without the retained outcome `t`, which is number `n`. -/
def evicted (b : TicketBook) (n : Nat) (t : Ticket) : TicketBook :=
  { b with
    tickets := b.tickets.erase t
    terminalOrder := b.terminalOrder.erase n
    terminalIndex := b.terminalIndex.erase t }

/-- An outcome is recorded as the newest; a full record gives up its oldest outcome for it. -/
theorem recordTerminal_cases (reason : TerminalReason) (h : b.Retains) (hbound : b.terminalOrder.size ≤ maxTerminalTickets)
    (hold : isTerminal b.tickets[t]? = false) (hseq : b.terminalSeq < u64Max) :
    (b.terminalOrder.size < maxTerminalTickets ∧ b.recordTerminal t reason = b.recorded t reason) ∨
      ∃ (n : Nat) (t₀ : Ticket), b.terminalOrder.size = maxTerminalTickets ∧ b.terminalOrder[n]? = some t₀ ∧
        (∀ (m : Nat) t', b.terminalOrder[m]? = some t' → n ≤ m) ∧
        b.recordTerminal t reason = (b.recorded t reason).evicted n t₀ := by
  have hrecorded : (b.recorded t reason).Retains := h.recorded hold
  have hsize : (b.recorded t reason).terminalOrder.size = b.terminalOrder.size + 1 := size_recorded t reason h
  rw [recordTerminal_eq h hold hseq, hsize]
  rcases Nat.lt_or_ge b.terminalOrder.size maxTerminalTickets with hroom | hfull
  · rw [evict_of_le _ (by omega)]
    exact Or.inl ⟨hroom, rfl⟩
  · -- One outcome too many: the oldest goes, and it is not the one just recorded.
    obtain ⟨n, t₀, hn, hfirst, heq⟩ := evictOldest_spec hrecorded (by omega)
    have hkept : ∀ (m : Nat) t', b.terminalOrder[m]? = some t' →
        (b.recorded t reason).terminalOrder[m]? = some t' := by
      intro m t' hm
      have hne : ¬ b.terminalSeq = m := Nat.ne_of_gt (h.recent m t' hm)
      simp [TicketBook.recorded, ExtTreeMap.getElem?_insert, hne, hm]
    obtain ⟨m, t', hm⟩ : ∃ (m : Nat) (t' : Ticket), b.terminalOrder[m]? = some t' := by
      have hpos : b.terminalOrder.toList ≠ [] := by
        intro hnil
        have := ExtTreeMap.length_toList (t := b.terminalOrder)
        rw [hnil] at this
        simp only [List.length_nil, maxTerminalTickets] at this hfull
        omega
      obtain ⟨⟨m, t'⟩, rest, hlist⟩ := List.exists_cons_of_ne_nil hpos
      exact ⟨m, t', mem_toList.mp (by rw [hlist]; exact List.mem_cons_self)⟩
    have holdest : b.terminalOrder[n]? = some t₀ := by
      have hle := hfirst m t' (hkept m t' hm)
      have hlt := h.recent m t' hm
      have hne : ¬ b.terminalSeq = n := by omega
      simpa [TicketBook.recorded, ExtTreeMap.getElem?_insert, hne] using hn
    have hsize' : (b.recorded t reason).evictOldest.terminalOrder.size ≤ maxTerminalTickets := by
      rw [heq]
      have hmem : n ∈ (b.recorded t reason).terminalOrder := by
        rw [ExtTreeMap.mem_iff_isSome_getElem?, hn]
        simp
      show ((b.recorded t reason).terminalOrder.erase n).size ≤ maxTerminalTickets
      rw [ExtTreeMap.size_erase, if_pos (ExtTreeMap.contains_iff_mem.mpr hmem)]
      omega
    refine Or.inr ⟨n, t₀, Nat.le_antisymm hbound hfull, holdest, fun m t' hm => hfirst m t' (hkept m t' hm), ?_⟩
    rw [evict, if_pos (by omega), evict_of_le _ hsize', heq]
    rfl

/-- Recording an outcome keeps the record exact and within its bound. -/
theorem recordTerminal_spec (h : b.Retains) (hbound : b.terminalOrder.size ≤ maxTerminalTickets)
    (hold : isTerminal b.tickets[t]? = false) (hseq : b.terminalSeq < u64Max) :
    (b.recordTerminal t reason).Retains ∧
      (b.recordTerminal t reason).terminalOrder.size ≤ maxTerminalTickets ∧
      (b.recordTerminal t reason).terminalSeq = b.terminalSeq + 1 ∧
      Changed b (b.recordTerminal t reason) t (some (.terminal reason)) := by
  have hrecorded : (b.recorded t reason).Retains := h.recorded hold
  have hsize : (b.recorded t reason).terminalOrder.size = b.terminalOrder.size + 1 := size_recorded t reason h
  have hwritten : (b.recorded t reason).tickets[t]? = some (.terminal reason) := by
    simp [TicketBook.recorded]
  have hothers : ∀ t', t' ≠ t → (b.recorded t reason).tickets[t']? = b.tickets[t']? := by
    intro t' hne
    simp [TicketBook.recorded, ExtTreeMap.getElem?_insert, Ne.symm hne]
  rcases recordTerminal_cases reason h hbound hold hseq with ⟨hroom, heq⟩ |
    ⟨n, t₀, hfull, hn, _, heq⟩
  · rw [heq]
    exact ⟨hrecorded, by omega, rfl, hwritten, fun t' hne => Or.inl (hothers t' hne)⟩
  · rw [heq]
    have hne : t₀ ≠ t := by
      rintro rfl
      exact h.not_retained hold n hn
    have hn' : (b.recorded t reason).terminalOrder[n]? = some t₀ := by
      have hlast : ¬ b.terminalSeq = n := Nat.ne_of_gt (h.recent n t₀ hn)
      simp [TicketBook.recorded, ExtTreeMap.getElem?_insert, hlast, hn]
    have hmem : n ∈ (b.recorded t reason).terminalOrder := by
      rw [ExtTreeMap.mem_iff_isSome_getElem?, hn']
      simp
    refine ⟨hrecorded.evicted hn', ?_, rfl, ?_, fun t' hne' => ?_⟩
    · show ((b.recorded t reason).terminalOrder.erase n).size ≤ maxTerminalTickets
      rw [ExtTreeMap.size_erase, if_pos (ExtTreeMap.contains_iff_mem.mpr hmem)]
      omega
    · simp only [TicketBook.evicted, ExtTreeMap.getElem?_erase, Std.LawfulEqCmp.compare_eq_iff_eq, hne,
        if_false]
      exact hwritten
    · simp only [TicketBook.evicted, ExtTreeMap.getElem?_erase, Std.LawfulEqCmp.compare_eq_iff_eq]
      by_cases ht₀ : t₀ = t'
      · subst ht₀
        refine Or.inr ⟨?_, by simp⟩
        rw [h.terminal, (h.inverse t₀ n).mpr hn]
        simp
      · simp only [ht₀, if_false]
        exact Or.inl (hothers t' hne')

/-- Forgetting drops a terminal or faulted ticket, and nothing else. -/
theorem forgetTerminal_spec (h : b.Retains) :
    (b.forgetTerminal t).Retains ∧ (b.forgetTerminal t).terminalOrder.size ≤ b.terminalOrder.size ∧
      ∀ t' : Ticket, (b.forgetTerminal t).tickets[t']? =
        if t' = t ∧ isFinal b.tickets[t]? = true then none else b.tickets[t']? := by
  have htickets : ∀ t' : Ticket, (b.forgetTerminal t).tickets[t']? =
      if t' = t ∧ isFinal b.tickets[t]? = true then none else b.tickets[t']? := by
    intro t'
    unfold forgetTerminal
    by_cases hfinal : isFinal b.tickets[t]? = true
    · simp only [hfinal, if_true, ExtTreeMap.getElem?_erase, Std.LawfulEqCmp.compare_eq_iff_eq, and_true]
      by_cases heq : t = t'
      · simp [heq]
      · simp [heq, Ne.symm heq]
    · simp [hfinal]
  refine ⟨?_, ?_, htickets⟩
  · cases hidx : b.terminalIndex[t]? with
    | none =>
      have hnot : isTerminal b.tickets[t]? = false := by
        by_contra hc
        exact (h.terminal t).mp (by simpa using hc) hidx
      have hindex : (b.forgetTerminal t).terminalIndex = b.terminalIndex := by
        ext t' n
        show (b.terminalIndex.erase t)[t']? = some n ↔ _
        rw [ExtTreeMap.getElem?_erase]
        by_cases heq : t = t'
        · subst heq
          simp [hidx]
        · simp [heq]
      have horder : (b.forgetTerminal t).terminalOrder = b.terminalOrder := by
        unfold forgetTerminal
        simp [hidx]
      refine ⟨fun t' => ?_, ?_, ?_⟩
      · rw [htickets, hindex]
        split
        · rename_i hc
          rw [hc.1, hidx]
          simp [isTerminal]
        · exact h.terminal t'
      · rw [hindex, horder]
        exact h.inverse
      · rw [horder]
        exact h.recent
    | some n =>
      have hn := (h.inverse t n).mp hidx
      have hterminal : isTerminal b.tickets[t]? = true := by
        rw [h.terminal, hidx]
        simp
      have hfinal : isFinal b.tickets[t]? = true := by
        revert hterminal
        cases b.tickets[t]? with
        | none => simp [isTerminal]
        | some state => cases state <;> simp [isTerminal, isFinal]
      have heq : b.forgetTerminal t =
          { b with
            tickets := b.tickets.erase t
            terminalOrder := b.terminalOrder.erase n
            terminalIndex := b.terminalIndex.erase t } := by
        unfold forgetTerminal
        simp only [hfinal, if_true, hidx]
      rw [heq]
      exact h.evicted hn
  · unfold forgetTerminal
    cases hidx : b.terminalIndex[t]? with
    | none => simp
    | some n => exact ExtTreeMap.size_erase_le

/-- The two maps have the same number of entries. -/
theorem Retains.size_eq (h : b.Retains) : b.terminalIndex.size = b.terminalOrder.size := by
  have hperm : (b.terminalIndex.toList.map Prod.swap).Perm b.terminalOrder.toList := by
    refine (List.perm_ext_iff_of_nodup ?_ (nodup_toList _)).mpr ?_
    · exact (nodup_toList _).map Prod.swap_injective
    · rintro ⟨n, t⟩
      rw [mem_toList, ← h.inverse, ← mem_toList]
      simp
  have := hperm.length_eq
  rwa [List.length_map, ExtTreeMap.length_toList, ExtTreeMap.length_toList] at this

/-! ## The record ages -/

/-- The record is full, and everything in it is newer than number `n`. -/
structure FullSince (b : TicketBook) (n : Nat) : Prop where
  full : b.terminalOrder.size = maxTerminalTickets
  newer : ∀ (m : Nat) t, b.terminalOrder[m]? = some t → n < m

/-- Outcomes leave the record only for newer ones that fill it. -/
structure Ages (b b' : TicketBook) : Prop where
  kept : ∀ (n : Nat) t, b.terminalOrder[n]? = some t → b'.terminalOrder[n]? = some t ∨ b'.FullSince n
  full : ∀ n, b.FullSince n → b'.FullSince n

theorem Ages.of_eq (h : b'.terminalOrder = b.terminalOrder) : b.Ages b' := by
  refine ⟨fun n t hn => Or.inl (h ▸ hn), fun n hfull => ⟨h ▸ hfull.full, ?_⟩⟩
  rw [h]
  exact hfull.newer

theorem Ages.trans (h : b.Ages b') (h' : b'.Ages b'') : b.Ages b'' := by
  refine ⟨fun n t hn => ?_, fun n hfull => h'.full n (h.full n hfull)⟩
  rcases h.kept n t hn with hkept | hfull
  · exact h'.kept n t hkept
  · exact Or.inr (h'.full n hfull)

/-- The record after one more answer: the old one and the new answer at its end. -/
theorem getElem_recorded (h : b.Retains) {t' : Ticket} :
    (b.recorded t reason).terminalOrder[n]? = some t' ↔
      (n = b.terminalSeq ∧ t = t') ∨ b.terminalOrder[n]? = some t' := by
  simp only [TicketBook.recorded, ExtTreeMap.getElem?_insert, Std.LawfulEqCmp.compare_eq_iff_eq]
  by_cases hn : b.terminalSeq = n
  · subst hn
    have hnone : b.terminalOrder[b.terminalSeq]? ≠ some t' :=
      fun hsome => Nat.lt_irrefl _ (h.recent _ _ hsome)
    simp [hnone]
  · have hn' : ¬ n = b.terminalSeq := fun heq => hn heq.symm
    simp [hn, hn']

/-- The record after an eviction: the old one without that place. -/
theorem getElem_evicted {m : Nat} {t₀ t' : Ticket} :
    (b.evicted n t₀).terminalOrder[m]? = some t' ↔ n ≠ m ∧ b.terminalOrder[m]? = some t' := by
  simp only [TicketBook.evicted, ExtTreeMap.getElem?_erase, Std.LawfulEqCmp.compare_eq_iff_eq]
  by_cases hnm : n = m
  · simp [hnm]
  · simp [hnm]

theorem exists_retained (hsize : b.terminalOrder.size ≠ 0) :
    ∃ (m : Nat) (t : Ticket), b.terminalOrder[m]? = some t := by
  have hne : b.terminalOrder.toList ≠ [] := by
    intro hnil
    rw [← ExtTreeMap.length_toList, hnil] at hsize
    exact hsize rfl
  obtain ⟨⟨m, t⟩, rest, hlist⟩ := List.exists_cons_of_ne_nil hne
  exact ⟨m, t, mem_toList.mp (by rw [hlist]; exact List.mem_cons_self)⟩

/-- A place the full record has moved past is below the next sequence number. -/
theorem FullSince.lt_seq (hfull : b.FullSince n) (h : b.Retains) : n < b.terminalSeq := by
  have hsize : b.terminalOrder.size = 4096 := hfull.full
  obtain ⟨m, t, hm⟩ := exists_retained (b := b) (by omega)
  exact Nat.lt_trans (hfull.newer m t hm) (h.recent m t hm)

theorem size_evicted {t₀ : Ticket} (hn : b.terminalOrder[n]? = some t₀) :
    (b.evicted n t₀).terminalOrder.size + 1 = b.terminalOrder.size := by
  have hmem : n ∈ b.terminalOrder := by
    rw [ExtTreeMap.mem_iff_isSome_getElem?, hn]
    rfl
  have hpos := List.length_pos_of_mem (mem_toList.mpr hn)
  rw [ExtTreeMap.length_toList] at hpos
  show (b.terminalOrder.erase n).size + 1 = _
  rw [ExtTreeMap.size_erase, if_pos (ExtTreeMap.contains_iff_mem.mpr hmem)]
  omega

/-- Recording makes room by the oldest outcome alone, and only when the record is full. -/
theorem recordTerminal_ages (h : b.Retains) (hbound : b.terminalOrder.size ≤ maxTerminalTickets)
    (hold : isTerminal b.tickets[t]? = false) (hseq : b.terminalSeq < u64Max) :
    b.Ages (b.recordTerminal t reason) := by
  rcases recordTerminal_cases reason h hbound hold hseq with ⟨hroom, heq⟩ |
    ⟨n, t₀, hsize, hn, hfirst, heq⟩
  · rw [heq]
    refine ⟨fun m t' hm => Or.inl ((getElem_recorded h).mpr (Or.inr hm)), fun m hfull => ?_⟩
    have := hfull.full
    omega
  · have hn' : (b.recorded t reason).terminalOrder[n]? = some t₀ := (getElem_recorded h).mpr (Or.inr hn)
    have hfullSize : ((b.recorded t reason).evicted n t₀).terminalOrder.size = maxTerminalTickets := by
      have hevicted := size_evicted hn'
      have hrecorded := size_recorded t reason h
      omega
    rw [heq]
    refine ⟨fun m t' hm => ?_, fun m hfull => ⟨hfullSize, fun m' t' hm' => ?_⟩⟩
    · by_cases hnm : n = m
      · subst hnm
        refine Or.inr ⟨hfullSize, fun m' t' hm' => ?_⟩
        obtain ⟨hne, hm'⟩ := getElem_evicted.mp hm'
        rcases (getElem_recorded h).mp hm' with ⟨rfl, _⟩ | hm'
        · exact h.recent n _ hm
        · have := hfirst m' t' hm'
          omega
      · exact Or.inl (getElem_evicted.mpr ⟨hnm, (getElem_recorded h).mpr (Or.inr hm)⟩)
    · obtain ⟨_, hm'⟩ := getElem_evicted.mp hm'
      rcases (getElem_recorded h).mp hm' with ⟨rfl, _⟩ | hm'
      · exact hfull.lt_seq h
      · exact hfull.newer m' t' hm'

/-- A record one short of full, of which everything is newer than number `n`, is full since `n` with the
next outcome. -/
theorem fullSince_recordTerminal (h : b.Retains)
    (hsize : b.terminalOrder.size + 1 = maxTerminalTickets)
    (hnewer : ∀ (m : Nat) t, b.terminalOrder[m]? = some t → n < m)
    (hold : isTerminal b.tickets[t]? = false) (hseq : b.terminalSeq < u64Max) :
    (b.recordTerminal t reason).FullSince n := by
  have hmax : maxTerminalTickets = 4096 := rfl
  rcases recordTerminal_cases reason h (by omega) hold hseq with ⟨hroom, heq⟩ | ⟨_, _, hfull, _⟩
  · have hrecorded := size_recorded t reason h
    rw [heq]
    refine ⟨by omega, fun m t' hm => ?_⟩
    rcases (getElem_recorded h).mp hm with ⟨rfl, _⟩ | hm
    · obtain ⟨m, t', hm⟩ := exists_retained (b := b) (by omega)
      exact Nat.lt_trans (hnewer m t' hm) (h.recent m t' hm)
    · exact hnewer m t' hm
  · omega

theorem terminalOrder_forgetTerminal {m : Nat} (hindex : b.terminalIndex[t]? = some m) :
    (b.forgetTerminal t).terminalOrder = b.terminalOrder.erase m := by
  unfold TicketBook.forgetTerminal
  simp only [hindex]

/-- An outcome recorded and forgotten at once changes nothing, unless the record was full: then the oldest
outcome is lost. -/
theorem forgetTerminal_recordTerminal (reason : TerminalReason) (h : b.Retains)
    (hbound : b.terminalOrder.size ≤ maxTerminalTickets) (hold : isTerminal b.tickets[t]? = false)
    (hseq : b.terminalSeq < u64Max) :
    (b.terminalOrder.size < maxTerminalTickets ∧
        ((b.recordTerminal t reason).forgetTerminal t).terminalOrder = b.terminalOrder) ∨
      ∃ (n : Nat) (t₀ : Ticket), b.terminalOrder.size = maxTerminalTickets ∧ b.terminalOrder[n]? = some t₀ ∧
        (∀ (m : Nat) t', b.terminalOrder[m]? = some t' → n ≤ m) ∧
        ((b.recordTerminal t reason).forgetTerminal t).terminalOrder = b.terminalOrder.erase n := by
  have hlast : b.terminalOrder[b.terminalSeq]? = none := by
    cases hx : b.terminalOrder[b.terminalSeq]? with
    | none => rfl
    | some t' => exact absurd (h.recent _ _ hx) (Nat.lt_irrefl _)
  have hindex : (b.recorded t reason).terminalIndex[t]? = some b.terminalSeq := by
    simp [TicketBook.recorded]
  rcases recordTerminal_cases reason h hbound hold hseq with ⟨hroom, heq⟩ |
    ⟨n, t₀, hfull, hn, hfirst, heq⟩
  · refine Or.inl ⟨hroom, ?_⟩
    rw [heq, terminalOrder_forgetTerminal hindex]
    ext m t'
    simp only [TicketBook.recorded, ExtTreeMap.getElem?_erase, ExtTreeMap.getElem?_insert,
      Std.LawfulEqCmp.compare_eq_iff_eq]
    by_cases hm : b.terminalSeq = m
    · subst hm
      simp [hlast]
    · simp [hm]
  · refine Or.inr ⟨n, t₀, hfull, hn, hfirst, ?_⟩
    have hne : ¬ t₀ = t := by
      rintro rfl
      exact h.not_retained hold n hn
    have hindex' : ((b.recorded t reason).evicted n t₀).terminalIndex[t]? = some b.terminalSeq := by
      simp only [TicketBook.evicted, ExtTreeMap.getElem?_erase, Std.LawfulEqCmp.compare_eq_iff_eq, hne,
        if_false]
      exact hindex
    rw [heq, terminalOrder_forgetTerminal hindex']
    ext m t'
    simp only [TicketBook.evicted, TicketBook.recorded, ExtTreeMap.getElem?_erase, ExtTreeMap.getElem?_insert,
      Std.LawfulEqCmp.compare_eq_iff_eq]
    by_cases hm : b.terminalSeq = m
    · subst hm
      simp [hlast]
    · simp [hm]

end TicketBook

end Taskmesh
