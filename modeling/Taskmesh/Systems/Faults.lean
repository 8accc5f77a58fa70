import Taskmesh.Collections.MachineInt

/-!
# Programs that can fault

A program with assertions, expectations and unchecked arithmetic is a function into `Except ε`: an
error is the place where it stops for good. The rules below say when such a program agrees with the
function that computes its result and has no places to stop.
-/

namespace Faults

open MachineInt

variable {ε α β : Type}

/-- Stop at `place` unless `p` holds. -/
def ensure (place : ε) (p : Prop) [Decidable p] : Except ε Unit := if p then .ok () else .error place

/-- Stop at `place` unless there is a value. -/
def expect (place : ε) : Option α → Except ε α
  | some a => .ok a
  | none => .error place

@[simp] theorem ok_bind (a : α) (f : α → Except ε β) : (Except.ok a >>= f) = f a := rfl

@[simp] theorem pure_eq_ok (a : α) : (pure a : Except ε α) = .ok a := rfl

theorem ensure_ok {place : ε} {p : Prop} [Decidable p] (h : p) : ensure place p = .ok () := if_pos h

@[simp] theorem expect_some (place : ε) (a : α) : expect place (some a) = .ok a := rfl

/-! ## Unchecked arithmetic -/

/-- An unchecked sum of a width. -/
def addIn (place : ε) (max a b : Nat) : Except ε Nat := expect place (checkedAdd max a b)

/-- An unchecked difference. -/
def subOf (place : ε) (a b : Nat) : Except ε Nat := expect place (checkedSub a b)

/-- An unchecked product of a width. -/
def mulIn (place : ε) (max a b : Nat) : Except ε Nat :=
  if a * b ≤ max then .ok (a * b) else .error place

/-- An unchecked quotient. -/
def divBy (place : ε) (a b : Nat) : Except ε Nat := if b = 0 then .error place else .ok (a / b)

/-- An unchecked remainder. -/
def remBy (place : ε) (a b : Nat) : Except ε Nat := if b = 0 then .error place else .ok (a % b)

/-- An unchecked quotient, rounded up. -/
def divCeilBy (place : ε) (a b : Nat) : Except ε Nat :=
  if b = 0 then .error place else .ok ((a + b - 1) / b)

/-- The unchecked sum of a list, added up from the left. -/
def sumIn (place : ε) (max : Nat) (start : Nat) : List Nat → Except ε Nat
  | [] => .ok start
  | n :: rest => do
    let next ← addIn place max start n
    sumIn place max next rest

theorem addIn_ok {place : ε} {max a b : Nat} (h : a + b ≤ max) : addIn place max a b = .ok (a + b) := by
  simp [addIn, checkedAdd, h]

theorem subOf_ok {place : ε} {a b : Nat} (h : b ≤ a) : subOf place a b = .ok (a - b) := by
  simp [subOf, checkedSub, h]

theorem mulIn_ok {place : ε} {max a b : Nat} (h : a * b ≤ max) : mulIn place max a b = .ok (a * b) :=
  if_pos h

theorem divBy_ok {place : ε} {a b : Nat} (h : 0 < b) : divBy place a b = .ok (a / b) :=
  if_neg (Nat.ne_of_gt h)

theorem remBy_ok {place : ε} {a b : Nat} (h : 0 < b) : remBy place a b = .ok (a % b) :=
  if_neg (Nat.ne_of_gt h)

theorem divCeilBy_ok {place : ε} {a b : Nat} (h : 0 < b) :
    divCeilBy place a b = .ok ((a + b - 1) / b) := if_neg (Nat.ne_of_gt h)

/-- A sum that fits as a whole fits all the way. -/
theorem sumIn_ok {place : ε} {max start : Nat} {l : List Nat} (h : start + l.sum ≤ max) :
    sumIn place max start l = .ok (start + l.sum) := by
  induction l generalizing start with
  | nil => rfl
  | cons n rest ih =>
    rw [List.sum_cons] at h
    have hstep : start + n ≤ max := by omega
    have hrest : start + n + rest.sum ≤ max := by omega
    rw [sumIn, addIn_ok hstep, ok_bind, ih hrest, List.sum_cons, Nat.add_assoc]

/-! ## Loops -/

/-- Run a check over a list. -/
def checkEach (f : α → Except ε Unit) : List α → Except ε Unit
  | [] => .ok ()
  | a :: rest => do
    f a
    checkEach f rest

/-- The position of the first element a test accepts. -/
def findIndex (test : α → Except ε Bool) : List α → Except ε (Option Nat)
  | [] => .ok none
  | a :: rest => do
    if ← test a then return some 0
    let found ← findIndex test rest
    return found.map (· + 1)

/-- The first result a search finds. -/
def findFirst (search : α → Except ε (Option β)) : List α → Except ε (Option β)
  | [] => .ok none
  | a :: rest => do
    match ← search a with
    | some b => return some b
    | none => findFirst search rest

/-- Every result a search finds. -/
def collect (search : α → Except ε (Option β)) : List α → Except ε (List β)
  | [] => .ok []
  | a :: rest => do
    let found ← search a
    let others ← collect search rest
    return found.toList ++ others

/-- Map a list. -/
def mapEach (f : α → Except ε β) : List α → Except ε (List β)
  | [] => .ok []
  | a :: rest => do
    let b ← f a
    let others ← mapEach f rest
    return b :: others

/-- Fold a list. -/
def foldEach (f : β → α → Except ε β) : β → List α → Except ε β
  | b, [] => .ok b
  | b, a :: rest => do
    let next ← f b a
    foldEach f next rest

theorem checkEach_ok {f : α → Except ε Unit} {l : List α} (h : ∀ a ∈ l, f a = .ok ()) :
    checkEach f l = .ok () := by
  induction l with
  | nil => rfl
  | cons a rest ih =>
    rw [checkEach, h a List.mem_cons_self, ok_bind]
    exact ih fun a' ha' => h a' (List.mem_cons_of_mem _ ha')

theorem findIndex_ok {test : α → Except ε Bool} {p : α → Bool} {l : List α}
    (h : ∀ a ∈ l, test a = .ok (p a)) : findIndex test l = .ok (l.findIdx? p) := by
  induction l with
  | nil => rfl
  | cons a rest ih =>
    rw [findIndex, h a List.mem_cons_self, ok_bind, List.findIdx?_cons]
    cases hp : p a with
    | true => simp
    | false =>
      rw [ih fun a' ha' => h a' (List.mem_cons_of_mem _ ha')]
      simp

theorem findFirst_ok {search : α → Except ε (Option β)} {f : α → Option β} {l : List α}
    (h : ∀ a ∈ l, search a = .ok (f a)) : findFirst search l = .ok (l.findSome? f) := by
  induction l with
  | nil => rfl
  | cons a rest ih =>
    rw [findFirst, h a List.mem_cons_self, ok_bind, List.findSome?_cons]
    cases f a with
    | some b => rfl
    | none => exact ih fun a' ha' => h a' (List.mem_cons_of_mem _ ha')

theorem collect_ok {search : α → Except ε (Option β)} {f : α → Option β} {l : List α}
    (h : ∀ a ∈ l, search a = .ok (f a)) : collect search l = .ok (l.filterMap f) := by
  induction l with
  | nil => rfl
  | cons a rest ih =>
    rw [collect, h a List.mem_cons_self, ok_bind, ih fun a' ha' => h a' (List.mem_cons_of_mem _ ha'),
      ok_bind, List.filterMap_cons]
    cases f a with
    | some b => rfl
    | none => rfl

theorem mapEach_ok {f : α → Except ε β} {f' : α → β} {l : List α} (h : ∀ a ∈ l, f a = .ok (f' a)) :
    mapEach f l = .ok (l.map f') := by
  induction l with
  | nil => rfl
  | cons a rest ih =>
    rw [mapEach, h a List.mem_cons_self, ok_bind, ih fun a' ha' => h a' (List.mem_cons_of_mem _ ha')]
    rfl

/-- A fold agrees as long as an invariant of its accumulator holds. -/
theorem foldEach_ok {f : β → α → Except ε β} {f' : β → α → β} {l : List α} {I : β → Prop} {b : β}
    (hb : I b) (hstep : ∀ b a, I b → a ∈ l → f b a = .ok (f' b a) ∧ I (f' b a)) :
    foldEach f b l = .ok (l.foldl f' b) := by
  induction l generalizing b with
  | nil => rfl
  | cons a rest ih =>
    obtain ⟨hok, hnext⟩ := hstep b a hb List.mem_cons_self
    rw [foldEach, hok, ok_bind]
    exact ih hnext fun b' a' hb' ha' => hstep b' a' hb' (List.mem_cons_of_mem _ ha')

end Faults
