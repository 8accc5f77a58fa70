import Mathlib.Tactic

/-!
# Fixed-width arithmetic on naturals

A counter of a fixed-width source type is a natural number here, and every operation that can
leave the width says which of the three it is: wrapping, saturating or checked.
-/

namespace MachineInt

def u32Max : Nat := 4294967295
def u64Max : Nat := 18446744073709551615
def u128Max : Nat := 340282366920938463463374607431768211455

/-- `saturating_add`. -/
def saturatingAdd (max a b : Nat) : Nat := min (a + b) max

/-- `wrapping_add`; also an unchecked `+`, which a release build wraps. -/
def wrappingAdd (max a b : Nat) : Nat := (a + b) % (max + 1)

/-- `checked_add`. -/
def checkedAdd (max a b : Nat) : Option Nat := if a + b ≤ max then some (a + b) else none

/-- `checked_sub`. -/
def checkedSub (a b : Nat) : Option Nat := if b ≤ a then some (a - b) else none

theorem saturatingAdd_of_lt {max a b : Nat} (h : a + b ≤ max) : saturatingAdd max a b = a + b :=
  min_eq_left h

theorem wrappingAdd_of_le {max a b : Nat} (h : a + b ≤ max) : wrappingAdd max a b = a + b :=
  Nat.mod_eq_of_lt (Nat.lt_succ_of_le h)

end MachineInt
