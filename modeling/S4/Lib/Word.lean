import Mathlib

/-!
# Library — Word — checked and saturating arithmetic

Unsigned machine words are naturals and signed ones integers; the bound enters where an operation
can run past it.  `checkedAdd w` and `checkedMul w` return `none` past `2 ^ w - 1`, `checkedSub`
below zero, `satAdd w`, `satMul w` and `satAddInt w` stop at the largest word.
-/

namespace Lib

/-- The largest unsigned word of `w` bits. -/
def maxWord (w : Nat) : Nat := 2 ^ w - 1

def checkedAdd (w a b : Nat) : Option Nat := if a + b ≤ maxWord w then some (a + b) else none

def checkedMul (w a b : Nat) : Option Nat := if a * b ≤ maxWord w then some (a * b) else none

def checkedSub (a b : Nat) : Option Nat := if b ≤ a then some (a - b) else none

def satAdd (w a b : Nat) : Nat := min (a + b) (maxWord w)

def satMul (w a b : Nat) : Nat := min (a * b) (maxWord w)

/-- Signed addition that saturates at the largest and the smallest word of `w` bits. -/
def satAddInt (w : Nat) (a b : Int) : Int := max (-(2 ^ (w - 1))) (min (a + b) (2 ^ (w - 1) - 1))

variable {w a b n : Nat}

theorem checkedAdd_eq_some (h : checkedAdd w a b = some n) : n = a + b := by
  unfold checkedAdd at h
  split at h
  · exact (Option.some.inj h).symm
  · cases h

theorem checkedAdd_le (h : checkedAdd w a b = some n) : a + b ≤ maxWord w := by
  unfold checkedAdd at h
  split at h
  next hle => exact hle
  · cases h

theorem checkedAdd_of_le (h : a + b ≤ maxWord w) : checkedAdd w a b = some (a + b) :=
  if_pos h

theorem checkedMul_eq_some (h : checkedMul w a b = some n) : n = a * b := by
  rw [checkedMul] at h
  split at h
  · exact (Option.some.inj h).symm
  · cases h

theorem checkedSub_of_le (h : b ≤ a) : checkedSub a b = some (a - b) := if_pos h

theorem checkedSub_eq_some (h : checkedSub a b = some n) : n + b = a := by
  unfold checkedSub at h
  split at h
  · cases h; omega
  · cases h

theorem checkedSub_eq_sub (h : checkedSub a b = some n) : n = a - b :=
  Nat.eq_sub_of_add_eq (checkedSub_eq_some h)

end Lib
