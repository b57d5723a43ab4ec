import Mathlib.Algebra.Order.Ring.Int

/-!
# Fixed-width arithmetic on natural numbers and integers

Machine words are natural numbers; the operations that leave the range reduce explicitly.
Subtraction that saturates at zero is the subtraction of `ℕ`.
-/

namespace Word

open Nat

def u64Max : ℕ := 2 ^ 64 - 1

def i32Max : ℕ := 2 ^ 31 - 1

def addU64 (a b : ℕ) : ℕ := (a + b) % 2 ^ 64

variable {a b n : ℕ}

lemma addU64_of_lt (h : a + b < 2 ^ 64) : addU64 a b = a + b := by
  rw [addU64, mod_eq_of_lt h]

def mulU64 (a b : ℕ) : ℕ := a * b % 2 ^ 64

lemma mulU64_of_lt (h : a * b < 2 ^ 64) : mulU64 a b = a * b := by
  rw [mulU64, mod_eq_of_lt h]

def satAddU64 (a b : ℕ) : ℕ := min (a + b) u64Max

lemma satAddU64_of_le (h : a + b ≤ u64Max) : satAddU64 a b = a + b :=
  Nat.min_eq_left h

def toI32 (n : ℕ) : ℤ :=
  if n % 2 ^ 32 < 2 ^ 31 then (n % 2 ^ 32 : ℕ) else (n % 2 ^ 32 : ℕ) - 2 ^ 32

lemma toI32_of_lt (h : n < 2 ^ 31) : toI32 n = n := by
  have hmod : n % 2 ^ 32 = n := mod_eq_of_lt (by omega)
  rw [toI32, hmod, if_pos h]

def toU64 (z : ℤ) : ℕ := (z % 2 ^ 64).toNat

lemma toU64_natCast (h : n < 2 ^ 64) : toU64 n = n := by
  unfold toU64
  omega

def toI64 (n : ℕ) : ℤ :=
  if n % 2 ^ 64 < 2 ^ 63 then (n % 2 ^ 64 : ℕ) else (n % 2 ^ 64 : ℕ) - 2 ^ 64

lemma toI64_of_lt (h : n < 2 ^ 63) : toI64 n = n := by
  have hmod : n % 2 ^ 64 = n := mod_eq_of_lt (by omega)
  rw [toI64, hmod, if_pos h]

def wrapI32 (z : ℤ) : ℤ := toI32 (toU64 z)

lemma wrapI32_natCast (h : n < 2 ^ 31) : wrapI32 n = n := by
  rw [wrapI32, toU64_natCast (by omega), toI32_of_lt h]

end Word
