import Mathlib.Data.Nat.ModEq
import Mathlib.Tactic.Common

/-!
# Sixty-four bit words as natural numbers

An `unsigned long` is represented by its value below `2 ^ 64`.  The operations
wrap exactly where the machine wraps; the lemmas give their value away from the
wrap, which is where almost every caller stands.
-/

namespace Word

def modulus : Nat := 2 ^ 64

/-- The value of `(unsigned long)-1`. -/
def allOnes : Nat := modulus - 1

def add (a b : Nat) : Nat := (a + b) % modulus

def sub (a b : Nat) : Nat := (a + (modulus - b % modulus)) % modulus

variable {a b n : Nat}

theorem add_of_lt (h : a + b < modulus) : add a b = a + b :=
  Nat.mod_eq_of_lt h

theorem add_allOnes_one : add allOnes 1 = 0 := by decide

theorem sub_of_le (hb : b ≤ a) (ha : a < modulus) : sub a b = a - b := by
  have hmod : b % modulus = b := Nat.mod_eq_of_lt (by omega)
  have hsum : a + (modulus - b) = a - b + modulus := by omega
  rw [sub, hmod, hsum, Nat.add_mod_right, Nat.mod_eq_of_lt (by omega)]

theorem add_sub_of_le {c : Nat} (hb : b < modulus) (hle : b ≤ a + c) (hlt : a + c - b < modulus) :
    add (sub a b) c = a + c - b := by
  have hmod : b % modulus = b := Nat.mod_eq_of_lt hb
  have hsum : a + (modulus - b) + c = a + c - b + modulus := by omega
  rw [add, sub, hmod, Nat.mod_add_mod, hsum, Nat.add_mod_right, Nat.mod_eq_of_lt hlt]

/-- Conversion of an `unsigned long` argument to a 32-bit `int` parameter. -/
def toInt32 (n : Nat) : Int :=
  if n % 2 ^ 32 < 2 ^ 31 then (n % 2 ^ 32 : Nat) else (n % 2 ^ 32 : Nat) - 2 ^ 32

theorem toInt32_mod (n : Nat) : toInt32 (n % 2 ^ 32) = toInt32 n := by
  simp only [toInt32, Nat.mod_mod]

theorem toInt32_le (n : Nat) : toInt32 n ≤ 2 ^ 31 - 1 := by
  unfold toInt32
  split <;> omega

/-- Conversion of an `unsigned long` to a 64-bit signed integer. -/
def toInt64 (n : Nat) : Int :=
  if n % modulus < 2 ^ 63 then (n % modulus : Nat) else (n % modulus : Nat) - 2 ^ 64

theorem toInt64_of_lt (h : n < 2 ^ 63) : toInt64 n = n := by
  have hmod : n % modulus = n := Nat.mod_eq_of_lt (by unfold modulus; omega)
  rw [toInt64, hmod, if_pos h]

theorem toInt64_eq_iff (ha : a < modulus) (hb : b < modulus) : toInt64 a = toInt64 b ↔ a = b := by
  unfold modulus at ha hb
  unfold toInt64 modulus
  constructor
  · intro h
    split at h <;> split at h <;> omega
  · intro h
    rw [h]

theorem toInt32_of_lt (h : n < 2 ^ 31) : toInt32 n = n := by
  have hmod : n % 2 ^ 32 = n := Nat.mod_eq_of_lt (by omega)
  rw [toInt32, hmod, if_pos h]

/-- Unsigned remainder; the machine traps on a zero divisor. -/
def rem (a b : Nat) : Option Nat := if b = 0 then none else some (a % b)

@[simp] theorem rem_of_pos (hb : 0 < b) : rem a b = some (a % b) := by
  simp [rem, Nat.ne_of_gt hb]

end Word
