import Mathlib.Data.List.TakeWhile
import Mathlib.Data.UInt
import Mathlib.Tactic.Common

/-!
# Byte strings

Raw memory is a list of bytes.  A C string is the part of it before the first zero
byte.
-/

abbrev Bytes := List UInt8

namespace Bytes

def ofString (s : String) : Bytes := s.toList.map fun c => UInt8.ofNat c.toNat

def newline : UInt8 := 10

/-- What a C string function sees of the memory at a pointer. -/
def cstr (memory : Bytes) : Bytes := memory.takeWhile (· ≠ 0)

/-- The string left in a zeroed `n`-byte buffer by `strncpy`. -/
def strncpy (src : Bytes) (n : Nat) : Bytes := (cstr src).take n

theorem ne_zero_of_notMem {s : Bytes} (h : (0 : UInt8) ∉ s) : ∀ b ∈ s, b ≠ 0 := by
  rintro b hb rfl
  exact h hb

theorem cstr_ne_zero (memory : Bytes) : ∀ b ∈ cstr memory, b ≠ 0 := by
  intro b hb
  simpa using List.mem_takeWhile_imp hb

theorem cstr_append_zero {s : Bytes} (h : ∀ b ∈ s, b ≠ 0) (rest : Bytes) :
    cstr (s ++ 0 :: rest) = s := by
  rw [cstr, List.takeWhile_append_of_pos (by simpa using h)]
  simp

/-! ## Little-endian integers -/

def ofNatLE : (width n : Nat) → Bytes
  | 0, _ => []
  | width + 1, n => UInt8.ofNat (n % 256) :: ofNatLE width (n / 256)

def toNatLE : Bytes → Nat
  | [] => 0
  | b :: bs => b.toNat + 256 * toNatLE bs

@[simp] theorem length_ofNatLE (width n : Nat) : (ofNatLE width n).length = width := by
  induction width generalizing n with
  | zero => rfl
  | succ width ih => simp [ofNatLE, ih]

theorem toNatLE_ofNatLE {width n : Nat} (h : n < 256 ^ width) : toNatLE (ofNatLE width n) = n := by
  induction width generalizing n with
  | zero =>
    rw [ofNatLE, toNatLE]
    omega
  | succ width ih =>
    have hdiv : n / 256 < 256 ^ width := by
      rw [Nat.div_lt_iff_lt_mul (by decide), ← Nat.pow_succ]
      exact h
    have hbyte : (UInt8.ofNat (n % 256)).toNat = n % 256 := by
      simp
    rw [ofNatLE, toNatLE, ih hdiv, hbyte]
    omega

end Bytes
