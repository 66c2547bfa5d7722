import Cspot.Lib.Bytes
import Cspot.Lib.Word

/-!
# Decimal text

Unsigned and signed integers as the C and C++ libraries write and read them: optional
blanks, an optional sign, and as many digits as follow.
-/

namespace Decimal

def ofNat (n : Nat) : Bytes := (Nat.toDigits 10 n).map fun c => UInt8.ofNat c.toNat

def ofInt : Int → Bytes
  | .ofNat n => ofNat n
  | .negSucc n => 45 :: ofNat (n + 1)

variable {n : Nat}

theorem toNat_of_mem_toDigits {c : Char} (hc : c ∈ Nat.toDigits 10 n) :
    48 ≤ c.toNat ∧ c.toNat ≤ 57 := by
  have hdigit := Nat.isDigit_of_mem_toDigits (by decide) (by decide) hc
  simp only [Char.isDigit, Bool.and_eq_true, decide_eq_true_eq] at hdigit
  exact hdigit

theorem ofNat_ne_zero : ∀ b ∈ ofNat n, b ≠ 0 := by
  intro b hb
  obtain ⟨c, hc, rfl⟩ := List.mem_map.1 hb
  obtain ⟨hlow, hhigh⟩ := toNat_of_mem_toDigits hc
  intro h
  have hval := congrArg UInt8.toNat h
  simp only [UInt8.toNat_ofNat', UInt8.toNat_zero] at hval
  omega

theorem length_ofNat_le_iff {k : Nat} (hk : 0 < k) : (ofNat n).length ≤ k ↔ n < 10 ^ k := by
  rw [ofNat, List.length_map]
  exact Nat.length_toDigits_le_iff (by decide) hk

/-! ## Reading -/

def isSpace (b : UInt8) : Bool := b = 32 || (9 ≤ b && b ≤ 13)

def isDigit (b : UInt8) : Bool := 48 ≤ b && b ≤ 57

/-- A number at the front of a text: its sign, its digits, and the text behind it. -/
structure Scan where
  negative : Bool
  magnitude : Nat
  rest : Bytes
deriving Repr, DecidableEq

def scan (s : Bytes) : Option Scan :=
  let text := s.dropWhile isSpace
  let signed := text.head? = some 45 || text.head? = some 43
  let body := if signed then text.tail else text
  let digits := body.takeWhile isDigit
  if digits = [] then none
  else some
    { negative := text.head? = some 45
      magnitude := digits.foldl (fun n b => 10 * n + (b.toNat - 48)) 0
      rest := body.dropWhile isDigit }

def Scan.toInt (r : Scan) : Int := if r.negative then -r.magnitude else r.magnitude

/-- A negative number wraps, and one too large becomes the largest. -/
def strtoul (s : Bytes) : Nat :=
  match scan s with
  | none => 0
  | some r =>
    if Word.modulus ≤ r.magnitude then Word.allOnes
    else if r.negative then Word.sub 0 r.magnitude else r.magnitude

/-- `std::stoull`; none when it throws. -/
def stoull (s : Bytes) : Option Nat :=
  match scan s with
  | none => none
  | some r =>
    if Word.modulus ≤ r.magnitude then none
    else if r.negative then some (Word.sub 0 r.magnitude) else some r.magnitude

/-- `std::stoi`; none when it throws. -/
def stoi (s : Bytes) : Option Int :=
  match scan s with
  | none => none
  | some r => if -2 ^ 31 ≤ r.toInt ∧ r.toInt < 2 ^ 31 then some r.toInt else none

def strtol (s : Bytes) : Int × Bytes :=
  match scan s with
  | none => (0, s)
  | some r => (max (-2 ^ 63) (min r.toInt (2 ^ 63 - 1)), r.rest)

/-! ## Reading what was written -/

theorem isDigit_of_mem_ofNat {b : UInt8} (hb : b ∈ ofNat n) : isDigit b = true := by
  obtain ⟨c, hc, rfl⟩ := List.mem_map.1 hb
  obtain ⟨hlow, hhigh⟩ := toNat_of_mem_toDigits hc
  simp only [isDigit, Bool.and_eq_true, decide_eq_true_eq, UInt8.le_iff_toNat_le,
    UInt8.toNat_ofNat']
  exact ⟨by simp; omega, by simp; omega⟩

theorem ofNat_ne_nil (n : Nat) : ofNat n ≠ [] := by
  simp [ofNat]

theorem foldl_ofNat (n : Nat) :
    (ofNat n).foldl (fun n b => 10 * n + (b.toNat - 48)) 0 = n := by
  have hvalue := Nat.ofDigitChars_ten_toDigits (n := n)
  rw [ofNat, List.foldl_map]
  conv_rhs => rw [← hvalue]
  apply List.foldl_ext
  intro m c hc
  obtain ⟨-, hhigh⟩ := toNat_of_mem_toDigits hc
  rw [UInt8.toNat_ofNat', Nat.mod_eq_of_lt (by omega)]
  rfl

theorem isSpace_of_isDigit {b : UInt8} (h : isDigit b = true) :
    isSpace b = false ∧ b ≠ 45 ∧ b ≠ 43 := by
  simp only [isDigit, Bool.and_eq_true, decide_eq_true_eq, UInt8.le_iff_toNat_le] at h
  have hlow : 48 ≤ b.toNat := h.1
  refine ⟨?_, fun heq => ?_, fun heq => ?_⟩
  · have hblank : b ≠ 32 := fun heq => by
      rw [heq] at hlow
      exact absurd hlow (by decide)
    have htab : ¬ b.toNat ≤ 13 := by omega
    simp only [isSpace, hblank, decide_false, Bool.false_or, Bool.and_eq_false_iff,
      decide_eq_false_iff_not, UInt8.le_iff_toNat_le]
    exact .inr htab
  · rw [heq] at hlow
    exact absurd hlow (by decide)
  · rw [heq] at hlow
    exact absurd hlow (by decide)

theorem scan_ofNat (n : Nat) : scan (ofNat n) = some ⟨false, n, []⟩ := by
  obtain ⟨b, rest, hcons⟩ := List.exists_cons_of_ne_nil (ofNat_ne_nil n)
  have hb : isDigit b = true := isDigit_of_mem_ofNat (hcons ▸ List.mem_cons_self)
  obtain ⟨hspace, hminus, hplus⟩ := isSpace_of_isDigit hb
  have hall : ∀ b ∈ ofNat n, isDigit b = true := fun b hb => isDigit_of_mem_ofNat hb
  have hskip : (ofNat n).dropWhile isSpace = ofNat n := by
    rw [hcons, List.dropWhile_cons_of_neg (by simp [hspace])]
  have hhead : (ofNat n).head? = some b := by rw [hcons]; rfl
  have htake : (ofNat n).takeWhile isDigit = ofNat n := List.takeWhile_eq_self_iff.2 hall
  have hrest : (ofNat n).dropWhile isDigit = [] := List.dropWhile_eq_nil_iff.2 hall
  simp [scan, hskip, hhead, hminus, hplus, htake, hrest, ofNat_ne_nil, foldl_ofNat]

theorem strtoul_ofNat (h : n < Word.modulus) : strtoul (ofNat n) = n := by
  simp [strtoul, scan_ofNat, Nat.not_le.2 h]

theorem strtoul_ofInt {z : Int} (hlow : -2 ^ 63 ≤ z) (hhigh : z < 2 ^ 63) :
    strtoul (ofInt z) = (z % Word.modulus).toNat := by
  cases z with
  | ofNat n =>
    have hlt : n < Word.modulus := by
      unfold Word.modulus
      simp only [Int.ofNat_eq_natCast] at hhigh
      omega
    rw [ofInt, strtoul_ofNat hlt, Int.ofNat_eq_natCast,
      Int.emod_eq_of_lt (by omega) (Int.ofNat_lt.2 hlt), Int.toNat_natCast]
  | negSucc n =>
    have hall : ∀ b ∈ ofNat (n + 1), isDigit b = true := fun b hb => isDigit_of_mem_ofNat hb
    have hscan : scan (45 :: ofNat (n + 1)) = some ⟨true, n + 1, []⟩ := by
      have hskip : (45 :: ofNat (n + 1)).dropWhile isSpace = 45 :: ofNat (n + 1) :=
        List.dropWhile_cons_of_neg (by decide)
      simp [scan, hskip, List.takeWhile_eq_self_iff.2 hall, List.dropWhile_eq_nil_iff.2 hall,
        ofNat_ne_nil, foldl_ofNat]
    unfold Word.modulus
    simp only [ofInt, strtoul, hscan, Word.sub, Word.modulus, if_true]
    rw [if_neg (by omega)]
    omega

theorem ofInt_ne_zero {z : Int} : ∀ b ∈ ofInt z, b ≠ 0 := by
  cases z with
  | ofNat n => exact ofNat_ne_zero
  | negSucc n =>
    intro b hb
    rcases List.mem_cons.1 hb with rfl | hb
    · decide
    · exact ofNat_ne_zero b hb

theorem stoull_ofNat (h : n < Word.modulus) : stoull (ofNat n) = some n := by
  simp [stoull, scan_ofNat, Nat.not_le.2 h]

theorem stoi_ofNat (h : n < 2 ^ 31) : stoi (ofNat n) = some (n : Int) := by
  have hrange : (-2 ^ 31 : Int) ≤ n ∧ (n : Int) < 2 ^ 31 := by omega
  simp only [stoi, scan_ofNat, Scan.toInt, Bool.false_eq_true, if_false, if_pos hrange]

theorem strtol_ofNat (h : n < 2 ^ 63) : strtol (ofNat n) = ((n : Int), []) := by
  have hclamp : max (-2 ^ 63) (min (n : Int) (2 ^ 63 - 1)) = n := by omega
  simp only [strtol, scan_ofNat, Scan.toInt, Bool.false_eq_true, if_false, hclamp]

end Decimal
