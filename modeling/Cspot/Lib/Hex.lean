import Cspot.Lib.Decimal

/-!
# Hexadecimal text

Numbers of a fixed number of digits as the C library writes them, and a number at the
front of a text as it reads it: blanks, a sign, and an optional `0x`.
-/

namespace Hex

def digit (n : Nat) : UInt8 := if n < 10 then UInt8.ofNat (48 + n) else UInt8.ofNat (87 + n)

def value (b : UInt8) : Option Nat :=
  if 48 ≤ b ∧ b ≤ 57 then some (b.toNat - 48)
  else if 97 ≤ b ∧ b ≤ 102 then some (b.toNat - 87)
  else if 65 ≤ b ∧ b ≤ 70 then some (b.toNat - 55)
  else none

def isDigit (b : UInt8) : Bool := (value b).isSome

def ofNat : (width n : Nat) → Bytes
  | 0, _ => []
  | width + 1, n => ofNat width (n / 16) ++ [digit (n % 16)]

def toNat (digits : Bytes) : Nat := digits.foldl (fun n b => 16 * n + (value b).getD 0) 0

/-- `0x` belongs to a number only when a digit follows. -/
def dropMark : Bytes → Bytes
  | 48 :: x :: d :: rest =>
    if (x = 120 ∨ x = 88) ∧ isDigit d then d :: rest else 48 :: x :: d :: rest
  | body => body

def scan (s : Bytes) : Option Decimal.Scan :=
  let text := s.dropWhile Decimal.isSpace
  let signed := text.head? = some 45 || text.head? = some 43
  let body := dropMark (if signed then text.tail else text)
  let digits := body.takeWhile isDigit
  if digits = [] then none
  else some
    { negative := text.head? = some 45
      magnitude := toNat digits
      rest := body.dropWhile isDigit }

/-! ## Reading what was written -/

variable {n width : Nat}

theorem value_digit (h : n < 16) : value (digit n) = some n := by
  have hall : ∀ n : Fin 16, value (digit n) = some n.val := by decide
  exact hall ⟨n, h⟩

theorem digit_ne (h : n < 16) :
    Decimal.isSpace (digit n) = false ∧ digit n ≠ 45 ∧ digit n ≠ 43 ∧ digit n ≠ 120 ∧
      digit n ≠ 88 := by
  have hall : ∀ n : Fin 16, Decimal.isSpace (digit n) = false ∧ digit n ≠ 45 ∧ digit n ≠ 43 ∧
      digit n ≠ 120 ∧ digit n ≠ 88 := by decide
  exact hall ⟨n, h⟩

theorem length_ofNat (width n : Nat) : (ofNat width n).length = width := by
  induction width generalizing n with
  | zero => rfl
  | succ width ih => simp [ofNat, ih]

theorem eq_digit_of_mem_ofNat {b : UInt8} (hb : b ∈ ofNat width n) : ∃ d, d < 16 ∧ b = digit d := by
  induction width generalizing n with
  | zero => simp [ofNat] at hb
  | succ width ih =>
    rw [ofNat, List.mem_append, List.mem_singleton] at hb
    rcases hb with hb | hb
    · exact ih hb
    · exact ⟨n % 16, Nat.mod_lt _ (by decide), hb⟩

theorem toNat_ofNat (h : n < 16 ^ width) : toNat (ofNat width n) = n := by
  induction width generalizing n with
  | zero =>
    rw [ofNat, toNat, List.foldl_nil]
    omega
  | succ width ih =>
    have hdiv : n / 16 < 16 ^ width := by
      rw [Nat.div_lt_iff_lt_mul (by decide), ← Nat.pow_succ]
      exact h
    have hrec := ih hdiv
    rw [toNat] at hrec
    rw [ofNat, toNat, List.foldl_append, hrec, List.foldl_cons, List.foldl_nil,
      value_digit (Nat.mod_lt _ (by decide)), Option.getD_some]
    omega

theorem scan_ofNat (hwidth : 0 < width) (h : n < 16 ^ width) :
    scan (ofNat width n) = some ⟨false, n, []⟩ := by
  have hall : ∀ b ∈ ofNat width n, isDigit b = true := by
    intro b hb
    obtain ⟨d, hd, rfl⟩ := eq_digit_of_mem_ofNat hb
    rw [isDigit, value_digit hd]
    rfl
  have hmark : dropMark (ofNat width n) = ofNat width n := by
    unfold dropMark
    split
    · rename_i x d rest heq
      obtain ⟨c, hc, rfl⟩ := eq_digit_of_mem_ofNat (heq ▸ by simp : x ∈ ofNat width n)
      obtain ⟨-, -, -, hlower, hupper⟩ := digit_ne hc
      simp [hlower, hupper, heq]
    · rfl
  have hne : ofNat width n ≠ [] := by
    rw [← List.length_pos_iff, length_ofNat]
    exact hwidth
  obtain ⟨b, rest, hcons⟩ := List.exists_cons_of_ne_nil hne
  obtain ⟨d, hd, rfl⟩ := eq_digit_of_mem_ofNat (hcons ▸ List.mem_cons_self : b ∈ ofNat width n)
  obtain ⟨hspace, hminus, hplus, -, -⟩ := digit_ne hd
  have hskip : (ofNat width n).dropWhile Decimal.isSpace = ofNat width n := by
    rw [hcons, List.dropWhile_cons_of_neg (by simp [hspace])]
  have hhead : (ofNat width n).head? = some (digit d) := by rw [hcons]; rfl
  have htake : (ofNat width n).takeWhile isDigit = ofNat width n :=
    List.takeWhile_eq_self_iff.2 hall
  have hrest : (ofNat width n).dropWhile isDigit = [] := List.dropWhile_eq_nil_iff.2 hall
  simp [scan, hskip, hhead, hminus, hplus, hmark, htake, hrest, hne, toNat_ofNat h]

end Hex
