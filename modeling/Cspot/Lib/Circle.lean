import Mathlib.Algebra.Group.Nat.Defs
import Mathlib.Data.Finset.Basic
import Mathlib.Tactic.Common

/-!
# Points on a circle

The words of `w` bits as points on a circle, numbered clockwise.  The gap from one point to
another is the clockwise way between them, a full turn from a point to itself.
-/

namespace Circle

variable {w : Nat} {a b c : BitVec w} {k n : BitVec w}

/-- The clockwise way from `a` to `b`, at least one and at most a full turn. -/
def gap (a b : BitVec w) : Nat :=
  if a.toNat < b.toNat then b.toNat - a.toNat else 2 ^ w + b.toNat - a.toNat

/-- The way from `k` clockwise to `b`, nothing when they are the same point. -/
def reach (k b : BitVec w) : Nat :=
  if k.toNat ≤ b.toNat then b.toNat - k.toNat else 2 ^ w + b.toNat - k.toNat

theorem gap_pos (a b : BitVec w) : 0 < gap a b := by
  unfold gap
  split <;> omega

theorem gap_le (a b : BitVec w) : gap a b ≤ 2 ^ w := by
  unfold gap
  split <;> omega

@[simp] theorem gap_self (a : BitVec w) : gap a a = 2 ^ w := by
  simp [gap]

theorem gap_inj : gap a b = gap a c ↔ b = c := by
  constructor
  · intro h
    apply BitVec.eq_of_toNat_eq
    unfold gap at h
    split at h <;> split at h <;> omega
  · intro h
    rw [h]

theorem gap_of_lt (h : gap a b < gap a c) : gap b c = gap a c - gap a b := by
  unfold gap at *
  split at h <;> split at h <;> split <;> omega

theorem reach_of_le (h : gap a k ≤ gap a c) : reach k c = gap a c - gap a k := by
  unfold gap reach at *
  split at h <;> split at h <;> split <;> omega

theorem reach_of_lt (h : gap a c < gap a k) : reach k c = 2 ^ w + gap a c - gap a k := by
  unfold gap reach at *
  split at h <;> split at h <;> split <;> omega

theorem gap_add {d : BitVec w} (hd : 0 < d.toNat) : gap a (a + d) = d.toNat := by
  have hsum : (a + d).toNat = if a.toNat + d.toNat < 2 ^ w then a.toNat + d.toNat
      else a.toNat + d.toNat - 2 ^ w := by
    rw [BitVec.toNat_add]
    split
    · rename_i h
      exact Nat.mod_eq_of_lt h
    · rw [Nat.mod_eq_sub_mod (by omega), Nat.mod_eq_of_lt (by omega)]
  rw [gap, hsum]
  split <;> split <;> omega

theorem gap_lt_gap_iff : gap a n < gap a b ↔
    if a < b then a < n ∧ n < b else a < n ∨ n < b := by
  simp only [BitVec.lt_def]
  unfold gap
  split <;> split <;> omega

theorem gap_lt_gap_iff_closer : gap a n < gap a b ↔ gap n b < gap a b := by
  unfold gap
  split <;> split <;> split <;> omega

theorem gap_left_inj : gap b a = gap c a ↔ b = c := by
  constructor
  · intro h
    apply BitVec.eq_of_toNat_eq
    unfold gap at h
    split at h <;> split at h <;> omega
  · intro h
    rw [h]

theorem gap_lt_of_ne (hne : a ≠ b) : gap a b < 2 ^ w := by
  have hle := gap_le a b
  have hself : gap a b ≠ gap b b := fun h => hne (gap_left_inj.1 h)
  rw [gap_self] at hself
  omega

/-! ## Neighbours in a set of points -/

section Sets

variable {S : Finset (BitVec w)} {a b k : BitVec w}

/-- `b` is the next point of the set clockwise from `a`; from the only point of a set it is
the point itself. -/
def IsNext (S : Finset (BitVec w)) (a b : BitVec w) : Prop :=
  b ∈ S ∧ ∀ c ∈ S, gap a b ≤ gap a c

/-- `b` is the first point of the set clockwise at or after `k`. -/
def IsFirst (S : Finset (BitVec w)) (k b : BitVec w) : Prop :=
  b ∈ S ∧ ∀ c ∈ S, reach k b ≤ reach k c

/-- `b` is the closest point of the set counter-clockwise from `a`, which is itself the farthest. -/
def IsPrevious (S : Set (BitVec w)) (a b : BitVec w) : Prop :=
  b ∈ S ∧ ∀ c ∈ S, gap b a ≤ gap c a

theorem IsPrevious.unique {S : Set (BitVec w)} (hb : IsPrevious S a b) (hc : IsPrevious S a c) :
    b = c :=
  gap_left_inj.1 (Nat.le_antisymm (hb.2 c hc.1) (hc.2 b hb.1))

theorem IsNext.isFirst (h : IsNext S a b) (hk : gap a k ≤ gap a b) : IsFirst S k b := by
  refine ⟨h.1, ?_⟩
  intro c hc
  have hle := h.2 c hc
  rw [reach_of_le hk, reach_of_le (hk.trans hle)]
  omega

end Sets

end Circle
