import Mathlib.Tactic.Common

/-!
# Probing a ring of slots

A search that looks at the slots of a ring one after the other, beginning at its home, and
takes the first one that answers a test.  It gives up when it has seen every slot.
-/

namespace Probe

/-- The first of `turns` slots from `i` on that passes the test. -/
def walk (n : Nat) (stop : Nat → Bool) : (turns : Nat) → (i : Nat) → Option Nat
  | 0, _ => none
  | turns + 1, i => if stop i then some i else walk n stop turns ((i + 1) % n)

def first (n home : Nat) (stop : Nat → Bool) : Option Nat := walk n stop n home

variable {n : Nat} {stop stop' : Nat → Bool} {turns i j home : Nat}

theorem walk_spec (hi : i < n) (h : walk n stop turns i = some j) : j < n ∧ stop j = true := by
  induction turns generalizing i with
  | zero => cases h
  | succ turns ih =>
    rw [walk] at h
    split at h
    · rename_i hstop
      cases h
      exact ⟨hi, hstop⟩
    · exact ih (Nat.mod_lt _ (by omega)) h

theorem walk_of_imp (himp : ∀ k < n, stop' k = true → stop k = true) (hi : i < n)
    (h : walk n stop turns i = some j) (hj : stop' j = true) :
    walk n stop' turns i = some j := by
  induction turns generalizing i with
  | zero => cases h
  | succ turns ih =>
    rw [walk] at h ⊢
    split at h
    · cases h
      rw [if_pos hj]
    · rename_i hstop
      have hstop' : ¬ stop' i = true := fun hk => hstop (himp i hi hk)
      rw [if_neg hstop']
      exact ih (Nat.mod_lt _ (by omega)) h

theorem walk_isSome {k : Nat} (hi : i < n) (hk : k < turns) (hstop : stop ((i + k) % n) = true) :
    (walk n stop turns i).isSome := by
  induction turns generalizing i k with
  | zero => omega
  | succ turns ih =>
    rw [walk]
    split
    · rfl
    · rename_i hne
      cases k with
      | zero =>
        rw [Nat.add_zero, Nat.mod_eq_of_lt hi] at hstop
        exact absurd hstop hne
      | succ k =>
        apply ih (k := k) (Nat.mod_lt _ (by omega)) (by omega)
        rw [Nat.mod_add_mod]
        rwa [show i + 1 + k = i + (k + 1) by omega]

theorem first_spec (hhome : home < n) (h : first n home stop = some j) : j < n ∧ stop j = true :=
  walk_spec hhome h

theorem first_of_imp (himp : ∀ k < n, stop' k = true → stop k = true) (hhome : home < n)
    (h : first n home stop = some j) (hj : stop' j = true) :
    first n home stop' = some j :=
  walk_of_imp himp hhome h hj

theorem first_isSome (hhome : home < n) (hj : j < n) (hstop : stop j = true) :
    (first n home stop).isSome := by
  rcases Nat.le_total home j with hle | hle
  · apply walk_isSome (k := j - home) hhome (by omega)
    rwa [Nat.add_sub_cancel' hle, Nat.mod_eq_of_lt hj]
  · rcases Nat.eq_or_lt_of_le hle with rfl | hlt
    · apply walk_isSome (k := 0) hhome (by omega)
      rwa [Nat.add_zero, Nat.mod_eq_of_lt hj]
    · apply walk_isSome (k := n - home + j) hhome (by omega)
      rwa [show home + (n - home + j) = j + n by omega, Nat.add_mod_right, Nat.mod_eq_of_lt hj]

theorem first_eq_none (hhome : home < n) (h : first n home stop = none) (hj : j < n) :
    stop j = false := by
  cases hstop : stop j with
  | false => rfl
  | true =>
    have hfound := first_isSome hhome hj hstop
    rw [h] at hfound
    cases hfound

end Probe
