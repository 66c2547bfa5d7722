import Mathlib.Data.Nat.ModEq
import Mathlib.Logic.Function.Basic
import Mathlib.Tactic.Common

/-!
# Positions in a circular buffer

A ring of `cap` cells whose newest entry sits in cell `head` and which holds the
last `len` entries written.  `place` gives the cell of the `j`-th oldest of them;
the lemmas say how the places move when the next cell is written.
-/

namespace Ring

/-- Cell of the `j`-th oldest of `len` held entries when the newest is in `head`. -/
def place (cap head len j : Nat) : Nat := (head + (cap - len) + j + 1) % cap

/-- Cell the next entry is written to. -/
def next (cap head : Nat) : Nat := (head + 1) % cap

variable {cap len : Nat}

theorem place_lt (hcap : 0 < cap) (head len j : Nat) :
    place cap head len j < cap := Nat.mod_lt _ hcap

theorem next_lt (hcap : 0 < cap) (head : Nat) : next cap head < cap :=
  Nat.mod_lt _ hcap

theorem place_next_of_lt (hlen : len < cap) (head j : Nat) :
    place cap (next cap head) (len + 1) j = place cap head len j := by
  unfold place next
  rw [Nat.add_assoc, Nat.add_assoc, Nat.mod_add_mod]
  congr 1
  omega

theorem place_next_full (cap head j : Nat) :
    place cap (next cap head) cap j = place cap head cap (j + 1) := by
  unfold place next
  rw [Nat.add_assoc, Nat.add_assoc, Nat.mod_add_mod]
  congr 1
  omega

theorem place_unwrapped (hlen : len ≤ cap) (j : Nat) : place cap len len j = (j + 1) % cap := by
  unfold place
  have hsum : len + (cap - len) + j + 1 = cap + (j + 1) := by omega
  rw [hsum, Nat.add_mod_left]

theorem place_newest {head : Nat} (len : Nat) (hhead : head < cap) (hlen : len < cap) :
    place cap head (len + 1) len = head := by
  unfold place
  have hsum : head + (cap - (len + 1)) + len + 1 = head + cap := by omega
  rw [hsum, Nat.add_mod_right, Nat.mod_eq_of_lt hhead]

theorem mod_ne_of_window {a b : Nat} (hab : a < b) (hb : b < a + cap) : a % cap ≠ b % cap := by
  intro heq
  have hdvd : cap ∣ b - a := (Nat.modEq_iff_dvd' (Nat.le_of_lt hab)).mp heq
  have hle : cap ≤ b - a := Nat.le_of_dvd (by omega) hdvd
  omega

theorem next_ne_place {j : Nat} (head : Nat) (hlen : len ≤ cap) (hj : j < len)
    (hstay : len < cap ∨ 0 < j) : next cap head ≠ place cap head len j := by
  exact mod_ne_of_window (by omega) (by omega)

/-! ## Contents -/

section Stores

variable {α : Type*} {cells : Nat → α} {cap head : Nat} {held : List α}

/-- The cells hold `held`, oldest first, with the newest entry in cell `head`. -/
def Stores (cells : Nat → α) (cap head : Nat) (held : List α) : Prop :=
  ∀ j e, held[j]? = some e → cells (place cap head held.length j) = e

theorem Stores.push_of_lt (h : Stores cells cap head held) (hlt : held.length < cap) (e : α) :
    Stores (Function.update cells (next cap head) e) cap (next cap head) (held ++ [e]) := by
  intro j x hx
  rw [List.length_append, List.length_singleton]
  rcases Nat.lt_trichotomy j held.length with hold | rfl | hbeyond
  · rw [List.getElem?_append_left hold] at hx
    have hne := next_ne_place head (Nat.le_of_lt hlt) hold (.inl hlt)
    rw [place_next_of_lt hlt, Function.update_of_ne hne.symm, h j x hx]
  · rw [List.getElem?_concat_length, Option.some.injEq] at hx
    rw [place_newest held.length (next_lt (by omega) head) hlt, Function.update_self, hx]
  · rw [List.getElem?_eq_none (by simp; omega)] at hx
    cases hx

theorem Stores.push_full (h : Stores cells cap head held) (hfull : held.length = cap)
    (hcap : 0 < cap) (e : α) :
    Stores (Function.update cells (next cap head) e) cap (next cap head) (held.tail ++ [e]) := by
  intro j x hx
  have hlen : (held.tail ++ [e]).length = cap := by simp; omega
  rw [hlen]
  rcases Nat.lt_trichotomy j held.tail.length with hold | rfl | hbeyond
  · rw [List.getElem?_append_left hold, List.getElem?_tail] at hx
    have hj : j + 1 < held.length := by simp at hold; omega
    have hne := next_ne_place head (Nat.le_of_eq hfull) hj (.inr (by omega))
    rw [hfull] at hne
    have hcell := h (j + 1) x hx
    rw [hfull] at hcell
    rw [place_next_full, Function.update_of_ne hne.symm, hcell]
  · rw [List.getElem?_concat_length, Option.some.injEq] at hx
    have hnewest := place_newest (cap - 1) (next_lt hcap head) (by omega)
    rw [Nat.sub_add_cancel hcap] at hnewest
    rw [List.length_tail, hfull, hnewest, Function.update_self, hx]
  · rw [List.getElem?_eq_none (by simp at *; omega)] at hx
    cases hx

end Stores

end Ring
