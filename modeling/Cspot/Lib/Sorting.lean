import Cspot.Lib.Bytes
import Mathlib.Data.List.Sort

/-!
# Sorting by a comparison function

`qsort` orders an array by a function that returns a negative number, zero or a positive
one.  Its result is a rearrangement of the array; it is in order when the comparison is one.
-/

def qsort {α : Type*} (compare : α → α → Int) (l : List α) : List α :=
  l.insertionSort fun a b => compare a b ≤ 0

namespace qsort

variable {α : Type*} {compare : α → α → Int}

theorem perm (compare : α → α → Int) (l : List α) : (qsort compare l).Perm l :=
  List.perm_insertionSort _ l

@[simp] theorem length_eq (compare : α → α → Int) (l : List α) :
    (qsort compare l).length = l.length :=
  (perm compare l).length_eq

theorem pairwise {l : List α}
    (htotal : ∀ a ∈ l, ∀ b ∈ l, compare a b ≤ 0 ∨ compare b a ≤ 0)
    (htrans : ∀ a ∈ l, ∀ b ∈ l, ∀ c ∈ l, compare a b ≤ 0 → compare b c ≤ 0 → compare a c ≤ 0) :
    (qsort compare l).Pairwise fun a b => compare a b ≤ 0 := by
  -- sort the array of its own points, where the comparison is an order outright
  let r : {a // a ∈ l} → {a // a ∈ l} → Prop := fun a b => compare a.1 b.1 ≤ 0
  have : Std.Total r := ⟨fun a b => htotal a.1 a.2 b.1 b.2⟩
  have : IsTrans {a // a ∈ l} r := ⟨fun a b c => htrans a.1 a.2 b.1 b.2 c.1 c.2⟩
  have hmap : (l.attach.insertionSort r).map Subtype.val = qsort compare l := by
    have := List.map_insertionSort (r := r) (s := fun a b => compare a b ≤ 0) Subtype.val l.attach
      (fun _ _ _ _ => Iff.rfl)
    rwa [List.attach_map_subtype_val] at this
  rw [← hmap, List.pairwise_map]
  exact List.pairwise_insertionSort r l.attach

end qsort

namespace Bytes

/-- Compare two C strings; the shorter of two that agree comes first. -/
def strcmp : Bytes → Bytes → Int
  | [], [] => 0
  | [], _ :: _ => -1
  | _ :: _, [] => 1
  | a :: as, b :: bs => if a = b then strcmp as bs else a.toNat - b.toNat

theorem strcmp_cons_ne {a b : UInt8} (h : a ≠ b) (as bs : Bytes) :
    strcmp (a :: as) (b :: bs) ≤ 0 ↔ a.toNat < b.toNat := by
  have hne : a.toNat ≠ b.toNat := fun heq => h (UInt8.toNat_inj.1 heq)
  rw [strcmp, if_neg h]
  omega

theorem strcmp_total (s t : Bytes) : strcmp s t ≤ 0 ∨ strcmp t s ≤ 0 := by
  induction s generalizing t with
  | nil => cases t <;> simp [strcmp]
  | cons a s ih =>
    cases t with
    | nil => simp [strcmp]
    | cons b t =>
      by_cases h : a = b
      · simpa [strcmp, h] using ih t
      · have hne : a.toNat ≠ b.toNat := fun heq => h (UInt8.toNat_inj.1 heq)
        rw [strcmp_cons_ne h, strcmp_cons_ne (Ne.symm h)]
        omega

theorem strcmp_antisymm {s t : Bytes} (hst : strcmp s t ≤ 0) (hts : strcmp t s ≤ 0) : s = t := by
  induction s generalizing t with
  | nil => cases t with
    | nil => rfl
    | cons b t => simp [strcmp] at hts
  | cons a s ih =>
    cases t with
    | nil => simp [strcmp] at hst
    | cons b t =>
      by_cases h : a = b
      · subst h
        rw [strcmp, if_pos rfl] at hst hts
        rw [ih hst hts]
      · rw [strcmp_cons_ne h] at hst
        rw [strcmp_cons_ne (Ne.symm h)] at hts
        omega

@[simp] theorem strcmp_self (s : Bytes) : strcmp s s = 0 := by
  induction s with
  | nil => rfl
  | cons a s ih => rw [strcmp, if_pos rfl, ih]

theorem strcmp_neg {s t : Bytes} (hle : strcmp s t ≤ 0) (hne : s ≠ t) : strcmp s t < 0 := by
  rcases Int.lt_or_eq_of_le hle with hlt | heq
  · exact hlt
  · -- equal strings are the only ones that compare as equal
    exfalso
    clear hle
    induction s generalizing t with
    | nil => cases t with
      | nil => exact hne rfl
      | cons b t => simp [strcmp] at heq
    | cons a s ih =>
      cases t with
      | nil => simp [strcmp] at heq
      | cons b t =>
        by_cases h : a = b
        · subst h
          rw [strcmp, if_pos rfl] at heq
          exact ih (fun hst => hne (hst ▸ rfl)) heq
        · have hne' : a.toNat ≠ b.toNat := fun heq' => h (UInt8.toNat_inj.1 heq')
          rw [strcmp, if_neg h] at heq
          omega

theorem strcmp_trans {s t u : Bytes} (hst : strcmp s t ≤ 0) (htu : strcmp t u ≤ 0) :
    strcmp s u ≤ 0 := by
  induction s generalizing t u with
  | nil => cases u <;> simp [strcmp]
  | cons a s ih =>
    cases t with
    | nil => simp [strcmp] at hst
    | cons b t =>
      cases u with
      | nil => simp [strcmp] at htu
      | cons c u =>
        by_cases hab : a = b
        · subst hab
          by_cases hac : a = c
          · subst hac
            rw [strcmp, if_pos rfl] at hst htu ⊢
            exact ih hst htu
          · rw [strcmp_cons_ne hac] at htu ⊢
            exact htu
        · rw [strcmp_cons_ne hab] at hst
          by_cases hbc : b = c
          · subst hbc
            rwa [strcmp_cons_ne hab]
          · rw [strcmp_cons_ne hbc] at htu
            have hac : a ≠ c := fun h => by
              subst h
              omega
            rw [strcmp_cons_ne hac]
            omega

end Bytes
