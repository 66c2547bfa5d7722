import Mathlib.Data.List.Induction
import Mathlib.Order.Lattice
import Mathlib.Tactic.Common

/-!
# Sets ordered by a key

A `std::set` whose comparison looks at a key only holds one element for every key: the first
one inserted.  The set is its list of elements in the order of the keys.
-/

namespace KeySet

section Insert

variable {α κ : Type*} [LinearOrder κ] {key : α → κ} {set : List α}

def insert (key : α → κ) (x : α) : List α → List α
  | [] => [x]
  | y :: ys =>
    if key x < key y then x :: y :: ys
    else if key y < key x then y :: insert key x ys
    else y :: ys

def insertAll (key : α → κ) (xs : List α) : List α :=
  xs.foldl (fun set x => insert key x set) []

def Ordered (key : α → κ) (set : List α) : Prop := set.Pairwise fun x y => key x < key y

theorem mem_of_mem_insert {x y : α} (h : y ∈ insert key x set) : y = x ∨ y ∈ set := by
  induction set with
  | nil => exact .inl (List.mem_singleton.1 h)
  | cons z zs ih =>
    rw [insert] at h
    split at h
    · exact List.mem_cons.1 h
    · split at h
      · rcases List.mem_cons.1 h with rfl | h
        · exact .inr List.mem_cons_self
        · exact (ih h).imp_right (List.mem_cons_of_mem z)
      · exact .inr h

theorem Ordered.insert (h : Ordered key set) (x : α) : Ordered key (KeySet.insert key x set) := by
  induction set with
  | nil => exact List.pairwise_singleton _ _
  | cons z zs ih =>
    obtain ⟨hz, hzs⟩ := List.pairwise_cons.1 h
    rw [KeySet.insert]
    split
    · rename_i hlt
      refine List.pairwise_cons.2 ⟨fun y hy => ?_, h⟩
      rcases List.mem_cons.1 hy with rfl | hy
      · exact hlt
      · exact hlt.trans (hz y hy)
    · split
      · rename_i hgt
        refine List.pairwise_cons.2 ⟨fun y hy => ?_, ih hzs⟩
        rcases mem_of_mem_insert hy with rfl | hy
        · exact hgt
        · exact hz y hy
      · exact h

theorem mem_insert {x y : α} (h : Ordered key set) :
    y ∈ insert key x set ↔ y ∈ set ∨ (y = x ∧ ∀ z ∈ set, key z ≠ key x) := by
  induction set with
  | nil => simp [insert]
  | cons z zs ih =>
    obtain ⟨hz, hzs⟩ := List.pairwise_cons.1 h
    rw [insert]
    rcases lt_trichotomy (key x) (key z) with hlt | heq | hgt
    · have hnew : ∀ w ∈ z :: zs, key w ≠ key x := by
        intro w hw
        rcases List.mem_cons.1 hw with rfl | hw
        · exact hlt.ne'
        · exact (hlt.trans (hz w hw)).ne'
      rw [if_pos hlt, List.mem_cons]
      constructor
      · rintro (rfl | hy)
        · exact .inr ⟨rfl, hnew⟩
        · exact .inl hy
      · rintro (hy | ⟨rfl, -⟩)
        · exact .inr hy
        · exact .inl rfl
    · rw [if_neg heq.not_lt, if_neg heq.not_gt]
      constructor
      · exact .inl
      · rintro (hy | ⟨-, hnew⟩)
        · exact hy
        · exact absurd heq.symm (hnew z List.mem_cons_self)
    · rw [if_neg hgt.not_gt, if_pos hgt, List.mem_cons, ih hzs, List.mem_cons, or_assoc]
      simp [hgt.ne]

theorem length_insert_le (x : α) (set : List α) :
    (insert key x set).length ≤ set.length + 1 := by
  induction set with
  | nil => exact Nat.le_refl _
  | cons z zs ih =>
    rw [insert]
    split
    · exact Nat.le_refl _
    · split
      · exact Nat.succ_le_succ ih
      · exact Nat.le_succ _

theorem Ordered.length_filter_eq_one_iff (hordered : Ordered key set) {P : α → Prop}
    [DecidablePred P] {k : κ} (hP : ∀ x, P x → key x = k) :
    (set.filter fun x => P x).length = 1 ↔ ∃ x ∈ set, P x := by
  constructor
  · intro hone
    obtain ⟨x, hx⟩ := List.length_eq_one_iff.1 hone
    have hmem : x ∈ set.filter fun x => P x := by simp [hx]
    rw [List.mem_filter, decide_eq_true_iff] at hmem
    exact ⟨x, hmem⟩
  · rintro ⟨x, hx, hPx⟩
    have hmem : x ∈ set.filter fun x => P x := by simp [hx, hPx]
    have hpairs : (set.filter fun x => P x).Pairwise fun a b => key a < key b :=
      hordered.sublist List.filter_sublist
    match hlist : set.filter fun x => P x with
    | [] => simp [hlist] at hmem
    | [_] => rfl
    | a :: b :: rest =>
      have ha : a ∈ set.filter fun x => P x := by simp [hlist]
      have hb : b ∈ set.filter fun x => P x := by simp [hlist]
      rw [hlist] at hpairs
      have hlt := (List.pairwise_cons.1 hpairs).1 b List.mem_cons_self
      rw [List.mem_filter, decide_eq_true_iff] at ha hb
      rw [hP a ha.2, hP b hb.2] at hlt
      exact absurd hlt (lt_irrefl k)

end Insert

section InsertAll

variable {α κ : Type*} [LinearOrder κ] {key : α → κ}

theorem insertAll_concat (xs : List α) (x : α) :
    insertAll key (xs ++ [x]) = insert key x (insertAll key xs) := by
  simp [insertAll]

theorem ordered_insertAll (key : α → κ) (xs : List α) : Ordered key (insertAll key xs) := by
  induction xs using List.reverseRecOn with
  | nil => exact .nil
  | append_singleton xs x ih =>
    rw [insertAll_concat]
    exact ih.insert x

theorem mem_insertAll {xs : List α} {y : α} :
    y ∈ insertAll key xs ↔ xs.find? (fun x => key x = key y) = some y := by
  induction xs using List.reverseRecOn generalizing y with
  | nil => simp [insertAll]
  | append_singleton xs x ih =>
    have hnew : (∀ z ∈ insertAll key xs, key z ≠ key x) ↔
        xs.find? (fun w => key w = key x) = none := by
      constructor
      · intro hall
        by_contra hsome
        obtain ⟨z, hz⟩ := Option.ne_none_iff_exists'.1 hsome
        have hkey : key z = key x := by simpa using List.find?_some hz
        rw [← hkey] at hz
        exact hall z (ih.2 hz) hkey
      · intro hnone z hz hkey
        rw [← hkey, ih.1 hz] at hnone
        cases hnone
    rw [insertAll_concat, mem_insert (ordered_insertAll key xs), ih, hnew, List.find?_append]
    cases hfirst : xs.find? (fun w => key w = key y) with
    | some z =>
      constructor
      · rintro (h | ⟨rfl, hnone⟩)
        · exact h
        · rw [hfirst] at hnone
          cases hnone
      · exact .inl
    | none =>
      simp only [reduceCtorEq, false_or, Option.none_or, List.find?_singleton]
      constructor
      · rintro ⟨rfl, -⟩
        simp
      · intro h
        split at h
        · obtain rfl := Option.some.inj h
          exact ⟨rfl, hfirst⟩
        · cases h

end InsertAll

end KeySet
