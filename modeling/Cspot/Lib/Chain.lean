import Mathlib.Data.List.Nodup
import Mathlib.Tactic.Common

/-!
# Chains of cells

Cells that point to the next one.  `next a` is the pointer in the cell at `a`, none when there is
no cell at `a`; the null pointer ends a chain.
-/

namespace Chain

variable {α : Type*}

/-- From the pointer one comes through exactly these cells to the null pointer. -/
def Linked (next : α → Option (Option α)) : Option α → List α → Prop
  | p, [] => p = none
  | p, a :: as => p = some a ∧ ∃ q, next a = some q ∧ Linked next q as

variable {next next' : α → Option (Option α)} {p : Option α} {as bs : List α} {a b : α}

theorem Linked.head? (h : Linked next p as) : p = as.head? := by
  cases as with
  | nil => exact h
  | cons a as => exact h.1

theorem Linked.unique (h : Linked next p as) (h' : Linked next p bs) : as = bs := by
  induction as generalizing p bs with
  | nil =>
    cases bs with
    | nil => rfl
    | cons b bs =>
      rw [show p = none from h] at h'
      cases h'.1
  | cons a as ih =>
    obtain ⟨rfl, q, hq, hlinked⟩ := h
    cases bs with
    | nil => cases h'
    | cons b bs =>
      obtain ⟨hb, q', hq', hlinked'⟩ := h'
      cases hb
      rw [hq, Option.some.injEq] at hq'
      subst hq'
      rw [ih hlinked hlinked']

theorem Linked.of_append (h : Linked next p (as ++ b :: bs)) : Linked next (some b) (b :: bs) := by
  induction as generalizing p with
  | nil =>
    obtain ⟨rfl, hrest⟩ := h
    exact ⟨rfl, hrest⟩
  | cons a as ih =>
    obtain ⟨-, q, -, hrest⟩ := h
    exact ih hrest

theorem Linked.nodup (h : Linked next p as) : as.Nodup := by
  induction as generalizing p with
  | nil => exact List.nodup_nil
  | cons a as ih =>
    obtain ⟨-, q, hq, hlinked⟩ := h
    refine List.nodup_cons.2 ⟨?_, ih hlinked⟩
    intro hmem
    obtain ⟨before, after, rfl⟩ := List.append_of_mem hmem
    obtain ⟨-, q', hq', hafter⟩ := hlinked.of_append
    rw [hq, Option.some.injEq] at hq'
    subst hq'
    have hlength := congrArg List.length (hlinked.unique hafter)
    simp at hlength
    omega

theorem Linked.congr (h : Linked next p as) (hnext : ∀ a ∈ as, next' a = next a) :
    Linked next' p as := by
  induction as generalizing p with
  | nil => exact h
  | cons a as ih =>
    obtain ⟨hp, q, hq, hlinked⟩ := h
    refine ⟨hp, q, ?_, ih hlinked fun b hb => hnext b (List.mem_cons_of_mem _ hb)⟩
    rw [hnext a List.mem_cons_self, hq]

theorem Linked.isSome (h : Linked next p as) (ha : a ∈ as) : (next a).isSome := by
  obtain ⟨before, after, rfl⟩ := List.append_of_mem ha
  obtain ⟨-, q, hq, -⟩ := h.of_append
  rw [hq]
  rfl

theorem Linked.concat (h : Linked next p (as ++ [a])) (hnext : ∀ c ∈ as, next' c = next c)
    (ha : next' a = some (some b)) (hb : next' b = some none) :
    Linked next' p (as ++ [a] ++ [b]) := by
  induction as generalizing p with
  | nil => exact ⟨h.1, some b, ha, rfl, none, hb, rfl⟩
  | cons c as ih =>
    obtain ⟨hp, q, hq, hlinked⟩ := h
    refine ⟨hp, q, ?_, ih hlinked fun d hd => hnext d (List.mem_cons_of_mem _ hd)⟩
    rw [hnext c List.mem_cons_self, hq]

theorem Linked.next_eq_none_iff (h : Linked next p as) (ha : a ∈ as) :
    next a = some none ↔ as.getLast? = some a := by
  obtain ⟨before, after, rfl⟩ := List.append_of_mem ha
  have hnodup := h.nodup
  obtain ⟨-, q, hq, hafter⟩ := h.of_append
  rw [hq, Option.some.injEq, hafter.head?]
  cases after with
  | nil => simp
  | cons b after =>
    constructor
    · intro habs
      cases habs
    · intro hlast
      have hmem : a ∈ b :: after := by
        apply List.mem_of_getLast?
        simpa using hlast
      have hnotMem := (List.nodup_cons.1 (List.nodup_append.1 hnodup).2.1).1
      exact absurd hmem hnotMem

end Chain
