import Mathlib.Data.Finset.Card
import Mathlib.Tactic.Common

/-!
# Majorities

A quorum of a finite set is a part of it with more than half of its points.  Two quorums of
one set meet; whether the quorums of a set meet those of one of its parts is a matter of
counting.
-/

namespace Quorum

variable {α : Type*} [DecidableEq α]

def IsMajority (points part : Finset α) : Prop :=
  part ⊆ points ∧ points.card / 2 < part.card

theorem IsMajority.meets {points p q : Finset α} (hp : IsMajority points p)
    (hq : IsMajority points q) : ∃ v ∈ p, v ∈ q := by
  have := hp.2
  have := hq.2
  obtain ⟨v, hv⟩ := Finset.inter_nonempty_of_card_lt_card_add_card hp.1 hq.1 (by omega)
  exact ⟨v, Finset.mem_inter.1 hv⟩

/-- Every majority of `points` meets every majority of `part`. -/
def Covers (points part : Finset α) : Prop :=
  ∀ p q, IsMajority points p → IsMajority part q → ∃ v ∈ p, v ∈ q

/-- Two smallest majorities, one of the set and one of the part, fit into the set side by
side exactly when their sizes do. -/
theorem covers_iff {points part : Finset α} (hsub : part ⊆ points) :
    Covers points part ↔
      part.card = 0 ∨ points.card < points.card / 2 + part.card / 2 + 2 := by
  constructor
  · intro hcovers
    by_contra hnot
    obtain ⟨hne, hfit⟩ := not_or.1 hnot
    obtain ⟨q, hq, hqcard⟩ :=
      Finset.exists_subset_card_eq (s := part) (n := part.card / 2 + 1) (by omega)
    have hrest : (points \ q).card = points.card - q.card :=
      Finset.card_sdiff_of_subset (hq.trans hsub)
    obtain ⟨p, hp, hpcard⟩ :=
      Finset.exists_subset_card_eq (s := points \ q) (n := points.card / 2 + 1) (by omega)
    obtain ⟨v, hvp, hvq⟩ := hcovers p q ⟨hp.trans Finset.sdiff_subset, by omega⟩ ⟨hq, by omega⟩
    exact (Finset.mem_sdiff.1 (hp hvp)).2 hvq
  · intro hcount p q hp hq
    have hqle : q.card ≤ part.card := Finset.card_le_card hq.1
    have := hp.2
    have := hq.2
    obtain ⟨v, hv⟩ :=
      Finset.inter_nonempty_of_card_lt_card_add_card hp.1 (hq.1.trans hsub) (by omega)
    exact ⟨v, Finset.mem_inter.1 hv⟩

end Quorum
