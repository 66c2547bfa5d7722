import Cspot.Lib.Quorum
import Mathlib.Data.Set.Basic

/-!
# Votes and leaders

Points vote in numbered terms.  A point votes for one candidate in a term, with one exception:
a point that a majority has made the leader of the term votes for itself from then on, whatever
it did before.  The record keeps every vote that was cast and every majority that made a leader;
what a point itself remembers is its term and its vote in that term.
-/

namespace Ballot

structure Record (V : Type*) where
  cast : V → Nat → V → Prop
  won : V → Nat → Finset V → Prop

variable {V : Type*}

namespace Record

def empty : Record V where
  cast _ _ _ := False
  won _ _ _ := False

def grant (r : Record V) (v : V) (t : Nat) (c : V) : Record V where
  cast v' t' c' := r.cast v' t' c' ∨ v' = v ∧ t' = t ∧ c' = c
  won := r.won

def win (r : Record V) (a : V) (t : Nat) (quorum : Finset V) : Record V where
  cast := r.cast
  won a' t' quorum' := r.won a' t' quorum' ∨ a' = a ∧ t' = t ∧ quorum' = quorum

/-- The point leads the term by votes of others, and may have voted for somebody else. -/
def Overruled (r : Record V) (v : V) (t : Nat) : Prop := ∃ quorum, r.won v t quorum ∧ v ∉ quorum

/-- Nothing in the first record is missing from the second. -/
structure Within (r r' : Record V) : Prop where
  cast : ∀ v t c, r.cast v t c → r'.cast v t c
  won : ∀ a t quorum, r.won a t quorum → r'.won a t quorum

theorem Within.refl (r : Record V) : r.Within r := ⟨fun _ _ _ h => h, fun _ _ _ h => h⟩

theorem Within.trans {r r' r'' : Record V} (h : r.Within r') (h' : r'.Within r'') :
    r.Within r'' :=
  ⟨fun v t c hcast => h'.cast v t c (h.cast v t c hcast),
    fun a t quorum hwon => h'.won a t quorum (h.won a t quorum hwon)⟩

theorem within_grant (r : Record V) (v : V) (t : Nat) (c : V) : r.Within (r.grant v t c) :=
  ⟨fun _ _ _ h => .inl h, fun _ _ _ h => h⟩

theorem within_win (r : Record V) (a : V) (t : Nat) (quorum : Finset V) :
    r.Within (r.win a t quorum) :=
  ⟨fun _ _ _ h => h, fun _ _ _ h => .inl h⟩

theorem Overruled.within {r r' : Record V} {v : V} {t : Nat} (h : r.Overruled v t)
    (hwithin : r.Within r') : r'.Overruled v t := by
  obtain ⟨quorum, hwon, hself⟩ := h
  exact ⟨quorum, hwithin.won v t quorum hwon, hself⟩

end Record

/-- What the points remember agrees with the record, and nobody else leads a leader's term. -/
structure Sound (points : Finset V) (term : V → Nat) (vote : V → Option V) (r : Record V) :
    Prop where
  bounded : ∀ v t c, r.cast v t c → t ≤ term v
  current : ∀ v c, r.cast v (term v) c →
    vote v = some c ∨ vote v = some v ∧ r.Overruled v (term v)
  once : ∀ v t c c', r.cast v t c → r.cast v t c' → c = c' ∨ r.Overruled v t
  backed : ∀ a t quorum, r.won a t quorum →
    Quorum.IsMajority points quorum ∧ ∀ v ∈ quorum, r.cast v t a
  unique : ∀ a b t quorum quorum', r.won a t quorum → r.won b t quorum' → a = b

theorem sound_empty (points : Finset V) (term : V → Nat) (vote : V → Option V) :
    Sound points term vote .empty where
  bounded _ _ _ h := h.elim
  current _ _ h := h.elim
  once _ _ _ _ h := h.elim
  backed _ _ _ h := h.elim
  unique _ _ _ _ _ h := h.elim

namespace Sound

variable {points : Finset V} {term term' : V → Nat} {vote vote' : V → Option V} {r : Record V}

theorem advance (h : Sound points term vote r)
    (hstep : ∀ v, term v < term' v ∨ term' v = term v ∧ vote' v = vote v) :
    Sound points term' vote' r where
  bounded v t c hcast := by
    have hle := h.bounded v t c hcast
    rcases hstep v with hlt | ⟨heq, -⟩ <;> omega
  current v c hcast := by
    rcases hstep v with hlt | ⟨hterm, hvote⟩
    · have hle := h.bounded v _ c hcast
      omega
    · rw [hterm] at hcast ⊢
      rw [hvote]
      exact h.current v c hcast
  once := h.once
  backed := h.backed
  unique := h.unique

theorem grant (h : Sound points term vote r) {v : V} {t : Nat} {c : V} (hle : term v ≤ t)
    (hfree : term v = t → vote v = none ∨ vote v = some c)
    (hterm : term' v = t) (hvote : vote' v = some c)
    (hother : ∀ u, u ≠ v → term' u = term u ∧ vote' u = vote u) :
    Sound points term' vote' (r.grant v t c) := by
  have hwithin := r.within_grant v t c
  -- an earlier vote of the term is the same one, or one that its caster has overruled
  have hearlier : ∀ c', r.cast v t c' → c' = c ∨ vote' v = some v ∧ r.Overruled v t := by
    intro c' hcast
    have heq : term v = t := Nat.le_antisymm hle (h.bounded v t c' hcast)
    have hcurrent := h.current v c' (heq ▸ hcast)
    rw [heq] at hcurrent
    rcases hfree heq with hnone | hsome
    · rw [hnone] at hcurrent
      simp at hcurrent
    · rw [hsome] at hcurrent
      rcases hcurrent with hsame | ⟨hself, hover⟩
      · exact .inl (Option.some.inj hsame).symm
      · exact .inr ⟨hvote.trans hself, hover⟩
  refine ⟨?_, ?_, ?_, ?_, h.unique⟩
  · rintro u t' c' (hcast | ⟨rfl, rfl, rfl⟩)
    · have hbound := h.bounded u t' c' hcast
      by_cases hu : u = v
      · subst hu
        omega
      · rw [(hother u hu).1]
        exact hbound
    · exact Nat.le_of_eq hterm.symm
  · intro u c' hcast
    by_cases hu : u = v
    · subst hu
      rw [hterm] at hcast ⊢
      rcases hcast with hcast | ⟨-, -, rfl⟩
      · rcases hearlier c' hcast with rfl | ⟨hself, hover⟩
        · exact .inl hvote
        · exact .inr ⟨hself, hover.within hwithin⟩
      · exact .inl hvote
    · rw [(hother u hu).1] at hcast ⊢
      rw [(hother u hu).2]
      rcases hcast with hcast | ⟨rfl, -, -⟩
      · rcases h.current u c' hcast with hsame | ⟨hself, hover⟩
        · exact .inl hsame
        · exact .inr ⟨hself, hover.within hwithin⟩
      · exact absurd rfl hu
  · rintro u t' c₁ c₂ (h₁ | ⟨rfl, rfl, rfl⟩) (h₂ | ⟨hu, ht, hc⟩)
    · exact (h.once u t' c₁ c₂ h₁ h₂).imp_right fun hover => hover.within hwithin
    · subst hu ht hc
      exact (hearlier c₁ h₁).imp_right fun hover => hover.2.within hwithin
    · exact (hearlier c₂ h₂).imp Eq.symm fun hover => hover.2.within hwithin
    · exact .inl hc.symm
  · intro a t' quorum hwon
    obtain ⟨hmajority, hcast⟩ := h.backed a t' quorum hwon
    exact ⟨hmajority, fun u hu => hwithin.cast u t' a (hcast u hu)⟩

variable [DecidableEq V]

theorem leader_of_majority (h : Sound points term vote r) {a b : V} {t : Nat}
    {quorum quorum' : Finset V} (hmajority : Quorum.IsMajority points quorum)
    (hcast : ∀ v ∈ quorum, r.cast v t a) (hwon : r.won b t quorum') : a = b := by
  -- a voter that both majorities share can only have voted twice as the leader of the term
  have hshared : ∀ {q : Finset V}, r.won b t q → a = b ∨ r.Overruled b t ∧ b ∈ q := by
    intro q hq
    obtain ⟨hq', hcast'⟩ := h.backed b t q hq
    obtain ⟨v, hv, hv'⟩ := hmajority.meets hq'
    rcases h.once v t a b (hcast v hv) (hcast' v hv') with heq | hover
    · exact .inl heq
    · obtain ⟨q', hq', hself⟩ := hover
      have hvb : v = b := h.unique v b t q' q hq' hq
      exact .inr ⟨⟨q', hvb ▸ hq', hvb ▸ hself⟩, hvb ▸ hv'⟩
  rcases hshared hwon with heq | ⟨⟨q, hq, hself⟩, -⟩
  · exact heq
  · exact (hshared hq).resolve_right fun hnot => hself hnot.2

theorem win (h : Sound points term vote r) {a : V} {t : Nat} {quorum : Finset V}
    (hle : term a ≤ t) (hmajority : Quorum.IsMajority points quorum)
    (hcast : ∀ v ∈ quorum, r.cast v t a) (hterm : term' a = t) (hvote : vote' a = some a)
    (hother : ∀ u, u ≠ a → term' u = term u ∧ vote' u = vote u) :
    Sound points term' vote' (r.win a t quorum) := by
  have hwithin := r.within_win a t quorum
  refine ⟨?_, ?_, ?_, ?_, ?_⟩
  · intro u t' c hc
    have hbound := h.bounded u t' c hc
    by_cases hu : u = a
    · subst hu
      omega
    · rw [(hother u hu).1]
      exact hbound
  · intro u c hc
    by_cases hu : u = a
    · subst hu
      rw [hterm] at hc ⊢
      by_cases hself : u ∈ quorum
      · rcases h.once u t c u hc (hcast u hself) with rfl | hover
        · exact .inl hvote
        · exact .inr ⟨hvote, hover.within hwithin⟩
      · exact .inr ⟨hvote, quorum, .inr ⟨rfl, rfl, rfl⟩, hself⟩
    · rw [(hother u hu).1] at hc ⊢
      rw [(hother u hu).2]
      rcases h.current u c hc with hsame | ⟨hself, hover⟩
      · exact .inl hsame
      · exact .inr ⟨hself, hover.within hwithin⟩
  · intro u t' c c' hc hc'
    exact (h.once u t' c c' hc hc').imp_right fun hover => hover.within hwithin
  · rintro b t' q (hwon | ⟨rfl, rfl, rfl⟩)
    · exact h.backed b t' q hwon
    · exact ⟨hmajority, hcast⟩
  · rintro b b' t' q q' (hb | ⟨rfl, rfl, rfl⟩) (hb' | ⟨hb', ht', -⟩)
    · exact h.unique b b' t' q q' hb hb'
    · subst hb' ht'
      exact (h.leader_of_majority hmajority hcast hb).symm
    · exact h.leader_of_majority hmajority hcast hb'
    · exact hb'.symm

end Sound

end Ballot
