import Cspot.Caplets.Capability

/-!
# Attenuation is a walk down the levels

From a principal the code only ever meets permission words that are level masks, and
an attenuation is the walk from the level it finds to the level asked for.  Walks
compose, so the path taken does not matter.
-/

namespace Cspot

/-! ## Masks -/

theorem levelMask_clear : ∀ i < permLevels,
    levelMask (i + 1) &&& ~~~levelPermitted (i + 1) = levelMask i := by decide

theorem levelPermitted_half : ∀ i < permLevels,
    levelPermitted (i + 1) / 2 = levelPermitted i := by decide

theorem lowerPermitted_levelMask : ∀ i < permLevels + 1,
    lowerPermitted (levelMask i) permLevels wcapMaxPerm = levelPermitted i := by decide

theorem levelMask_and_principal : ∀ i < permLevels + 1,
    levelMask i &&& wcapPrincipal = levelMask i := by decide

theorem levelMask_and_levelMask : ∀ i < permLevels + 1, ∀ l < i + 1,
    levelMask l &&& levelMask i = levelMask l := by decide

theorem levelMask_toNat : ∀ i < permLevels + 1, (levelMask i).toNat = 2 ^ i - 1 := by decide

theorem levelPermitted_succ_toNat : ∀ i < permLevels, (levelPermitted (i + 1)).toNat = 2 ^ i := by
  decide

theorem wcapPrincipal_eq : wcapPrincipal = levelMask permLevels := by decide

variable {i : Nat} {perm : UInt32}

theorem permLevel_le_of_lt (h : perm.toNat < 2 ^ i) : permLevel perm ≤ i :=
  Nat.le_trans (Nat.min_le_right _ _) (Nat.size_le.mpr h)

theorem lt_levelPermitted_succ_iff (hi : i < permLevels) :
    perm < levelPermitted (i + 1) ↔ permLevel perm ≤ i := by
  rw [UInt32.lt_iff_toNat_lt, levelPermitted_succ_toNat i hi, ← Nat.size_le]
  unfold permLevel
  omega

theorem permLevel_le_of_le_levelMask (hi : i < permLevels + 1) (hle : perm ≤ levelMask i) :
    permLevel perm ≤ i := by
  apply permLevel_le_of_lt
  have hpos : 0 < 2 ^ i := Nat.two_pow_pos i
  rw [UInt32.le_iff_toNat_le, levelMask_toNat i hi] at hle
  omega

theorem permLevel_levelMask : ∀ i < permLevels + 1, permLevel (levelMask i) = i := by decide

theorem le_levelMask_permLevel (h : perm ≤ wcapPrincipal) : perm ≤ levelMask (permLevel perm) := by
  have hlevel : permLevel perm < permLevels + 1 := by
    unfold permLevel
    omega
  rw [wcapPrincipal_eq, UInt32.le_iff_toNat_le, levelMask_toNat _ (by decide)] at h
  have hsize : perm.toNat.size ≤ permLevels := Nat.size_le.mpr (by simp [permLevels] at *; omega)
  have hlt : perm.toNat < 2 ^ perm.toNat.size := Nat.lt_size_self _
  have heq : permLevel perm = perm.toNat.size := by
    unfold permLevel
    omega
  rw [UInt32.le_iff_toNat_le, levelMask_toNat _ hlevel, heq]
  omega

/-! ## Descending -/

/-- Clear one level after the other, from level `i` down to level `target`. -/
def Wcap.descend (hmac : Hmac) (target : Nat) : (i : Nat) → Wcap → Wcap
  | 0, cap => cap
  | i + 1, cap =>
    if target ≤ i then Wcap.descend hmac target i (cap.clear hmac (levelPermitted (i + 1)))
    else cap

section Descend

variable {hmac : Hmac} {cap : Wcap}

theorem Wcap.clear_permissions (cap : Wcap) (permitted : UInt32) :
    (cap.clear hmac permitted).permissions = cap.permissions &&& ~~~permitted := rfl

theorem Wcap.descend_self (target : Nat) (cap : Wcap) :
    Wcap.descend hmac target target cap = cap := by
  cases target with
  | zero => rfl
  | succ i => simp [Wcap.descend]

theorem Wcap.descend_permissions {target : Nat} (hi : i ≤ permLevels) (htarget : target ≤ i)
    (hcap : cap.permissions = levelMask i) :
    (Wcap.descend hmac target i cap).permissions = levelMask target := by
  induction i generalizing cap with
  | zero =>
    have hzero : target = 0 := by omega
    rw [hzero]
    exact hcap
  | succ i ih =>
    rw [Wcap.descend]
    split
    · rename_i hle
      apply ih (by omega) hle
      rw [Wcap.clear_permissions, hcap, levelMask_clear i (by omega)]
    · have heq : target = i + 1 := by omega
      rw [heq, hcap]

theorem Wcap.descend_descend {low target : Nat} (hlow : low ≤ target) (htarget : target ≤ i) :
    Wcap.descend hmac low target (Wcap.descend hmac target i cap) =
      Wcap.descend hmac low i cap := by
  induction i generalizing cap with
  | zero =>
    have hzero : target = 0 := by omega
    subst hzero
    rfl
  | succ i ih =>
    rcases Nat.lt_or_eq_of_le htarget with hlt | rfl
    · have hle : target ≤ i := by omega
      have hle' : low ≤ i := by omega
      simp only [Wcap.descend, if_pos hle, if_pos hle']
      exact ih hle
    · rw [Wcap.descend_self]

theorem attenuateLoop_eq_descend {fuel : Nat} (hfuel : i ≤ fuel) (hi : i ≤ permLevels) :
    attenuateLoop hmac perm fuel (levelPermitted i) cap =
      Wcap.descend hmac (permLevel perm) i cap := by
  induction fuel generalizing cap i with
  | zero =>
    have hzero : i = 0 := by omega
    subst hzero
    rfl
  | succ fuel ih =>
    cases i with
    | zero =>
      have hnot : ¬ perm < levelPermitted 0 := by
        exact Nat.not_lt_zero _
      rw [attenuateLoop, if_neg hnot, Wcap.descend]
    | succ i =>
      rw [attenuateLoop, Wcap.descend, levelPermitted_half i (by omega)]
      simp only [lt_levelPermitted_succ_iff (show i < permLevels by omega)]
      split
      · exact ih (by omega) (by omega)
      · rfl

theorem wooFCapAttenuate_eq_descend (hi : i ≤ permLevels) (hcap : cap.permissions = levelMask i)
    (hle : perm ≤ levelMask i) :
    wooFCapAttenuate hmac cap perm = some (Wcap.descend hmac (permLevel perm) i cap) := by
  have hnot : ¬ perm > cap.permissions := by
    rw [hcap]
    exact UInt32.not_lt.mpr hle
  rw [wooFCapAttenuate, if_neg hnot]
  split
  · rename_i heq
    rw [heq, hcap, permLevel_levelMask i (by omega), Wcap.descend_self]
  · have hclear : { cap with permissions := cap.permissions &&& wcapPrincipal } = cap := by
      rw [hcap, levelMask_and_principal i (by omega), ← hcap]
    simp only [hclear]
    rw [hcap, lowerPermitted_levelMask i (by omega), attenuateLoop_eq_descend hi hi]

end Descend

/-! ## Chains -/

def attenuateChain (hmac : Hmac) (cap : Wcap) : List UInt32 → Option (List Wcap)
  | [] => some []
  | perm :: chain => do
      let next ← wooFCapAttenuate hmac cap perm
      let rest ← attenuateChain hmac next chain
      return next :: rest

def Wcap.NoStronger (input result : Wcap) : Prop :=
  result.permissions &&& input.permissions = result.permissions

/-- A principal walked down to level `i`. -/
def principalAt (hmac : Hmac) (secret : UInt64) (i : Nat) : Wcap :=
  Wcap.descend hmac i permLevels (principalCap secret)

section Chain

variable (hmac : Hmac) (secret : UInt64)

theorem principalAt_permissions (hi : i ≤ permLevels) :
    (principalAt hmac secret i).permissions = levelMask i :=
  Wcap.descend_permissions (Nat.le_refl _) hi wcapPrincipal_eq

theorem wooFCapAttenuate_principalAt (hi : i ≤ permLevels) (hle : perm ≤ levelMask i) :
    wooFCapAttenuate hmac (principalAt hmac secret i) perm =
      some (principalAt hmac secret (permLevel perm)) := by
  rw [wooFCapAttenuate_eq_descend hi (principalAt_permissions hmac secret hi) hle, principalAt,
    Wcap.descend_descend (permLevel_le_of_le_levelMask (by omega) hle) hi]
  rfl

theorem principalAt_top : principalAt hmac secret permLevels = principalCap secret :=
  Wcap.descend_self _ _

theorem le_principal_of_le_levelMask (hi : i ≤ permLevels) (hle : perm ≤ levelMask i) :
    perm ≤ wcapPrincipal := by
  have hmask : levelMask i ≤ wcapPrincipal := by
    have hall : ∀ j < permLevels + 1, levelMask j ≤ wcapPrincipal := by decide
    exact hall i (by omega)
  exact UInt32.le_trans hle hmask

/-- Run lemma: a descending chain from level `i` stays on the levels of the principal. -/
theorem attenuateChain_principalAt (chain : List UInt32) (hi : i ≤ permLevels)
    (hchain : List.IsChain (· ≥ ·) (levelMask i :: chain)) :
    ∃ caps, attenuateChain hmac (principalAt hmac secret i) chain = some caps ∧
      List.IsChain Wcap.NoStronger (principalAt hmac secret i :: caps) ∧
      caps.getLast? = chain.getLast?.map fun perm => principalAt hmac secret (permLevel perm) := by
  induction chain generalizing i with
  | nil => exact ⟨[], rfl, .singleton _, rfl⟩
  | cons perm chain ih =>
    rw [List.isChain_cons_cons] at hchain
    obtain ⟨hle, hrest⟩ := hchain
    have hlevel : permLevel perm ≤ i := permLevel_le_of_le_levelMask (by omega) hle
    have hfits := le_levelMask_permLevel (le_principal_of_le_levelMask hi hle)
    have hstep := wooFCapAttenuate_principalAt hmac secret hi hle
    have hnext : List.IsChain (· ≥ ·) (levelMask (permLevel perm) :: chain) := by
      cases chain with
      | nil => exact .singleton _
      | cons next chain =>
        rw [List.isChain_cons_cons] at hrest ⊢
        exact ⟨UInt32.le_trans hrest.1 hfits, hrest.2⟩
    obtain ⟨caps, hcaps, hbits, hlast⟩ := ih (by omega) hnext
    refine ⟨principalAt hmac secret (permLevel perm) :: caps, ?_, ?_, ?_⟩
    · simp [attenuateChain, hstep, hcaps]
    · rw [List.isChain_cons_cons]
      refine ⟨?_, hbits⟩
      rw [Wcap.NoStronger, principalAt_permissions hmac secret hi,
        principalAt_permissions hmac secret (by omega)]
      exact levelMask_and_levelMask i (by omega) _ (by omega)
    · rw [List.getLast?_cons, List.getLast?_cons, hlast]
      cases chain.getLast? <;> rfl

end Chain

/-- Along every descending chain of permission values each attenuation succeeds and adds
no bit, and the last capability is the one a single attenuation gives.  A value above
the permissions is refused. -/
theorem wooFCapAttenuate_path_independent (hmac : Hmac) (secret : UInt64) (chain : List UInt32)
    (hchain : List.IsChain (· ≥ ·) (wcapPrincipal :: chain)) :
    (∃ caps, attenuateChain hmac (principalCap secret) chain = some caps ∧
      List.IsChain Wcap.NoStronger (principalCap secret :: caps) ∧
      ∀ perm, chain.getLast? = some perm →
        caps.getLast? = wooFCapAttenuate hmac (principalCap secret) perm) ∧
    ∀ (cap : Wcap) (perm : UInt32), perm > cap.permissions →
      wooFCapAttenuate hmac cap perm = none := by
  refine ⟨?_, fun cap perm hgt => by rw [wooFCapAttenuate, if_pos hgt]⟩
  have hchain' : List.IsChain (· ≥ ·) (levelMask permLevels :: chain) := wcapPrincipal_eq ▸ hchain
  obtain ⟨caps, hcaps, hbits, hlast⟩ :=
    attenuateChain_principalAt hmac secret chain (Nat.le_refl _) hchain'
  refine ⟨caps, hcaps, hbits, ?_⟩
  intro perm hperm
  have hle : perm ≤ levelMask permLevels := by
    rw [List.isChain_iff_pairwise, List.pairwise_cons] at hchain'
    exact hchain'.1 perm (List.mem_of_getLast? hperm)
  have hdirect := wooFCapAttenuate_principalAt hmac secret (Nat.le_refl _) hle
  rw [principalAt_top] at hdirect
  rw [hlast, hperm, hdirect]
  rfl

theorem wooFCapAttenuate_path_independent_exec :
    ∃ caps, attenuateChain (fun key _ => key + 1) (principalCap 5) [40, 9, 4] = some caps ∧
      caps.getLast? = wooFCapAttenuate (fun key _ => key + 1) (principalCap 5) 4 := by
  obtain ⟨⟨caps, hcaps, -, hlast⟩, -⟩ := wooFCapAttenuate_path_independent
    (fun key _ => key + 1) 5 [40, 9, 4] (by decide)
  exact ⟨caps, hcaps, hlast 4 rfl⟩

end Cspot
