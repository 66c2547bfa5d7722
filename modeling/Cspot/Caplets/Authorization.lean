import Cspot.Caplets.Attenuation

/-!
# Authorization against attenuation

The other walk down the levels: a server halves the permissions of the principal, hashes,
and compares.  It meets the capability it is given at a level below the top or not at all,
since it compares only after it has hashed.
-/

namespace Cspot

/-! ## The levels of a principal -/

section Levels

variable (hmac : Hmac) (secret : UInt64) {i : Nat}

theorem wooFCapAttenuate_principalCap {perm : UInt32} (hperm : perm ≤ wcapPrincipal) :
    wooFCapAttenuate hmac (principalCap secret) perm =
      some (principalAt hmac secret (permLevel perm)) := by
  have hatt := wooFCapAttenuate_principalAt hmac secret (Nat.le_refl permLevels)
    (wcapPrincipal_eq ▸ hperm)
  rwa [principalAt_top] at hatt

theorem principalAt_succ (hi : i < permLevels) :
    principalAt hmac secret i =
      (principalAt hmac secret (i + 1)).clear hmac (levelPermitted (i + 1)) := by
  have h : Wcap.descend hmac i (i + 1) (principalAt hmac secret (i + 1)) =
      principalAt hmac secret i := Wcap.descend_descend (by omega) (by omega)
  rw [← h, Wcap.descend, if_pos (Nat.le_refl i), Wcap.descend_self]

theorem principalAt_check_iterate (f : UInt64 → UInt64) (secret : UInt64) (hi : i ≤ permLevels) :
    (principalAt (fun key _ => f key) secret i).check = f^[permLevels - i] secret := by
  induction hj : permLevels - i generalizing i with
  | zero =>
    have heq : i = permLevels := by omega
    rw [heq, principalAt_top]
    rfl
  | succ j ih =>
    rw [principalAt_succ _ _ (by omega), Function.iterate_succ_apply',
      ← ih (i := i + 1) (by omega) (by omega)]
    rfl

end Levels

/-! ## The walk by halves -/

theorem levelMask_half : ∀ i < permLevels, levelMask (i + 1) / 2 = levelMask i := by decide

theorem levelMask_mono : ∀ i < permLevels + 1, ∀ l < i + 1, levelMask l ≤ levelMask i := by decide

section Walk

variable (hmac : Hmac) (secret : UInt64) {i fuel : Nat} {cap : Wcap} {perm : UInt32}

theorem principalAt_half (hi : i < permLevels) :
    principalAt hmac secret i =
      let lower := { principalAt hmac secret (i + 1) with
        permissions := (principalAt hmac secret (i + 1)).permissions / 2 }
      { lower with check := wooFCapCheck hmac lower lower.check } := by
  have hclear : levelMask (i + 1) &&& ~~~ levelPermitted (i + 1) = levelMask (i + 1) / 2 := by
    rw [levelMask_half i hi]
    exact levelMask_clear i hi
  rw [principalAt_succ hmac secret hi, Wcap.clear, principalAt_permissions hmac secret hi]
  simp [hclear]

theorem authorizeLoop_turn (hi : i < permLevels) :
    authorizeLoop hmac cap perm (fuel + 1) (levelPermitted (i + 1))
        (principalAt hmac secret (i + 1)) =
      if permLevel perm ≤ i then
        if cap.check = (principalAt hmac secret i).check ∧
            (principalAt hmac secret i).permissions ≥ perm then principalAt hmac secret i
        else authorizeLoop hmac cap perm fuel (levelPermitted i) (principalAt hmac secret i)
      else principalAt hmac secret (i + 1) := by
  rw [principalAt_half hmac secret hi, ← levelPermitted_half i hi, authorizeLoop]
  simp [lt_levelPermitted_succ_iff hi]

/-- From level `i` the loop ends on the check it looks for if a level below `i`, down to that
of `perm`, has it.  Level `i` itself counts only when the loop makes no turn. -/
theorem authorizeLoop_check_iff (cap : Wcap) (hperm : perm ≤ wcapPrincipal) (hi : i ≤ permLevels)
    (hfuel : i ≤ fuel) :
    (authorizeLoop hmac cap perm fuel (levelPermitted i) (principalAt hmac secret i)).check =
        cap.check ↔
      (permLevel perm < i ∧ ∃ j, permLevel perm ≤ j ∧ j < i ∧
        (principalAt hmac secret j).check = cap.check) ∨
      (i ≤ permLevel perm ∧ (principalAt hmac secret i).check = cap.check) := by
  induction i generalizing fuel with
  | zero =>
    have hstop : authorizeLoop hmac cap perm fuel (levelPermitted 0) (principalAt hmac secret 0) =
        principalAt hmac secret 0 := by
      have hnot : ¬ perm < levelPermitted 0 := by
        exact Nat.not_lt_zero _
      cases fuel with
      | zero => rfl
      | succ fuel => rw [authorizeLoop, if_neg hnot]
    simp [hstop]
  | succ i ih =>
    obtain ⟨fuel, rfl⟩ : ∃ n, fuel = n + 1 := ⟨fuel - 1, by omega⟩
    rw [authorizeLoop_turn hmac secret (by omega)]
    by_cases hturn : permLevel perm ≤ i
    · rw [if_pos hturn]
      -- the mask of a level the loop reaches covers what is asked for
      have hcovers : (principalAt hmac secret i).permissions ≥ perm := by
        rw [principalAt_permissions hmac secret (by omega)]
        exact UInt32.le_trans (le_levelMask_permLevel hperm)
          (levelMask_mono i (by omega) _ (by omega))
      by_cases hmet : cap.check = (principalAt hmac secret i).check
      · rw [if_pos ⟨hmet, hcovers⟩]
        exact ⟨fun h => .inl ⟨by omega, i, hturn, by omega, h⟩, fun _ => hmet.symm⟩
      · rw [if_neg (fun h => hmet h.1), ih (by omega) (by omega)]
        constructor
        · rintro (⟨-, j, hj, hlt, hcheck⟩ | ⟨-, hcheck⟩)
          · exact .inl ⟨by omega, j, hj, by omega, hcheck⟩
          · exact (hmet hcheck.symm).elim
        · rintro (⟨-, j, hj, hlt, hcheck⟩ | ⟨hle, -⟩)
          · rcases Nat.lt_or_eq_of_le (Nat.le_of_lt_succ hlt) with hlt | rfl
            · exact .inl ⟨by omega, j, hj, hlt, hcheck⟩
            · exact (hmet hcheck.symm).elim
          · omega
    · rw [if_neg hturn]
      constructor
      · exact fun h => .inr ⟨by omega, h⟩
      · rintro (⟨hlt, -⟩ | ⟨-, h⟩)
        · omega
        · exact h

/-- What a server authorizes: the check of a level below the top that covers the demand, or
the secret itself when the demand is the strongest permission. -/
theorem wooFCapAuthorized_iff (hperm : perm ≤ wcapMaxPerm) :
    wooFCapAuthorized hmac secret cap perm = true ↔
      (permLevel perm < permLevels ∧ ∃ j, permLevel perm ≤ j ∧ j < permLevels ∧
        (principalAt hmac secret j).check = cap.check) ∨
      (permLevels ≤ permLevel perm ∧ secret = cap.check) := by
  have hloop := authorizeLoop_check_iff hmac secret cap
    (UInt32.le_trans hperm (show wcapMaxPerm ≤ wcapPrincipal by decide))
    (Nat.le_refl permLevels) (Nat.le_refl permLevels)
  rw [wooFCapAuthorized, if_neg (UInt32.not_lt.mpr hperm), decide_eq_true_iff]
  exact hloop

theorem wooFCapAuthorized_principalAt :
    wooFCapAuthorized hmac secret (principalAt hmac secret 1) wcapRead = true :=
  (wooFCapAuthorized_iff hmac secret (by decide)).2 (.inl ⟨by decide, 1, by decide, by decide, rfl⟩)

end Walk

/-! ## The order of the levels -/

/-- The largest power of two below a value, capped at the strongest permission. -/
def wcapLevel (x : UInt32) : Nat :=
  if x = 0 then 0 else min wcapMaxPerm.toNat (2 ^ x.toNat.log2)

theorem size_eq_log2_succ {n : Nat} (hn : n ≠ 0) : n.size = n.log2 + 1 := by
  apply Nat.le_antisymm
  · exact Nat.size_le.mpr Nat.lt_log2_self
  · exact (Nat.log2_lt hn).mpr (Nat.lt_size_self n)

theorem wcapLevel_eq (x : UInt32) : wcapLevel x = 2 ^ permLevel x / 2 := by
  unfold wcapLevel permLevel
  split
  · rename_i hx
    subst hx
    rfl
  · rename_i hx
    have hne : x.toNat ≠ 0 := fun h => hx (UInt32.toNat_inj.mp h)
    have hmin : min permLevels (x.toNat.log2 + 1) = min 5 x.toNat.log2 + 1 := by
      unfold permLevels
      omega
    rw [size_eq_log2_succ hne, hmin, Nat.pow_succ, Nat.mul_div_cancel _ (by decide)]
    rcases Nat.le_total 5 x.toNat.log2 with hle | hle
    · rw [Nat.min_eq_left hle]
      exact Nat.min_eq_left (Nat.pow_le_pow_right Nat.two_pos hle)
    · rw [Nat.min_eq_right hle]
      exact Nat.min_eq_right (Nat.pow_le_pow_right Nat.two_pos hle)

theorem wcapLevel_le_iff (x y : UInt32) :
    wcapLevel x ≤ wcapLevel y ↔ permLevel x ≤ permLevel y := by
  have hhalf : ∀ i < permLevels + 1, ∀ j < permLevels + 1, (2 ^ i / 2 ≤ 2 ^ j / 2 ↔ i ≤ j) := by
    decide
  have hx : permLevel x < permLevels + 1 := Nat.lt_succ_of_le (Nat.min_le_left _ _)
  have hy : permLevel y < permLevels + 1 := Nat.lt_succ_of_le (Nat.min_le_left _ _)
  rw [wcapLevel_eq, wcapLevel_eq]
  exact hhalf _ hx _ hy

theorem permLevels_le_permLevel_iff (x : UInt32) :
    permLevels ≤ permLevel x ↔ wcapMaxPerm ≤ x := by
  have h : x < levelPermitted (5 + 1) ↔ permLevel x ≤ 5 :=
    lt_levelPermitted_succ_iff (show 5 < permLevels by decide)
  rw [show levelPermitted (5 + 1) = wcapMaxPerm by decide] at h
  rw [← UInt32.not_lt, h, show permLevels = 5 + 1 from rfl]
  omega

def ChecksDistinct (hmac : Hmac) (secret : UInt64) : Prop :=
  ∀ i ≤ permLevels, ∀ j ≤ permLevels,
    (principalAt hmac secret i).check = (principalAt hmac secret j).check → i = j

/-- Authorization follows the order of the levels, except that a capability with the secret
itself is refused whatever is asked for below the strongest permission. -/
theorem wooFCapAuthorized_follows_level_iff (hmac : Hmac) (secret : UInt64) (p q : UInt32)
    (hp : p ≤ wcapPrincipal) (hq : q ≤ wcapMaxPerm) (hdistinct : ChecksDistinct hmac secret) :
    (∃ cap, wooFCapAttenuate hmac (principalCap secret) p = some cap ∧
      (wooFCapAuthorized hmac secret cap q = true ↔ wcapLevel q ≤ wcapLevel p)) ↔
    (p < wcapMaxPerm ∨ q = wcapMaxPerm) := by
  have hle : permLevel p ≤ permLevels := Nat.min_le_left _ _
  have hle' : permLevel q ≤ permLevels := Nat.min_le_left _ _
  have hlow : p < wcapMaxPerm ↔ permLevel p < permLevels := by
    rw [← UInt32.not_le, ← permLevels_le_permLevel_iff]
    omega
  have htop : q = wcapMaxPerm ↔ permLevels ≤ permLevel q := by
    rw [permLevels_le_permLevel_iff]
    exact ⟨fun h => h ▸ UInt32.le_refl _, fun h => UInt32.le_antisymm hq h⟩
  have hauth : wooFCapAuthorized hmac secret (principalAt hmac secret (permLevel p)) q = true ↔
      permLevel q ≤ permLevel p ∧ (permLevel p < permLevels ∨ permLevels ≤ permLevel q) := by
    rw [wooFCapAuthorized_iff hmac secret hq]
    constructor
    · rintro (⟨hlt, j, hj, hjlt, hcheck⟩ | ⟨hge, hcheck⟩)
      · have heq := hdistinct j (by omega) _ hle hcheck
        omega
      · -- the secret is the check of the top level
        have heq := hdistinct permLevels (Nat.le_refl _) _ hle hcheck
        omega
    · rintro ⟨hcovers, hlt | hge⟩
      · exact .inl ⟨by omega, permLevel p, hcovers, hlt, rfl⟩
      · have heq : permLevel p = permLevels := by omega
        rw [heq, principalAt_top]
        exact .inr ⟨hge, rfl⟩
  simp only [wooFCapAttenuate_principalCap hmac secret hp, Option.some.injEq, exists_eq_left',
    wcapLevel_le_iff, hauth, hlow, htop]
  omega

theorem wooFCapAuthorized_follows_level_write :
    (∃ cap, wooFCapAttenuate (fun key _ => key + 1) (principalCap 5) wcapWrite = some cap ∧
      (wooFCapAuthorized (fun key _ => key + 1) 5 cap wcapRead = true ↔
        wcapLevel wcapRead ≤ wcapLevel wcapWrite)) ↔
    (wcapWrite < wcapMaxPerm ∨ wcapRead = wcapMaxPerm) :=
  wooFCapAuthorized_follows_level_iff (fun key _ => key + 1) 5 wcapWrite wcapRead (by decide)
    (by decide) (by unfold ChecksDistinct; decide)

/-- The capability of the principal itself is refused for reading. -/
theorem wooFCapAuthorized_principal_refused :
    ChecksDistinct (fun key _ => key + 1) 5 ∧
    wooFCapAttenuate (fun key _ => key + 1) (principalCap 5) wcapPrincipal =
      some (principalCap 5) ∧
    wcapLevel wcapRead ≤ wcapLevel wcapPrincipal ∧
    wooFCapAuthorized (fun key _ => key + 1) 5 (principalCap 5) wcapRead = false := by
  refine ⟨?_, ?_, ?_, ?_⟩
  · unfold ChecksDistinct
    decide
  · decide
  · decide
  · decide

end Cspot
