import Mathlib.Data.Nat.Size
import Cspot.Lib.Bytes

/-!
# Capabilities

A capability carries permission bits ordered by strength and a check value.  Each
step of attenuation clears the strongest bit and replaces the check by a keyed hash
of the capability under the old check.  The hash is a parameter throughout.
-/

namespace Cspot

/-- First eight bytes of the keyed hash of a byte string. -/
abbrev Hmac := UInt64 → Bytes → UInt64

structure Wcap where
  permissions : UInt32
  flags : UInt16
  frameSize : UInt16
  check : UInt64
deriving Repr, DecidableEq

def wcapRead : UInt32 := 0x1
def wcapWrite : UInt32 := 0x2
def wcapExec : UInt32 := 0x4
def wcapInit : UInt32 := 0x8
def wcapDestroy : UInt32 := 0x10
def wcapPolicyAttach : UInt32 := 0x20

def wcapMaxPerm : UInt32 := wcapPolicyAttach

def wcapPrincipal : UInt32 :=
  wcapExec ||| wcapWrite ||| wcapRead ||| wcapInit ||| wcapDestroy ||| wcapPolicyAttach

def principalCap (secret : UInt64) : Wcap := ⟨wcapPrincipal, 0, 0, secret⟩

def Wcap.bytes (cap : Wcap) : Bytes :=
  Bytes.ofNatLE 4 cap.permissions.toNat ++ Bytes.ofNatLE 2 cap.flags.toNat ++
    Bytes.ofNatLE 2 cap.frameSize.toNat ++ Bytes.ofNatLE 8 cap.check.toNat

def sizeofWcap : Nat := 16

def Wcap.ofBytes (memory : Bytes) : Wcap where
  permissions := UInt32.ofNat (Bytes.toNatLE (memory.take 4))
  flags := UInt16.ofNat (Bytes.toNatLE ((memory.drop 4).take 2))
  frameSize := UInt16.ofNat (Bytes.toNatLE ((memory.drop 6).take 2))
  check := UInt64.ofNat (Bytes.toNatLE ((memory.drop 8).take 8))

def wooFCapCheck (hmac : Hmac) (cap : Wcap) (key : UInt64) : UInt64 := hmac key cap.bytes

def wooFCapSign (hmac : Hmac) (data : Bytes) (key : UInt64) : UInt64 := hmac key data

/-! ## Attenuation -/

/-- `while (permissions < permitted) permitted = permitted / 2`, at most `fuel` times. -/
def lowerPermitted (permissions : UInt32) : (fuel : Nat) → UInt32 → UInt32
  | 0, permitted => permitted
  | fuel + 1, permitted =>
    if permissions < permitted then lowerPermitted permissions fuel (permitted / 2)
    else permitted

/-- One turn of the loop: clear `permitted` and hash under the old check. -/
def Wcap.clear (hmac : Hmac) (cap : Wcap) (permitted : UInt32) : Wcap :=
  let cleared := { cap with permissions := cap.permissions &&& ~~~permitted }
  { cleared with check := wooFCapCheck hmac cleared cleared.check }

/-- `while (permitted > perm)`, at most `fuel` turns. -/
def attenuateLoop (hmac : Hmac) (perm : UInt32) : (fuel : Nat) → UInt32 → Wcap → Wcap
  | 0, _, cap => cap
  | fuel + 1, permitted, cap =>
    if perm < permitted then
      attenuateLoop hmac perm fuel (permitted / 2) (cap.clear hmac permitted)
    else cap

/-- Turns after which a value halved from the largest permission is zero. -/
def permLevels : Nat := 6

def wooFCapAttenuate (hmac : Hmac) (cap : Wcap) (perm : UInt32) : Option Wcap :=
  if perm > cap.permissions then none
  else if perm = cap.permissions then some cap
  else
    let permitted := lowerPermitted cap.permissions permLevels wcapMaxPerm
    let newCap := { cap with permissions := cap.permissions &&& wcapPrincipal }
    some (attenuateLoop hmac perm permLevels permitted newCap)

/-- The loop of `WooFCapAuthorized`: the local capability when it stops. -/
def authorizeLoop (hmac : Hmac) (cap : Wcap) (perm : UInt32) :
    (fuel : Nat) → UInt32 → Wcap → Wcap
  | 0, _, localCap => localCap
  | fuel + 1, permitted, localCap =>
    if perm < permitted then
      let lower := { localCap with permissions := localCap.permissions / 2 }
      let lower := { lower with check := wooFCapCheck hmac lower lower.check }
      if cap.check = lower.check ∧ lower.permissions ≥ perm then lower
      else authorizeLoop hmac cap perm fuel (permitted / 2) lower
    else localCap

def wooFCapAuthorized (hmac : Hmac) (secret : UInt64) (cap : Wcap) (perm : UInt32) : Bool :=
  if perm > wcapMaxPerm then false
  else
    let localCap := authorizeLoop hmac cap perm permLevels wcapMaxPerm (principalCap secret)
    localCap.check = cap.check

/-! ## Levels

A permission word with all bits up to some strength set is determined by how many
there are. -/

def levelMask (i : Nat) : UInt32 := UInt32.ofNat (2 ^ i - 1)

/-- The strongest of the `i` weakest permissions, zero when there is none. -/
def levelPermitted (i : Nat) : UInt32 := UInt32.ofNat (2 ^ i / 2)

def permLevel (perm : UInt32) : Nat := min permLevels perm.toNat.size

end Cspot
