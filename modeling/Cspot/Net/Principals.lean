import Cspot.Caplets.Authorization
import Cspot.Net.CapCheck

/-!
# Capability woofs that hold a principal

The check of a handler when each capability woof that exists has the capability of a
principal as its latest element.
-/

namespace Cspot

/-! ## Capabilities in memory -/

theorem Wcap.length_bytes (cap : Wcap) : cap.bytes.length = sizeofWcap := by
  simp [Wcap.bytes, sizeofWcap]

theorem Wcap.ofBytes_bytes_append (cap : Wcap) (rest : Bytes) :
    Wcap.ofBytes (cap.bytes ++ rest) = cap := by
  obtain ⟨permissions, flags, frameSize, check⟩ := cap
  have hperm := permissions.toNat_lt
  have hflags := flags.toNat_lt
  have hframe := frameSize.toNat_lt
  have hcheck := check.toNat_lt
  have h4 : (Bytes.ofNatLE 4 permissions.toNat).length = 4 := Bytes.length_ofNatLE _ _
  have h2 : (Bytes.ofNatLE 2 flags.toNat).length = 2 := Bytes.length_ofNatLE _ _
  have h2' : (Bytes.ofNatLE 2 frameSize.toNat).length = 2 := Bytes.length_ofNatLE _ _
  have h8 : (Bytes.ofNatLE 8 check.toNat).length = 8 := Bytes.length_ofNatLE _ _
  simp only [Wcap.ofBytes, Wcap.bytes, List.append_assoc, Wcap.mk.injEq]
  refine ⟨?_, ?_, ?_, ?_⟩
  · rw [List.take_append_of_le_length (by omega), List.take_of_length_le (by omega),
      Bytes.toNatLE_ofNatLE (by omega), UInt32.ofNat_toNat]
  · rw [List.drop_append_of_le_length (by omega), List.drop_of_length_le (by omega),
      List.nil_append, List.take_append_of_le_length (by omega),
      List.take_of_length_le (by omega), Bytes.toNatLE_ofNatLE (by omega), UInt16.ofNat_toNat]
  · rw [← List.append_assoc, List.drop_append_of_le_length (by simp),
      List.drop_of_length_le (by simp), List.nil_append,
      List.take_append_of_le_length (by omega), List.take_of_length_le (by omega),
      Bytes.toNatLE_ofNatLE (by omega), UInt16.ofNat_toNat]
  · rw [← List.append_assoc, ← List.append_assoc, List.drop_append_of_le_length (by simp),
      List.drop_of_length_le (by simp), List.nil_append,
      List.take_append_of_le_length (by omega), List.take_of_length_le (by omega),
      Bytes.toNatLE_ofNatLE (by omega), UInt64.ofNat_toNat]

theorem Frame.check_bytes (cap : Wcap) (beyond : Bytes) :
    (Frame.mk cap.bytes beyond).check = .ok cap.check := by
  have hlen : sizeofWcap ≤ (cap.bytes ++ beyond).length := by
    rw [List.length_append, cap.length_bytes]
    omega
  rw [Frame.check, Frame.memory, if_pos hlen, Wcap.ofBytes_bytes_append]

theorem principalOf_bytes (fill : Bytes) (cap : Wcap) : principalOf fill cap.bytes = .ok cap := by
  rw [principalOf, if_pos (Nat.le_of_eq cap.length_bytes), Wcap.ofBytes_bytes_append]

/-! ## The check -/

/-- The capability woof is missing, or its latest element is this principal. -/
def HoldsPrincipal (openCap : Bytes → Exec (Option WooF)) (capWoof : Bytes) :
    Option UInt64 → Prop
  | none => openCap capWoof = .ok none
  | some secret => ∃ wf after, openCap capWoof = .ok (some wf) ∧
      wooFReadWithCause wf (wooFLatestSeqno wf) = .ok (some (principalCap secret).bytes, after)

def derivedFrom (hmac : Hmac) (needed : UInt32) : Option UInt64 → Derived
  | none => .absent
  | some secret => .cap (principalAt hmac secret (permLevel needed))

theorem derivedFrom_ne_failed (hmac : Hmac) (needed : UInt32) (secret : Option UInt64) :
    derivedFrom hmac needed secret ≠ .failed := by
  cases secret <;> simp [derivedFrom]

theorem readPrincipal_of_read {wf after : WooF} {secret : UInt64}
    (h : wooFReadWithCause wf (wooFLatestSeqno wf) = .ok (some (principalCap secret).bytes, after))
    (fill : Bytes) : readPrincipal fill wf = .ok (some (principalCap secret)) := by
  simp [readPrincipal, h, principalOf_bytes]

variable {openCap : Bytes → Exec (Option WooF)} {needed : UInt32}

theorem HoldsPrincipal.derive {capWoof : Bytes} {secret : Option UInt64}
    (h : HoldsPrincipal openCap capWoof secret) (hmac : Hmac) (hneeded : needed ≤ wcapPrincipal) :
    ∃ wf, openCap capWoof = .ok wf ∧ (wf = none ↔ secret = none) ∧
      deriveCap hmac needed wf = .ok (derivedFrom hmac needed secret) := by
  cases secret with
  | none => exact ⟨none, h, by simp, rfl⟩
  | some secret =>
    obtain ⟨wf, after, hopen, hread⟩ := h
    refine ⟨some wf, hopen, by simp, ?_⟩
    simp [deriveCap, readPrincipal_of_read hread,
      wooFCapAttenuate_principalCap hmac secret hneeded, derivedFrom]

section

variable {localName text : Bytes} {payload : Exec (Option Bytes)} {own ns : Option UInt64}
  (hown : HoldsPrincipal openCap (capName localName) own)
  (hns : HoldsPrincipal openCap nsCapName ns) (hone : ¬ (own = none ∧ ns = none))
  (hneeded : needed ≤ wcapPrincipal) (htext : payload = .ok (some text)) (hmac : Hmac) (cap : Frame)
include hown hns hone hneeded htext hmac

theorem capCheck_of_holds :
    capCheck hmac openCap localName needed payload cap = (do
      let check ← cap.check
      if check = (derivedFrom hmac needed own).sig hmac text ∨
          check = (derivedFrom hmac needed ns).sig hmac text then return .granted
      else return .refused) := by
  obtain ⟨wf, hopen, hwf, hderive⟩ := hown.derive hmac hneeded
  obtain ⟨wfNs, hopenNs, hwfNs, hderiveNs⟩ := hns.derive hmac hneeded
  rw [capCheck_of_open hopenNs hopen (by rwa [hwf, hwfNs])]
  simp [checkSignature, hderive, hderiveNs, derivedFrom_ne_failed, htext]

theorem capCheck_granted_iff_of_holds :
    capCheck hmac openCap localName needed payload cap = .ok .granted ↔
      ∃ check, cap.check = .ok check ∧ (check = (derivedFrom hmac needed own).sig hmac text ∨
        check = (derivedFrom hmac needed ns).sig hmac text) := by
  rw [capCheck_of_holds hown hns hone hneeded htext, Exec.bind_eq_ok]
  apply exists_congr
  intro check
  by_cases hsig : check = (derivedFrom hmac needed own).sig hmac text ∨
      check = (derivedFrom hmac needed ns).sig hmac text <;> simp [hsig]

end

end Cspot
