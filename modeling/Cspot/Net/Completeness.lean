import Cspot.Net.Agreement

/-!
# What a client with the right capability is granted

A request goes through when both ends agree on the text and on the level.  Where they do
not, there is a hash under which the signature of the client is not the one the server
looks for.
-/

namespace Cspot

/-! ## Hashes that tell apart -/

section Hashes

variable {secret : UInt64} {ns : Option UInt64} {req : Request}

theorem not_signatureFits_of_text_ne {text text' : Bytes} (h : text' ≠ text) :
    ¬ SignatureFits (fun _ data => if data = text then 1 else 0) secret ns req text text' := by
  intro hfits
  cases ns <;> simp [SignatureFits, wooFCapSign, derivedFrom, Derived.sig, h] at hfits

theorem principalAt_check_add (c secret : UInt64) {i : Nat} (hi : i ≤ permLevels) :
    (principalAt (fun key _ => key + c) secret i).check =
      (fun key => key + c)^[permLevels - i] secret :=
  principalAt_check_iterate (fun key => key + c) secret hi

theorem exists_not_signatureFits_of_write_exec {text : Bytes} (hneeded : req.needed = wcapExec)
    (hdemanded : req.demanded = wcapWrite) :
    ∃ hmac, ¬ SignatureFits hmac secret ns req text text := by
  have hexec (c secret : UInt64) :
      (principalAt (fun key _ => key + c) secret 3).check = secret + c + c + c :=
    principalAt_check_add c secret (by decide)
  have hwrite (c secret : UInt64) :
      (principalAt (fun key _ => key + c) secret 2).check = secret + c + c + c + c :=
    principalAt_check_add c secret (by decide)
  have hlevels : permLevel wcapExec = 3 ∧ permLevel wcapWrite = 2 := by decide
  by_contra hall
  push Not at hall
  have hone := hall fun key _ => key + 1
  have htwo := hall fun key _ => key + 2
  cases ns with
  | none =>
    simp only [SignatureFits, hneeded, hdemanded, hlevels, wooFCapSign, hexec, hwrite,
      derivedFrom, Derived.sig] at hone htwo
    grind
  | some other =>
    simp only [SignatureFits, hneeded, hdemanded, hlevels, wooFCapSign, hexec, hwrite,
      derivedFrom, Derived.sig] at hone htwo
    grind

end Hashes

/-! ## Requests with a signature -/

section Complete

variable {t : Transport} {srv : Server} {woofName name : Bytes} {secret : UInt64}
  {ns : Option UInt64} {req : Request} {size : UInt64} {elCount : Int32}

theorem demanded_eq_or (req : Request) : req.demanded = req.needed ∨
    req.needed = wcapExec ∧ req.demanded = wcapWrite := by
  cases req with
  | put handlerName elem =>
    cases handlerName with
    | none => exact Or.inl (show putNeeded nullName = wcapWrite by decide)
    | some handlerName =>
      by_cases hnull : nullName.isPrefixOf handlerName = true
      · exact Or.inr ⟨rfl, if_pos hnull⟩
      · exact Or.inl (if_neg hnull)
  | _ => exact Or.inl rfl

def Agreed (t : Transport) (woofName : Bytes) (req : Request) : Prop :=
  req.demanded = req.needed ∧
    ∃ text, req.payload woofName = .ok (some text) ∧ req.checked t woofName = .ok (some text)

theorem granted_iff_agreed (hwoof : ProtectedWoof t srv woofName name secret ns)
    (hvalid : req.Valid) (hop : req.operation ≠ .getTail) :
    (∀ hmac garbage, Granted t srv woofName secret req hmac garbage) ↔
      req.Sized ∧ name.length < 1024 ∧ Agreed t woofName req := by
  simp only [granted_iff_of_signed hwoof hvalid hop]
  constructor
  · intro h
    obtain ⟨hsized, hlen, text, text', htext, htext', -⟩ := h (fun _ _ => 0) 0
    have hfits (hmac : Hmac) : SignatureFits hmac secret ns req text text' := by
      obtain ⟨-, -, _, _, hsame, hsame', hfits⟩ := h hmac 0
      cases htext.symm.trans hsame
      cases htext'.symm.trans hsame'
      exact hfits
    obtain rfl : text' = text := by
      by_contra hne
      exact not_signatureFits_of_text_ne hne (hfits _)
    refine ⟨hsized, hlen, ?_, text', htext, htext'⟩
    rcases demanded_eq_or req with hsame | ⟨hneeded, hdemanded⟩
    · exact hsame
    · obtain ⟨hmac, hnot⟩ := exists_not_signatureFits_of_write_exec hneeded hdemanded
      exact absurd (hfits hmac) hnot
  · rintro ⟨hsized, hlen, hsame, text, htext, htext'⟩ hmac garbage
    refine ⟨hsized, hlen, text, text, htext, htext', Or.inl ?_⟩
    rw [hsame]

/-! ## Tail requests -/

theorem Zmq.authorize_getTail {hmac : Hmac} {cap : Frame} {frames : List Frame}
    (hwoof : ProtectedWoof .zmq srv woofName name secret ns)
    (harrived : Arrived (Request.args woofName (.getTail size elCount)) frames)
    (hdata : cap.data = (principalAt hmac secret (permLevel wcapRead)).bytes)
    (hlen : name.length < 1024) :
    Zmq.wooFProcessGetTailwithCAP.authorize hmac srv cap frames = .ok .granted := by
  rw [show permLevel wcapRead = 1 by decide] at hdata
  have hcap : cap.data ≠ [] := hdata ▸ Wcap.bytes_ne_nil _
  have hmemory : cap.memory = (principalAt hmac secret 1).bytes ++ cap.beyond := by
    rw [Frame.memory, hdata]
  have hlong : ¬ cap.memory.length < sizeofWcap := by
    rw [hmemory, List.length_append, Wcap.length_bytes]
    omega
  have hauthorized : wooFCapAuthorized hmac (principalCap secret).check
      (Wcap.ofBytes cap.memory) wcapRead = true := by
    rw [hmemory, Wcap.ofBytes_bytes_append]
    exact wooFCapAuthorized_principalAt hmac secret
  obtain ⟨wf, after, hopen, hread⟩ := hwoof.ownCap
  have hopen : Zmq.openCap srv (capName name) = .ok (some wf) := hopen
  refine (CapHandler.authorize_of_short
    (localName_of_arrived hwoof harrived hcap) hlen).trans ?_
  change Zmq.checkTail hmac srv name frames cap = .ok .granted
  simp [Zmq.checkTail, hopen, readPrincipal_of_read hread, hlong, hauthorized]

theorem Zmq.granted_getTail_iff (hwoof : ProtectedWoof .zmq srv woofName name secret ns)
    (hmac : Hmac) (garbage : UInt64) :
    Granted .zmq srv woofName secret (.getTail size elCount) hmac garbage ↔
      size ≠ 0xffffffffffffffff ∧ name.length < 1024 := by
  constructor
  · rintro ⟨call, capBytes, hcall, hcap, hgranted⟩
    rw [Transport.call, Zmq.remoteGetTail, Option.ite_none_left_eq_some,
      Option.some.injEq] at hcall
    obtain ⟨hsize, rfl⟩ := hcall
    obtain rfl : (principalAt hmac secret (permLevel wcapRead)).bytes = capBytes :=
      Option.some.inj (Except.ok.inj hcap)
    refine ⟨hsize, ?_⟩
    by_contra hlen
    have harrived := arrived_map (Request.args woofName (.getTail size elCount))
    have hgranted := hgranted ⟨_, []⟩ _ rfl harrived
    rw [CapHandler.authorize_of_long
      (localName_of_arrived hwoof harrived (Wcap.bytes_ne_nil _)) hlen] at hgranted
    cases hgranted
  · rintro ⟨hsize, hlen⟩
    refine ⟨_, _, if_neg hsize, rfl, fun cap frames hdata harrived => ?_⟩
    have harrived : Arrived (Request.args woofName (.getTail size elCount)) frames := harrived
    exact Zmq.authorize_getTail hwoof harrived hdata hlen

theorem Cmq.granted_getTail_iff (hwoof : ProtectedWoof .cmq srv woofName name secret ns)
    (hmac : Hmac) (garbage : UInt64) :
    Granted .cmq srv woofName secret (.getTail size elCount) hmac garbage ↔
      size ≠ 0xffffffffffffffff ∧ name.length < 1024 ∧
        SignatureFits hmac secret ns (.getTail size elCount)
          (snprintf 2048 (woofName ++ blank ++ Decimal.ofNat garbage.toNat)) woofName := by
  have hauthorize {cap : Frame} {frames : List Frame} {newCap : Wcap}
      (harrived : Arrived (Request.arriving .cmq woofName (.getTail size elCount)) frames)
      (hdata : cap.data = newCap.bytes)
      (hsig : newCap.check = wooFCapSign hmac
        (snprintf 2048 (woofName ++ blank ++ Decimal.ofNat garbage.toNat))
        (principalAt hmac secret (permLevel wcapRead)).check) := by
    have hname := harrived.frameText (i := 0) rfl hwoof.woofName_ne_zero
    have hlocal : (Transport.cmq.capHandler .getTail).localName srv cap frames =
        .ok (fileName name) :=
      (Cmq.unguardedNameOf_of_present (hdata ▸ newCap.bytes_ne_nil)
        (harrived.hasPayload (i := 0) rfl) hname).trans hwoof.named.localName
    have htext : Cmq.namePayloadOf frames = .ok (some woofName) := by
      rw [Cmq.namePayloadOf, hname]
      rfl
    exact authorize_signed_iff hwoof (.getTail size elCount) (Transport.capHandler_signed (by simp))
      hlocal rfl htext hdata hsig
  constructor
  · rintro ⟨call, capBytes, hcall, hcap, hgranted⟩
    rw [Transport.call, Cmq.remoteGetTail, Option.ite_none_left_eq_some,
      Option.some.injEq] at hcall
    obtain ⟨hsize, rfl⟩ := hcall
    have hbytes := Option.some.inj (Except.ok.inj hcap)
    exact ⟨hsize, (hauthorize (arrived_map _) hbytes.symm rfl).1
      (hgranted ⟨capBytes, []⟩ _ rfl (arrived_map _))⟩
  · rintro ⟨hsize, hfits⟩
    exact ⟨_, _, if_neg hsize, rfl, fun cap frames hdata harrived =>
      (hauthorize harrived hdata rfl).2 hfits⟩

/-- The text of the client is the name only where the buffer ends with it. -/
theorem snprintf_pair_eq_iff {first : Bytes} :
    snprintf 2048 (woofName ++ blank ++ first) = woofName ↔ woofName.length = 2047 := by
  constructor
  · intro h
    have hlen := congrArg List.length h
    simp only [snprintf, blank, List.length_take, List.length_append, List.length_singleton] at hlen
    omega
  · intro h
    rw [snprintf, List.append_assoc]
    exact List.take_left' h

theorem Cmq.forall_granted_getTail_iff
    (hwoof : ProtectedWoof .cmq srv woofName name secret ns) :
    (∀ hmac garbage, Granted .cmq srv woofName secret (.getTail size elCount) hmac garbage) ↔
      size ≠ 0xffffffffffffffff ∧ name.length < 1024 ∧ woofName.length = 2047 := by
  simp only [Cmq.granted_getTail_iff hwoof]
  constructor
  · intro h
    refine ⟨(h (fun _ _ => 0) 0).1, (h (fun _ _ => 0) 0).2.1, ?_⟩
    by_contra hlen
    have hne : woofName ≠ snprintf 2048 (woofName ++ blank ++ Decimal.ofNat 0) :=
      fun heq => hlen (snprintf_pair_eq_iff.1 heq.symm)
    exact not_signatureFits_of_text_ne hne (h _ 0).2.2
  · rintro ⟨hsize, hlen, huri⟩ hmac garbage
    refine ⟨hsize, hlen, Or.inl ?_⟩
    rw [snprintf_pair_eq_iff.2 huri]
    rfl

/-! ## All requests -/

/-- What it takes beside a name and sizes that are sent at all. -/
def Fits (t : Transport) (woofName : Bytes) : Request → Prop
  | .put handlerName elem =>
    elem.length + woofName.length + (handlerText handlerName).length < 2 ^ 31 ∧
      ∀ h ∈ handlerName, nullName.isPrefixOf h = false
  | .create elemSize historySize => t = .zmq →
      (woofName ++ blank ++ decimal elemSize ++ blank ++ decimal historySize).length < 2048
  | .getTail _ _ => t = .cmq → woofName.length = 2047
  | _ => True

theorem snprintf_eq_snprintf_iff {size larger : Nat} (hlarger : size < larger)
    (hsize : 0 < size) (text : Bytes) :
    snprintf size text = snprintf larger text ↔ text.length < size := by
  constructor
  · intro h
    have hlen := congrArg List.length h
    simp only [snprintf, List.length_take] at hlen
    omega
  · intro h
    rw [snprintf, snprintf, List.take_of_length_le (by omega), List.take_of_length_le (by omega)]

theorem agreed_iff_fits (hop : req.operation ≠ .getTail) :
    Agreed t woofName req ↔ Fits t woofName req := by
  cases req with
  | elSize | latestSeqno | earliestSeqno | get elemSize seqNo | getRange elemSize seqNo count =>
    exact iff_of_true ⟨rfl, _, rfl, rfl⟩ trivial
  | put handlerName elem =>
    have htext : (∃ text, putPayload woofName (handlerText handlerName) elem = .ok (some text)) ↔
        elem.length + woofName.length + (handlerText handlerName).length < 2 ^ 31 := by
      simp [putPayload_eq_some_iff]
    have hlevel : Request.demanded (.put handlerName elem) =
          Request.needed (.put handlerName elem) ↔
        ∀ h ∈ handlerName, nullName.isPrefixOf h = false := by
      cases handlerName with
      | none => exact iff_of_true (show putNeeded nullName = wcapWrite by decide) (by simp)
      | some handlerName =>
        by_cases hnull : nullName.isPrefixOf handlerName = true
        · refine iff_of_false ?_ (by simp [hnull])
          rw [Request.demanded, handlerText, Option.getD_some, putNeeded, if_pos hnull]
          exact (by decide : wcapWrite ≠ wcapExec)
        · exact iff_of_true (if_neg hnull) (by simp [hnull])
    simp only [Agreed, Request.payload, Request.checked, and_self, htext, hlevel, Fits]
    exact and_comm
  | create elemSize historySize =>
    cases t with
    | cmq => exact iff_of_true ⟨rfl, _, rfl, rfl⟩ (by simp [Fits])
    | zmq =>
      -- the server has twice the room, so the texts differ once the client's is cut
      have hcut := snprintf_eq_snprintf_iff (show 2048 < 4096 by decide) (by decide)
        (woofName ++ blank ++ decimal elemSize ++ blank ++ decimal historySize)
      constructor
      · rintro ⟨-, text, htext, htext'⟩ -
        exact hcut.1 (Option.some.inj (Except.ok.inj (htext.trans htext'.symm)))
      · intro h
        exact ⟨rfl, _, rfl, congrArg (fun text => Except.ok (some text)) (hcut.2 (h rfl)).symm⟩
  | getTail size elCount => exact absurd rfl hop

theorem complete_iff_fits {perm : UInt32}
    (hwoof : ProtectedWoof t srv woofName name secret ns) (hvalid : req.Valid)
    (hneeded : req.needed ≤ perm) (hperm : perm ≤ wcapPrincipal) :
    Complete t srv woofName secret perm req ↔
      name.length < 1024 ∧ req.Sized ∧ Fits t woofName req := by
  rw [complete_iff_granted hneeded hperm]
  by_cases hop : req.operation = .getTail
  · obtain ⟨size, elCount, rfl⟩ : ∃ size elCount, req = .getTail size elCount := by
      cases req <;> simp_all [Request.operation]
    cases t with
    | zmq => simp [Zmq.granted_getTail_iff hwoof, Request.Sized, Fits, and_comm]
    | cmq => simp [Cmq.forall_granted_getTail_iff hwoof, Request.Sized, Fits, and_left_comm]
  · rw [granted_iff_agreed hwoof hvalid hop, agreed_iff_fits hop]
    tauto

end Complete

theorem protectedWoof_sampleServer (t : Transport) (secret : UInt64) :
    ProtectedWoof t (sampleServer (some (principalCap secret)) none) sampleUri
      (Bytes.ofString "data") secret none where
  named := ⟨by decide, _, rfl, by decide, by decide⟩
  woofName_ne_zero := Bytes.ne_zero_of_notMem (by decide)
  long := by decide
  ending := by decide
  ownCap := by
    refine ⟨sampleWoof (principalCap secret).bytes, _, ?_, wooFReadWithCause_sampleWoof _⟩
    cases t <;> rfl
  nsCap := by cases t <;> rfl

/-- A put with a handler goes through on both transports. -/
theorem complete_iff_fits_put :
    Complete .zmq (sampleServer (some (principalCap 9)) none) sampleUri 9 wcapInit
        (.put (some (Bytes.ofString "run")) [5]) ∧
      Complete .cmq (sampleServer (some (principalCap 9)) none) sampleUri 9 wcapInit
        (.put (some (Bytes.ofString "run")) [5]) := by
  have hvalid : (Request.put (some (Bytes.ofString "run")) [5]).Valid :=
    Bytes.ne_zero_of_notMem (by decide : (0 : UInt8) ∉ Bytes.ofString "run")
  have hneeded : wcapExec ≤ wcapInit := by decide
  have hfits (t : Transport) : (Bytes.ofString "data").length < 1024 ∧
      (Request.put (some (Bytes.ofString "run")) [5]).Sized ∧
      Fits t sampleUri (.put (some (Bytes.ofString "run")) [5]) :=
    ⟨by decide, (by decide : [5].length ≠ badSize.toNat), by decide, by decide⟩
  exact ⟨(complete_iff_fits (protectedWoof_sampleServer .zmq 9) hvalid hneeded (by decide)).2
      (hfits .zmq),
    (complete_iff_fits (protectedWoof_sampleServer .cmq 9) hvalid hneeded (by decide)).2
      (hfits .cmq)⟩

/-- A tail request is signed as another text than it is checked for over one transport, and
a put with the handler `NULLx` is refused. -/
theorem tail_and_nullx_refused :
    ¬ Complete .cmq (sampleServer (some (principalCap 9)) none) sampleUri 9 wcapRead
        (.getTail 1 1) ∧
      ¬ Complete .zmq (sampleServer (some (principalCap 9)) none) sampleUri 9 wcapExec
        (.put (some (Bytes.ofString "NULLx")) [5]) := by
  constructor
  · -- a hash that tells the text of the client from the name
    let hmac : Hmac := fun _ data => if data = sampleUri ++ blank ++ [48] then 1 else 0
    intro h
    obtain ⟨sent, hsent, hauth⟩ :=
      h hmac (fun _ => wooFCapAttenuate hmac (principalCap 9) wcapRead) 0 rfl
    have hmessage : Transport.cmq.request hmac
        (fun _ => wooFCapAttenuate hmac (principalCap 9) wcapRead) 0 sampleUri (.getTail 1 1) =
          .ok (some [textFrame (Decimal.ofNat 24), (Wcap.mk 1 0 0 1).bytes, textFrame sampleUri,
            textFrame (Decimal.ofNat 1), textFrame (Decimal.ofNat 1)]) := by decide
    rw [hmessage] at hsent
    cases hsent
    obtain ⟨tagFrame, cap, rest, heq, -, hgranted⟩ := hauth _ (arrived_map _)
    cases heq
    exact absurd hgranted (by decide)
  · intro h
    obtain ⟨sent, hsent, hauth⟩ := h (fun key _ => key + 1)
      (fun _ => wooFCapAttenuate (fun key _ => key + 1) (principalCap 9) wcapExec) 0 rfl
    have hmessage : Transport.zmq.request (fun key _ => key + 1)
        (fun _ => wooFCapAttenuate (fun key _ => key + 1) (principalCap 9) wcapExec) 0 sampleUri
        (.put (some (Bytes.ofString "NULLx")) [5]) =
          .ok (some [textFrame (Decimal.ofNat 21), (Wcap.mk 7 0 0 13).bytes, textFrame sampleUri,
            textFrame (Bytes.ofString "NULLx"), [5]]) := by decide
    rw [hmessage] at hsent
    cases hsent
    obtain ⟨tagFrame, cap, rest, heq, -, hgranted⟩ := hauth _ (arrived_map _)
    cases heq
    exact absurd hgranted (by decide)

end Cspot
