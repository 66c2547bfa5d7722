import Cspot.Net.Principals
import Cspot.Net.PutPayload

/-!
# Requests at both ends

Client and server put together the text of a signature on their own, and each derives
the key for it from what it holds: the server from the principal, the client from a
capability somebody attenuated before.
-/

namespace Cspot

/-! ## Woofs and capabilities -/

def Transport.openCap : Transport → Server → Bytes → Exec (Option WooF)
  | .zmq => Zmq.openCap
  | .cmq => Cmq.openCap

theorem Transport.capHandler_openCap (t : Transport) (op : Operation) :
    (t.capHandler op).openCap = t.openCap := by
  cases t <;> cases op <;> rfl

/-- A woof with this name and a principal of its own; the namespace may have one too. -/
structure ProtectedWoof (t : Transport) (srv : Server) (woofName name : Bytes)
    (secret : UInt64) (ns : Option UInt64) : Prop where
  named : NamedBy srv.uriPath woofName name
  woofName_ne_zero : ∀ b ∈ woofName, b ≠ 0
  long : 4 ≤ name.length
  ending : endsInCap name = false
  ownCap : HoldsPrincipal (t.openCap srv) (capName name) (some secret)
  nsCap : HoldsPrincipal (t.openCap srv) nsCapName ns

def Request.needed : Request → UInt32
  | .put none _ => wcapWrite
  | .put (some _) _ => wcapExec
  | .create _ _ => wcapInit
  | _ => wcapRead

def Request.Valid : Request → Prop
  | .put (some handlerName) _ => ∀ b ∈ handlerName, b ≠ 0
  | _ => True

/-- Whatever lies behind the frames, the handler for the request grants it. -/
def Authorizes (t : Transport) (hmac : Hmac) (srv : Server) (op : Operation)
    (sent : List Bytes) : Prop :=
  ∀ frames, Arrived sent frames → ∃ tagFrame cap rest, frames = tagFrame :: cap :: rest ∧
    t.readTag tagFrame = .ok (some (.cap op)) ∧
    (t.capHandler op).authorize hmac srv cap rest = .ok .granted

/-- A client that holds the principal attenuated to `perm` sends a request that the server
authorizes, whatever the hash. -/
def Complete (t : Transport) (srv : Server) (woofName : Bytes) (secret : UInt64)
    (perm : UInt32) (req : Request) : Prop :=
  ∀ hmac keychain garbage,
    keychain woofName = wooFCapAttenuate hmac (principalCap secret) perm →
    ∃ sent, t.request hmac keychain garbage woofName req = .ok (some sent) ∧
      Authorizes t hmac srv req.operation sent

/-! ## What a client sends -/

namespace Request

/-- Sizes that stand for an error of an earlier call are not sent. -/
def Sized : Request → Prop
  | .put _ elem => elem.length ≠ badSize.toNat
  | .get elemSize _ => elemSize ≠ badSize
  | .getRange elemSize _ _ => elemSize ≠ badSize
  | .create elemSize _ => elemSize ≠ badSize
  | .getTail size _ => size ≠ 0xffffffffffffffff
  | _ => True

def args (woofName : Bytes) : Request → List Bytes
  | .put handlerName elem => [textFrame woofName, textFrame (handlerText handlerName), elem]
  | .get _ seqNo => [textFrame woofName, textFrame (decimal seqNo)]
  | .getRange _ seqNo count =>
    [textFrame woofName, textFrame (decimal seqNo), textFrame (decimal count)]
  | .create elemSize historySize =>
    [textFrame woofName, textFrame (decimal elemSize), textFrame (decimal historySize)]
  | .getTail _ elCount => [textFrame woofName, textFrame (Decimal.ofInt elCount.toInt)]
  | _ => [textFrame woofName]

/-- The frames of the arguments as they arrive: one transport repeats the last of a tail
request. -/
def arriving (t : Transport) (woofName : Bytes) (req : Request) : List Bytes :=
  req.args woofName ++
    match t, req with
    | .cmq, .getTail _ elCount => [textFrame (Decimal.ofInt elCount.toInt)]
    | _, _ => []

theorem arriving_eq_args {t : Transport} {req : Request} (woofName : Bytes)
    (h : ¬ (t = .cmq ∧ req.operation = .getTail)) :
    req.arriving t woofName = req.args woofName := by
  cases t with
  | zmq => exact List.append_nil _
  | cmq =>
    cases req with
    | getTail elSize elCount => exact absurd ⟨rfl, rfl⟩ h
    | _ => rfl

/-- The text the client signs; tail requests are apart. -/
def payload (woofName : Bytes) : Request → Exec (Option Bytes)
  | .put handlerName elem => putPayload woofName (handlerText handlerName) elem
  | .get _ seqNo => pairPayload 2048 woofName (decimal seqNo)
  | .getRange _ seqNo count => triplePayload 2048 woofName (decimal seqNo) (decimal count)
  | .create elemSize historySize =>
    triplePayload 2048 woofName (decimal elemSize) (decimal historySize)
  | _ => namePayload woofName

end Request

section Calls

variable {t : Transport} {garbage : UInt64} {woofName : Bytes} {req : Request} {call : Call}
  {keychain : Keychain} {secret : UInt64} {perm : UInt32} {hmac : Hmac} {sent : List Bytes}

/-- What the calls of all requests have in common. -/
structure CallFor (woofName : Bytes) (req : Request) (call : Call) : Prop where
  operation : call.operation = req.operation
  needed : call.needed = req.needed
  args : call.args = req.args woofName
  search : ∀ keychain cap, keychain woofName = some cap → call.search keychain woofName = some cap
  unlessTail : req.operation ≠ .getTail →
    call.payload = req.payload woofName ∧ call.signed = true ∧ call.appendsTwice = false

theorem searchKeychain_of_entry {cap : Wcap} (h : keychain woofName = some cap) :
    searchKeychain keychain woofName = some cap := by
  simp [searchKeychain, h]

theorem call_cases (t : Transport) (garbage : UInt64) (woofName : Bytes) (req : Request) :
    t.call garbage woofName req = none ∧ ¬ req.Sized ∨
      ∃ call, t.call garbage woofName req = some call ∧ req.Sized ∧ CallFor woofName req call := by
  have hsearch (keychain : Keychain) (cap : Wcap) (hk : keychain woofName = some cap) :=
    searchKeychain_of_entry hk
  cases req with
  | elSize | latestSeqno | earliestSeqno =>
    exact Or.inr ⟨_, rfl, trivial, rfl, rfl, rfl, hsearch, fun _ => ⟨rfl, rfl, rfl⟩⟩
  | put handlerName elem =>
    by_cases hsize : elem.length = badSize.toNat
    · exact Or.inl ⟨if_pos hsize, fun h => h hsize⟩
    · refine Or.inr ⟨_, if_neg hsize, hsize, rfl, ?_, rfl, hsearch, fun _ => ⟨rfl, rfl, rfl⟩⟩
      cases handlerName <;> rfl
  | get elemSize seqNo | getRange elemSize seqNo count | create elemSize historySize =>
    by_cases hsize : elemSize = badSize
    · exact Or.inl ⟨if_pos hsize, fun h => h hsize⟩
    · exact Or.inr ⟨_, if_neg hsize, hsize, rfl, rfl, rfl, hsearch, fun _ => ⟨rfl, rfl, rfl⟩⟩
  | getTail elSize elCount =>
    by_cases hsize : elSize = 0xffffffffffffffff
    · exact Or.inl ⟨by cases t <;> exact if_pos hsize, fun h => h hsize⟩
    · refine Or.inr ?_
      cases t with
      | zmq =>
        exact ⟨_, if_neg hsize, hsize, rfl, rfl, rfl, fun _ _ hk => hk, fun h => absurd rfl h⟩
      | cmq => exact ⟨_, if_neg hsize, hsize, rfl, rfl, rfl, hsearch, fun h => absurd rfl h⟩

theorem callFor_of_call (h : t.call garbage woofName req = some call) :
    CallFor woofName req call := by
  rcases call_cases t garbage woofName req with ⟨hnone, -⟩ | ⟨_, hcall, -, hfor⟩
  · simp [hnone] at h
  · cases hcall.symm.trans h
    exact hfor

theorem header_eq_some_iff (header : List Bytes) (hcall : CallFor woofName req call)
    (hneeded : req.needed ≤ perm) (hperm : perm ≤ wcapPrincipal)
    (hkey : keychain woofName = wooFCapAttenuate hmac (principalCap secret) perm) :
    call.header hmac keychain woofName = .ok (some header) ↔
      ∃ cap, call.capFrame hmac (principalAt hmac secret (permLevel req.needed)) =
          .ok (some cap) ∧
        [textFrame (Decimal.ofNat req.operation.capNumber), cap] = header := by
  rw [wooFCapAttenuate_principalCap hmac secret hperm] at hkey
  have hlevel : permLevel perm ≤ permLevels := Nat.min_le_left _ _
  have hfits : req.needed ≤ levelMask (permLevel perm) :=
    UInt32.le_trans hneeded (le_levelMask_permLevel hperm)
  simp only [Call.header, hcall.search keychain _ hkey, Option.bind_some, hcall.needed,
    wooFCapAttenuate_principalAt hmac secret hlevel hfits, hcall.operation]
  cases call.capFrame hmac (principalAt hmac secret (permLevel req.needed)) with
  | error s => simp
  | ok cap => cases cap <;> simp

theorem deliver_eq (hcall : t.call garbage woofName req = some call) (header : List Bytes) :
    t.deliver call header = header ++ req.arriving t woofName := by
  have hfor := callFor_of_call hcall
  by_cases hop : req.operation = .getTail
  · obtain ⟨size, elCount, rfl⟩ : ∃ size elCount, req = .getTail size elCount := by
      cases req <;> simp_all [Request.operation]
    cases t with
    | zmq => simp [Transport.deliver, hfor.args, Request.arriving]
    | cmq =>
      obtain ⟨-, rfl⟩ : _ ∧ _ = call := by simpa [Transport.call, Cmq.remoteGetTail] using hcall
      simp [Transport.deliver, Call.delivered_frameList, Request.arriving, Request.args]
  · rw [Request.arriving_eq_args woofName fun h => hop h.2, ← hfor.args]
    cases t with
    | zmq => rfl
    | cmq => simp [Transport.deliver, Call.delivered_frameList, (hfor.unlessTail hop).2.2]

theorem request_eq_some_iff (hneeded : req.needed ≤ perm) (hperm : perm ≤ wcapPrincipal)
    (hkey : keychain woofName = wooFCapAttenuate hmac (principalCap secret) perm) :
    t.request hmac keychain garbage woofName req = .ok (some sent) ↔
      ∃ call cap, t.call garbage woofName req = some call ∧
        call.capFrame hmac (principalAt hmac secret (permLevel req.needed)) = .ok (some cap) ∧
        textFrame (Decimal.ofNat req.operation.capNumber) :: cap :: req.arriving t woofName =
          sent := by
  unfold Transport.request
  cases hcall : t.call garbage woofName req with
  | none => simp
  | some call =>
    have hheader (header : List Bytes) :=
      header_eq_some_iff header (callFor_of_call hcall) hneeded hperm hkey
    constructor
    · intro h
      obtain ⟨header, heq, h⟩ := Exec.bind_eq_ok.1 h
      cases header with
      | none => cases h
      | some header =>
        obtain ⟨cap, hcap, rfl⟩ := (hheader header).1 heq
        have hdeliver := Option.some.inj (Except.ok.inj h)
        rw [deliver_eq hcall] at hdeliver
        exact ⟨call, cap, rfl, hcap, hdeliver⟩
    · rintro ⟨_, cap, hsame, hcap, rfl⟩
      cases hsame
      simp [(hheader _).2 ⟨cap, hcap, rfl⟩, deliver_eq hcall]

/-- The request of a client under this hash, and that it is granted. -/
def Granted (t : Transport) (srv : Server) (woofName : Bytes) (secret : UInt64)
    (req : Request) (hmac : Hmac) (garbage : UInt64) : Prop :=
  ∃ call capBytes, t.call garbage woofName req = some call ∧
    call.capFrame hmac (principalAt hmac secret (permLevel req.needed)) = .ok (some capBytes) ∧
    ∀ cap frames, cap.data = capBytes → Arrived (req.arriving t woofName) frames →
      (t.capHandler req.operation).authorize hmac srv cap frames = .ok .granted

theorem arrived_cons_iff {data : Bytes} {frames : List Frame} :
    Arrived (data :: sent) frames ↔
      ∃ f rest, frames = f :: rest ∧ f.data = data ∧ Arrived sent rest := by
  rw [Arrived, List.map_eq_cons_iff]
  rfl

theorem complete_iff_granted {srv : Server} (hneeded : req.needed ≤ perm)
    (hperm : perm ≤ wcapPrincipal) :
    Complete t srv woofName secret perm req ↔
      ∀ hmac garbage, Granted t srv woofName secret req hmac garbage := by
  constructor
  · intro h hmac garbage
    obtain ⟨sent, hsent, hauth⟩ :=
      h hmac (fun _ => wooFCapAttenuate hmac (principalCap secret) perm) garbage rfl
    obtain ⟨call, capBytes, hcall, hcap, rfl⟩ :=
      (request_eq_some_iff hneeded hperm rfl).1 hsent
    refine ⟨call, capBytes, hcall, hcap, fun cap frames hdata harrived => ?_⟩
    obtain ⟨tagFrame, cap', rest, heq, -, hgranted⟩ := hauth
      (textAt (Decimal.ofNat req.operation.capNumber) :: cap :: frames)
      (arrived_cons_iff.2 ⟨_, _, rfl, rfl, arrived_cons_iff.2 ⟨_, _, rfl, hdata, harrived⟩⟩)
    cases heq
    exact hgranted
  · intro h hmac keychain garbage hkey
    obtain ⟨call, capBytes, hcall, hcap, hgranted⟩ := h hmac garbage
    refine ⟨_, (request_eq_some_iff hneeded hperm hkey).2
      ⟨call, capBytes, hcall, hcap, rfl⟩, fun frames harrived => ?_⟩
    obtain ⟨tagFrame, _, rfl, htag, harrived⟩ := arrived_cons_iff.1 harrived
    obtain ⟨cap, rest, rfl, hdata, harrived⟩ := arrived_cons_iff.1 harrived
    exact ⟨tagFrame, cap, rest, rfl, t.readTag_capNumber _ htag,
      hgranted cap rest hdata harrived⟩

end Calls

/-! ## What the server makes of it -/

namespace Request

/-- The text the server checks a signature of; tail requests are apart. -/
def checked (t : Transport) (woofName : Bytes) : Request → Exec (Option Bytes)
  | .create elemSize historySize =>
    triplePayload (if t = .zmq then 4096 else 2048) woofName (decimal elemSize)
      (decimal historySize)
  | req => req.payload woofName

def demanded : Request → UInt32
  | .put handlerName _ => putNeeded (handlerText handlerName)
  | req => req.needed

end Request

theorem isPrefixOf_append_zero {needle : Bytes} (h : ∀ b ∈ needle, b ≠ 0) (s rest : Bytes) :
    needle.isPrefixOf (s ++ 0 :: rest) = needle.isPrefixOf s := by
  induction needle generalizing s with
  | nil => rfl
  | cons b needle ih =>
    cases s with
    | nil =>
      have hb : b ≠ 0 := h b (by simp)
      simp [List.isPrefixOf, hb]
    | cons c s =>
      have ih := ih (fun b hb => h b (by simp [hb])) s
      simp [List.isPrefixOf, ih]

theorem putNeeded_textFrame (hname beyond : Bytes) :
    putNeeded (textFrame hname ++ beyond) = putNeeded hname := by
  have hnull : ∀ b ∈ nullName, b ≠ 0 := Bytes.ne_zero_of_notMem (by decide)
  simp [putNeeded, textFrame, isPrefixOf_append_zero hnull]

section Server

variable {t : Transport} {srv : Server} {woofName name : Bytes} {secret : UInt64}
  {ns : Option UInt64} {req : Request} {frames : List Frame}
  (hwoof : ProtectedWoof t srv woofName name secret ns)
  (harrived : Arrived (req.args woofName) frames) {cap : Frame} {hmac : Hmac}

include hwoof harrived

theorem localName_of_arrived (hcap : cap.data ≠ []) :
    (t.capHandler req.operation).localName srv cap frames = .ok (fileName name) := by
  have hguard := guardedName_of_not_endsInCap hwoof.named hwoof.long hwoof.ending
  have hhead : (req.args woofName)[0]? = some (textFrame woofName) := by cases req <;> rfl
  have hname := harrived.frameText hhead hwoof.woofName_ne_zero
  have hpayload := harrived.hasPayload hhead
  by_cases hput : req.operation = .put
  · obtain ⟨handlerName, elem, rfl⟩ : ∃ handlerName elem, req = .put handlerName elem := by
      cases req <;> simp_all [Request.operation]
    rw [← hguard]
    exact t.put_localName_of_arrived harrived hwoof.woofName_ne_zero srv hcap
  cases t with
  | zmq =>
    rw [Transport.capHandler, Zmq.capHandler_localName hput, Zmq.localNameOf, hname]
    exact hguard
  | cmq =>
    by_cases hun : Cmq.Unguarded req.operation
    · rw [Transport.capHandler, Cmq.capHandler_localName_of_unguarded hun,
        Cmq.unguardedNameOf_of_present hcap hpayload hname]
      exact hwoof.named.localName
    · rw [← hguard]
      cases req with
      | elSize | earliestSeqno =>
        exact Cmq.localNameOf_of_present (fun _ => true) hcap hpayload hname rfl
      | put handlerName elem => exact absurd rfl hput
      | get elemSize seqNo =>
        exact Cmq.localNameOf_of_present (fun frames => Cmq.hasPayload frames 1) hcap
          hpayload hname (harrived.hasPayload (i := 1) rfl)
      | getRange elemSize seqNo count | create elemSize historySize =>
        exact Cmq.localNameOf_of_present
          (fun frames => Cmq.hasPayload frames 1 && Cmq.hasPayload frames 2) hcap hpayload hname
          (by simp [harrived.hasPayload (i := 1) rfl, harrived.hasPayload (i := 2) rfl])
      | latestSeqno => exact absurd (Or.inl rfl) hun
      | getTail elSize elCount => exact absurd (Or.inr rfl) hun

omit hwoof in
theorem demanded_of_arrived : (t.capHandler req.operation).needed frames = req.demanded := by
  cases req with
  | put handlerName elem =>
    obtain ⟨f, hf, hdata⟩ := harrived.getElem? (i := 1) rfl
    have hmemory : putNeeded ((frames[1]?.map Frame.memory).getD []) =
        putNeeded (handlerText handlerName) := by
      simp only [hf, Option.map_some, Option.getD_some, Frame.memory, hdata]
      exact putNeeded_textFrame _ _
    cases t <;> exact hmemory
  | _ => cases t <;> rfl

theorem payload_of_arrived (hvalid : req.Valid) (hop : req.operation ≠ .getTail) :
    (t.capHandler req.operation).payload frames = req.checked t woofName := by
  have hhead : (req.args woofName)[0]? = some (textFrame woofName) := by cases req <;> rfl
  have hname := harrived.frameText hhead hwoof.woofName_ne_zero
  cases req with
  | elSize | latestSeqno | earliestSeqno =>
    have htext : (do let wname ← frameText frames 0; namePayload wname) =
        namePayload woofName := by rw [hname, Exec.ok_bind]
    cases t <;> exact htext
  | put handlerName elem =>
    refine t.put_payload_of_arrived harrived hwoof.woofName_ne_zero ?_
    cases handlerName with
    | none => exact Bytes.ne_zero_of_notMem (by decide)
    | some handlerName => exact hvalid
  | get elemSize seqNo =>
    have hseq := harrived.frameText (i := 1) rfl Decimal.ofNat_ne_zero
    have htext : (do
        let wname ← frameText frames 0
        let seqNo ← frameText frames 1
        pairPayload 2048 wname seqNo) = pairPayload 2048 woofName (decimal seqNo) := by
      rw [hname, hseq, Exec.ok_bind, Exec.ok_bind]
    cases t <;> exact htext
  | getRange elemSize first second | create first second =>
    have hfirst := harrived.frameText (i := 1) rfl Decimal.ofNat_ne_zero
    have hsecond := harrived.frameText (i := 2) rfl Decimal.ofNat_ne_zero
    have htext (size : Nat) : (do
        let wname ← frameText frames 0
        let first ← frameText frames 1
        let second ← frameText frames 2
        triplePayload size wname first second) =
          triplePayload size woofName (decimal first) (decimal second) := by
      rw [hname, hfirst, hsecond, Exec.ok_bind, Exec.ok_bind, Exec.ok_bind]
    cases t <;> exact htext _
  | getTail elSize elCount => exact absurd rfl hop

end Server

section FileName

variable {h : CapHandler} {hmac : Hmac} {srv : Server} {cap : Frame} {frames : List Frame}
  {name : Bytes} (hlocal : h.localName srv cap frames = .ok (fileName name))

include hlocal

theorem CapHandler.authorize_of_long (hlen : ¬ name.length < 1024) :
    h.authorize hmac srv cap frames = .ok .refused := by
  rw [fileName, if_neg hlen] at hlocal
  rw [CapHandler.authorize, hlocal]
  rfl

theorem CapHandler.authorize_of_short (hlen : name.length < 1024) :
    h.authorize hmac srv cap frames = h.check hmac srv name frames cap := by
  rw [fileName, if_pos hlen] at hlocal
  exact authorize_of_localName hlocal

end FileName

section Signed

variable {t : Transport} {srv : Server} {woofName name : Bytes} {secret : UInt64}
  {ns : Option UInt64} {req : Request} {text : Bytes}

/-- The signature of the client under the key of the level it picked is one the server
looks for. -/
def SignatureFits (hmac : Hmac) (secret : UInt64) (ns : Option UInt64) (req : Request)
    (text text' : Bytes) : Prop :=
  let sig := wooFCapSign hmac text (principalAt hmac secret (permLevel req.needed)).check
  sig = wooFCapSign hmac text' (principalAt hmac secret (permLevel req.demanded)).check ∨
    sig = (derivedFrom hmac req.demanded ns).sig hmac text'

theorem demanded_le (req : Request) : req.demanded ≤ wcapPrincipal := by
  cases req with
  | put handlerName elem => exact putNeeded_le _
  | create elemSize historySize => exact (by decide : wcapInit ≤ wcapPrincipal)
  | _ => exact (by decide : wcapRead ≤ wcapPrincipal)

theorem Wcap.bytes_ne_nil (cap : Wcap) : cap.bytes ≠ [] := by
  intro h
  have hlen := cap.length_bytes
  simp [h, sizeofWcap] at hlen

theorem authorize_signed_iff (hwoof : ProtectedWoof t srv woofName name secret ns) (req : Request)
    {cap : Frame} {frames : List Frame} {text' : Bytes} {hmac : Hmac} {newCap : Wcap}
    (hsigned : (t.capHandler req.operation).Signed)
    (hlocal : (t.capHandler req.operation).localName srv cap frames = .ok (fileName name))
    (hneeded : (t.capHandler req.operation).needed frames = req.demanded)
    (hchecked : (t.capHandler req.operation).payload frames = .ok (some text'))
    (hdata : cap.data = newCap.bytes)
    (hsig : newCap.check =
      wooFCapSign hmac text (principalAt hmac secret (permLevel req.needed)).check) :
    (t.capHandler req.operation).authorize hmac srv cap frames = .ok .granted ↔
      name.length < 1024 ∧ SignatureFits hmac secret ns req text text' := by
  by_cases hlen : name.length < 1024
  · have hcheck : cap.check = .ok newCap.check := by
      obtain ⟨data, beyond⟩ := cap
      cases hdata
      exact Frame.check_bytes newCap beyond
    have hopen := t.capHandler_openCap req.operation
    have hown : HoldsPrincipal ((t.capHandler req.operation).openCap srv) (capName name)
        (some secret) := by rw [hopen]; exact hwoof.ownCap
    have hns : HoldsPrincipal ((t.capHandler req.operation).openCap srv) nsCapName ns := by
      rw [hopen]; exact hwoof.nsCap
    rw [CapHandler.authorize_of_short hlocal hlen, hsigned,
      capCheck_granted_iff_of_holds hown hns (by simp) (hneeded ▸ demanded_le req) hchecked,
      hneeded]
    simp [hcheck, hlen, SignatureFits, ← hsig, derivedFrom, Derived.sig]
  · simp [CapHandler.authorize_of_long hlocal hlen, hlen]

theorem exists_checked_of_payload (t : Transport) (h : req.payload woofName = .ok (some text)) :
    ∃ text', req.checked t woofName = .ok (some text') := by
  cases req with
  | create elemSize historySize => exact ⟨_, rfl⟩
  | _ => exact ⟨text, h⟩

theorem arrived_map (sent : List Bytes) : Arrived sent (sent.map fun data => ⟨data, []⟩) := by
  simp [Arrived, Function.comp_def]

theorem granted_iff_of_signed (hwoof : ProtectedWoof t srv woofName name secret ns)
    (hvalid : req.Valid) (hop : req.operation ≠ .getTail) (hmac : Hmac) (garbage : UInt64) :
    Granted t srv woofName secret req hmac garbage ↔
      req.Sized ∧ name.length < 1024 ∧ ∃ text text', req.payload woofName = .ok (some text) ∧
        req.checked t woofName = .ok (some text') ∧
        SignatureFits hmac secret ns req text text' := by
  rcases call_cases t garbage woofName req with ⟨hnone, hbad⟩ | ⟨call, hcall, hsized, hfor⟩
  · simp [Granted, hnone, hbad]
  obtain ⟨hpayload, hsigned, -⟩ := hfor.unlessTail hop
  have hcapFrame := Call.capFrame_eq_some_iff hsigned hmac
    (principalAt hmac secret (permLevel req.needed))
  rw [hpayload] at hcapFrame
  have hargs := Request.arriving_eq_args (t := t) woofName fun h => hop h.2
  have hauthorize {cap : Frame} {frames : List Frame} {newCap : Wcap} {text text' : Bytes}
      (htext' : req.checked t woofName = .ok (some text'))
      (harrived : Arrived (req.arriving t woofName) frames) (hdata : cap.data = newCap.bytes)
      (hsig : newCap.check =
        wooFCapSign hmac text (principalAt hmac secret (permLevel req.needed)).check) := by
    rw [hargs] at harrived
    exact authorize_signed_iff hwoof _ (Transport.capHandler_signed fun h => hop h.2)
      (localName_of_arrived hwoof harrived (hdata ▸ newCap.bytes_ne_nil))
      (demanded_of_arrived harrived)
      ((payload_of_arrived hwoof harrived hvalid hop).trans htext') hdata hsig
  constructor
  · rintro ⟨_, capBytes, hsame, hcap, hgranted⟩
    cases hcall.symm.trans hsame
    obtain ⟨text, htext, hbytes⟩ := (hcapFrame capBytes).1 hcap
    obtain ⟨text', htext'⟩ := exists_checked_of_payload t htext
    have harrived := arrived_map (req.arriving t woofName)
    have hgranted := hgranted ⟨capBytes, []⟩ _ rfl harrived
    obtain ⟨hlen, hfits⟩ := (hauthorize htext' harrived hbytes.symm rfl).1 hgranted
    exact ⟨hsized, hlen, text, text', htext, htext', hfits⟩
  · rintro ⟨-, hlen, text, text', htext, htext', hfits⟩
    refine ⟨call, _, hcall, (hcapFrame _).2 ⟨text, htext, rfl⟩, ?_⟩
    intro cap frames hdata harrived
    exact (hauthorize htext' harrived hdata rfl).2 ⟨hlen, hfits⟩

end Signed

end Cspot
