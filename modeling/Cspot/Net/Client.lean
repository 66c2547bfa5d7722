import Cspot.Net.Transport

/-!
# The clients

A client looks up a capability for the woof, attenuates it to what the operation needs,
and puts the signature of the request in the place of its check.  Without a capability it
sends the request in the form the older servers know.
-/

namespace Cspot

/-! ## Message numbers -/

def Operation.capNumber : Operation → Nat
  | .put => 21
  | .elSize => 22
  | .get => 23
  | .getTail => 24
  | .latestSeqno => 25
  | .create => 31
  | .getRange => 32
  | .earliestSeqno => 33

/-- A create has no message without a capability. -/
def Operation.plainNumber : Operation → Option Nat
  | .put => some 1
  | .elSize => some 2
  | .get => some 3
  | .getTail => some 4
  | .latestSeqno => some 5
  | .getRange => some 11
  | .earliestSeqno => some 12
  | .create => none

/-! ## Texts in frames -/

section Text

variable {f : Frame} {s : Bytes} (h : f.data = textFrame s)

include h

theorem Cmq.payload_of_text : Cmq.payload f = some f.memory := by
  simp [Cmq.payload, h, textFrame]

variable (hs : ∀ b ∈ s, b ≠ 0)

include hs

theorem Frame.cstr_of_text : Bytes.cstr f.data = s := by
  rw [h, textFrame, Bytes.cstr_append_zero hs]

theorem Frame.cString_of_text : cString f.memory = .ok s := by
  simpa [Frame.memory, h] using cString_textFrame hs f.beyond

theorem Cmq.payloadText_of_text : Cmq.payloadText f = .ok s := by
  rw [Cmq.payloadText, Cmq.payload_of_text h]
  exact Frame.cString_of_text h hs

end Text

variable {f : Frame} {sent : List Bytes} {frames : List Frame} {i : Nat}

/-- The number a client writes is the one the server of the same transport reads, whatever
lies behind the frame. -/
theorem Transport.readTag_of_text (t : Transport) {n : Nat} (hn : n < 2 ^ 31)
    (h : f.data = textFrame (Decimal.ofNat n)) : t.readTag f = .ok (Tag.ofNumber n) := by
  cases t with
  | zmq =>
    rw [readTag, Zmq.readTag, Frame.cstr_of_text h Decimal.ofNat_ne_zero,
      Decimal.stoull_ofNat (by unfold Word.modulus; omega)]
    simp only [if_pos hn]
  | cmq =>
    rw [readTag, Cmq.readTag, Cmq.payloadText_of_text h Decimal.ofNat_ne_zero]
    simp only [Exec.ok_bind, Decimal.strtol_ofNat (show n < 2 ^ 63 by omega), Exec.pure_eq]

theorem Transport.readTag_capNumber (t : Transport) (op : Operation)
    (h : f.data = textFrame (Decimal.ofNat op.capNumber)) :
    t.readTag f = .ok (some (.cap op)) := by
  rw [t.readTag_of_text (by cases op <;> decide) h]
  cases op <;> rfl

theorem Transport.readTag_plainNumber (t : Transport) {op : Operation} {n : Nat}
    (hn : op.plainNumber = some n) (h : f.data = textFrame (Decimal.ofNat n)) :
    t.readTag f = .ok (some (.plain op)) := by
  rw [t.readTag_of_text (by cases op <;> cases hn <;> decide) h]
  cases op <;> cases hn <;> rfl

/-! ## Calls -/

/-- The capabilities of the cap file by the URI they are for; empty without a file. -/
abbrev Keychain := Bytes → Option Wcap

/-- The entry of the woof itself comes before that of its namespace. -/
def searchKeychain (keychain : Keychain) (woofName : Bytes) : Option Wcap :=
  (keychain woofName).or (keychain (wooFNamespaceURI woofName))

/-- What tells the client functions apart. -/
structure Call where
  operation : Operation
  needed : UInt32
  /-- The text the signature is of. -/
  payload : Exec (Option Bytes)
  /-- The frames behind the tag and the capability. -/
  args : List Bytes
  signed : Bool := true
  search : Keychain → Bytes → Option Wcap := searchKeychain
  /-- The last frame in front of the arguments is appended to the list a second time. -/
  appendsTwice : Bool := false

def Call.capFrame (call : Call) (hmac : Hmac) (newCap : Wcap) : Exec (Option Bytes) :=
  if call.signed then do
    match ← call.payload with
    | none => return none
    | some payload =>
      return some { newCap with check := wooFCapSign hmac payload newCap.check }.bytes
  else .ok (some newCap.bytes)

theorem Call.capFrame_eq_some_iff {call : Call} (h : call.signed = true) (hmac : Hmac)
    (newCap : Wcap) (bytes : Bytes) :
    call.capFrame hmac newCap = .ok (some bytes) ↔ ∃ payload, call.payload = .ok (some payload) ∧
      { newCap with check := wooFCapSign hmac payload newCap.check }.bytes = bytes := by
  rw [capFrame, if_pos h]
  cases call.payload with
  | error s => simp
  | ok payload => cases payload <;> simp

def Call.header (call : Call) (hmac : Hmac) (keychain : Keychain) (woofName : Bytes) :
    Exec (Option (List Bytes)) :=
  match (call.search keychain woofName).bind fun cap => wooFCapAttenuate hmac cap call.needed with
  | none => .ok (call.operation.plainNumber.map fun n => [textFrame (Decimal.ofNat n)])
  | some newCap => do
      match ← call.capFrame hmac newCap with
      | none => return none
      | some cap => return some [textFrame (Decimal.ofNat call.operation.capNumber), cap]

def decimal (n : UInt32) : Bytes := Decimal.ofNat n.toNat

/-- The size that stands for an error of an earlier call. -/
def badSize : UInt32 := 0xffffffff

def remoteGet (woofName : Bytes) (elemSize seqNo : UInt32) : Option Call :=
  if elemSize = badSize then none
  else some
    { operation := .get
      needed := wcapRead
      payload := pairPayload 2048 woofName (decimal seqNo)
      args := [textFrame woofName, textFrame (decimal seqNo)] }

def remoteGetRange (woofName : Bytes) (elemSize seqNo count : UInt32) : Option Call :=
  if elemSize = badSize then none
  else some
    { operation := .getRange
      needed := wcapRead
      payload := triplePayload 2048 woofName (decimal seqNo) (decimal count)
      args := [textFrame woofName, textFrame (decimal seqNo), textFrame (decimal count)] }

def remoteCreate (woofName : Bytes) (elemSize historySize : UInt32) : Option Call :=
  if elemSize = badSize then none
  else some
    { operation := .create
      needed := wcapInit
      payload := triplePayload 2048 woofName (decimal elemSize) (decimal historySize)
      args :=
        [textFrame woofName, textFrame (decimal elemSize), textFrame (decimal historySize)] }

def handlerText (handlerName : Option Bytes) : Bytes := handlerName.getD nullName

def remotePut (woofName : Bytes) (handlerName : Option Bytes) (elem : Bytes) : Option Call :=
  if elem.length = badSize.toNat then none
  else some
    { operation := .put
      needed := if handlerName = none then wcapWrite else wcapExec
      payload := putPayload woofName (handlerText handlerName) elem
      args := [textFrame woofName, textFrame (handlerText handlerName), elem] }

/-- The three requests that carry nothing but the name. -/
def remoteName (operation : Operation) (woofName : Bytes) : Call where
  operation := operation
  needed := wcapRead
  payload := namePayload woofName
  args := [textFrame woofName]

def remoteGetElemSize (woofName : Bytes) : Call := remoteName .elSize woofName

def remoteGetEarliestSeqNo (woofName : Bytes) : Call := remoteName .earliestSeqno woofName

def remoteGetLatestSeqNo (woofName : Bytes) : Call := remoteName .latestSeqno woofName

/-- The capability goes out as it is, and the namespace is not searched for one. -/
def Zmq.remoteGetTail (woofName : Bytes) (elSize : UInt64) (elCount : Int32) : Option Call :=
  if elSize = 0xffffffffffffffff then none
  else some
    { operation := .getTail
      needed := wcapRead
      payload := .ok none
      args := [textFrame woofName, textFrame (Decimal.ofInt elCount.toInt)]
      signed := false
      search := fun keychain woofName => keychain woofName }

/-- What is signed has a sequence number in it that nobody has set. -/
def Cmq.remoteGetTail (seqNo : UInt64) (woofName : Bytes) (elSize : UInt64)
    (elCount : Int32) : Option Call :=
  if elSize = 0xffffffffffffffff then none
  else some
    { operation := .getTail
      needed := wcapRead
      payload := pairPayload 2048 woofName (Decimal.ofNat seqNo.toNat)
      args := [textFrame woofName, textFrame (Decimal.ofInt elCount.toInt)]
      appendsTwice := true }

/-! ## Frame lists -/

/-- A list of frames and the count it is sent with. -/
structure FrameList where
  frames : List Bytes
  count : Nat
deriving Repr, DecidableEq

namespace FrameList

def empty : FrameList := ⟨[], 0⟩

def append (fl : FrameList) (f : Bytes) : FrameList := ⟨fl.frames ++ [f], fl.count + 1⟩

/-- `cmq_frame_append` of the frame at the tail.  It links the frame to itself until the
next one is appended; the count goes up. -/
def appendAgain (fl : FrameList) : FrameList := { fl with count := fl.count + 1 }

/-- What `cmq_pkt_recv_msg` makes of it.  A receive that times out returns minus one, which
passes both unsigned tests; the size and the payload are still those of the frame before. -/
def delivered (fl : FrameList) : List Bytes :=
  fl.frames.take fl.count ++
    List.replicate (fl.count - fl.frames.length) (fl.frames.getLastD [])

theorem foldl_append (fl : FrameList) (frames : List Bytes) :
    frames.foldl append fl = ⟨fl.frames ++ frames, fl.count + frames.length⟩ := by
  induction frames generalizing fl with
  | nil => simp
  | cons f frames ih =>
    rw [List.foldl_cons, ih, append]
    simp [Nat.add_assoc, Nat.add_comm 1]

end FrameList

def Call.frameList (call : Call) (header : List Bytes) : FrameList :=
  let fl := header.foldl FrameList.append FrameList.empty
  call.args.foldl FrameList.append (if call.appendsTwice then fl.appendAgain else fl)

theorem Call.delivered_frameList (call : Call) (header : List Bytes) :
    (call.frameList header).delivered = header ++ call.args ++
      if call.appendsTwice then [(header ++ call.args).getLastD []] else [] := by
  have hlist : call.frameList header = ⟨header ++ call.args,
      (header ++ call.args).length + if call.appendsTwice then 1 else 0⟩ := by
    cases htwice : call.appendsTwice <;>
      simp [frameList, htwice, FrameList.foldl_append, FrameList.empty, FrameList.appendAgain]
    omega
  rw [hlist, FrameList.delivered, List.take_of_length_le (by simp), Nat.add_sub_cancel_left]
  cases call.appendsTwice <;> rfl

/-! ## Requests -/

inductive Request
  | elSize
  | latestSeqno
  | earliestSeqno
  | put (handlerName : Option Bytes) (elem : Bytes)
  | get (elemSize seqNo : UInt32)
  | getRange (elemSize seqNo count : UInt32)
  | getTail (elSize : UInt64) (elCount : Int32)
  | create (elemSize historySize : UInt32)
deriving Repr, DecidableEq

def Request.operation : Request → Operation
  | .elSize => .elSize
  | .latestSeqno => .latestSeqno
  | .earliestSeqno => .earliestSeqno
  | .put _ _ => .put
  | .get _ _ => .get
  | .getRange _ _ _ => .getRange
  | .getTail _ _ => .getTail
  | .create _ _ => .create

namespace Transport

/-- The call a client makes, none when it gives up on the arguments.  `garbage` is what
the variable nobody has set holds. -/
def call (t : Transport) (garbage : UInt64) (woofName : Bytes) : Request → Option Call
  | .elSize => some (remoteGetElemSize woofName)
  | .latestSeqno => some (remoteGetLatestSeqNo woofName)
  | .earliestSeqno => some (remoteGetEarliestSeqNo woofName)
  | .put handlerName elem => remotePut woofName handlerName elem
  | .get elemSize seqNo => remoteGet woofName elemSize seqNo
  | .getRange elemSize seqNo count => remoteGetRange woofName elemSize seqNo count
  | .create elemSize historySize => remoteCreate woofName elemSize historySize
  | .getTail elSize elCount =>
    match t with
    | .zmq => Zmq.remoteGetTail woofName elSize elCount
    | .cmq => Cmq.remoteGetTail garbage woofName elSize elCount

def deliver : Transport → Call → List Bytes → List Bytes
  | .zmq, call, header => header ++ call.args
  | .cmq, call, header => (call.frameList header).delivered

/-- The message a request of a client ends up in at the server, none when there is none. -/
def request (t : Transport) (hmac : Hmac) (keychain : Keychain) (garbage : UInt64)
    (woofName : Bytes) (req : Request) : Exec (Option (List Bytes)) :=
  match t.call garbage woofName req with
  | none => .ok none
  | some call => do
      match ← call.header hmac keychain woofName with
      | none => return none
      | some header => return some (t.deliver call header)

end Transport

/-! ## Frames as they arrive -/

def Arrived (sent : List Bytes) (frames : List Frame) : Prop := frames.map Frame.data = sent

theorem Arrived.getElem? (h : Arrived sent frames) {data : Bytes} (hi : sent[i]? = some data) :
    ∃ f, frames[i]? = some f ∧ f.data = data := by
  rw [← h, List.getElem?_map, Option.map_eq_some_iff] at hi
  exact hi

theorem Arrived.length_eq (h : Arrived sent frames) : frames.length = sent.length := by
  rw [← h, List.length_map]

theorem Arrived.frameText (h : Arrived sent frames) {s : Bytes} (hi : sent[i]? = some (textFrame s))
    (hs : ∀ b ∈ s, b ≠ 0) :
    frameText frames i = .ok s := by
  obtain ⟨f, hf, hdata⟩ := h.getElem? hi
  rw [Cspot.frameText, hf]
  simpa [Frame.memory, hdata] using cString_textFrame hs f.beyond

theorem Arrived.hasPayload (h : Arrived sent frames) {s : Bytes}
    (hi : sent[i]? = some (textFrame s)) :
    Cmq.hasPayload frames i = true := by
  obtain ⟨f, hf, hdata⟩ := h.getElem? hi
  simp [Cmq.hasPayload, hf, Cmq.payload, hdata, textFrame]

theorem Cmq.localNameOf_of_present (present : List Frame → Bool) {srv : Server} {cap : Frame}
    {wname : Bytes} (hcap : cap.data ≠ []) (hpayload : Cmq.hasPayload frames 0 = true)
    (hname : frameText frames 0 = .ok wname) (hpresent : present frames = true) :
    Cmq.localNameOf present srv cap frames = guardedName srv wname := by
  simp only [Cmq.localNameOf, Cmq.payload, hcap, hpayload, hname, hpresent, Exec.ok_bind]
  cases guardedName srv wname <;> rfl

theorem Cmq.unguardedNameOf_of_present {srv : Server} {cap : Frame} {wname : Bytes}
    (hcap : cap.data ≠ []) (hpayload : Cmq.hasPayload frames 0 = true)
    (hname : frameText frames 0 = .ok wname) :
    Cmq.unguardedNameOf srv cap frames = wooFLocalName srv.uriPath wname := by
  simp [Cmq.unguardedNameOf, Cmq.payload, hcap, hpayload, hname]

/-! ## Puts as they arrive -/

section Put

variable {wname hname elem : Bytes} {frames : List Frame}
  (h : Arrived [textFrame wname, textFrame hname, elem] frames) (hw : ∀ b ∈ wname, b ≠ 0)

include h hw

theorem Transport.put_payload_of_arrived (t : Transport) (hh : ∀ b ∈ hname, b ≠ 0) :
    (t.capHandler .put).payload frames = putPayload wname hname elem := by
  have hwname := h.frameText (i := 0) rfl hw
  have hhname := h.frameText (i := 1) rfl hh
  obtain ⟨f, hf, rfl⟩ := h.getElem? (i := 2) rfl
  cases t <;>
    simp [capHandler, Zmq.capHandler, Cmq.capHandler, Zmq.wooFProcessPutwithCAP,
      Cmq.wooFProcessPutwithCAP, hwname, hhname, hf]

theorem Transport.put_localName_of_arrived (t : Transport) (srv : Server) {cap : Frame}
    (hcap : cap.data ≠ []) :
    (t.capHandler .put).localName srv cap frames = guardedName srv wname := by
  have hwname := h.frameText (i := 0) rfl hw
  cases t with
  | zmq =>
    simp [capHandler, Zmq.capHandler, Zmq.wooFProcessPutwithCAP, h.length_eq,
      Zmq.localNameOf, hwname]
  | cmq =>
    have hpresent : Cmq.hasPayload frames 1 && (frames[2]?).isSome := by
      obtain ⟨f, hf, -⟩ := h.getElem? (i := 2) rfl
      simp [h.hasPayload (i := 1) rfl, hf]
    exact Cmq.localNameOf_of_present
      (fun frames => Cmq.hasPayload frames 1 && (frames[2]?).isSome) hcap
      (h.hasPayload (i := 0) rfl) hwname hpresent

end Put

end Cspot
