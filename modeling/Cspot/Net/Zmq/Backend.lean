import Cspot.Net.CapCheck

/-!
# The ZeroMQ server

The handlers take their strings out of a message in two ways.  `ExtractMessage` copies
each frame and checks the number of frames; the handlers with a capability frame read
the frames where they lie.
-/

namespace Cspot.Zmq

def maxTransfer : Nat := 64 * 1024 * 1024

/-- The refusal of a handler called for a request without capability frame. -/
def unlessCap (srv : Server) (noCap : Bool) (localName : Option Bytes) (err : Reply)
    (k : Outcome) : Outcome :=
  if noCap then
    (srv.exists (capName (localName.getD []))).serve srv fun own =>
      if own then .reply srv err
      else
        (srv.exists nsCapName).serve srv fun ns => if ns then .reply srv err else k
  else k

/-! ## Requests without a capability -/

def wooFProcessGetElSize (srv : Server) (noCap : Bool) : List Frame → Outcome
  | [name] =>
    let woofName := Bytes.cstr name.data
    guardName srv woofName (.reply srv (sendErr .zmq srv)) fun localName =>
      unlessCap srv noCap localName (sendErr .zmq srv) <|
        (openForElSize srv woofName localName).serve srv (replyElSize .zmq srv)
  | _ => .reply srv (sendErr .zmq srv)

/-- The handler a put starts; the extracted string is compared as a whole. -/
def putHandler (hand : Frame) : Option Bytes :=
  let handName := Bytes.cstr hand.data
  if handName = nullName then none else some handName

def wooFProcessPut (srv : Server) (noCap : Bool) : List Frame → Outcome
  | [name, hand, elem] =>
    guardName srv (Bytes.cstr name.data) (.reply srv (sendErr .zmq srv)) fun
      | none => .reply srv (sendErr .zmq srv)
      | some localName =>
        unlessCap srv noCap (some localName) (sendErr .zmq srv) <|
          replyPut .zmq srv localName (putHandler hand) elem.data
  | _ => .reply srv (sendErr .zmq srv)

/-- An element, or an empty frame when there is none to read. -/
def replyElement (srv : Server) (seqNo : Nat) : Option (Bytes × WooF) → Outcome
  | none => .reply srv sendNull
  | some (name, wf) =>
    if wf.elementSize > srv.maxAlloc then .halt srv .exception
    else
      ((wooFReadWithCause wf seqNo).serve srv fun (element, wf) =>
        .reply (srv.store name wf) [element.getD []]).access (.read name seqNo)

def wooFProcessGet (srv : Server) (noCap : Bool) : List Frame → Outcome
  | [name, seqNoStr] =>
    let woofName := Bytes.cstr name.data
    -- the conversion throws before anything is checked, and nobody catches it
    match Decimal.stoull (Bytes.cstr seqNoStr.data) with
    | none => .halt srv .exception
    | some seqNo =>
      guardName srv woofName (.reply srv sendNull) fun localName =>
        unlessCap srv noCap localName sendNull <|
          (openNamed srv woofName localName).serve srv (replyElement srv seqNo)
  | _ => .reply srv sendNull

/-- The loop of a range request.  Past the transfer limit it stops after one element,
with the index still zero and the buffer at its full size. -/
def replyRange (srv : Server) (seqNo : Nat) (count : Int) : Option (Bytes × WooF) → Outcome
  | none => .reply srv sendNull
  | some (name, wf) =>
    let size := toUlong (count * wf.elementSize)
    if size > srv.maxAlloc then .halt srv .exception
    else
      let onlyOne := decide (maxTransfer ≤ toUlong ((count + 1) * wf.elementSize))
      let turns := if onlyOne then min 1 count.toNat else count.toNat
      ((readRun wf seqNo turns).serve srv fun (elements, wf) =>
        -- the size of the buffer may have wrapped
        if elements.flatten.length > size then .halt srv .outOfBounds
        else .reply (srv.store name wf)
          [if turns = 0 then zeroPad size []
            else if elements = [] then []
            else if onlyOne then zeroPad size elements.flatten
            else elements.flatten]).access (.read name seqNo)

def wooFProcessGetRange (srv : Server) (noCap : Bool) : List Frame → Outcome
  | [name, seqNoStr, countStr] =>
    let woofName := Bytes.cstr name.data
    match Decimal.stoull (Bytes.cstr seqNoStr.data), Decimal.stoi (Bytes.cstr countStr.data) with
    | some seqNo, some count =>
      guardName srv woofName (.reply srv sendNull) fun localName =>
        unlessCap srv noCap localName sendNull <|
          (openNamed srv woofName localName).serve srv (replyRange srv seqNo count)
    | _, _ => .halt srv .exception
  | _ => .reply srv sendNull

def wooFProcessGetLatestSeqno (srv : Server) (noCap : Bool) : List Frame → Outcome
  | [name] =>
    let woofName := Bytes.cstr name.data
    guardName srv woofName (.reply srv (sendErr .zmq srv)) fun localName =>
      unlessCap srv noCap localName (sendErr .zmq srv) <|
        (openNamed srv woofName localName).serve srv (replyLatestSeqno .zmq srv)
  | _ => .reply srv (sendErr .zmq srv)

def wooFProcessGetEarliestSeqno (srv : Server) (noCap : Bool) : List Frame → Outcome
  | [name] =>
    guardName srv (Bytes.cstr name.data) (.reply srv (sendErr .zmq srv)) fun localName =>
      unlessCap srv noCap localName (sendErr .zmq srv) <|
        replyEarliestSeqno .zmq srv (localName.getD [])
  | _ => .reply srv (sendErr .zmq srv)

def replyTail (srv : Server) (elCount : Nat) : Option (Bytes × WooF) → Outcome
  | none => .reply srv [textFrame (Decimal.ofNat (2 ^ 32 - 1)), []]
  | some (name, wf) =>
    let size := wf.elementSize * elCount % Word.modulus
    if size > srv.maxAlloc then .halt srv .exception
    else
      ((wooFReadTail wf (Word.toInt32 elCount)).serve srv fun (elRead, elements, wf) =>
        if elements.flatten.length > size then .halt srv .outOfBounds
        else
          .reply (srv.store name wf)
            [textFrame (Decimal.ofNat elRead.toNat), zeroPad size elements.flatten]).access
        (.readTail name elCount)

def wooFProcessGetTail (srv : Server) (noCap : Bool) : List Frame → Outcome
  | [name, elCountStr] =>
    let woofName := Bytes.cstr name.data
    match Decimal.stoull (Bytes.cstr elCountStr.data) with
    | none => .halt srv .exception
    | some elCount =>
      guardName srv woofName (.reply srv sendNull) fun localName =>
        unlessCap srv noCap localName sendNull <|
          (openNamed srv woofName localName).serve srv (replyTail srv elCount)
  | _ => .reply srv sendNull

/-! ## Requests with a capability -/

def openCap (srv : Server) (name : Bytes) : Exec (Option WooF) := do
  if ← srv.exists name then
    let opened ← wooFOpen srv name
    return opened.map Prod.snd
  else return none

def localNameOf (srv : Server) (_cap : Frame) (frames : List Frame) : Exec (Option Bytes) := do
  let wname ← frameText frames 0
  guardedName srv wname

def namePayloadOf (frames : List Frame) : Exec (Option Bytes) := do
  let wname ← frameText frames 0
  namePayload wname

def wooFProcessGetElSizewithCAP : CapHandler where
  refusal := sendErr .zmq
  localName := localNameOf
  openCap := openCap
  needed _ := wcapRead
  payload := namePayloadOf
  unprotected srv frames := wooFProcessGetElSize srv false frames
  perform srv frames := wooFProcessGetElSize srv false frames

/-- The three fields are bound before anything is checked, there or not. -/
def wooFProcessPutwithCAP : CapHandler where
  refusal := sendErr .zmq
  localName srv cap frames :=
    if frames.length ≠ 3 then .error .outOfBounds else localNameOf srv cap frames
  openCap := openCap
  needed frames := putNeeded ((frames[1]?.map Frame.memory).getD [])
  payload frames := do
    let wname ← frameText frames 0
    let hname ← frameText frames 1
    putPayload wname hname ((frames[2]?.map Frame.data).getD [])
  unprotected srv frames := wooFProcessPut srv false frames
  perform srv frames := wooFProcessPut srv false frames

def wooFProcessGetwithCAP : CapHandler where
  refusal _ := sendNull
  localName := localNameOf
  openCap := openCap
  needed _ := wcapRead
  payload frames := do
    let wname ← frameText frames 0
    let seqNo ← frameText frames 1
    pairPayload 2048 wname seqNo
  unprotected srv frames := wooFProcessGet srv false frames
  perform srv frames := wooFProcessGet srv false frames

/-- For an unprotected woof the request goes to the handler of single elements. -/
def wooFProcessGetRangewithCAP : CapHandler where
  refusal _ := sendNull
  localName := localNameOf
  openCap := openCap
  needed _ := wcapRead
  payload frames := do
    let wname ← frameText frames 0
    let seqNo ← frameText frames 1
    let count ← frameText frames 2
    triplePayload 2048 wname seqNo count
  unprotected srv frames := wooFProcessGet srv false frames
  perform srv frames := wooFProcessGetRange srv false frames

/-- For an unprotected woof an error follows the reply. -/
def wooFProcessGetLatestSeqnowithCAP : CapHandler where
  refusal := sendErr .zmq
  localName := localNameOf
  openCap := openCap
  needed _ := wcapRead
  payload := namePayloadOf
  unprotected srv frames := (wooFProcessGetLatestSeqno srv false frames).andReply (sendErr .zmq srv)
  perform srv frames := wooFProcessGetLatestSeqno srv false frames

def wooFProcessGetEarliestSeqnowithCAP : CapHandler where
  refusal := sendErr .zmq
  localName := localNameOf
  openCap := openCap
  needed _ := wcapRead
  payload := namePayloadOf
  unprotected srv frames := wooFProcessGetEarliestSeqno srv false frames
  perform srv frames := wooFProcessGetEarliestSeqno srv false frames

/-- The tail request carries an attenuated capability and no signature.  The capability
woof of the namespace is not looked at. -/
def checkTail (hmac : Hmac) (srv : Server) (localName : Bytes) (_frames : List Frame)
    (cap : Frame) : Exec Verdict := do
  match ← openCap srv (capName localName) with
  | none => return .unprotected
  | some wf =>
    match ← readPrincipal srv.stack wf with
    | none => return .refused
    | some principal =>
      if cap.memory.length < sizeofWcap then throw .outOfBounds
      if wooFCapAuthorized hmac principal.check (Wcap.ofBytes cap.memory) wcapRead then
        return .granted
      else return .refused

def wooFProcessGetTailwithCAP : CapHandler where
  refusal _ := sendNull
  localName := localNameOf
  openCap := openCap
  needed _ := wcapRead
  -- no payload is put together
  payload _ := .ok none
  unprotected srv frames := wooFProcessGetTail srv false frames
  perform srv frames := wooFProcessGetTail srv false frames
  check := checkTail

/-- Both sizes are read to the end of their strings. -/
def createWooF (srv : Server) (wname elSizeStr historyStr : Bytes) : Outcome :=
  let elSize := Decimal.strtol elSizeStr
  let history := Decimal.strtol historyStr
  if elSize.2 ≠ [] ∨ history.2 ≠ [] then .reply srv (sendErr .zmq srv)
  else
    let created := srv.creates wname (toUlong elSize.1) (toUlong history.1)
    (Outcome.reply srv [textFrame (Bytes.ofString (if created then "1" else "-1"))]).access
      (.create wname (toUlong elSize.1) (toUlong history.1))

def wooFProcessCreatewithCAP : CapHandler where
  refusal := sendErr .zmq
  localName := localNameOf
  openCap := openCap
  needed _ := wcapInit
  payload frames := do
    let wname ← frameText frames 0
    let elSize ← frameText frames 1
    let history ← frameText frames 2
    triplePayload 4096 wname elSize history
  -- remote create requires a capability
  unprotected srv _ := .reply srv (sendErr .zmq srv)
  perform srv frames :=
    (frameText frames 0).serve srv fun wname =>
      (frameText frames 1).serve srv fun elSize =>
        (frameText frames 2).serve srv fun history => createWooF srv wname elSize history

/-! ## Dispatch -/

def capHandler : Operation → CapHandler
  | .elSize => wooFProcessGetElSizewithCAP
  | .put => wooFProcessPutwithCAP
  | .get => wooFProcessGetwithCAP
  | .getRange => wooFProcessGetRangewithCAP
  | .getTail => wooFProcessGetTailwithCAP
  | .latestSeqno => wooFProcessGetLatestSeqnowithCAP
  | .earliestSeqno => wooFProcessGetEarliestSeqnowithCAP
  | .create => wooFProcessCreatewithCAP

def process (hmac : Hmac) (srv : Server) : Tag → List Frame → Outcome
  | .plain .elSize, frames => wooFProcessGetElSize srv true frames
  | .plain .put, frames => wooFProcessPut srv true frames
  | .plain .get, frames => wooFProcessGet srv true frames
  | .plain .getRange, frames => wooFProcessGetRange srv true frames
  | .plain .getTail, frames => wooFProcessGetTail srv true frames
  | .plain .latestSeqno, frames => wooFProcessGetLatestSeqno srv true frames
  | .plain .earliestSeqno, frames => wooFProcessGetEarliestSeqno srv true frames
  | .plain .create, _ => .reply srv (sendErr .zmq srv)
  | .cap op, frames => (capHandler op).run hmac srv frames

/-- `safe_stoul_to_int` on the first frame. -/
def readTag (f : Frame) : Exec (Option Tag) :=
  match Decimal.stoull (Bytes.cstr f.data) with
  | none => .ok none
  | some n => .ok (if n < 2 ^ 31 then Tag.ofNumber n else none)

def wooFMsgThread (hmac : Hmac) (srv : Server) : List Frame → Outcome
  | [] => .halt srv .assertion
  | f :: frames =>
    (readTag f).serve srv fun
      | none => .reply srv (sendErr .zmq srv)
      | some tag => process hmac srv tag frames

end Cspot.Zmq
