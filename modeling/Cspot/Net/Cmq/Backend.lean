import Cspot.Net.CapCheck

/-!
# The CMQ server

The handlers walk the frame list of a message and use the payloads where they lie.  An
empty frame has a null payload.
-/

namespace Cspot.Cmq

def maxTransfer : Nat := 64 * 1024 * 1024

/-! ## Frames -/

def payload (f : Frame) : Option Bytes := if f.data = [] then none else some f.memory

/-- The string at a payload that is used without a test. -/
def payloadText (f : Frame) : Exec Bytes :=
  match payload f with
  | none => .error .outOfBounds
  | some memory => cString memory

def hasPayload (frames : List Frame) (i : Nat) : Bool :=
  match frames[i]? with
  | none => false
  | some f => (payload f).isSome

/-- Two handlers destroy the frame of the name as if it were a frame list.  The link to
the next frame stands where the count is, so it must have been the last frame. -/
def destroyAsList (srv : Server) (rest : List Frame) (o : Outcome) : Outcome :=
  if rest = [] then o else .halt srv .outOfBounds

def unlessCap (srv : Server) (noCap : Bool) (localName : Option Bytes) (refuse k : Outcome) :
    Outcome :=
  if noCap then
    (wooFOpen srv (capName (localName.getD []))).serve srv fun
      | some _ => refuse
      | none =>
        (wooFOpen srv nsCapName).serve srv fun
          | some _ => refuse
          | none => k
  else k

/-! ## Requests without a capability -/

def wooFProcessGetElSize (srv : Server) (noCap : Bool) : List Frame → Outcome
  | [] => .reply srv (sendErr .cmq srv)
  | name :: rest =>
    match payload name with
    | none => .reply srv (sendErr .cmq srv)
    | some memory =>
      let refuse := destroyAsList srv rest (.reply srv (sendErr .cmq srv))
      (cString memory).serve srv fun woofName =>
        guardName srv woofName refuse fun localName =>
          unlessCap srv noCap localName refuse <|
            (openForElSize srv woofName localName).serve srv (replyElSize .cmq srv)

def wooFProcessGetEarliestSeqno (srv : Server) (noCap : Bool) : List Frame → Outcome
  | [] => .reply srv (sendErr .cmq srv)
  | name :: rest =>
    match payload name with
    | none => .reply srv (sendErr .cmq srv)
    | some memory =>
      let refuse := destroyAsList srv rest (.reply srv (sendErr .cmq srv))
      (cString memory).serve srv fun woofName =>
        guardName srv woofName refuse fun localName =>
          unlessCap srv noCap localName refuse <|
            replyEarliestSeqno .cmq srv (localName.getD [])

/-- The handler a put starts; only the first four bytes are compared. -/
def putHandler (hname : Bytes) : Option Bytes :=
  if nullName.isPrefixOf hname then none else some (Bytes.cstr hname)

def wooFProcessPut (srv : Server) (noCap : Bool) : List Frame → Outcome
  | [] => .reply srv (sendErr .cmq srv)
  | name :: rest =>
    match payload name with
    | none => .reply srv (sendErr .cmq srv)
    | some memory =>
      (cString memory).serve srv fun woofName =>
        guardName srv woofName (.reply srv (sendErr .cmq srv)) fun localName =>
          match rest with
          | [] => .reply srv (sendErr .cmq srv)
          | hand :: rest =>
            match payload hand, rest with
            | none, _ => .halt srv .outOfBounds
            | some _, [] => .reply srv (sendErr .cmq srv)
            | some hname, elem :: _ =>
              unlessCap srv noCap localName (.reply srv (sendErr .cmq srv)) <|
                replyPut .cmq srv (localName.getD []) (putHandler hname)
                  ((payload elem).getD [])

/-- The frame that is read into has its size in 32 bits.  One without bytes has a null
payload and is not read into. -/
def replyElement (srv : Server) (seqNo : Nat) : Option (Bytes × WooF) → Outcome
  | none => .reply srv sendNull
  | some (name, wf) =>
    let size := wf.elementSize % 2 ^ 32
    if size = 0 ∨ size > srv.maxAlloc then .reply srv sendNull
    else
      ((wooFReadWithCause wf seqNo).serve srv fun (element, wf) =>
        if (element.getD []).length > size then .halt srv .outOfBounds
        else .reply (srv.store name wf) [element.getD []]).access (.read name seqNo)

def wooFProcessGet (srv : Server) (noCap : Bool) : List Frame → Outcome
  | [] => .reply srv sendNull
  | name :: rest =>
    match payload name with
    | none => .reply srv sendNull
    | some memory =>
      (cString memory).serve srv fun woofName =>
        guardName srv woofName (.reply srv sendNull) fun localName =>
          match rest with
          | [] => .reply srv sendNull
          | seqNo :: _ =>
            (payloadText seqNo).serve srv fun seqNo =>
              unlessCap srv noCap localName (.reply srv sendNull) <|
                (openNamed srv woofName localName).serve srv
                  (replyElement srv (Decimal.strtoul seqNo))

/-- The buffer is cut at the transfer limit; the loop is not. -/
def replyRange (srv : Server) (seqNo count : Nat) : Option (Bytes × WooF) → Outcome
  | none => .reply srv sendNull
  | some (name, wf) =>
    let rSize := min (count * wf.elementSize % Word.modulus) maxTransfer
    if rSize = 0 then .reply srv sendNull
    else
      ((readRun wf seqNo count).serve srv fun (elements, wf) =>
        if elements.flatten.length > rSize then .halt srv .outOfBounds
        else .reply (srv.store name wf) [elements.flatten]).access (.read name seqNo)

def wooFProcessGetRange (srv : Server) (noCap : Bool) : List Frame → Outcome
  | [] => .reply srv sendNull
  | name :: rest =>
    match payload name with
    | none => .reply srv sendNull
    | some memory =>
      (cString memory).serve srv fun woofName =>
        guardName srv woofName (.reply srv sendNull) fun localName =>
          match rest with
          | seqNo :: count :: _ =>
            (payloadText seqNo).serve srv fun seqNo =>
              (payloadText count).serve srv fun count =>
                unlessCap srv noCap localName (.reply srv sendNull) <|
                  (openNamed srv woofName localName).serve srv
                    (replyRange srv (Decimal.strtoul seqNo) (Decimal.strtoul count))
          | _ => .reply srv sendNull

/-- There is no guard here, and none in the tail handler. -/
def wooFProcessGetLatestSeqno (srv : Server) (noCap : Bool) : List Frame → Outcome
  | [] => .reply srv (sendErr .cmq srv)
  | name :: _ =>
    (payloadText name).serve srv fun woofName =>
      (wooFLocalName srv.uriPath woofName).serve srv fun localName =>
        unlessCap srv noCap localName (.reply srv (sendErr .cmq srv)) <|
          (openNamed srv woofName localName).serve srv (replyLatestSeqno .cmq srv)

/-- Sizes and counts are 32-bit here, and so is their product. -/
def replyTail (srv : Server) (elCount : Nat) : Option (Bytes × WooF) → Outcome
  | none => .reply srv [textFrame (Decimal.ofNat 0), []]
  | some (name, wf) =>
    let size := wf.elementSize * elCount % 2 ^ 32
    if size > srv.maxAlloc then .reply srv sendNull
    else
      ((wooFReadTail wf (Word.toInt32 elCount)).serve srv fun (elRead, elements, wf) =>
        if elements.flatten.length > size then .halt srv .outOfBounds
        else
          .reply (srv.store name wf)
            [textFrame (Decimal.ofNat elRead.toNat),
              if elRead = 0 then [] else zeroPad size elements.flatten]).access
        (.readTail name elCount)

def wooFProcessGetTail (srv : Server) (noCap : Bool) : List Frame → Outcome
  | name :: elCount :: _ =>
    (payloadText elCount).serve srv fun elCount =>
      (payloadText name).serve srv fun woofName =>
        (wooFLocalName srv.uriPath woofName).serve srv fun localName =>
          unlessCap srv noCap localName (.reply srv sendNull) <|
            (openNamed srv woofName localName).serve srv
              (replyTail srv (Decimal.strtoul elCount % 2 ^ 32))
  | _ => .reply srv sendNull

/-! ## Requests with a capability -/

def openCap (srv : Server) (name : Bytes) : Exec (Option WooF) := do
  let opened ← wooFOpen srv name
  return opened.map Prod.snd

/-- The frames have to be there as far as `present` says. -/
def localNameOf (present : List Frame → Bool) (srv : Server) (cap : Frame)
    (frames : List Frame) : Exec (Option Bytes) := do
  if payload cap = none ∨ hasPayload frames 0 = false then return none
  let wname ← frameText frames 0
  let localName ← guardedName srv wname
  if present frames then return localName else return none

def unguardedNameOf (srv : Server) (cap : Frame) (frames : List Frame) :
    Exec (Option Bytes) := do
  if payload cap = none ∨ hasPayload frames 0 = false then return none
  let wname ← frameText frames 0
  wooFLocalName srv.uriPath wname

def namePayloadOf (frames : List Frame) : Exec (Option Bytes) := do
  let wname ← frameText frames 0
  namePayload wname

def wooFProcessGetElSizewithCAP : CapHandler where
  refusal := sendErr .cmq
  localName := localNameOf fun _ => true
  openCap := openCap
  needed _ := wcapRead
  payload := namePayloadOf
  unprotected srv frames := wooFProcessGetElSize srv false frames
  perform srv frames := wooFProcessGetElSize srv false frames

def wooFProcessGetEarliestSeqnowithCAP : CapHandler where
  refusal := sendErr .cmq
  localName := localNameOf fun _ => true
  openCap := openCap
  needed _ := wcapRead
  payload := namePayloadOf
  unprotected srv frames := wooFProcessGetEarliestSeqno srv false frames
  perform srv frames := wooFProcessGetEarliestSeqno srv false frames

def wooFProcessPutwithCAP : CapHandler where
  refusal := sendErr .cmq
  localName := localNameOf fun frames => hasPayload frames 1 && (frames[2]?).isSome
  openCap := openCap
  needed frames := putNeeded ((frames[1]?.map Frame.memory).getD [])
  payload frames := do
    let wname ← frameText frames 0
    let hname ← frameText frames 1
    putPayload wname hname ((frames[2]?.map Frame.data).getD [])
  unprotected srv frames := wooFProcessPut srv false frames
  perform srv frames := wooFProcessPut srv false frames

def wooFProcessGetwithCAP : CapHandler where
  refusal _ := sendNull
  localName := localNameOf fun frames => hasPayload frames 1
  openCap := openCap
  needed _ := wcapRead
  payload frames := do
    let wname ← frameText frames 0
    let seqNo ← frameText frames 1
    pairPayload 2048 wname seqNo
  unprotected srv frames := wooFProcessGet srv false frames
  perform srv frames := wooFProcessGet srv false frames

def wooFProcessGetRangewithCAP : CapHandler where
  refusal _ := sendNull
  localName := localNameOf fun frames => hasPayload frames 1 && hasPayload frames 2
  openCap := openCap
  needed _ := wcapRead
  payload frames := do
    let wname ← frameText frames 0
    let seqNo ← frameText frames 1
    let count ← frameText frames 2
    triplePayload 2048 wname seqNo count
  unprotected srv frames := wooFProcessGetRange srv false frames
  perform srv frames := wooFProcessGetRange srv false frames

def wooFProcessGetLatestSeqnowithCAP : CapHandler where
  refusal := sendErr .cmq
  localName := unguardedNameOf
  openCap := openCap
  needed _ := wcapRead
  payload := namePayloadOf
  unprotected srv frames := wooFProcessGetLatestSeqno srv false frames
  perform srv frames := wooFProcessGetLatestSeqno srv false frames

/-- The signature of a tail request is of the name alone. -/
def wooFProcessGetTailwithCAP : CapHandler where
  refusal _ := sendNull
  localName := unguardedNameOf
  openCap := openCap
  needed _ := wcapRead
  payload := namePayloadOf
  unprotected srv frames := wooFProcessGetTail srv false frames
  perform srv frames := wooFProcessGetTail srv false frames

/-- Sizes with trailing text are not answered; a failed creation is answered like a
successful one. -/
def createWooF (srv : Server) (wname elSizeStr historyStr : Bytes) : Outcome :=
  let elSize := Decimal.strtol elSizeStr
  let history := Decimal.strtol historyStr
  if elSize.2 ≠ [] ∨ history.2 ≠ [] then .silent srv
  else
    (Outcome.reply srv [Bytes.ofString "1"]).access
      (.create wname (toUlong elSize.1 % 2 ^ 32) (toUlong history.1 % 2 ^ 32))

def wooFProcessCreatewithCAP : CapHandler where
  refusal := sendErr .cmq
  localName := localNameOf fun frames => hasPayload frames 1 && hasPayload frames 2
  openCap := openCap
  needed _ := wcapInit
  payload frames := do
    let wname ← frameText frames 0
    let elSize ← frameText frames 1
    let history ← frameText frames 2
    triplePayload 2048 wname elSize history
  unprotected srv _ := .reply srv (sendErr .cmq srv)
  perform srv frames :=
    (frameText frames 0).serve srv fun wname =>
      (frameText frames 1).serve srv fun elSize =>
        (frameText frames 2).serve srv fun history => createWooF srv wname elSize history

/-! ## Dispatch -/

def capHandler : Operation → CapHandler
  | .elSize => wooFProcessGetElSizewithCAP
  | .put => wooFProcessPutwithCAP
  | .get => wooFProcessGetwithCAP
  | .getRange => wooFProcessGetRangewithCAP
  | .getTail => wooFProcessGetTailwithCAP
  | .latestSeqno => wooFProcessGetLatestSeqnowithCAP
  | .earliestSeqno => wooFProcessGetEarliestSeqnowithCAP
  | .create => wooFProcessCreatewithCAP

def process (hmac : Hmac) (srv : Server) : Tag → List Frame → Outcome
  | .plain .elSize, frames => wooFProcessGetElSize srv true frames
  | .plain .put, frames => wooFProcessPut srv true frames
  | .plain .get, frames => wooFProcessGet srv true frames
  | .plain .getRange, frames => wooFProcessGetRange srv true frames
  | .plain .getTail, frames => wooFProcessGetTail srv true frames
  | .plain .latestSeqno, frames => wooFProcessGetLatestSeqno srv true frames
  | .plain .earliestSeqno, frames => wooFProcessGetEarliestSeqno srv true frames
  | .plain .create, _ => .silent srv
  | .cap op, frames => (capHandler op).run hmac srv frames

def readTag (f : Frame) : Exec (Option Tag) := do
  let text ← payloadText f
  return Tag.ofNumber (Decimal.strtol text).1

/-- One turn of the loop of the message thread.  An unknown tag is not answered. -/
def wooFMsgThread (hmac : Hmac) (srv : Server) : List Frame → Outcome
  | [] => .silent srv
  | f :: frames =>
    (readTag f).serve srv fun
      | none => .silent srv
      | some tag => process hmac srv tag frames

end Cspot.Cmq
