import Cspot.Net.Client

/-!
# Replies

The second half of a client function: what it makes of the reply, and the library calls
that are built on one or two of these exchanges.  Numbers go through `int32_t` on their
way back, sizes and sequence numbers through `uint32_t` on their way out.
-/

namespace Cspot

/-! ## Exchanges -/

/-- A client process, and how its messages come to lie in the memory of the server. -/
structure Client where
  hmac : Hmac
  keychain : Keychain
  garbage : UInt64
  arrive : List Bytes → List Frame
  arrived : ∀ sent, Arrived sent (arrive sent)

/-- The first reply and the server after it. -/
def Outcome.answer (o : Outcome) : Exec (Option Reply × Server) :=
  match o.stop with
  | some s => .error s
  | none => .ok (o.replies.head?, o.server)

/-- The reply to a request.  There is none to a message that is never sent, never complete
or not answered. -/
def Client.exchange (c : Client) (t : Transport) (srv : Server) (woofName : Bytes)
    (req : Request) : Exec (Option Reply × Server) := do
  match ← t.request c.hmac c.keychain c.garbage woofName req with
  | none => return (none, srv)
  | some sent => (t.serve c.hmac srv (c.arrive sent)).answer

/-! ## What the clients make of a reply -/

namespace Zmq

/-- One string, converted by `stoul` and returned as `int32_t`. -/
def numberReply : Option Reply → Exec Int
  | some [str] =>
    match Decimal.stoull (Bytes.cstr str) with
    | none => .error .exception
    | some n => .ok (Word.toInt32 n)
  | _ => .ok (-1)

/-- The result and the bytes copied to the caller. -/
def getReply (elemSize : UInt32) : Option Reply → Exec (Int × Bytes)
  | some [vec] => .ok (if vec.length ≠ elemSize.toNat then (-1, []) else (1, vec))
  | _ => .ok (-1, [])

def rangeReply (elemSize count : UInt32) : Option Reply → Exec (Int × Bytes)
  | some [vec] =>
    -- could send back less
    if vec.length > (elemSize * count).toNat then .ok (-1, [])
    -- null message
    else if vec.length = 0 then .ok (-1, [])
    else if elemSize = 0 then .error .divideByZero
    else .ok ((Word.toInt32 vec.length).tdiv (Word.toInt32 elemSize.toNat), vec)
  | _ => .ok (-1, [])

/-- The result says nothing about how many elements were copied. -/
def tailReply (elSize : Nat) (elCount : Int) : Option Reply → Exec (Int × Bytes)
  | some [lenStr, vec] =>
    match Decimal.stoull (Bytes.cstr lenStr) with
    | none => .error .exception
    | some len =>
      if vec.length ≠ elSize * len % Word.modulus then .ok (-1, [])
      else
        let len := min (len % 2 ^ 32) (elCount % 2 ^ 32).toNat
        .ok (1, vec.take (len * elSize))
  | _ => .ok (-1, [])

end Zmq

namespace Cmq

/-- The first frame is read without a test for its payload. -/
def numberReply : Option Reply → Exec Int
  | some (f :: _) =>
    if f = [] then .error .outOfBounds
    else .ok (Word.toInt32 (Decimal.strtoul (Bytes.cstr f)))
  | _ => .ok (-1)

def getReply : Option Reply → Exec (Int × Bytes)
  | some (f :: _) => .ok (if f = [] then (-1, []) else (1, f))
  | _ => .ok (-1, [])

def rangeReply (elemSize : UInt32) : Option Reply → Exec (Int × Bytes)
  | some (f :: _) =>
    if f = [] then .ok (-1, [])
    else if elemSize = 0 then .error .divideByZero
    else .ok ((Word.toInt32 f.length).tdiv (Word.toInt32 elemSize.toNat), f)
  | _ => .ok (-1, [])

/-- A short frame of elements is copied in the length that was asked for. -/
def tailReply (elSize : Nat) (elCount : Int) : Option Reply → Exec (Int × Bytes)
  | some (lenStr :: rest) =>
    if lenStr = [] then .ok (-1, [])
    else
      match rest with
      | [] => .ok (-1, [])
      | f :: _ =>
        if f = [] then .ok (-1, [])
        else
          let asked := toUlong (elCount * elSize)
          let (len, elRead) :=
            if f.length % 2 ^ 32 < asked then (Word.toInt32 asked, toUlong elCount)
            else (Word.toInt32 f.length, Decimal.strtoul (Bytes.cstr lenStr))
          if len < 0 ∨ f.length < len then .error .outOfBounds
          else .ok (Word.toInt32 elRead, f.take len.toNat)
  | _ => .ok (-1, [])

/-- Any frame that is not empty counts as success. -/
def createReply : Option Reply → Int
  | some (f :: _) => if f = [] then -1 else 1
  | _ => -1

end Cmq

namespace Transport

def numberReply : Transport → Option Reply → Exec Int
  | .zmq => Zmq.numberReply
  | .cmq => Cmq.numberReply

def getReply : Transport → UInt32 → Option Reply → Exec (Int × Bytes)
  | .zmq, elemSize => Zmq.getReply elemSize
  | .cmq, _ => Cmq.getReply

def rangeReply : Transport → UInt32 → UInt32 → Option Reply → Exec (Int × Bytes)
  | .zmq, elemSize, count => Zmq.rangeReply elemSize count
  | .cmq, elemSize, _ => Cmq.rangeReply elemSize

def tailReply : Transport → Nat → Int → Option Reply → Exec (Int × Bytes)
  | .zmq => Zmq.tailReply
  | .cmq => Cmq.tailReply

end Transport

/-! ## Remote calls -/

namespace Client

variable (c : Client) (t : Transport) (srv : Server) (woofName : Bytes)

def wooFMsgNumber (req : Request) : Exec (Nat × Server) := do
  let (reply, srv) ← c.exchange t srv woofName req
  let n ← t.numberReply reply
  return (toUlong n, srv)

def wooFMsgGetElSize : Exec (Nat × Server) := c.wooFMsgNumber t srv woofName .elSize

def wooFMsgGetLatestSeqno : Exec (Nat × Server) := c.wooFMsgNumber t srv woofName .latestSeqno

def wooFMsgGetEarliestSeqno : Exec (Nat × Server) :=
  c.wooFMsgNumber t srv woofName .earliestSeqno

/-- The element goes out in the length that is left of its size in 32 bits. -/
def wooFMsgPut (handName : Option Bytes) (element : Bytes) : Exec (Nat × Server) :=
  c.wooFMsgNumber t srv woofName (.put handName (element.take (element.length % 2 ^ 32)))

def wooFMsgGet (elSize seqNo : Nat) : Exec (Int × Bytes) := do
  let elemSize := UInt32.ofNat elSize
  let (reply, _) ← c.exchange t srv woofName (.get elemSize (UInt32.ofNat seqNo))
  t.getReply elemSize reply

def wooFMsgGetRange (elSize seqNo : Nat) (count : UInt32) : Exec (Int × Bytes) := do
  let elemSize := UInt32.ofNat elSize
  let (reply, _) ← c.exchange t srv woofName (.getRange elemSize (UInt32.ofNat seqNo) count)
  t.rangeReply elemSize count reply

def wooFMsgGetTail (elSize : Nat) (elCount : Int) : Exec (Int × Bytes) := do
  let (reply, _) ← c.exchange t srv woofName
    (.getTail (UInt64.ofNat elSize) (Int32.ofInt elCount))
  t.tailReply elSize elCount reply

def wooFGetRange (seqNo : Nat) (count : UInt32) : Exec (Int × Bytes) := do
  if Word.toInt32 count.toNat < 0 then return (-1, [])
  if count = 0 then return (0, [])
  let (elSize, srv) ← c.wooFMsgGetElSize t srv woofName
  if elSize = Word.allOnes then return (-1, [])
  c.wooFMsgGetRange t srv woofName elSize seqNo count

def wooFGetTail (elementCount : Nat) : Exec (Nat × Bytes) := do
  let (elSize, srv) ← c.wooFMsgGetElSize t srv woofName
  if elSize = Word.allOnes then return (Word.allOnes, [])
  let (err, elements) ← c.wooFMsgGetTail t srv woofName elSize (Word.toInt32 elementCount)
  return (toUlong err, elements)

end Client

/-! ## Local calls -/

def wooFGetRange (srv : Server) (wfName : Bytes) (seqNo : Nat) (count : UInt32) :
    Exec (Int × Bytes) := do
  if Word.toInt32 count.toNat < 0 then return (-1, [])
  if count = 0 then return (0, [])
  match ← wooFOpen srv wfName with
  | none => return (-1, [])
  | some (_, wf) =>
    if wf.elementSize = Word.allOnes then return (-1, [])
    let (elements, _) ← readRun wf seqNo count.toNat
    if elements = [] then return (-1, [])
    return ((elements.length : Int), elements.flatten)

def wooFGetTail (srv : Server) (wfName : Bytes) (elementCount : Nat) : Exec (Nat × Bytes) := do
  match ← wooFOpen srv wfName with
  | none => return (Word.allOnes, [])
  | some (_, wf) =>
    let (elRead, elements, _) ← wooFReadTail wf (Word.toInt32 elementCount)
    return (toUlong elRead, elements.flatten)

end Cspot
