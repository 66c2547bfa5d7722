import Cspot.Lib.Decimal
import Cspot.Net.Access
import Cspot.Woof.Basic

/-!
# Requests, replies and the server process

A request is a list of frames.  What a handler does with one is recorded as the replies
it sends, the accesses it makes to woofs on behalf of the client, and the way it ends.
The operations below are what the handlers of both transports do once they have opened
the woof.
-/

namespace Cspot

inductive Transport
  | zmq
  | cmq
deriving Repr, DecidableEq

/-! ## Frames -/

/-- A received frame and the memory that happens to lie behind it: the handlers often
use no more than a pointer to the data. -/
structure Frame where
  data : Bytes
  beyond : Bytes
deriving Repr, DecidableEq

def Frame.memory (f : Frame) : Bytes := f.data ++ f.beyond

/-- The string at a pointer.  A reader that finds no terminator leaves the memory. -/
def cString (memory : Bytes) : Exec Bytes :=
  if 0 ∈ memory then .ok (Bytes.cstr memory) else .error .outOfBounds

def textFrame (s : Bytes) : Bytes := s ++ [0]

theorem cString_textFrame {s : Bytes} (h : ∀ b ∈ s, b ≠ 0) (beyond : Bytes) :
    cString (textFrame s ++ beyond) = .ok s := by
  have hmem : (0 : UInt8) ∈ textFrame s ++ beyond := by simp [textFrame]
  rw [cString, if_pos hmem, textFrame, List.append_assoc, List.singleton_append,
    Bytes.cstr_append_zero h]

abbrev Reply := List Bytes

def sendNull : Reply := [[]]

inductive Operation
  | elSize
  | put
  | get
  | getRange
  | getTail
  | latestSeqno
  | earliestSeqno
  | create
deriving Repr, DecidableEq

/-- The message tags, without and with a capability frame. -/
inductive Tag
  | plain (op : Operation)
  | cap (op : Operation)
deriving Repr, DecidableEq

def Tag.operation : Tag → Operation
  | .plain op => op
  | .cap op => op

/-- `WOOF_MSG_PUT` and the others.  A create comes with a capability only. -/
def Tag.ofNumber : Int → Option Tag
  | 1 => some (.plain .put)
  | 2 => some (.plain .elSize)
  | 3 => some (.plain .get)
  | 4 => some (.plain .getTail)
  | 5 => some (.plain .latestSeqno)
  | 11 => some (.plain .getRange)
  | 12 => some (.plain .earliestSeqno)
  | 21 => some (.cap .put)
  | 22 => some (.cap .elSize)
  | 23 => some (.cap .get)
  | 24 => some (.cap .getTail)
  | 25 => some (.cap .latestSeqno)
  | 31 => some (.cap .create)
  | 32 => some (.cap .getRange)
  | 33 => some (.cap .earliestSeqno)
  | _ => none

/-! ## The process -/

/-- A file in the directory of the server.  Opening one that is no woof fails. -/
inductive Entry
  | woof (wf : WooF)
  | other

structure Server where
  uriPath : UriPath
  dir : Bytes → Option Entry
  globals : Globals
  /-- Whether `WooFCreate` with a URI for a name succeeds; the file is not one of `dir`. -/
  creates : Bytes → Nat → Nat → Bool
  /-- The largest buffer the allocator gives out, less than half of the addresses. -/
  maxAlloc : Nat
  maxAlloc_lt : maxAlloc < 2 ^ 63
  /-- What earlier calls left where a local capability structure lies. -/
  stack : Bytes
  /-- What is found where a text on the heap was, once its memory is freed. -/
  freed : Bytes → Bytes

/-- `std::filesystem::exists`.  It throws on a name too long for a directory entry. -/
def Server.exists (srv : Server) (name : Bytes) : Exec Bool :=
  if 255 < name.length then .error .exception else .ok (srv.dir name).isSome

def Server.lookup (srv : Server) (name : Bytes) : Option (Bytes × WooF) :=
  match srv.dir name with
  | some (.woof wf) => some (name, wf)
  | _ => none

def Server.store (srv : Server) (name : Bytes) (wf : WooF) : Server :=
  { srv with dir := fun n => if n = name then some (.woof wf) else srv.dir n }

/-- The file name and the woof behind it, none for a null pointer. -/
def wooFOpen (srv : Server) (name : Bytes) : Exec (Option (Bytes × WooF)) := do
  if wooFValidURI name then
    match ← wooFNameFromURI srv.uriPath name 4096 with
    | none => return none
    | some localName => return srv.lookup localName
  else return srv.lookup name

variable {name wname : Bytes} {α : Type} {srv : Server}

theorem wooFOpen_of_slash_notMem (h : slash ∉ name) :
    wooFOpen srv name = .ok (srv.lookup name) := by
  simp [wooFOpen, wooFValidURI_of_slash_notMem h]

theorem Server.exists_eq_ok (srv : Server) (h : name.length ≤ 255) :
    srv.exists name = .ok (srv.dir name).isSome := if_neg (by omega)

theorem Server.exists_eq_error (srv : Server) (h : ¬ name.length ≤ 255) :
    srv.exists name = .error .exception := if_pos (by omega)

def nsCapName : Bytes := Bytes.ofString "CSPOT.CAP"

def capName (localName : Bytes) : Bytes := localName ++ Bytes.ofString ".CAP"

theorem slash_notMem_nsCapName : slash ∉ nsCapName := by decide

theorem slash_notMem_capName {localName : Bytes} (h : slash ∉ localName) :
    slash ∉ capName localName := by
  rw [capName, List.mem_append, not_or]
  exact ⟨h, by decide⟩

/-! ## Numbers in replies -/

/-- The text of a number.  The CMQ handlers send what a pointer into a destroyed string
finds: up to fifteen characters lie in the string itself, a longer text has been freed. -/
def Transport.numberText (srv : Server) (n : Nat) : Transport → Bytes
  | .zmq => Decimal.ofNat n
  | .cmq =>
    if (Decimal.ofNat n).length ≤ 15 then Decimal.ofNat n
    else Bytes.cstr (srv.freed (Decimal.ofNat n))

def sendErr (t : Transport) (srv : Server) : Reply := [textFrame (t.numberText srv Word.allOnes)]

/-- What the handlers of an operation send when they turn a request away. -/
def Operation.refusal (t : Transport) (srv : Server) : Operation → Reply
  | .elSize | .put | .latestSeqno | .earliestSeqno | .create => sendErr t srv
  | .get | .getRange | .getTail => sendNull

def Server.withFreed (srv : Server) (freed : Bytes → Bytes) : Server := { srv with freed := freed }

/-! ## Outcomes -/

inductive Access
  | elSize (name : Bytes)
  | append (name : Bytes) (handName : Option Bytes) (element : Bytes)
  | read (name : Bytes) (seqNo : Nat)
  | readTail (name : Bytes) (count : Nat)
  | latestSeqno (name : Bytes)
  | earliestSeqno (name : Bytes)
  | create (name : Bytes) (elementSize historySize : Nat)
deriving Repr, DecidableEq

structure Outcome where
  replies : List Reply
  accesses : List Access
  stop : Option Stop
  server : Server

namespace Outcome

def reply (srv : Server) (r : Reply) : Outcome := ⟨[r], [], none, srv⟩

def halt (srv : Server) (s : Stop) : Outcome := ⟨[], [], some s, srv⟩

def silent (srv : Server) : Outcome := ⟨[], [], none, srv⟩

def access (o : Outcome) (a : Access) : Outcome := { o with accesses := a :: o.accesses }

/-- Send one more reply after a handler that came to its end. -/
def andReply (o : Outcome) (r : Reply) : Outcome :=
  if o.stop = none then { o with replies := o.replies ++ [r] } else o

@[simp] theorem reply_accesses (srv : Server) (r : Reply) : (reply srv r).accesses = [] := rfl

@[simp] theorem halt_accesses (srv : Server) (s : Stop) : (halt srv s).accesses = [] := rfl

@[simp] theorem access_accesses (o : Outcome) (a : Access) :
    (o.access a).accesses = a :: o.accesses := rfl

end Outcome

/-- Go on with a result, or end where the computation of it ended. -/
def Exec.serve {α : Type} (x : Exec α) (srv : Server) (k : α → Outcome) : Outcome :=
  match x with
  | .ok a => k a
  | .error s => .halt srv s

@[simp] theorem Exec.serve_ok (a : α) (srv : Server) (k : α → Outcome) :
    Exec.serve (.ok a) srv k = k a := rfl

@[simp] theorem Exec.serve_error (e : Stop) (srv : Server) (k : α → Outcome) :
    Exec.serve (.error e) srv k = .halt srv e := rfl

theorem Exec.exists_ok_of_serve_accesses {x : Exec α} {k : α → Outcome}
    (h : (Exec.serve x srv k).accesses ≠ []) :
    ∃ a, x = .ok a ∧ (k a).accesses ≠ [] := by
  cases x with
  | error s => exact absurd rfl h
  | ok a => exact ⟨a, rfl, h⟩

/-! ## The name of the woof -/

def frameText (frames : List Frame) (i : Nat) : Exec Bytes :=
  match frames[i]? with
  | none => .error .assertion
  | some f => cString f.memory

/-- The file name in a URI that passes the guard of the capability woofs. -/
def guardedName (srv : Server) (wname : Bytes) : Exec (Option Bytes) := do
  let err ← wooFIsCAPName srv.uriPath wname
  if err = 1 ∨ err < 0 then return none
  wooFLocalName srv.uriPath wname

/-- The guard of the base handlers, which go on without a file name. -/
def guardName (srv : Server) (wname : Bytes) (refuse : Outcome)
    (k : Option Bytes → Outcome) : Outcome :=
  (wooFIsCAPName srv.uriPath wname).serve srv fun err =>
    if err = 1 ∨ err < 0 then refuse else (wooFLocalName srv.uriPath wname).serve srv k

theorem guardedName_of_endsInCap (h : NamedBy srv.uriPath wname name)
    (hcap : endsInCap name = true) :
    guardedName srv wname = .ok none := by
  obtain ⟨err, herr, hbad⟩ := h.isCAPName_of_endsInCap hcap
  simp [guardedName, herr, hbad]

theorem guardedName_of_not_endsInCap (h : NamedBy srv.uriPath wname name) (hshort : 4 ≤ name.length)
    (hcap : endsInCap name = false) : guardedName srv wname = .ok (fileName name) := by
  by_cases hlen : name.length < 4096
  · simp [guardedName, h.isCAPName_eq_zero hlen hshort hcap, h.localName]
  · have hlong : fileName name = none := if_neg (by omega)
    simp [guardedName, wooFIsCAPName, h.nameFromURI, hlen, hlong]

theorem guardName_of_endsInCap (h : NamedBy srv.uriPath wname name) (hcap : endsInCap name = true)
    (refuse : Outcome) (k : Option Bytes → Outcome) :
    guardName srv wname refuse k = refuse := by
  obtain ⟨err, herr, hbad⟩ := h.isCAPName_of_endsInCap hcap
  simp [guardName, herr, hbad]

/-! ## Operations on an opened woof -/

def replyNumber (t : Transport) (srv : Server) (n : Nat) : Outcome :=
  .reply srv [textFrame (t.numberText srv n)]

/-- The woof the base handlers open: by its file name when the URI gave one. -/
def openNamed (srv : Server) (woofName : Bytes) (localName : Option Bytes) :
    Exec (Option (Bytes × WooF)) :=
  match localName with
  | none => wooFOpen srv woofName
  | some localName => wooFOpen srv localName

/-- The element size handlers have the two names the other way round. -/
def openForElSize (srv : Server) (woofName : Bytes) (localName : Option Bytes) :
    Exec (Option (Bytes × WooF)) :=
  match localName with
  | none => wooFOpen srv []
  | some _ => wooFOpen srv woofName

def replyElSize (t : Transport) (srv : Server) : Option (Bytes × WooF) → Outcome
  | none => replyNumber t srv Word.allOnes
  | some (name, wf) => (replyNumber t srv wf.elementSize).access (.elSize name)

def replyLatestSeqno (t : Transport) (srv : Server) : Option (Bytes × WooF) → Outcome
  | none => replyNumber t srv Word.allOnes
  | some (name, wf) => (replyNumber t srv (wooFLatestSeqno wf)).access (.latestSeqno name)

def replyEarliestSeqno (t : Transport) (srv : Server) (localName : Bytes) : Outcome :=
  (wooFOpen srv localName).serve srv fun
    | none => .reply srv (sendErr t srv)
    | some (name, wf) =>
      let earliest := wooFGetEarliest wf
      (if earliest = Word.allOnes then .reply srv (sendErr t srv)
        else replyNumber t srv earliest).access (.earliestSeqno name)

def replyPut (t : Transport) (srv : Server) (localName : Bytes)
    (handName : Option Bytes) (element : Bytes) : Outcome :=
  (wooFOpen srv localName).serve srv fun
    | none => replyNumber t srv Word.allOnes
    | some (name, wf) =>
      ((wooFAppendWithCause srv.globals wf handName element 0 0).serve srv
        fun (seqNo, globals, wf) =>
          replyNumber t ({ srv with globals := globals }.store name wf) seqNo).access
        (.append name handName element)

/-- Elements from `seqNo` on, as many as can be read of `count`. -/
def readRun (wf : WooF) : (seqNo count : Nat) → Exec (List Bytes × WooF)
  | _, 0 => .ok ([], wf)
  | seqNo, count + 1 => do
      let (element, wf) ← wooFReadWithCause wf seqNo
      match element with
      | none => return ([], wf)
      | some element =>
        let (elements, wf) ← readRun wf (Word.add seqNo 1) count
        return (element :: elements, wf)

def zeroPad (size : Nat) (bytes : Bytes) : Bytes :=
  bytes ++ List.replicate (size - bytes.length) 0

def toUlong (z : Int) : Nat := (z % Word.modulus).toNat

theorem toUlong_natCast (n : Nat) : toUlong n = n % Word.modulus := by
  unfold toUlong
  exact Int.toNat_natCast _

end Cspot
