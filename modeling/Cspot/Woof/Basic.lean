import Cspot.Runtime.Log

/-!
# WooF operations

The shared record of a WooF, the element slots mapped behind it, and the operations
on them as the library computes them.  Sizes, indices and sequence numbers are
unsigned longs; a tail of all ones marks a WooF that has not wrapped yet.
-/

namespace Cspot

/-- An element and the identifier record stored behind it. -/
structure Slot where
  element : Bytes
  seqNo : Nat
deriving Repr, DecidableEq

structure WooF where
  filename : Bytes
  mutex : Int
  tailWait : Int
  seqNo : Nat
  historySize : Nat
  head : Nat
  tail : Nat
  elementSize : Nat
  slots : Nat → Slot
  ino : Nat

/-- The process globals an append reads or changes. -/
structure Globals where
  nameId : Nat
  wooFNamespace : Bytes
  /-- `WOOF_NAMELOG_SEQNO`, zero when the variable is not set. -/
  myLogSeqNo : Nat
  nameLog : Log

def sizeofElid : Nat := 8

def sizeofWooFShared : Nat := 2096

/-- Bytes `WooFCreate` has to map, before any wrap of the machine arithmetic. -/
def wooFSpace (elementSize historySize : Nat) : Nat :=
  (historySize + 1) * (elementSize + sizeofElid) + sizeofWooFShared

/-- The record `WooFCreate` leaves in a file it could map.  The count of the second
semaphore is passed through an `int` parameter. -/
def wooFCreate (name : Bytes) (elementSize historySize ino : Nat) : WooF where
  filename := Bytes.strncpy name 2032
  mutex := initSem 0 1
  tailWait := initSem 0 (Word.toInt32 historySize)
  seqNo := 1
  historySize := historySize
  head := 0
  tail := Word.allOnes
  elementSize := elementSize
  slots := fun _ => ⟨List.replicate elementSize 0, 0⟩
  ino := ino

/-- The number can only be made bigger. -/
def wooFSetSeqno (wf : WooF) (newSeqno : Nat) : Int × WooF :=
  if wf.seqNo ≤ newSeqno then (1, { wf with seqNo := newSeqno }) else (-1, wf)

/-! ## Appending -/

/-- The fields of a trigger event that both appends fill in. -/
def triggerEvent (g : Globals) (wf : WooF) (handName : Bytes)
    (ndx seqNo causeHost causeSeqNo : Nat) : Event :=
  { eventSetCause (eventCreate .trigger g.nameId) causeHost causeSeqNo with
    woofcNamespace := Bytes.strncpy g.wooFNamespace 1024
    woofcNdx := ndx
    woofcSeqNo := seqNo
    woofcElementSize := wf.elementSize
    woofcHistorySize := wf.historySize
    woofcName := Bytes.strncpy wf.filename 128
    woofcHandler := Bytes.strncpy handName 128
    ino := wf.ino }

def Globals.wakeForker (g : Globals) (nameLog : Log) : Globals :=
  { g with nameLog := { nameLog with tailWait := semV nameLog.tailWait } }

/-- The slot the next append writes. -/
def wooFAppendNdx (wf : WooF) : Exec Nat := remU (Word.add wf.head 1) wf.historySize

/-- Tail update of `WooFAppend`, for the slot `next` just written. -/
def advanceTail (wf : WooF) (next : Nat) : Exec Nat :=
  if next = wf.tail then remU (Word.add wf.tail 1) wf.historySize else pure wf.tail

/-- Tail update of `WooFAppendWithCause`.  Slot zero is filled last, so writing it for
the first time is the wrap. -/
def advanceTailWrapping (wf : WooF) (next : Nat) : Exec Nat :=
  if next = 0 ∧ wf.tail = Word.allOnes then remU 1 wf.historySize else advanceTail wf next

/-- The section both appends run under the mutex: take a place, copy the element and
its number into the slot, move head and tail.  Gives the slot and the record with the
place still taken. -/
def wooFPlaceElement (advance : WooF → Nat → Exec Nat) (wf : WooF) (element : Bytes) :
    Exec (Nat × WooF) := do
  let tailWait ← semP wf.tailWait
  let mutex ← semP wf.mutex
  let next ← wooFAppendNdx wf
  let copied ← memcpy element wf.elementSize
  let tail ← advance wf next
  return (next, { wf with
    slots := Function.update wf.slots next ⟨copied, wf.seqNo⟩
    head := next
    tail := tail
    seqNo := Word.add wf.seqNo 1
    mutex := semV mutex
    tailWait := tailWait })

def WooF.releasePlace (wf : WooF) : WooF := { wf with tailWait := semV wf.tailWait }

def wooFAppendWithCause (g : Globals) (wf : WooF) (handName : Option Bytes) (element : Bytes)
    (causeHost causeSeqNo : Nat) : Exec (Nat × Globals × WooF) := do
  let seqNo := wf.seqNo
  let (ndx, wf) ← wooFPlaceElement advanceTailWrapping wf element
  match handName with
  | none => return (seqNo, g, wf.releasePlace)
  | some handler =>
    let (ls, nameLog) ← logEvent g.nameLog
      (triggerEvent g wf handler ndx seqNo causeHost causeSeqNo)
    -- a failed log frees the event here and once more below
    if ls = 0 then throw .doubleFree
    return (seqNo, g.wakeForker nameLog, wf.releasePlace)

/-- The older entry point.  It knows no first wrap, and it leaves the post of
`tail_wait` to whoever runs the handler. -/
def wooFAppend (g : Globals) (wf : WooF) (handName : Option Bytes) (element : Bytes) :
    Exec (Nat × Globals × WooF) := do
  let seqNo := wf.seqNo
  let (ndx, wf) ← wooFPlaceElement advanceTail wf element
  match handName with
  | none => return (seqNo, g, wf.releasePlace)
  | some handler =>
    let (ls, nameLog) ← logEvent g.nameLog
      (triggerEvent g wf handler ndx seqNo g.nameId g.myLogSeqNo)
    if ls = 0 then return (Word.allOnes, { g with nameLog := nameLog }, wf)
    return (seqNo, g.wakeForker nameLog, wf)

/-! ## Truncating -/

/-- The result and the record.  The number is compared with an index, and a number
above the latest one is not refused. -/
def wooFTruncate (wf : WooF) (seqNo : Nat) : Exec (Int × WooF) := do
  let tailWait ← semP wf.tailWait
  let mutex ← semP wf.mutex
  let unlock (wf : WooF) : WooF :=
    { wf with mutex := semV mutex, tailWait := semV tailWait }
  if seqNo = 0 then return (1, unlock { wf with head := 0, tail := 0, seqNo := 1 })
  let earliestSeqno ← remU (Word.add wf.tail 1) wf.historySize
  if seqNo < earliestSeqno then return (-1, unlock wf)
  let latestSeqno := Word.sub wf.seqNo 1
  let truncHead ← remU
    (Word.sub (Word.add wf.head wf.historySize) (Word.sub latestSeqno seqNo)) wf.historySize
  return (1, unlock { wf with head := truncHead, seqNo := Word.add seqNo 1 })

/-! ## Reading -/

def wooFLatestSeqno (wf : WooF) : Nat := Word.sub wf.seqNo 1

def wooFGetEarliest (wf : WooF) : Nat :=
  let latestSeqNo := Word.sub wf.seqNo 1
  if wf.tail ≠ Word.allOnes then Word.add (Word.sub latestSeqNo wf.historySize) 1
  else Word.add (Word.sub latestSeqNo wf.head) 1

/-- The slot `WooFReadWithCause` copies from, or none when it refuses the number. -/
def wooFReadNdx (wf : WooF) (seqNo : Nat) : Exec (Option Nat) := do
  -- zero asks for the end of the log
  if seqNo = 0 ∧ wf.seqNo ≤ 1 then return none
  let lSeqNo := if seqNo = 0 then Word.sub wf.seqNo 1 else seqNo
  let youngest := Word.sub wf.seqNo 1
  let lastValid := if wf.tail = Word.allOnes then Word.add 1 wf.historySize else wf.tail
  let oldest := wooFGetEarliest wf
  if lSeqNo < oldest ∨ lSeqNo > youngest then return none
  let ndx ← remU (Word.add lastValid (Word.sub lSeqNo oldest)) wf.historySize
  return some ndx

/-- The element read, or none for the result -1. -/
def wooFReadWithCause (wf : WooF) (seqNo : Nat) : Exec (Option Bytes × WooF) := do
  let mutex ← semP wf.mutex
  let wf := { wf with mutex := mutex }
  match ← wooFReadNdx wf seqNo with
  | none => return (none, { wf with mutex := semV wf.mutex })
  | some ndx => return (some (wf.slots ndx).element, { wf with mutex := semV wf.mutex })

/-- The backward walk of `WooFReadTail` with `count` elements to go: copy, step down,
and stop at the tail.  Below slot zero it continues at slot zero. -/
def readTailWalk (wf : WooF) : (count ndx : Nat) → List Bytes
  | 0, _ => []
  | count + 1, ndx =>
    let element := (wf.slots ndx).element
    let below := Word.sub ndx 1
    if below ≥ wf.historySize then
      -- zero is valid only if we have wrapped
      if wf.tail = Word.allOnes then [element]
      else if 0 = wf.tail then [element]
      else element :: readTailWalk wf count 0
    else if below = wf.tail then [element]
    else element :: readTailWalk wf count below

/-- The number of elements copied and the elements, newest first. -/
def wooFReadTail (wf : WooF) (elementCount : Int) : Exec (Int × List Bytes × WooF) := do
  let mutex ← semP wf.mutex
  let elements := readTailWalk wf elementCount.toNat wf.head
  return ((elements.length : Int), elements, { wf with mutex := semV mutex })

end Cspot
