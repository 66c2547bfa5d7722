import Cspot.Net.Server

/-!
# Frame lists on a socket

A message of the CMQ transport is a header and a row of frames, each with its size in front.
All numbers are turned to network order as 32-bit values and written as 64-bit ones.  A
socket answers every call with a count of bytes or with -1; which answer it gives is up to
the network.
-/

namespace Cspot.CmqPkt

/-! ## Network order -/

/-- `htonl` on a little-endian machine, and `ntohl` as well. -/
def htonl (n : Nat) : Nat := Bytes.toNatLE (Bytes.ofNatLE 4 n).reverse

/-- A number in network order as it lies in an `unsigned long`. -/
def field (n : Nat) : Bytes := Bytes.ofNatLE 8 (htonl n)

/-- The number found in an `unsigned long`. -/
def unfield (memory : Bytes) : Nat := htonl (Bytes.toNatLE memory)

/-! ## Frame lists -/

structure FrameList where
  frames : List Bytes
  count : Nat
  /-- A hint for the receiver, wrong when a frame has been popped. -/
  maxSize : Nat
deriving Repr, DecidableEq

namespace FrameList

def empty : FrameList := ⟨[], 0, 0⟩

def append (fl : FrameList) (frame : Bytes) : FrameList where
  frames := fl.frames ++ [frame]
  count := if fl.frames = [] then 1 else (fl.count + 1) % 2 ^ 32
  maxSize := if fl.maxSize < frame.length then frame.length else fl.maxSize

def ofFrames (frames : List Bytes) : FrameList := frames.foldl append empty

end FrameList

/-! ## Sending -/

/-- What a call for so many bytes answers: none for -1, else at most that many. -/
abbrev Answers := Nat → Nat → Option Nat

/-- A socket to write to, and the bytes it has taken. -/
structure SendSocket where
  answers : Answers
  calls : Nat
  wire : Bytes

def toInt (z : Int) : Int := Word.toInt32 (toUlong z)

def SendSocket.write (sock : SendSocket) (buf : Bytes) : Int × SendSocket :=
  match sock.answers sock.calls buf.length with
  | none => (-1, { sock with calls := sock.calls + 1 })
  | some m =>
    let n := min m buf.length
    (n, { sock with calls := sock.calls + 1, wire := sock.wire ++ buf.take n })

/-- A write and the comparison behind it, which turns the result to an `unsigned long`.  The
error is the socket as the result -1 leaves it. -/
def SendSocket.writeAll (sock : SendSocket) (buf : Bytes) : Except SendSocket SendSocket :=
  let (err, sock) := sock.write buf
  if toUlong (toInt err) < buf.length then .error sock else .ok sock

def version : Nat := 1

def header (fl : FrameList) : Bytes := field version ++ field fl.count ++ field fl.maxSize

/-- An empty frame has no payload to write. -/
def SendSocket.writePayload (sock : SendSocket) (frame : Bytes) : Except SendSocket SendSocket :=
  if 0 < frame.length then sock.writeAll frame else .ok sock

def sendFrames : List Bytes → SendSocket → Except SendSocket SendSocket
  | [], sock => .ok sock
  | frame :: rest, sock => do
      let sock ← sock.writeAll (field frame.length)
      let sock ← sock.writePayload frame
      sendFrames rest sock

def cmqPktSendMsg (fl : FrameList) (sock : SendSocket) : Except SendSocket SendSocket := do
  let sock ← sock.writeAll (header fl)
  sendFrames fl.frames sock

/-! ## Receiving

A message is received the same way from a socket and from the buffer of an MQTT connection.
What they have in common is a function that reads into the front of a buffer and says how
many bytes it has read. -/

abbrev Reader (m : Type → Type) (σ : Type) := σ → Bytes → Nat → m (Int × Bytes × σ)

/-- What the process finds when it asks for memory: whether it gets so many bytes, and what
stands in the memory before anything is written to it. -/
structure Memory where
  malloc : Nat → Bool
  junk : Nat → Nat → UInt8

def Memory.fresh (memory : Memory) (i n : Nat) : Bytes := (List.range n).map (memory.junk i)

structure RecvState (σ : Type) where
  source : σ
  list : FrameList
  size : Bytes
  maxSize : Nat
  payload : Bytes
  mallocs : Nat

/-- The size of the structures for a frame and for a list of frames. -/
def sizeofFrame : Nat := 24

section Receive

variable {m : Type → Type} [Monad m] {σ : Type} (read : Reader m σ) (memory : Memory)

/-- One turn of the loop.  The error is the source as the result -1 leaves it. -/
def recvFrame (st : RecvState σ) : m (Except σ (RecvState σ)) := do
  let (err, size, source) ← read st.source st.size 8
  if toUlong (toInt err) < 8 then pure (.error source)
  else
    let n := unfield size
    let grows := st.maxSize < n
    if grows ∧ memory.malloc n = false then pure (.error source)
    else
      let payload := if grows then memory.fresh st.mallocs n else st.payload
      let mallocs := if grows then st.mallocs + 1 else st.mallocs
      let maxSize := if grows then n else st.maxSize
      if 0 < n then do
        let (err, payload, source) ← read source payload n
        -- this one turns the result to an `unsigned int`
        if toUlong (toInt err) % 2 ^ 32 < n then pure (.error source)
        else if memory.malloc sizeofFrame = false ∨ memory.malloc n = false then
          pure (.error source)
        else pure (.ok ⟨source, st.list.append (payload.take n), size, maxSize, payload, mallocs⟩)
      else if memory.malloc sizeofFrame = false then pure (.error source)
      else pure (.ok ⟨source, st.list.append [], size, maxSize, payload, mallocs⟩)

def recvFrames : Nat → RecvState σ → m (Except σ (RecvState σ))
  | 0, st => pure (.ok st)
  | count + 1, st => do
      match ← recvFrame read memory st with
      | .error source => pure (.error source)
      | .ok st => recvFrames count st

def recvMsg (source : σ) : m (Except σ (FrameList × σ)) := do
  let (err, header, source) ← read source (memory.fresh 0 24) 24
  if toUlong (toInt err) < 24 then pure (.error source)
  else
    let frameCount := unfield ((header.drop 8).take 8)
    let maxSize := unfield ((header.drop 16).take 8)
    if unfield (header.take 8) ≠ version then pure (.error source)
    else if memory.malloc sizeofFrame = false then pure (.error source)
    else if 0 < maxSize ∧ memory.malloc maxSize = false then pure (.error source)
    else do
      let st : RecvState σ :=
        ⟨source, .empty, memory.fresh 1 8, maxSize, memory.fresh 2 maxSize, 3⟩
      match ← recvFrames read memory (Word.toInt32 frameCount).toNat st with
      | .error source => pure (.error source)
      | .ok st => pure (.ok (st.list, st.source))

end Receive

/-- A socket to read from, and the bytes that wait in it. -/
structure RecvSocket where
  answers : Answers
  calls : Nat
  wire : Bytes

/-- `recv` with `MSG_WAITALL`. -/
def RecvSocket.recv (sock : RecvSocket) (buffer : Bytes) (n : Nat) : Int × Bytes × RecvSocket :=
  match sock.answers sock.calls n with
  | none => (-1, buffer, { sock with calls := sock.calls + 1 })
  | some m =>
    let data := sock.wire.take (min m n)
    (data.length, data ++ buffer.drop data.length,
      { sock with calls := sock.calls + 1, wire := sock.wire.drop data.length })

def cmqPktRecvMsg (memory : Memory) (sock : RecvSocket) :
    Except RecvSocket (FrameList × RecvSocket) :=
  recvMsg (m := Id) RecvSocket.recv memory sock

end Cspot.CmqPkt
