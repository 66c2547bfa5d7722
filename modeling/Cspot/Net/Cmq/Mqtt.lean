import Cspot.Lib.Hex
import Cspot.Net.Cmq.RoundTrip

/-!
# Frame lists as lines of text

The MQTT transport hands its messages to `mosquitto_pub`, one line each: every byte of a
packet as two hexadecimal digits, in the buffer of the connection, with a newline behind
them.  The buffer is read and written with a cursor, by functions that have the results of
`read` and `write`.
-/

namespace Cspot.CmqMqtt

open CmqPkt
open Bytes (newline)

def connBufferSize : Nat := 256 * 1024

/-- The connection: its buffer, the cursor in it, and the length of the last line read. -/
structure Conn where
  buffer : Bytes
  cursor : Nat
  readLen : Nat

/-! ## Digits -/

/-- `MQTTConvertBinarytoASCII`. -/
def hexText (bytes : Bytes) : Bytes := bytes.flatMap fun b => Hex.ofNat 2 b.toNat

def nibble (c : UInt8) : Option UInt8 :=
  if 48 ≤ c ∧ c ≤ 57 then some (c - 48)
  else if 97 ≤ c ∧ c ≤ 102 then some (c - 97 + 10)
  else none

/-- `MQTTConvertASCIItoBinary`: the bytes it stores.  A character that is no digit leaves its
half of the byte as the last one was. -/
def convertASCIItoBinary : Nat → Bytes → UInt8 → UInt8 → Exec Bytes
  | 0, _, _, _ => .ok []
  | _ + 1, [], _, _ => .error .outOfBounds
  | _ + 1, [c], _, _ => if c = 0 then .ok [] else .error .outOfBounds
  | len + 1, c :: d :: src, high, low =>
    if c = 0 then .ok []
    else do
      let high := ((nibble c).map (· * 16)).getD high
      let low := (nibble d).getD low
      let rest ← convertASCIItoBinary len src high low
      .ok ((high + low) :: rest)

/-! ## The buffer -/

/-- `cmq_mqtt_conn_buffer_write`, with the arithmetic of an `int`. -/
def bufferWrite (conn : Conn) (buf : Bytes) : Exec (Int × Conn) :=
  let size := toInt buf.length
  let cursor := toUlong (toInt (conn.cursor + toInt (2 * size)))
  if connBufferSize < cursor then .ok (-1, conn)
  else if size ≤ 0 then .ok (size, { conn with cursor := cursor })
  else if connBufferSize < conn.cursor + 2 * buf.length then .error .outOfBounds
  else
    let text := hexText buf
    .ok (size,
      { conn with
          buffer := conn.buffer.take conn.cursor ++ text ++
            conn.buffer.drop (conn.cursor + text.length)
          cursor := cursor })

def bufferRead (memory : Memory) (conn : Conn) (buf : Bytes) (n : Nat) :
    Exec (Int × Bytes × Conn) :=
  let size := toInt n
  let cursor := toInt (conn.cursor + toInt (2 * size))
  let len : Int :=
    if connBufferSize < toUlong cursor then ((connBufferSize - conn.cursor) / 2 : Nat)
    else if conn.readLen < cursor then ((conn.readLen : Int) - conn.cursor).tdiv 2
    else size
  if len ≤ 0 then .ok (0, buf, conn)
  else do
    let data ← convertASCIItoBinary len.toNat (conn.buffer.drop conn.cursor)
      (memory.junk 0 24) (memory.junk 0 25)
    .ok (len, data ++ buf.drop data.length,
      { conn with cursor := (toInt (conn.cursor + toInt (2 * len))).toNat })

/-! ## Sending -/

/-- The loop over the frames, none for the result -1.  The results are compared as unsigned
numbers. -/
def writeFrames : List Bytes → Conn → Exec (Option Conn)
  | [], conn => .ok (some conn)
  | frame :: rest, conn => do
      let (err, conn) ← bufferWrite conn (field frame.length)
      if toUlong err < 8 then .ok none
      else if 0 < frame.length then do
        let (err, conn) ← bufferWrite conn frame
        if toUlong err % 2 ^ 32 < frame.length then .ok none else writeFrames rest conn
      else writeFrames rest conn

/-- The write to the process that publishes: the result of the call and what it has taken. -/
def publish (pipe : Nat → Option Nat) (line : Bytes) : Int × Bytes :=
  match pipe line.length with
  | none => (-1, [])
  | some m => if m < line.length then (-1, line.take m) else (0, line)

/-- `cmq_mqtt_send_msg` on its connection: the result, and what goes to the publisher. -/
def cmqMqttSendMsg (pipe : Nat → Option Nat) (conn : Conn) (fl : FrameList) :
    Exec (Int × Bytes) :=
  if fl.count = 0 then .ok (-1, [])
  else do
    let (err, conn) ← bufferWrite { conn with cursor := 0 } (header fl)
    if toUlong err < 24 then .ok (-1, [])
    else do
      match ← writeFrames fl.frames conn with
      | none => .ok (-1, [])
      | some conn =>
        -- the newline behind a full buffer
        if connBufferSize ≤ conn.cursor then .error .outOfBounds
        else .ok (publish pipe (conn.buffer.take conn.cursor ++ [newline]))

/-! ## Receiving -/

/-- `fgets` with room for so many characters, and what is left of the stream. -/
def fgets : (room : Nat) → Bytes → Bytes × Bytes
  | 0, stream => ([], stream)
  | _ + 1, [] => ([], [])
  | room + 1, c :: stream =>
    if c = newline then ([c], stream)
    else
      let (line, rest) := fgets room stream
      (c :: line, rest)

def nextLine (room : Nat) : Bytes → Option (Bytes × Bytes)
  | [] => none
  | c :: stream => if c = newline then nextLine room stream else some (fgets room (c :: stream))

/-- `cmq_mqtt_recv_msg` on the output of the subscriber, none for the result -1. -/
def cmqMqttRecvMsg (memory : Memory) (stream : Bytes) : Exec (Option (FrameList × Bytes)) :=
  match nextLine (connBufferSize - 1) stream with
  | none => .ok none
  | some (line, rest) =>
    -- the signal that the other side has closed
    if line.head? = some 255 then .ok none
    else do
      let conn : Conn :=
        ⟨line ++ List.replicate (connBufferSize - line.length) 0, 0, (Bytes.cstr line).length⟩
      match ← recvMsg (bufferRead memory) memory conn with
      | .error _ => .ok none
      | .ok (fl, _) => .ok (some (fl, rest))

end Cspot.CmqMqtt
