import Cspot.Net.Cmq.Mqtt

/-!
# What the MQTT transport delivers

A message whose text leaves room for the newline and a terminator comes back from the line
it was published as.  A longer one is published too: the writes that find no room are not
noticed, and what fits of the others goes out as a line.
-/

namespace Cspot.CmqMqtt

open CmqPkt
open Bytes (newline)

/-! ## Digits -/

theorem hexText_cons (b : UInt8) (bytes : Bytes) :
    hexText (b :: bytes) =
      Hex.digit (b.toNat / 16 % 16) :: Hex.digit (b.toNat % 16) :: hexText bytes :=
  rfl

theorem hexText_append (front back : Bytes) :
    hexText (front ++ back) = hexText front ++ hexText back :=
  List.flatMap_append

theorem length_hexText (bytes : Bytes) : (hexText bytes).length = 2 * bytes.length := by
  induction bytes with
  | nil => rfl
  | cons b bytes ih =>
    rw [hexText_cons, List.length_cons, List.length_cons, List.length_cons, ih]
    omega

theorem eq_digit_of_mem_hexText {bytes : Bytes} {c : UInt8} (h : c ∈ hexText bytes) :
    ∃ d, d < 16 ∧ c = Hex.digit d := by
  obtain ⟨b, -, hc⟩ := List.mem_flatMap.1 h
  exact Hex.eq_digit_of_mem_ofNat hc

theorem digit_ne_of_lt {d : Nat} (h : d < 16) :
    Hex.digit d ≠ newline ∧ Hex.digit d ≠ 0 ∧ Hex.digit d ≠ 255 := by
  have hall : ∀ d : Fin 16, Hex.digit d ≠ newline ∧ Hex.digit d ≠ 0 ∧ Hex.digit d ≠ 255 := by
    decide
  exact hall ⟨d, h⟩

theorem newline_notMem_hexText (bytes : Bytes) : newline ∉ hexText bytes := by
  intro h
  obtain ⟨d, hd, heq⟩ := eq_digit_of_mem_hexText h
  exact (digit_ne_of_lt hd).1 heq.symm

theorem nibble_digit {d : Nat} (h : d < 16) : nibble (Hex.digit d) = some (UInt8.ofNat d) := by
  have hall : ∀ d : Fin 16, nibble (Hex.digit d) = some (UInt8.ofNat d) := by decide
  exact hall ⟨d, h⟩

theorem halves (b : UInt8) :
    UInt8.ofNat (b.toNat / 16 % 16) * 16 + UInt8.ofNat (b.toNat % 16) = b := by
  have hlt := b.toNat_lt
  apply UInt8.toNat_inj.1
  simp only [UInt8.toNat_add, UInt8.toNat_mul, UInt8.toNat_ofNat']
  rw [show UInt8.toNat 16 = 16 from rfl]
  omega

theorem convert_hexText (bytes rest : Bytes) (high low : UInt8) :
    convertASCIItoBinary bytes.length (hexText bytes ++ rest) high low = .ok bytes := by
  induction bytes generalizing high low with
  | nil => rfl
  | cons b bytes ih =>
    have hhigh : b.toNat / 16 % 16 < 16 := Nat.mod_lt _ (by decide)
    have hlow : b.toNat % 16 < 16 := Nat.mod_lt _ (by decide)
    rw [hexText_cons, List.cons_append, List.cons_append, List.length_cons,
      convertASCIItoBinary, if_neg (digit_ne_of_lt hhigh).2.1]
    simp [nibble_digit hhigh, nibble_digit hlow, ih, halves]

/-! ## Writing -/

/-- The front of the buffer up to the cursor. -/
structure Conn.Holds (conn : Conn) (text : Bytes) : Prop where
  length : conn.buffer.length = connBufferSize
  cursor : conn.cursor = text.length
  text : conn.buffer.take text.length = text

variable {n : Nat} {conn : Conn} {fl : FrameList}

theorem toInt_natCast (h : n < 2 ^ 31) : toInt n = n := by
  rw [toInt, toUlong_natCast, Nat.mod_eq_of_lt (by unfold Word.modulus; omega),
    Word.toInt32_of_lt h]

theorem toInt_cursor {cursor : Nat} (h : cursor + 2 * n < 2 ^ 31) :
    toInt ((cursor : Int) + toInt (2 * (n : Int))) = ((cursor + 2 * n : Nat) : Int) := by
  have hdouble : (2 * (n : Int)) = ((2 * n : Nat) : Int) := by push_cast; rfl
  rw [hdouble, toInt_natCast (by omega), ← Int.natCast_add, toInt_natCast h]

theorem toUlong_of_lt (h : n < 2 ^ 31) : toUlong (n : Int) = n := by
  rw [toUlong_natCast, Nat.mod_eq_of_lt (by unfold Word.modulus; omega)]

theorem bufferWrite_fits {text buf : Bytes} (h : conn.Holds text) (hpos : 0 < buf.length)
    (hfits : text.length + 2 * buf.length ≤ connBufferSize) :
    ∃ conn', bufferWrite conn buf = .ok ((buf.length : Int), conn') ∧
      conn'.Holds (text ++ hexText buf) := by
  have hsize : connBufferSize < 2 ^ 31 := by decide
  have hsum : text.length + 2 * buf.length < 2 ^ 31 := by omega
  have hlen : buf.length < 2 ^ 31 := by omega
  have hle : ¬ (buf.length : Int) ≤ 0 := by omega
  unfold bufferWrite
  simp only [h.cursor, toInt_natCast hlen, toInt_cursor hsum, toUlong_of_lt hsum,
    if_neg (Nat.not_lt.2 hfits), if_neg hle]
  refine ⟨_, rfl, ?_, ?_, ?_⟩
  · have hlength := h.length
    simp only [List.length_append, List.length_take, List.length_drop, length_hexText]
    omega
  · rw [List.length_append, length_hexText]
  · rw [h.text]
    exact List.take_left

theorem writeFrames_fits (frames : List Bytes) {text : Bytes} (h : conn.Holds text)
    (hfits : text.length + 2 * (frames.flatMap encodeFrame).length ≤ connBufferSize) :
    ∃ conn', writeFrames frames conn = .ok (some conn') ∧
      conn'.Holds (text ++ hexText (frames.flatMap encodeFrame)) := by
  induction frames generalizing conn text with
  | nil => exact ⟨conn, rfl, by simpa [hexText] using h⟩
  | cons frame frames ih =>
    rw [List.flatMap_cons, encodeFrame] at hfits ⊢
    simp only [List.length_append, length_field] at hfits
    have hsize : connBufferSize < 2 ^ 31 := by decide
    obtain ⟨conn₁, hwrite₁, hholds₁⟩ := bufferWrite_fits h
      (by rw [length_field]; decide : 0 < (field frame.length).length)
      (by rw [length_field]; omega)
    rw [writeFrames, hwrite₁]
    have height : ¬ toUlong ((field frame.length).length : Int) < 8 := by
      rw [length_field, toUlong_of_lt (by decide)]
      decide
    simp only [Exec.ok_bind, if_neg height]
    by_cases hpos : 0 < frame.length
    · obtain ⟨conn₂, hwrite₂, hholds₂⟩ := bufferWrite_fits hholds₁ hpos
        (by rw [List.length_append, length_hexText, length_field]; omega)
      obtain ⟨conn₃, hwrite₃, hholds₃⟩ := ih hholds₂
        (by simp only [List.length_append, length_hexText, length_field]; omega)
      have hall : ¬ toUlong (frame.length : Int) % 2 ^ 32 < frame.length := by
        rw [toUlong_of_lt (by omega), Nat.mod_eq_of_lt (by omega)]
        exact Nat.lt_irrefl _
      simp only [if_pos hpos, hwrite₂, Exec.ok_bind, if_neg hall, hwrite₃]
      refine ⟨conn₃, rfl, ?_⟩
      rw [hexText_append, hexText_append, ← List.append_assoc, ← List.append_assoc]
      exact hholds₃
    · obtain rfl : frame = [] := List.length_eq_zero_iff.1 (by omega)
      obtain ⟨conn₃, hwrite₃, hholds₃⟩ := ih hholds₁
        (by simp only [List.length_append, length_hexText, length_field]; omega)
      simp only [if_neg hpos, hwrite₃]
      refine ⟨conn₃, rfl, ?_⟩
      rw [List.append_nil, hexText_append, ← List.append_assoc]
      exact hholds₃

theorem cmqMqttSendMsg_fits (pipe : Nat → Option Nat) (hcount : fl.count ≠ 0)
    (hlength : conn.buffer.length = connBufferSize)
    (hfits : (hexText (encode fl)).length < connBufferSize) :
    cmqMqttSendMsg pipe conn fl = .ok (publish pipe (hexText (encode fl) ++ [newline])) := by
  have hlen := hfits
  rw [length_hexText, encode, List.length_append, length_header] at hlen
  have hstart : Conn.Holds { conn with cursor := 0 } [] := ⟨hlength, rfl, rfl⟩
  obtain ⟨conn₁, hwrite₁, hholds₁⟩ := bufferWrite_fits hstart
    (by rw [length_header]; decide : 0 < (header fl).length)
    (by rw [length_header, List.length_nil]; omega)
  rw [List.nil_append] at hholds₁
  obtain ⟨conn₂, hwrite₂, hholds₂⟩ := writeFrames_fits fl.frames hholds₁
    (by rw [length_hexText, length_header]; omega)
  have hall : ¬ toUlong ((header fl).length : Int) < 24 := by
    rw [length_header, toUlong_of_lt (by decide)]
    decide
  have hroom : ¬ connBufferSize ≤ conn₂.cursor := by
    rw [hholds₂.cursor]
    exact Nat.not_le.2 hfits
  rw [cmqMqttSendMsg, if_neg hcount, hwrite₁]
  simp only [Exec.ok_bind, if_neg hall, hwrite₂, if_neg hroom]
  rw [hholds₂.cursor, hholds₂.text]
  rfl

/-! ## Reading -/

/-- What is left of the line behind the cursor. -/
structure Conn.Left (conn : Conn) (bytes : Bytes) : Prop where
  text : ∃ tail, conn.buffer.drop conn.cursor = hexText bytes ++ tail
  readLen : conn.readLen = conn.cursor + 2 * bytes.length + 1
  fits : conn.readLen < connBufferSize

theorem gives_bufferRead (memory : Memory) : Gives (bufferRead memory) Conn.Left := by
  intro conn data rest h _
  obtain ⟨⟨tail, htext⟩, hreadLen, hfits⟩ := h
  have hsize : connBufferSize < 2 ^ 31 := by decide
  rw [List.length_append] at hreadLen
  have hsum : conn.cursor + 2 * data.length < 2 ^ 31 := by omega
  have hlen : data.length < 2 ^ 31 := by omega
  rw [hexText_append, List.append_assoc] at htext
  refine ⟨{ conn with cursor := conn.cursor + 2 * data.length }, ⟨⟨tail, ?_⟩, ?_, hfits⟩,
    fun buffer => ?_⟩
  · rw [← List.drop_drop, htext, ← length_hexText data, List.drop_left]
  · dsimp only
    omega
  · have hroom : ¬ connBufferSize < conn.cursor + 2 * data.length := by omega
    have hread : ¬ (conn.readLen : Int) < ((conn.cursor + 2 * data.length : Nat) : Int) := by omega
    unfold bufferRead
    simp only [toInt_natCast hlen, toInt_cursor hsum, toUlong_of_lt hsum, if_neg hroom,
      if_neg hread]
    by_cases hzero : data.length = 0
    · obtain rfl : data = [] := List.length_eq_zero_iff.1 hzero
      simp
    · have hpos : ¬ (data.length : Int) ≤ 0 := by omega
      simp only [if_neg hpos, htext, Int.toNat_natCast, convert_hexText, Exec.ok_bind]
      rfl

theorem fgets_line {room : Nat} {line : Bytes} (hline : newline ∉ line)
    (hroom : line.length < room) (rest : Bytes) :
    fgets room (line ++ newline :: rest) = (line ++ [newline], rest) := by
  induction line generalizing room with
  | nil =>
    obtain ⟨room, rfl⟩ : ∃ r, room = r + 1 := ⟨room - 1, by simp at hroom; omega⟩
    simp [fgets]
  | cons c line ih =>
    rw [List.mem_cons, not_or] at hline
    rw [List.length_cons] at hroom
    obtain ⟨room, rfl⟩ : ∃ r, room = r + 1 := ⟨room - 1, by omega⟩
    rw [List.cons_append, fgets, if_neg (Ne.symm hline.1), ih hline.2 (by omega)]
    rfl

theorem cmqMqttRecvMsg_fits {memory : Memory} (hmalloc : ∀ n, memory.malloc n = true)
    (hfl : Sendable fl) (hfits : (hexText (encode fl)).length + 2 ≤ connBufferSize) (rest : Bytes) :
    cmqMqttRecvMsg memory (hexText (encode fl) ++ newline :: rest) =
      .ok (some (.ofFrames fl.frames, rest)) := by
  have hne : hexText (encode fl) ≠ [] := by
    rw [← List.length_pos_iff, length_hexText, encode, List.length_append, length_header]
    omega
  obtain ⟨c, text, htext⟩ := List.exists_cons_of_ne_nil hne
  have hdigits : ∀ b ∈ hexText (encode fl), b ≠ newline ∧ b ≠ 0 ∧ b ≠ 255 := by
    intro b hb
    obtain ⟨d, hd, rfl⟩ := eq_digit_of_mem_hexText hb
    exact digit_ne_of_lt hd
  obtain ⟨hnewline, -, hclose⟩ := hdigits c (htext ▸ List.mem_cons_self)
  have hline : nextLine (connBufferSize - 1) (hexText (encode fl) ++ newline :: rest) =
      some (hexText (encode fl) ++ [newline], rest) := by
    have hfgets := fgets_line (newline_notMem_hexText (encode fl))
      (by omega : (hexText (encode fl)).length < connBufferSize - 1) rest
    rw [htext] at hfgets ⊢
    rw [List.cons_append, nextLine, if_neg hnewline, ← List.cons_append, hfgets]
  have hhead : (hexText (encode fl) ++ [newline]).head? ≠ some 255 := by
    rw [htext]
    simpa using hclose
  have hcstr : Bytes.cstr (hexText (encode fl) ++ [newline]) =
      hexText (encode fl) ++ [newline] := by
    refine List.takeWhile_eq_self_iff.2 fun b hb => ?_
    rcases List.mem_append.1 hb with hb | hb
    · simpa using (hdigits b hb).2.1
    · rw [List.mem_singleton.1 hb]
      decide
  have hleft : Conn.Left ⟨hexText (encode fl) ++ [newline] ++ List.replicate
      (connBufferSize - (hexText (encode fl) ++ [newline]).length) 0, 0,
      (hexText (encode fl) ++ [newline]).length⟩ (encode fl ++ []) := by
    refine ⟨⟨[newline] ++ List.replicate
      (connBufferSize - (hexText (encode fl) ++ [newline]).length) 0, ?_⟩, ?_, ?_⟩
    · rw [List.append_nil, ← List.append_assoc]
      rfl
    · rw [List.append_nil, List.length_append, length_hexText, List.length_singleton]
      dsimp only
      omega
    · dsimp only
      rw [List.length_append, List.length_singleton]
      omega
  obtain ⟨conn', hrecv, -⟩ := recvMsg_of_gives (gives_bufferRead memory) hmalloc hfl hleft
  rw [cmqMqttRecvMsg, hline]
  dsimp only
  rw [if_neg hhead, hcstr, hrecv]
  rfl

/-! ## Messages without room -/

theorem le_of_bufferWrite {conn' : Conn} {buf : Bytes} {err : Int}
    (h : bufferWrite conn buf = .ok (err, conn')) (hlen : buf.length < 2 ^ 32) :
    buf.length ≤ toUlong err ∧ buf.length ≤ toUlong err % 2 ^ 32 := by
  have hpassed : buf.length ≤ toUlong (toInt buf.length) ∧
      buf.length ≤ toUlong (toInt buf.length) % 2 ^ 32 := by
    rw [toUlong_toInt_mod hlen]
    refine ⟨?_, le_refl _⟩
    by_cases hlow : buf.length < 2 ^ 31
    · rw [toUlong_toInt_natCast hlow]
    · rw [toUlong_toInt_of_ge (by omega) hlen]
      omega
  unfold bufferWrite at h
  dsimp only at h
  split at h
  · cases h
    rw [show toUlong (-1) = Word.allOnes by decide, Word.allOnes, Word.modulus]
    omega
  · split at h
    · cases h
      exact hpassed
    · split at h
      · cases h
      · cases h
        exact hpassed

theorem writeFrames_ne_none {frames : List Bytes} (hlen : ∀ frame ∈ frames, frame.length < 2 ^ 32)
    (conn : Conn) : writeFrames frames conn ≠ .ok none := by
  induction frames generalizing conn with
  | nil => simp [writeFrames]
  | cons frame frames ih =>
    obtain ⟨hframe, hframes⟩ := List.forall_mem_cons.1 hlen
    intro h
    obtain ⟨⟨err₁, conn₁⟩, hwrite₁, h⟩ := Exec.bind_eq_ok.1 h
    have hpassed₁ := (le_of_bufferWrite hwrite₁ (by rw [length_field]; decide)).1
    rw [length_field] at hpassed₁
    simp only [if_neg (Nat.not_lt.2 hpassed₁)] at h
    split at h
    · obtain ⟨⟨err₂, conn₂⟩, hwrite₂, h⟩ := Exec.bind_eq_ok.1 h
      have hpassed₂ := (le_of_bufferWrite hwrite₂ hframe).2
      simp only [if_neg (Nat.not_lt.2 hpassed₂)] at h
      exact ih hframes conn₂ h
    · exact ih hframes conn₁ h

theorem cmqMqttSendMsg_ne_minus (hcount : fl.count ≠ 0)
    (hlen : ∀ frame ∈ fl.frames, frame.length < 2 ^ 32) (conn : Conn) (published : Bytes) :
    cmqMqttSendMsg some conn fl ≠ .ok (-1, published) := by
  intro h
  rw [cmqMqttSendMsg, if_neg hcount] at h
  obtain ⟨⟨err₁, conn₁⟩, hwrite₁, h⟩ := Exec.bind_eq_ok.1 h
  have hpassed := (le_of_bufferWrite hwrite₁ (by rw [length_header]; decide)).1
  rw [length_header] at hpassed
  simp only [if_neg (Nat.not_lt.2 hpassed)] at h
  obtain ⟨found, hfound, h⟩ := Exec.bind_eq_ok.1 h
  cases found with
  | none => exact writeFrames_ne_none hlen conn₁ hfound
  | some conn₂ =>
    dsimp only at h
    split at h
    · cases h
    · simp [publish] at h

/-! ## Round trip or error -/

/-- The message is refused and no line goes out, or one line goes out from which it can be
received; one whose text and newline do not fit the buffer is always refused. -/
def Delivers (memory : Memory) (fl : FrameList) : Prop :=
  ∀ (pipe : Nat → Option Nat) (conn : Conn), conn.buffer.length = connBufferSize →
    ((∃ published, cmqMqttSendMsg pipe conn fl = .ok (-1, published) ∧ newline ∉ published) ∨
      ∃ line, cmqMqttSendMsg pipe conn fl = .ok (0, line ++ [newline]) ∧ newline ∉ line ∧
        (line ++ [newline]).length ≤ connBufferSize ∧
        ∀ rest, ∃ received, cmqMqttRecvMsg memory (line ++ newline :: rest) =
          .ok (some (received, rest)) ∧ received.frames = fl.frames ∧ received.count = fl.count) ∧
    (connBufferSize < (hexText (encode fl) ++ [newline]).length →
      ∃ published, cmqMqttSendMsg pipe conn fl = .ok (-1, published))

/-- Frame lists as they are built: the count is that of the frames, and all numbers are of
32 bits. -/
structure Built (fl : FrameList) : Prop where
  count : fl.count = fl.frames.length
  pos : 1 ≤ fl.frames.length
  frame_lt : ∀ frame ∈ fl.frames, frame.length < 2 ^ 32
  maxSize_lt : fl.maxSize < 2 ^ 32

theorem length_frames_le (frames : List Bytes) :
    frames.length ≤ (frames.flatMap encodeFrame).length ∧
      ∀ frame ∈ frames, frame.length ≤ (frames.flatMap encodeFrame).length := by
  induction frames with
  | nil => simp
  | cons frame frames ih =>
    simp only [List.flatMap_cons, encodeFrame, List.length_append, length_field,
      List.length_cons, List.forall_mem_cons]
    refine ⟨by omega, by omega, fun f hf => ?_⟩
    have := ih.2 f hf
    omega

/-- Exactly the messages that are delivered: two characters of the buffer are left. -/
theorem delivers_iff {memory : Memory} (hmalloc : ∀ n, memory.malloc n = true) {fl : FrameList}
    (hfl : Built fl) :
    Delivers memory fl ↔ (hexText (encode fl)).length + 2 ≤ connBufferSize := by
  have hcount : fl.count ≠ 0 := by
    have := hfl.pos
    rw [hfl.count]
    omega
  have heven : (hexText (encode fl)).length % 2 = 0 := by
    rw [length_hexText]
    omega
  constructor
  · intro h
    by_contra hlong
    have hsize : connBufferSize % 2 = 0 := by decide
    obtain ⟨published, hminus⟩ := (h some ⟨List.replicate connBufferSize 0, 0, 0⟩
      List.length_replicate).2 (by rw [List.length_append, List.length_singleton]; omega)
    exact cmqMqttSendMsg_ne_minus hcount hfl.frame_lt _ published hminus
  · intro hfits pipe conn hlength
    have hlarge : ¬ connBufferSize < (hexText (encode fl) ++ [newline]).length := by
      rw [List.length_append, List.length_singleton]
      omega
    refine ⟨?_, fun h => absurd h hlarge⟩
    rw [cmqMqttSendMsg_fits pipe hcount hlength (by omega)]
    unfold publish
    cases pipe (hexText (encode fl) ++ [newline]).length with
    | none => exact Or.inl ⟨[], rfl, by simp⟩
    | some m =>
      by_cases hshort : m < (hexText (encode fl) ++ [newline]).length
      · simp only [if_pos hshort]
        refine Or.inl ⟨_, rfl, fun h => ?_⟩
        -- all of the line but its last character
        rw [List.take_append_of_le_length
          (by rw [List.length_append, List.length_singleton] at hshort; omega)] at h
        exact newline_notMem_hexText _ (List.mem_of_mem_take h)
      · simp only [if_neg hshort]
        refine Or.inr ⟨_, rfl, newline_notMem_hexText _, by omega, fun rest => ?_⟩
        have hbound := hfits
        rw [length_hexText, encode, List.length_append, length_header] at hbound
        have hsize : connBufferSize < 2 ^ 31 := by decide
        obtain ⟨hframes, hframe⟩ := length_frames_le fl.frames
        have hsendable : Sendable fl := ⟨hfl.count, hfl.pos, by omega,
          fun frame hmem => by have := hframe frame hmem; omega, hfl.maxSize_lt⟩
        refine ⟨_, cmqMqttRecvMsg_fits hmalloc hsendable hfits rest,
          FrameList.frames_ofFrames _, ?_⟩
        rw [FrameList.count_ofFrames (by omega), hfl.count]

theorem delivers_iff_short : Delivers plentiful ⟨[[1, 2], []], 2, 2⟩ :=
  (delivers_iff (fun _ => rfl) ⟨rfl, by decide, by decide, by decide⟩).2 (by decide)

def fullFrame : Bytes := List.replicate 131040 0

/-- The newline of a message that fills the buffer is written behind it, and a longer one
is not refused either. -/
theorem full_buffer_not_refused :
    (hexText (encode ⟨[fullFrame], 1, 131040⟩)).length = connBufferSize ∧
      ¬ Delivers plentiful ⟨[fullFrame], 1, 131040⟩ := by
  have hframe : fullFrame.length = 131040 := List.length_replicate
  have hlength : (hexText (encode ⟨[fullFrame], 1, 131040⟩)).length = connBufferSize := by
    rw [length_hexText, encode, List.length_append, length_header]
    simp [encodeFrame, hframe, connBufferSize]
  refine ⟨hlength, fun h => ?_⟩
  obtain ⟨published, hminus⟩ := (h some ⟨List.replicate connBufferSize 0, 0, 0⟩
    List.length_replicate).2 (by rw [List.length_append, hlength]; exact Nat.lt_succ_self _)
  refine cmqMqttSendMsg_ne_minus (by decide) (fun frame hmem => ?_) _ published hminus
  rw [List.mem_singleton.1 hmem, hframe]
  decide

end Cspot.CmqMqtt
