import Cspot.Net.Cmq.Framing

/-!
# Messages come back as they were sent

On a socket that takes and gives what it is asked for, the frames of every message arrive,
in their order and with their bytes, and the next message is left alone.  The hint of the
header does not matter: the receiver gets a larger buffer when a frame needs it.
-/

namespace Cspot.CmqPkt

/-! ## Numbers -/

theorem ofNatLE_toNatLE (memory : Bytes) :
    Bytes.ofNatLE memory.length (Bytes.toNatLE memory) = memory := by
  induction memory with
  | nil => rfl
  | cons b rest ih =>
    have hb := b.toNat_lt
    have hlow : (b.toNat + 256 * Bytes.toNatLE rest) % 256 = b.toNat := by omega
    have hhigh : (b.toNat + 256 * Bytes.toNatLE rest) / 256 = Bytes.toNatLE rest := by omega
    rw [List.length_cons, Bytes.toNatLE, Bytes.ofNatLE, hlow, hhigh, ih, UInt8.ofNat_toNat]

theorem toNatLE_lt (memory : Bytes) : Bytes.toNatLE memory < 256 ^ memory.length := by
  induction memory with
  | nil => simp [Bytes.toNatLE]
  | cons b rest ih =>
    have hb := b.toNat_lt
    rw [Bytes.toNatLE, List.length_cons, Nat.pow_succ]
    omega

theorem htonl_lt (n : Nat) : htonl n < 2 ^ 32 := by
  have h := toNatLE_lt (Bytes.ofNatLE 4 n).reverse
  rw [List.length_reverse, Bytes.length_ofNatLE] at h
  exact h

variable {n : Nat} {sock : SendSocket} {frames : List Bytes} {r : Nat} {buf : Bytes}
  {fl : FrameList} {msgs : List FrameList}

theorem htonl_htonl (h : n < 2 ^ 32) : htonl (htonl n) = n := by
  have hback := ofNatLE_toNatLE (Bytes.ofNatLE 4 n).reverse
  rw [List.length_reverse, Bytes.length_ofNatLE] at hback
  rw [htonl, htonl, hback, List.reverse_reverse, Bytes.toNatLE_ofNatLE h]

@[simp] theorem length_field (n : Nat) : (field n).length = 8 := Bytes.length_ofNatLE 8 _

theorem unfield_field (h : n < 2 ^ 32) : unfield (field n) = n := by
  have hlt := htonl_lt n
  rw [unfield, field, Bytes.toNatLE_ofNatLE (by omega), htonl_htonl h]

@[simp] theorem length_header (fl : FrameList) : (header fl).length = 24 := by simp [header]

/-! ## Sockets that do what they are asked -/

def full : Answers := fun _ n => some n

theorem toUlong_toInt_natCast (h : n < 2 ^ 31) : toUlong (toInt n) = n := by
  have hword : n % Word.modulus = n := Nat.mod_eq_of_lt (by unfold Word.modulus; omega)
  rw [toInt, toUlong_natCast, hword, Word.toInt32_of_lt h, toUlong_natCast, hword]

/-- A count that does not fit an `int` becomes a negative one, and that a huge number. -/
theorem toUlong_toInt_of_ge (hlow : 2 ^ 31 ≤ r) (hhigh : r < 2 ^ 32) :
    toUlong (toInt r) = Word.modulus - 2 ^ 32 + r := by
  have hword : r % Word.modulus = r := Nat.mod_eq_of_lt (by unfold Word.modulus; omega)
  have hint : toInt r = (r : Int) - 2 ^ 32 := by
    have hmod : r % 2 ^ 32 = r := Nat.mod_eq_of_lt hhigh
    rw [toInt, toUlong_natCast, hword, Word.toInt32, hmod, if_neg (by omega)]
  rw [hint, toUlong, Word.modulus]
  omega

theorem toUlong_toInt_mod (h : r < 2 ^ 32) : toUlong (toInt r) % 2 ^ 32 = r := by
  by_cases hlow : r < 2 ^ 31
  · rw [toUlong_toInt_natCast hlow, Nat.mod_eq_of_lt h]
  · rw [toUlong_toInt_of_ge (by omega) h, Word.modulus]
    omega

def SendSocket.sent (sock : SendSocket) (calls : Nat) (bytes : Bytes) : SendSocket :=
  { sock with calls := sock.calls + calls, wire := sock.wire ++ bytes }

theorem SendSocket.sent_sent (sock : SendSocket) (calls calls' : Nat) (bytes bytes' : Bytes) :
    (sock.sent calls bytes).sent calls' bytes' = sock.sent (calls + calls') (bytes ++ bytes') := by
  simp [SendSocket.sent, Nat.add_assoc]

theorem writeAll_of_answer (h : sock.answers sock.calls buf.length = some buf.length)
    (hlen : buf.length < 2 ^ 31) :
    sock.writeAll buf = .ok (sock.sent 1 buf) := by
  simp only [SendSocket.writeAll, SendSocket.write, h, Nat.min_self, List.take_length,
    toUlong_toInt_natCast hlen, Nat.lt_irrefl, if_false]
  rfl

theorem writeAll_full (h : sock.answers = full) (hlen : buf.length < 2 ^ 31) :
    sock.writeAll buf = .ok (sock.sent 1 buf) :=
  writeAll_of_answer (by rw [h]; rfl) hlen

def encodeFrame (frame : Bytes) : Bytes := field frame.length ++ frame

def encode (fl : FrameList) : Bytes := header fl ++ fl.frames.flatMap encodeFrame

theorem writePayload_full (h : sock.answers = full) {frame : Bytes} (hlen : frame.length < 2 ^ 31) :
    ∃ calls, sock.writePayload frame = .ok (sock.sent calls frame) := by
  unfold SendSocket.writePayload
  split
  · exact ⟨1, writeAll_full h hlen⟩
  · obtain rfl : frame = [] := List.length_eq_zero_iff.1 (by omega)
    exact ⟨0, by simp [SendSocket.sent]⟩

theorem sendFrames_full (hlen : ∀ frame ∈ frames, frame.length < 2 ^ 31) (h : sock.answers = full) :
    ∃ calls, sendFrames frames sock = .ok (sock.sent calls (frames.flatMap encodeFrame)) := by
  induction frames generalizing sock with
  | nil => exact ⟨0, by simp [sendFrames, SendSocket.sent]⟩
  | cons frame frames ih =>
    obtain ⟨hframe, hframes⟩ := List.forall_mem_cons.1 hlen
    have hfield : (field frame.length).length < 2 ^ 31 := by
      rw [length_field]
      decide
    obtain ⟨calls, hpayload⟩ := writePayload_full
      (show (sock.sent 1 (field frame.length)).answers = full from h) hframe
    rw [SendSocket.sent_sent] at hpayload
    obtain ⟨calls', hrest⟩ := ih hframes
      (show (sock.sent (1 + calls) (encodeFrame frame)).answers = full from h)
    rw [SendSocket.sent_sent] at hrest
    refine ⟨1 + calls + calls', ?_⟩
    rw [sendFrames, writeAll_full h hfield]
    simp only [bind, Except.bind, hpayload]
    exact hrest

/-- A message as it can be sent: the count is that of the frames. -/
structure Sendable (fl : FrameList) : Prop where
  count : fl.count = fl.frames.length
  pos : 1 ≤ fl.frames.length
  count_lt : fl.frames.length < 2 ^ 31
  frame_lt : ∀ frame ∈ fl.frames, frame.length < 2 ^ 31
  maxSize_lt : fl.maxSize < 2 ^ 32

theorem cmqPktSendMsg_full (hfl : ∀ frame ∈ fl.frames, frame.length < 2 ^ 31)
    (h : sock.answers = full) :
    ∃ calls, cmqPktSendMsg fl sock = .ok (sock.sent calls (encode fl)) := by
  have hheader : (header fl).length < 2 ^ 31 := by
    rw [length_header]
    decide
  obtain ⟨calls, hframes⟩ := sendFrames_full hfl
    (show (sock.sent 1 (header fl)).answers = full from h)
  rw [cmqPktSendMsg, writeAll_full h hheader]
  simp only [bind, Except.bind, hframes, SendSocket.sent_sent]
  exact ⟨_, rfl⟩

/-! ## The receiver -/

theorem length_fresh (memory : Memory) (i n : Nat) : (memory.fresh i n).length = n := by
  simp [Memory.fresh]

/-- Whatever number of bytes is asked for, a reader with these bytes left gives the first of
them and keeps the others. -/
def Gives {m : Type → Type} [Monad m] {σ : Type} (read : Reader m σ) (left : σ → Bytes → Prop) :
    Prop :=
  ∀ source data rest, left source (data ++ rest) → data.length < 2 ^ 31 →
    ∃ source', left source' rest ∧ ∀ buffer : Bytes,
      read source buffer data.length =
        pure ((data.length : Int), data ++ buffer.drop data.length, source')

/-- The receiver between two frames, with these bytes left. -/
structure Between {σ : Type} (left : σ → Bytes → Prop) (st : RecvState σ) (bytes : Bytes) :
    Prop where
  source : left st.source bytes
  size : st.size.length = 8
  payload : st.payload.length = st.maxSize

section Receive

variable {m : Type → Type} [Monad m] [LawfulMonad m] {σ : Type} {read : Reader m σ}
  {left : σ → Bytes → Prop} (hgives : Gives read left) {memory : Memory}
  (hmalloc : ∀ n, memory.malloc n = true) {rest : Bytes} {st : RecvState σ}

include hgives hmalloc

theorem recvFrame_of_gives {frame : Bytes} (h : Between left st (encodeFrame frame ++ rest))
    (hlen : frame.length < 2 ^ 31) :
    ∃ st', recvFrame read memory st = pure (.ok st') ∧ Between left st' rest ∧
      st'.list = st.list.append frame := by
  have hsource := h.source
  rw [encodeFrame, List.append_assoc] at hsource
  obtain ⟨source₁, hleft₁, hread₁⟩ := hgives _ _ _ hsource (by rw [length_field]; decide)
  have hread : read st.source st.size 8 =
      pure (((8 : Nat) : Int), field frame.length, source₁) := by
    have h8 := hread₁ st.size
    rw [length_field, List.drop_eq_nil_of_le (by rw [h.size]), List.append_nil] at h8
    exact h8
  have height : ¬ toUlong (toInt (8 : Nat)) < 8 := by
    decide
  have hn : unfield (field frame.length) = frame.length := unfield_field (by omega)
  unfold recvFrame
  simp only [hread, pure_bind, height, hn, hmalloc, if_false, Bool.true_eq_false, and_false,
    or_self]
  by_cases hpos : 0 < frame.length
  · obtain ⟨source₂, hleft₂, hread₂⟩ := hgives _ _ _ hleft₁ hlen
    have hall : ¬ toUlong (toInt (frame.length : Int)) % 2 ^ 32 < frame.length := by
      rw [toUlong_toInt_natCast hlen, Nat.mod_eq_of_lt (by omega)]
      exact Nat.lt_irrefl _
    have htake (buffer : Bytes) : (frame ++ buffer.drop frame.length).take frame.length = frame :=
      List.take_left
    simp only [if_pos hpos, hread₂, pure_bind, hall, if_false, htake]
    refine ⟨_, rfl, ⟨hleft₂, length_field _, ?_⟩, rfl⟩
    have hbuffer := h.payload
    split
    · simp [length_fresh]
    · simp only [List.length_append, List.length_drop]
      omega
  · obtain rfl : frame = [] := List.length_eq_zero_iff.1 (by omega)
    have hgrows : ¬ st.maxSize < ([] : Bytes).length := Nat.not_lt_zero _
    exact ⟨_, rfl, ⟨hleft₁, length_field _, h.payload⟩, rfl⟩

theorem recvFrames_of_gives (hlen : ∀ frame ∈ frames, frame.length < 2 ^ 31)
    (h : Between left st (frames.flatMap encodeFrame ++ rest)) :
    ∃ st', recvFrames read memory frames.length st = pure (.ok st') ∧ Between left st' rest ∧
      st'.list = frames.foldl FrameList.append st.list := by
  induction frames generalizing st with
  | nil => exact ⟨st, rfl, h, rfl⟩
  | cons frame frames ih =>
    obtain ⟨hframe, hframes⟩ := List.forall_mem_cons.1 hlen
    rw [List.flatMap_cons, List.append_assoc] at h
    obtain ⟨st₁, hst₁, hbetween, hlist₁⟩ := recvFrame_of_gives hgives hmalloc h hframe
    obtain ⟨st₂, hst₂, hbetween₂, hlist₂⟩ := ih hframes hbetween
    refine ⟨st₂, ?_, hbetween₂, by rw [hlist₂, hlist₁, List.foldl_cons]⟩
    rw [List.length_cons, recvFrames, hst₁, pure_bind]
    exact hst₂

theorem recvMsg_of_gives (hfl : Sendable fl) {source : σ} (h : left source (encode fl ++ rest)) :
    ∃ source', recvMsg read memory source = pure (.ok (.ofFrames fl.frames, source')) ∧
      left source' rest := by
  rw [encode, List.append_assoc] at h
  obtain ⟨source₁, hleft₁, hread₁⟩ := hgives _ _ _ h (by rw [length_header]; decide)
  have hread : read source (memory.fresh 0 24) 24 =
      pure (((24 : Nat) : Int), header fl, source₁) := by
    have h24 := hread₁ (memory.fresh 0 24)
    exact h24
  have hall : ¬ toUlong (toInt (24 : Nat)) < 24 := by
    decide
  have hversion : unfield ((header fl).take 8) = version := by
    exact unfield_field (by decide)
  have hcount : unfield (((header fl).drop 8).take 8) = fl.frames.length := by
    have hlt := hfl.count_lt
    rw [header, List.append_assoc, List.drop_left' (length_field _),
      List.take_left' (length_field _), unfield_field (by rw [hfl.count]; omega), hfl.count]
  have hmax : unfield (((header fl).drop 16).take 8) = fl.maxSize := by
    rw [header, List.drop_left' (by simp), List.take_of_length_le (by simp),
      unfield_field hfl.maxSize_lt]
  obtain ⟨st, hst, hbetween, hlist⟩ := recvFrames_of_gives hgives hmalloc hfl.frame_lt
    (⟨hleft₁, length_fresh memory 1 8, length_fresh memory 2 fl.maxSize⟩ :
      Between left ⟨source₁, .empty, memory.fresh 1 8, fl.maxSize, memory.fresh 2 fl.maxSize, 3⟩ _)
  refine ⟨st.source, ?_, hbetween.source⟩
  unfold recvMsg
  simp only [hread, pure_bind, hall, hversion, hcount, hmax, hmalloc,
    Word.toInt32_of_lt hfl.count_lt, Int.toNat_natCast, hst, hlist, ne_eq, not_true_eq_false,
    if_false, Bool.true_eq_false, and_false]
  rfl

end Receive

/-- A socket with these bytes left that answers every call in full. -/
def RecvSocket.Left (sock : RecvSocket) (bytes : Bytes) : Prop :=
  sock.answers = full ∧ sock.wire = bytes

theorem recv_of_answer {sock : RecvSocket} {data rest : Bytes} (buffer : Bytes)
    (h : sock.answers sock.calls data.length = some data.length)
    (hwire : sock.wire = data ++ rest) :
    sock.recv buffer data.length = ((data.length : Int), data ++ buffer.drop data.length,
      ⟨sock.answers, sock.calls + 1, rest⟩) := by
  simp only [RecvSocket.recv, h, hwire, Nat.min_self, List.take_left, List.drop_left]

theorem gives_recv : Gives (m := Id) RecvSocket.recv RecvSocket.Left := by
  rintro sock data rest ⟨hanswers, hwire⟩ -
  refine ⟨⟨sock.answers, sock.calls + 1, rest⟩, ⟨hanswers, rfl⟩, fun buffer => ?_⟩
  exact recv_of_answer buffer (by rw [hanswers]; rfl) hwire

theorem FrameList.foldl_append (fl : FrameList) (frames : List Bytes) :
    (frames.foldl append fl).frames = fl.frames ++ frames := by
  induction frames generalizing fl with
  | nil => simp
  | cons frame frames ih =>
    rw [List.foldl_cons, ih, append]
    simp

theorem FrameList.frames_ofFrames (frames : List Bytes) : (ofFrames frames).frames = frames :=
  foldl_append empty frames

theorem FrameList.count_foldl_append (h : fl.count = fl.frames.length)
    (hlt : fl.frames.length + frames.length < 2 ^ 32) :
    (frames.foldl append fl).count = fl.frames.length + frames.length := by
  induction frames generalizing fl with
  | nil => simpa using h
  | cons frame frames ih =>
    rw [List.length_cons] at hlt
    have hcount : (fl.append frame).count = (fl.append frame).frames.length := by
      rw [append]
      rw [List.length_append, List.length_singleton]
      split
      · rename_i hnil
        rw [hnil]
        rfl
      · rw [h, Nat.mod_eq_of_lt (by omega)]
    have hlength : (fl.append frame).frames.length = fl.frames.length + 1 := by simp [append]
    rw [List.foldl_cons, ih hcount (by omega), hlength, List.length_cons]
    omega

theorem FrameList.count_ofFrames (h : frames.length < 2 ^ 32) :
    (ofFrames frames).count = frames.length := by
  have hcount := count_foldl_append (rfl : empty.count = empty.frames.length)
    (by simpa [empty] using h : empty.frames.length + frames.length < 2 ^ 32)
  simpa [empty, ofFrames] using hcount

/-! ## Rows of messages -/

def sendMsgs : List FrameList → SendSocket → Except SendSocket SendSocket
  | [], sock => .ok sock
  | fl :: rest, sock => do
      let sock ← cmqPktSendMsg fl sock
      sendMsgs rest sock

def recvMsgs (memory : Memory) : Nat → RecvSocket → Except RecvSocket (List FrameList × RecvSocket)
  | 0, sock => .ok ([], sock)
  | k + 1, sock => do
      let (fl, sock) ← cmqPktRecvMsg memory sock
      let (rest, sock) ← recvMsgs memory k sock
      .ok (fl :: rest, sock)

theorem sendMsgs_full (hmsgs : ∀ fl ∈ msgs, Sendable fl) (h : sock.answers = full) :
    ∃ calls, sendMsgs msgs sock = .ok (sock.sent calls (msgs.flatMap encode)) := by
  induction msgs generalizing sock with
  | nil => exact ⟨0, by simp [sendMsgs, SendSocket.sent]⟩
  | cons fl msgs ih =>
    obtain ⟨hfl, hrest⟩ := List.forall_mem_cons.1 hmsgs
    obtain ⟨calls, hsend⟩ := cmqPktSendMsg_full hfl.frame_lt h
    obtain ⟨calls', hsends⟩ := ih hrest (show (sock.sent calls (encode fl)).answers = full from h)
    rw [SendSocket.sent_sent] at hsends
    refine ⟨calls + calls', ?_⟩
    rw [sendMsgs, hsend]
    exact hsends

theorem recvMsgs_full {memory : Memory} (hmalloc : ∀ n, memory.malloc n = true)
    (hmsgs : ∀ fl ∈ msgs, Sendable fl) {sock : RecvSocket} {rest : Bytes}
    (h : sock.Left (msgs.flatMap encode ++ rest)) :
    ∃ sock', recvMsgs memory msgs.length sock =
      .ok (msgs.map fun fl => .ofFrames fl.frames, sock') ∧ sock'.Left rest := by
  induction msgs generalizing sock with
  | nil => exact ⟨sock, rfl, h⟩
  | cons fl msgs ih =>
    obtain ⟨hfl, hrest⟩ := List.forall_mem_cons.1 hmsgs
    rw [List.flatMap_cons, List.append_assoc] at h
    obtain ⟨sock₁, hrecv, hleft⟩ := recvMsg_of_gives gives_recv hmalloc hfl h
    obtain ⟨sock₂, hrecvs, hleft₂⟩ := ih hrest hleft
    refine ⟨sock₂, ?_, hleft₂⟩
    have hrecv' : cmqPktRecvMsg memory sock = .ok (.ofFrames fl.frames, sock₁) := hrecv
    rw [List.length_cons, recvMsgs, hrecv']
    simp [bind, Except.bind, hrecvs]

/-- What was sent comes back: the first messages as they were, and behind them on the wire
exactly the others. -/
theorem messages_round_trip {memory : Memory} (hmalloc : ∀ n, memory.malloc n = true)
    {msgs : List FrameList} (hmsgs : ∀ fl ∈ msgs, Sendable fl) :
    ∃ sock, sendMsgs msgs ⟨full, 0, []⟩ = .ok sock ∧
      ∀ k, k ≤ msgs.length → ∃ received sock',
        recvMsgs memory k ⟨full, 0, sock.wire⟩ = .ok (received, sock') ∧
        received.map FrameList.frames = (msgs.take k).map FrameList.frames ∧
        received.map FrameList.count = (msgs.take k).map FrameList.count ∧
        sock'.wire = (msgs.drop k).flatMap encode := by
  obtain ⟨calls, hsend⟩ := sendMsgs_full hmsgs (rfl : (⟨full, 0, []⟩ : SendSocket).answers = full)
  refine ⟨_, hsend, fun k hk => ?_⟩
  have hwire : (SendSocket.sent ⟨full, 0, []⟩ calls (msgs.flatMap encode)).wire =
      (msgs.take k).flatMap encode ++ (msgs.drop k).flatMap encode := by
    rw [← List.flatMap_append, List.take_append_drop]
    rfl
  have htaken : ∀ fl ∈ msgs.take k, Sendable fl := fun fl hfl => hmsgs fl (List.mem_of_mem_take hfl)
  obtain ⟨sock', hrecv, hleft⟩ := recvMsgs_full hmalloc htaken
    (⟨rfl, hwire⟩ : RecvSocket.Left ⟨full, 0, _⟩ _)
  rw [List.length_take, Nat.min_eq_left hk] at hrecv
  refine ⟨_, sock', hrecv, ?_, ?_, hleft.2⟩
  · rw [List.map_map]
    exact List.map_congr_left fun fl _ => FrameList.frames_ofFrames fl.frames
  · rw [List.map_map]
    refine List.map_congr_left fun fl hfl => ?_
    have hcount := (htaken fl hfl).count_lt
    exact (FrameList.count_ofFrames (by omega)).trans (htaken fl hfl).count.symm

def plentiful : Memory := ⟨fun _ => true, fun _ _ => 0⟩

def sampleMsgs : List FrameList := [⟨[[1, 2], []], 2, 0⟩, ⟨[[3]], 1, 7⟩]

theorem messages_round_trip_sample :
    ∃ sock, sendMsgs sampleMsgs ⟨full, 0, []⟩ = .ok sock ∧
      ∃ received sock', recvMsgs plentiful 1 ⟨full, 0, sock.wire⟩ = .ok (received, sock') ∧
        received.map FrameList.frames = [[[1, 2], []]] ∧
        sock'.wire = encode ⟨[[3]], 1, 7⟩ := by
  have hmsgs : ∀ fl ∈ sampleMsgs, Sendable fl := by
    intro fl hfl
    rcases List.mem_cons.1 hfl with rfl | hfl
    · exact ⟨by decide, by decide, by decide, by decide, by decide⟩
    · rw [List.mem_singleton.1 hfl]
      exact ⟨by decide, by decide, by decide, by decide, by decide⟩
  obtain ⟨sock, hsend, hrecv⟩ :=
    messages_round_trip (fun _ => rfl : ∀ n, plentiful.malloc n = true) hmsgs
  obtain ⟨received, sock', h, hframes, -, hwire⟩ := hrecv 1 (by decide)
  exact ⟨sock, hsend, received, sock', h, hframes, hwire⟩

end Cspot.CmqPkt
