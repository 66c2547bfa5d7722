import Cspot.Net.Cmq.RoundTrip

/-!
# What the transfers report

Both functions compare the result of every call with the number of bytes they asked for.
The comparison is one of unsigned numbers, to which -1 is the largest, so a call that fails
passes for one that has done everything.
-/

namespace Cspot.CmqPkt

/-! ## The comparisons -/

/-- Answers the comparison takes for complete although bytes are missing: -1, and a count
that does not fit an `int`. -/
def Silent (n : Nat) : Option Nat → Prop
  | none => True
  | some m => 2 ^ 31 ≤ m ∧ m < n

instance (n : Nat) : DecidablePred (Silent n)
  | none => inferInstanceAs (Decidable True)
  | some m => inferInstanceAs (Decidable (2 ^ 31 ≤ m ∧ m < n))

/-! ## Sending -/

theorem bind_eq_ok {ε α β : Type} {x : Except ε α} {f : α → Except ε β} {b : β} :
    (x >>= f) = .ok b ↔ ∃ a, x = .ok a ∧ f a = .ok b := by
  cases x with
  | error e => simp [bind, Except.bind]
  | ok a => simp [bind, Except.bind]

/-- A message is on the wire as a whole when the result is 0. -/
def SendReports (fl : FrameList) (sock : SendSocket) : Prop :=
  ∀ sock', cmqPktSendMsg fl sock = .ok sock' → sock'.wire = sock.wire ++ encode fl

variable {sock : SendSocket} {n : Nat} {buf : Bytes}

theorem writeAll_eq_ok {sock' : SendSocket}
    (hanswer : ¬ Silent buf.length (sock.answers sock.calls buf.length))
    (h : sock.writeAll buf = .ok sock') : sock' = sock.sent 1 buf := by
  unfold SendSocket.writeAll SendSocket.write at h
  cases ha : sock.answers sock.calls buf.length with
  | none => exact absurd (ha ▸ trivial) hanswer
  | some m =>
    rw [ha] at hanswer
    simp only [ha] at h
    split at h
    · cases h
    · rename_i hpassed
      have hall : buf.length ≤ m := by
        by_contra hshort
        have hm : min m buf.length = m := Nat.min_eq_left (by omega)
        have hint : m < 2 ^ 31 := by
          by_contra hlarge
          exact hanswer ⟨by omega, by omega⟩
        rw [hm, toUlong_toInt_natCast hint] at hpassed
        exact hpassed (by omega)
      rw [Nat.min_eq_right hall, List.take_length] at h
      exact (Except.ok.inj h).symm

section Answers

variable {answers : Answers} (hanswers : ∀ k n, 0 < n → n < 2 ^ 32 → ¬ Silent n (answers k n))

include hanswers

theorem sendFrames_eq_ok {frames : List Bytes} (hlen : ∀ frame ∈ frames, frame.length < 2 ^ 32)
    {sock' : SendSocket} (hsock : sock.answers = answers) (h : sendFrames frames sock = .ok sock') :
    ∃ calls, sock' = sock.sent calls (frames.flatMap encodeFrame) := by
  induction frames generalizing sock with
  | nil =>
    cases h
    exact ⟨0, by simp [SendSocket.sent]⟩
  | cons frame frames ih =>
    obtain ⟨hframe, hframes⟩ := List.forall_mem_cons.1 hlen
    obtain ⟨sock₁, hfield, h⟩ := bind_eq_ok.1 h
    have hsock₁ := writeAll_eq_ok
      (by rw [hsock, length_field]; exact hanswers _ _ (by decide) (by decide)) hfield
    obtain ⟨sock₂, hpayload, h⟩ := bind_eq_ok.1 h
    have hsock₂ : ∃ calls, sock₂ = sock₁.sent calls frame := by
      unfold SendSocket.writePayload at hpayload
      split at hpayload
      · rename_i hpos
        refine ⟨1, writeAll_eq_ok ?_ hpayload⟩
        rw [hsock₁]
        exact hsock ▸ hanswers _ _ hpos hframe
      · obtain rfl : frame = [] := List.length_eq_zero_iff.1 (by omega)
        cases hpayload
        exact ⟨0, by simp [SendSocket.sent]⟩
    obtain ⟨calls, hsock₂⟩ := hsock₂
    obtain ⟨calls', hrest⟩ := ih hframes (by rw [hsock₂, hsock₁]; exact hsock) h
    refine ⟨1 + (calls + calls'), ?_⟩
    rw [hrest, hsock₂, hsock₁, SendSocket.sent_sent, SendSocket.sent_sent, List.flatMap_cons,
      encodeFrame, List.append_assoc]

theorem sendReports_of_answers {fl : FrameList} (hlen : ∀ frame ∈ fl.frames, frame.length < 2 ^ 32)
    (hsock : sock.answers = answers) : SendReports fl sock := by
  intro sock' h
  obtain ⟨sock₁, hheader, h⟩ := bind_eq_ok.1 h
  have hsock₁ := writeAll_eq_ok
    (by rw [hsock, length_header]; exact hanswers _ _ (by decide) (by decide)) hheader
  obtain ⟨calls, hrest⟩ := sendFrames_eq_ok hanswers hlen (by rw [hsock₁]; exact hsock) h
  rw [hrest, hsock₁, SendSocket.sent_sent]
  rfl

end Answers

/-! ## Receiving -/

/-- What was read is a header, and for each frame of the list the field of its size and its
payload; behind them the wire goes on. -/
def RecvReports (memory : Memory) (sock : RecvSocket) : Prop :=
  ∀ fl sock', cmqPktRecvMsg memory sock = .ok (fl, sock') →
    ∃ head, ∃ fields : List (Bytes × Bytes), head.length = 24 ∧
      (∀ f ∈ fields, f.1.length = 8 ∧ unfield f.1 = f.2.length) ∧
      fl.frames = fields.map Prod.snd ∧
      sock.wire = head ++ fields.flatMap (fun f => f.1 ++ f.2) ++ sock'.wire

section

variable {sock : RecvSocket} {buffer : Bytes} {err : Int} {got : Bytes} {sock' : RecvSocket}
  (h : sock.recv buffer n = (err, got, sock')) (hanswer : sock.answers sock.calls n ≠ none)
include h hanswer

theorem recv_eq :
    ∃ data : Bytes, err = data.length ∧ data.length ≤ n ∧ got = data ++ buffer.drop data.length ∧
      sock.wire = data ++ sock'.wire ∧ sock'.answers = sock.answers := by
  unfold RecvSocket.recv at h
  cases ha : sock.answers sock.calls n with
  | none => exact absurd ha hanswer
  | some m =>
    rw [ha] at h
    obtain ⟨rfl, rfl, rfl⟩ := h
    refine ⟨sock.wire.take (min m n), rfl, ?_, rfl, ?_, rfl⟩
    · rw [List.length_take]
      omega
    · rw [List.length_take]
      conv_lhs => rw [← List.take_append_drop (min m n) sock.wire]
      congr 1
      rcases Nat.le_total (min m n) sock.wire.length with hle | hle
      · rw [Nat.min_eq_left hle]
      · rw [Nat.min_eq_right hle, List.drop_eq_nil_of_le hle, List.drop_eq_nil_of_le (le_refl _)]

theorem recv_fixed (hn : n < 2 ^ 31) (hbuffer : buffer.length = n)
    (hpassed : ¬ toUlong (toInt err) < n) :
    got.length = n ∧ sock.wire = got ++ sock'.wire ∧ sock'.answers = sock.answers := by
  obtain ⟨data, rfl, hle, rfl, hwire, hsock⟩ := recv_eq h hanswer
  rw [toUlong_toInt_natCast (by omega)] at hpassed
  have hdata : data.length = n := by omega
  have hdrop : buffer.drop data.length = [] := List.drop_eq_nil_of_le (by omega)
  rw [hdrop, List.append_nil]
  exact ⟨hdata, hwire, hsock⟩

end

section Receive

variable {memory : Memory} {answers : Answers}
  (hanswers : ∀ k n, 0 < n → n < 2 ^ 32 → answers k n ≠ none) {st st' : RecvState RecvSocket}

include hanswers

theorem recvFrame_eq_ok (hsock : st.source.answers = answers) (hsize : st.size.length = 8)
    (h : recvFrame (m := Id) RecvSocket.recv memory st = .ok st') :
    ∃ size frame, size.length = 8 ∧ unfield size = frame.length ∧
      st.source.wire = size ++ frame ++ st'.source.wire ∧
      st'.list.frames = st.list.frames ++ [frame] ∧ st'.source.answers = answers ∧
      st'.size.length = 8 := by
  obtain ⟨err, size, sock, hrecv⟩ :
      ∃ err size sock, st.source.recv st.size 8 = (err, size, sock) := ⟨_, _, _, rfl⟩
  unfold recvFrame at h
  simp only [bind, pure, hrecv] at h
  split at h
  · cases h
  rename_i hpassed
  obtain ⟨hlen, hwire, hanswer⟩ := recv_fixed hrecv
    (by rw [hsock]; exact hanswers _ _ (by decide) (by decide)) (by decide) hsize hpassed
  rw [hsock] at hanswer
  split at h
  · cases h
  generalize (if st.maxSize < unfield size then memory.fresh st.mallocs (unfield size)
    else st.payload) = payload at h
  split at h
  · rename_i hpos
    have hlt : unfield size < 2 ^ 32 := htonl_lt _
    obtain ⟨err₂, payload₂, sock₂, hrecv₂⟩ :
        ∃ err payload₂ sock₂, sock.recv payload (unfield size) = (err, payload₂, sock₂) :=
      ⟨_, _, _, rfl⟩
    simp only [hrecv₂] at h
    split at h
    · cases h
    rename_i hpassed₂
    split at h
    · cases h
    obtain ⟨data, rfl, hle, rfl, hwire₂, hanswer₂⟩ := recv_eq hrecv₂
      (by rw [hanswer]; exact hanswers _ _ hpos hlt)
    rw [toUlong_toInt_mod (by omega)] at hpassed₂
    have hdata : unfield size = data.length := by omega
    cases h
    refine ⟨size, data, hlen, hdata, ?_, ?_, by rw [hanswer₂, hanswer], hlen⟩
    · rw [hwire, hwire₂, List.append_assoc]
    · rw [hdata, List.take_left]
      rfl
  · split at h
    · cases h
    cases h
    exact ⟨size, [], hlen, by rw [List.length_nil]; omega, by rw [hwire, List.append_nil], rfl,
      hanswer, hlen⟩

theorem recvFrames_eq_ok {count : Nat} (hsock : st.source.answers = answers)
    (hsize : st.size.length = 8)
    (h : recvFrames (m := Id) RecvSocket.recv memory count st = .ok st') :
    ∃ fields : List (Bytes × Bytes), (∀ f ∈ fields, f.1.length = 8 ∧ unfield f.1 = f.2.length) ∧
      st'.list.frames = st.list.frames ++ fields.map Prod.snd ∧
      st.source.wire = fields.flatMap (fun f => f.1 ++ f.2) ++ st'.source.wire := by
  induction count generalizing st with
  | zero =>
    cases h
    exact ⟨[], by simp, by simp, rfl⟩
  | succ count ih =>
    simp only [recvFrames, bind, pure] at h
    split at h
    · cases h
    · rename_i st₁ hst₁
      obtain ⟨size, frame, hlen, hn, hwire, hframes, hsock₁, hsize₁⟩ :=
        recvFrame_eq_ok hanswers hsock hsize hst₁
      obtain ⟨fields, hfields, hrest, hwire₁⟩ := ih hsock₁ hsize₁ h
      refine ⟨(size, frame) :: fields, List.forall_mem_cons.2 ⟨⟨hlen, hn⟩, hfields⟩, ?_, ?_⟩
      · rw [hrest, hframes]
        simp
      · rw [hwire, hwire₁]
        simp

theorem recvReports_of_answers {sock : RecvSocket} (hsock : sock.answers = answers) :
    RecvReports memory sock := by
  intro fl sock' h
  obtain ⟨err, head, sock₁, hrecv⟩ : ∃ err head sock₁,
      sock.recv (memory.fresh 0 24) 24 = (err, head, sock₁) := ⟨_, _, _, rfl⟩
  unfold cmqPktRecvMsg recvMsg at h
  simp only [bind, pure, hrecv] at h
  split at h
  · cases h
  rename_i hpassed
  obtain ⟨hlen, hwire, hanswer⟩ := recv_fixed hrecv
    (by rw [hsock]; exact hanswers _ _ (by decide) (by decide)) (by decide)
    (length_fresh memory 0 24) hpassed
  split at h
  · cases h
  split at h
  · cases h
  split at h
  · cases h
  split at h
  · cases h
  rename_i st hst
  cases h
  obtain ⟨fields, hfields, hframes, hrest⟩ := recvFrames_eq_ok hanswers (by rw [hanswer, hsock])
    (length_fresh memory 1 8) hst
  exact ⟨head, fields, hlen, hfields, hframes, by rw [hwire, hrest, List.append_assoc]⟩

end Receive

/-! ## Sockets that fail -/

theorem writeAll_of_silent (hpos : 0 < buf.length) (hlen : buf.length < 2 ^ 32)
    (hsilent : Silent buf.length (sock.answers sock.calls buf.length)) :
    ∃ sock', sock.writeAll buf = .ok sock' ∧
      sock'.wire.length < sock.wire.length + buf.length := by
  unfold SendSocket.writeAll SendSocket.write
  cases ha : sock.answers sock.calls buf.length with
  | none =>
    have hminus : toUlong (toInt (-1)) = Word.allOnes := by decide
    have hpassed : ¬ Word.allOnes < buf.length := by
      unfold Word.allOnes Word.modulus
      omega
    simp only [hminus, if_neg hpassed]
    exact ⟨_, rfl, by dsimp only; omega⟩
  | some m =>
    rw [ha] at hsilent
    obtain ⟨hlarge, hshort⟩ := hsilent
    have hmin : min m buf.length = m := Nat.min_eq_left (by omega)
    have hpassed : ¬ toUlong (toInt (m : Int)) < buf.length := by
      rw [toUlong_toInt_of_ge hlarge (by omega), Word.modulus]
      omega
    simp only [hmin, if_neg hpassed]
    refine ⟨_, rfl, ?_⟩
    rw [List.length_append, List.length_take, hmin]
    omega

theorem cmqPktSendMsg_of_silent {frame : Bytes} (count maxSize : Nat)
    (hheader : sock.answers sock.calls 24 = some 24)
    (hfield : sock.answers (sock.calls + 1) 8 = some 8) (hpos : 0 < frame.length)
    (hlen : frame.length < 2 ^ 32)
    (hsilent : Silent frame.length (sock.answers (sock.calls + 1 + 1) frame.length)) :
    ∃ sock', cmqPktSendMsg ⟨[frame], count, maxSize⟩ sock = .ok sock' ∧
      sock'.wire.length < sock.wire.length + (encode ⟨[frame], count, maxSize⟩).length := by
  have hhead := length_header ⟨[frame], count, maxSize⟩
  rw [cmqPktSendMsg, encode]
  generalize header ⟨[frame], count, maxSize⟩ = head at hhead
  have hwrite₁ : sock.writeAll head = .ok (sock.sent 1 head) :=
    writeAll_of_answer (by rw [hhead]; exact hheader) (by rw [hhead]; decide)
  have hwrite₂ : (sock.sent 1 head).writeAll (field frame.length) =
      .ok ((sock.sent 1 head).sent 1 (field frame.length)) :=
    writeAll_of_answer (by rw [length_field]; exact hfield) (by rw [length_field]; decide)
  have hsilent' : Silent frame.length (((sock.sent 1 head).sent 1 (field frame.length)).answers
      ((sock.sent 1 head).sent 1 (field frame.length)).calls frame.length) := hsilent
  obtain ⟨sock', hwrite₃, hwire⟩ := writeAll_of_silent hpos hlen hsilent'
  refine ⟨sock', ?_, ?_⟩
  · rw [hwrite₁]
    simp [bind, Except.bind, sendFrames, hwrite₂, SendSocket.writePayload, if_pos hpos, hwrite₃]
  · simp only [SendSocket.sent, List.length_append] at hwire
    simp only [List.flatMap_cons, List.flatMap_nil, List.append_nil, encodeFrame,
      List.length_append]
    omega

def thirdAnswers (n : Nat) (a : Option Nat) : Answers :=
  fun k m => if k = 2 ∧ m = n then a else some m

theorem not_sendReports_of_silent {a : Option Nat} (hpos : 0 < n) (hlen : n < 2 ^ 32)
    (hsilent : Silent n a) :
    ¬ SendReports ⟨[List.replicate n 0], 1, n⟩ ⟨thirdAnswers n a, 0, []⟩ := by
  intro h
  have hlength : (List.replicate n (0 : UInt8)).length = n := List.length_replicate
  have hthird : Silent n (thirdAnswers n a (0 + 1 + 1) n) := by
    rw [thirdAnswers, if_pos ⟨rfl, rfl⟩]
    exact hsilent
  obtain ⟨sock', hsend, hwire⟩ := cmqPktSendMsg_of_silent 1 n
    (rfl : SendSocket.answers ⟨thirdAnswers n a, 0, []⟩ 0 24 = some 24) rfl
    (by rw [hlength]; exact hpos) (by rw [hlength]; exact hlen)
    (by rw [hlength]; exact hthird)
  rw [h sock' hsend, List.length_append] at hwire
  exact Nat.lt_irrefl _ hwire

theorem thirdAnswers_allowed {allowed : Nat → Option Nat → Prop} {a : Option Nat}
    (hfull : ∀ n, allowed n (some n)) (ha : allowed n a) (k m : Nat) :
    allowed m (thirdAnswers n a k m) := by
  by_cases h : k = 2 ∧ m = n
  · simpa [thirdAnswers, h] using ha
  · simpa [thirdAnswers, h] using hfull m

/-- The header announces one frame and the field its size, but of the frame nothing comes. -/
def missingPayload (n : Nat) : RecvSocket :=
  ⟨thirdAnswers n none, 0, header ⟨[], 1, 0⟩ ++ field n⟩

theorem cmqPktRecvMsg_missingPayload (hpos : 0 < n) (hlen : n < 2 ^ 32) :
    cmqPktRecvMsg plentiful (missingPayload n) =
      .ok (FrameList.empty.append ((plentiful.fresh 3 n).take n),
        ⟨thirdAnswers n none, 3, []⟩) := by
  have hheader : (missingPayload n).recv (plentiful.fresh 0 24) 24 =
      (24, header ⟨[], 1, 0⟩, ⟨thirdAnswers n none, 1, field n⟩) := by
    rw [← length_header ⟨[], 1, 0⟩]
    exact recv_of_answer _ rfl rfl
  have hfield : RecvSocket.recv ⟨thirdAnswers n none, 1, field n⟩ (plentiful.fresh 1 8) 8 =
      (8, field n, ⟨thirdAnswers n none, 2, []⟩) := by
    rw [← length_field n]
    exact recv_of_answer _ rfl (List.append_nil _).symm
  have hpayload : RecvSocket.recv ⟨thirdAnswers n none, 2, []⟩ (plentiful.fresh 3 n) n =
      (-1, plentiful.fresh 3 n, ⟨thirdAnswers n none, 3, []⟩) := by
    simp [RecvSocket.recv, thirdAnswers]
  have hminus : ¬ toUlong (toInt (-1)) % 2 ^ 32 < n := by
    have hall : toUlong (toInt (-1)) % 2 ^ 32 = 2 ^ 32 - 1 := by decide
    omega
  have hmalloc (k : Nat) : plentiful.malloc k = true := rfl
  have hframe : recvFrames (m := Id) RecvSocket.recv plentiful 1
      ⟨⟨thirdAnswers n none, 1, field n⟩, .empty, plentiful.fresh 1 8, 0, plentiful.fresh 2 0, 3⟩ =
      .ok ⟨⟨thirdAnswers n none, 3, []⟩, FrameList.empty.append ((plentiful.fresh 3 n).take n),
        field n, n, plentiful.fresh 3 n, 4⟩ := by
    have height : ¬ toUlong (toInt 8) < 8 := by decide
    simp only [recvFrames, recvFrame, bind, pure, hfield, height, unfield_field hlen, hpos,
      hpayload, hminus, hmalloc, if_true, if_false, Bool.true_eq_false, and_false, or_self]
  have hall : ¬ toUlong (toInt 24) < 24 := by decide
  have hversion : unfield ((header ⟨[], 1, 0⟩).take 8) = version := by decide
  have hcount : (Word.toInt32 (unfield (((header ⟨[], 1, 0⟩).drop 8).take 8))).toNat = 1 := by
    decide
  have hmax : unfield (((header ⟨[], 1, 0⟩).drop 16).take 8) = 0 := by decide
  unfold cmqPktRecvMsg recvMsg
  simp only [bind, pure, hheader, hall, hversion, hcount, hmax, hmalloc, hframe, ne_eq,
    not_true_eq_false, if_false, Bool.true_eq_false, and_false]

theorem not_recvReports_of_failed (hpos : 0 < n) (hlen : n < 2 ^ 32) :
    ¬ RecvReports plentiful (missingPayload n) := by
  intro h
  obtain ⟨head, fields, hhead, hfields, hframes, hwire⟩ :=
    h _ _ (cmqPktRecvMsg_missingPayload hpos hlen)
  obtain ⟨f, rfl, hpayload⟩ := List.map_eq_singleton_iff.1 hframes.symm
  have hfield := (hfields f (List.mem_singleton_self f)).1
  have hlength := congrArg List.length hwire
  simp only [missingPayload, List.flatMap_singleton, hpayload, List.length_append, length_header,
    length_field, hhead, hfield, List.length_take, length_fresh, List.length_nil] at hlength
  omega

/-- Exactly the sockets on which errors are reported: none of their calls, for however many
bytes, answers with -1, and none of their writes with a count below that number that does not
fit an `int`. -/
theorem transfersReport_iff {written read : Nat → Option Nat → Prop}
    (hwritten : ∀ n, written n (some n)) (hread : ∀ n, read n (some n)) :
    ((∀ sock : SendSocket, (∀ k n, written n (sock.answers k n)) →
        ∀ fl : FrameList, (∀ frame ∈ fl.frames, frame.length < 2 ^ 32) → SendReports fl sock) ∧
      ∀ sock : RecvSocket, (∀ k n, read n (sock.answers k n)) →
        ∀ memory, RecvReports memory sock) ↔
      (∀ n a, 0 < n → n < 2 ^ 32 → written n a → ¬ Silent n a) ∧
        ∀ n, 0 < n → n < 2 ^ 32 → ¬ read n none := by
  constructor
  · rintro ⟨hsend, hrecv⟩
    constructor
    · intro n a hpos hlen ha hsilent
      exact not_sendReports_of_silent hpos hlen hsilent
        (hsend _ (thirdAnswers_allowed hwritten ha) _ (by simpa using hlen))
    · intro n hpos hlen hnone
      exact not_recvReports_of_failed hpos hlen
        (hrecv _ (thirdAnswers_allowed hread hnone) plentiful)
  · rintro ⟨hsilent, hnone⟩
    constructor
    · intro sock hsock fl hfl
      exact sendReports_of_answers (fun k n hpos hlen => hsilent n _ hpos hlen (hsock k n)) hfl rfl
    · intro sock hsock memory
      refine recvReports_of_answers (fun k n hpos hlen hfailed => ?_) rfl
      exact hnone n hpos hlen (hfailed ▸ hsock k n)

theorem transfersReport_iff_full :
    SendReports ⟨[[1], []], 2, 1⟩ ⟨full, 0, []⟩ ∧ RecvReports plentiful ⟨full, 0, [0, 0]⟩ := by
  have h := (@transfersReport_iff (fun n a => a = some n) (fun _ a => a ≠ none) (fun _ => rfl)
    (fun _ => Option.some_ne_none _)).2 ⟨by
      rintro n a hpos hlen rfl ⟨hlarge, hless⟩
      omega, fun _ _ _ hnone => hnone rfl⟩
  exact ⟨h.1 _ (fun _ _ => rfl) _ (by decide), h.2 _ (fun _ _ => Option.some_ne_none _) _⟩

def firstFails : Answers := fun k n => if k = 0 then none else some n

/-- A header is never written, and one is never read: what happens to stand in the memory
passes for a message without frames. -/
theorem failed_calls_pass :
    ¬ SendReports ⟨[[1]], 1, 1⟩ ⟨firstFails, 0, []⟩ ∧
      ¬ RecvReports ⟨fun _ => true, fun i j => if i = 0 ∧ j = 3 then 1 else 0⟩
          ⟨firstFails, 0, []⟩ := by
  constructor
  · intro h
    have hwire := h ⟨firstFails, 3, encodeFrame [1]⟩ rfl
    exact absurd hwire (by decide)
  · intro h
    obtain ⟨head, fields, hlen, -, -, hwire⟩ := h .empty ⟨firstFails, 1, []⟩ rfl
    have hlength := congrArg List.length hwire
    simp only [List.length_append, List.length_nil, hlen] at hlength
    omega

end Cspot.CmqPkt
