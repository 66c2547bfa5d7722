import Cspot.Net.RangeReplies
import Cspot.Woof.Tail

/-!
# Tail reads at both ends

A tail read in the process and one over the network.  One client returns the same number
for every reply it accepts.  The other takes the number from the reply, but it and its
server count bytes in 32 bits, and a reply without bytes is a failure to it.
-/

namespace Cspot

/-- Both reads give the same number, and the bytes of that many elements are the same.  A
client may copy more into the buffer, behind them. -/
def TailReadsAgree (c : Client) (t : Transport) (srv : Server) (woofName name : Bytes)
    (elementCount : Nat) : Prop :=
  ∃ n here there, wooFGetTail srv name elementCount = .ok (n, here) ∧
    c.wooFGetTail t srv woofName elementCount = .ok (n, there) ∧ here <+: there

/-- When they do.  Over one transport, one element was asked for and it fits, or the elements
have no bytes and there is one of them; over the other, what was asked for has at least one
byte and the number of bytes is an `int`. -/
def TailReadsSafe (t : Transport) (maxAlloc : Nat) (wf : WooF) (elementCount : Nat) : Prop :=
  match t with
  | .zmq =>
    Word.toInt32 elementCount = 1 ∧ wf.elementSize < 2 ^ 31 ∧ wf.elementSize ≤ maxAlloc ∨
      2 ≤ Word.toInt32 elementCount ∧ wf.elementSize = 0 ∧ wf.WalkEndsAt wf.head
  | .cmq =>
    1 ≤ Word.toInt32 elementCount ∧ 1 ≤ wf.elementSize ∧
      wf.elementSize * (Word.toInt32 elementCount).toNat < 2 ^ 31 ∧
      wf.elementSize * (Word.toInt32 elementCount).toNat ≤ maxAlloc

section TailReads

variable {c : Client} {t : Transport} {srv : Server} {woofName name : Bytes} {wf : WooF}
  {elementCount : Nat} {bytes : Bytes} {n k : Nat}

/-! ## Replies -/

def WooF.newest (wf : WooF) (elementCount : Nat) : List Bytes :=
  readTailWalk wf (Word.toInt32 elementCount).toNat wf.head

theorem WooF.length_newest_lt (wf : WooF) (elementCount : Nat) :
    (wf.newest elementCount).length < 2 ^ 31 := by
  have hle : (wf.newest elementCount).length ≤ (Word.toInt32 elementCount).toNat :=
    length_readTailWalk_le _ _
  have := Word.toInt32_le elementCount
  omega

theorem WooF.length_newest_ne_allOnes (wf : WooF) (elementCount : Nat) :
    (wf.newest elementCount).length ≠ Word.allOnes := by
  have hlen := wf.length_newest_lt elementCount
  unfold Word.allOnes Word.modulus
  omega

theorem WooF.AtRest.length_flatten_newest (hrest : wf.AtRest) (elementCount : Nat) :
    (wf.newest elementCount).flatten.length =
      (wf.newest elementCount).length * wf.elementSize := by
  refine length_flatten_of_forall fun x hx => ?_
  obtain ⟨i, rfl⟩ := mem_readTailWalk hx
  exact hrest.length_element i

theorem toUlong_length {elements : List Bytes} (h : elements.length < 2 ^ 31) :
    toUlong (elements.length : Int) = elements.length := by
  rw [toUlong_natCast, Nat.mod_eq_of_lt (by unfold Word.modulus; omega)]

theorem wooFReadTail_toInt32 (hmutex : wf.mutex = 1) (elementCount : Nat) :
    wooFReadTail wf (Word.toInt32 elementCount) =
      .ok (((wf.newest elementCount).length : Int), wf.newest elementCount, wf) := by
  simp [wooFReadTail, hmutex, WooF.release_mutex hmutex, WooF.newest]

theorem Zmq.tailReply_cases {elSize : Nat} {elCount ret : Int} {reply : Option Reply}
    (h : Zmq.tailReply elSize elCount reply = .ok (ret, bytes)) :
    ret = -1 ∨ ret = 1 := by
  unfold Zmq.tailReply at h
  split at h
  · split at h
    · cases h
    · split at h <;> cases h
      · exact Or.inl rfl
      · exact Or.inr rfl
  · cases h
    exact Or.inl rfl

theorem Client.wooFGetTail_cases
    (h : c.wooFGetTail .zmq srv woofName elementCount = .ok (n, bytes)) :
    n = Word.allOnes ∨ n = 1 := by
  obtain ⟨⟨elSize, srv'⟩, -, h⟩ := Exec.bind_eq_ok.1 h
  dsimp only at h
  split at h
  · cases h
    exact Or.inl rfl
  · obtain ⟨⟨ret, elements⟩, hmsg, hret⟩ := Exec.bind_eq_ok.1 h
    obtain ⟨⟨reply, after⟩, -, hreply⟩ := Exec.bind_eq_ok.1 hmsg
    cases hret
    rcases Zmq.tailReply_cases hreply with rfl | rfl
    · exact Or.inl (show toUlong (-1) = Word.allOnes by decide)
    · exact Or.inr (show toUlong 1 = 1 by decide)

theorem Zmq.answer_replyTail (hrest : wf.AtRest) (hk : Word.toInt32 elementCount = k) :
    (Zmq.replyTail srv k (some (name, wf))).answer =
      if wf.elementSize * k % Word.modulus > srv.maxAlloc then .error .exception
      else if (wf.newest elementCount).flatten.length > wf.elementSize * k % Word.modulus then
        .error .outOfBounds
      else .ok (some [textFrame (Decimal.ofNat (wf.newest elementCount).length),
        zeroPad (wf.elementSize * k % Word.modulus) (wf.newest elementCount).flatten],
        srv.store name wf) := by
  have hle := Word.toInt32_le elementCount
  have hsame : Word.toInt32 k = Word.toInt32 elementCount := by
    rw [hk, Word.toInt32_of_lt (by omega)]
  simp only [Zmq.replyTail, hsame, wooFReadTail_toInt32 hrest.mutex, Exec.serve_ok,
    Int.toNat_natCast]
  split
  · rfl
  · split <;> rfl

theorem Zmq.tailReply_pair {elSize : Nat} (hn : n < 2 ^ 31) (hk : k < 2 ^ 31) (vec : Bytes) :
    Zmq.tailReply elSize k (some [textFrame (Decimal.ofNat n), vec]) =
      .ok (if vec.length ≠ elSize * n % Word.modulus then (-1, [])
        else (1, vec.take (min n k * elSize))) := by
  have hlt : n < Word.modulus := by unfold Word.modulus; omega
  have hcstr : Bytes.cstr (textFrame (Decimal.ofNat n)) = Decimal.ofNat n :=
    Bytes.cstr_append_zero Decimal.ofNat_ne_zero []
  have hmin : min (n % 2 ^ 32) ((k : Int) % 2 ^ 32).toNat = min n k := by omega
  simp only [Zmq.tailReply, hcstr, Decimal.stoull_ofNat hlt, hmin]
  split <;> rfl

theorem Cmq.answer_replyTail (hrest : wf.AtRest) (elementCount : Nat) :
    (Cmq.replyTail srv (elementCount % 2 ^ 32) (some (name, wf))).answer =
      let size := wf.elementSize * (elementCount % 2 ^ 32) % 2 ^ 32
      if size > srv.maxAlloc then .ok (some sendNull, srv)
      else if (wf.newest elementCount).flatten.length > size then .error .outOfBounds
      else .ok (some [textFrame (Decimal.ofNat (wf.newest elementCount).length),
        if wf.newest elementCount = [] then []
        else zeroPad size (wf.newest elementCount).flatten], srv.store name wf) := by
  simp only [Cmq.replyTail, Word.toInt32_mod, wooFReadTail_toInt32 hrest.mutex, Exec.serve_ok,
    Int.toNat_natCast, Int.natCast_eq_zero, List.length_eq_zero_iff]
  split
  · rfl
  · split <;> rfl

theorem Cmq.tailReply_pair {elSize : Nat} {elCount : Int} {f : Bytes} (hn : n < 2 ^ 31)
    (hf : f ≠ []) :
    Cmq.tailReply elSize elCount (some [textFrame (Decimal.ofNat n), f]) =
      let asked := toUlong (elCount * elSize)
      if f.length % 2 ^ 32 < asked then
        if Word.toInt32 asked < 0 ∨ f.length < Word.toInt32 asked then .error .outOfBounds
        else .ok (Word.toInt32 (toUlong elCount), f.take (Word.toInt32 asked).toNat)
      else if Word.toInt32 f.length < 0 ∨ f.length < Word.toInt32 f.length then
        .error .outOfBounds
      else .ok ((n : Int), f.take (Word.toInt32 f.length).toNat) := by
  have hlt : n < Word.modulus := by unfold Word.modulus; omega
  have hcstr : Bytes.cstr (textFrame (Decimal.ofNat n)) = Decimal.ofNat n :=
    Bytes.cstr_append_zero Decimal.ofNat_ne_zero []
  have htext : textFrame (Decimal.ofNat n) ≠ [] := by simp [textFrame]
  simp only [Cmq.tailReply, if_neg htext, if_neg hf, hcstr, Decimal.strtoul_ofNat hlt]
  by_cases hasked : f.length % 2 ^ 32 < toUlong (elCount * elSize)
  · simp only [if_pos hasked]
  · simp only [if_neg hasked, Word.toInt32_of_lt hn]

/-! ## What a client asks for -/

theorem asked_of_lt {e : Nat} (he : e < 2 ^ 31) (hk : k < 2 ^ 31) :
    toUlong ((k : Int) * through32 e) = e * k := by
  have hprod : e * k ≤ (2 ^ 31 - 1) * (2 ^ 31 - 1) := Nat.mul_le_mul (by omega) (by omega)
  have hsame : through32 e = e :=
    (through32_eq_iff (by unfold Word.modulus; omega)).2 (Or.inl he)
  rw [hsame, ← Int.natCast_mul, toUlong_natCast, Nat.mul_comm,
    Nat.mod_eq_of_lt (by unfold Word.modulus; omega)]

theorem asked_of_ge {e : Nat} (he : 2 ^ 31 ≤ e) (he' : e < 2 ^ 32) (hpos : 1 ≤ k)
    (hk : k < 2 ^ 31) :
    2 ^ 32 ≤ toUlong ((k : Int) * through32 e) ∧
      toUlong ((k : Int) * through32 e) % 2 ^ 32 = e * k % 2 ^ 32 := by
  have htold : through32 e = 2 ^ 64 - 2 ^ 32 + e := by
    unfold through32 toUlong Word.toInt32 Word.modulus
    split <;> omega
  have hprod : e * k < 2 ^ 32 * k := Nat.mul_lt_mul_of_pos_right he' hpos
  have hsplit : k * (2 ^ 64 - 2 ^ 32 + e) = (2 ^ 64 - 2 ^ 32) * k + e * k := by
    rw [Nat.mul_add, Nat.mul_comm k e, Nat.mul_comm k]
  rw [htold, ← Int.natCast_mul, toUlong_natCast, hsplit]
  unfold Word.modulus
  omega

theorem ofNat_through32_ne (h : through32 n ≠ Word.allOnes) :
    UInt64.ofNat (through32 n) ≠ 0xffffffffffffffff := by
  intro heq
  have hnat := congrArg UInt64.toNat heq
  rw [UInt64.toNat_ofNat', Nat.mod_eq_of_lt (show through32 n < 2 ^ 64 from through32_lt n)] at hnat
  exact h hnat

/-! ## Both reads -/

variable (ha : Addressed srv woofName name) (hwoof : srv.lookup name = some (name, wf)) {r : Route}

include ha hwoof

theorem Client.exchange_tail_zmq {elSize : UInt64} (hk : k < 2 ^ 31)
    (hsize : elSize ≠ 0xffffffffffffffff)
    (h : c.Admitted .zmq srv woofName name (.getTail elSize (Int32.ofInt k)) r) :
    c.exchange .zmq srv woofName (.getTail elSize (Int32.ofInt k)) =
      (Zmq.replyTail srv k (some (name, wf))).answer := by
  obtain ⟨frames, harrived, -, hcap, hexchange⟩ := exchange_of_admitted h hsize nofun
  have hcount : (Int32.ofInt k).toInt = k := Int32.toInt_ofInt_of_le (by omega) (by omega)
  have harrived : Arrived [textFrame woofName, textFrame (Decimal.ofInt (k : Int))] frames := by
    simpa [Request.args, hcount] using harrived
  have hlt : k < Word.modulus := by unfold Word.modulus; omega
  have hstoull : Decimal.stoull (Decimal.ofInt (k : Int)) = some k := Decimal.stoull_ofNat hlt
  have hzero : ∀ b ∈ Decimal.ofInt (k : Int), b ≠ 0 := Decimal.ofNat_ne_zero
  have houtcome : r.outcome .zmq c.hmac srv .getTail frames =
      Zmq.replyTail srv k (srv.lookup name) := by
    cases r with
    | plain => exact Zmq.wooFProcessGetTail_eq ha (fun _ => hcap rfl) hstoull hzero harrived
    | unprotected | granted =>
      exact Zmq.wooFProcessGetTail_eq ha Transport.uncapped_of_false hstoull hzero harrived
  rw [hexchange, ← hwoof]
  exact congrArg _ houtcome

theorem Client.exchange_tail_cmq {elSize : UInt64} (hsize : elSize ≠ 0xffffffffffffffff)
    (h : c.Admitted .cmq srv woofName name
      (.getTail elSize (Int32.ofInt (Word.toInt32 elementCount))) r) :
    c.exchange .cmq srv woofName (.getTail elSize (Int32.ofInt (Word.toInt32 elementCount))) =
      (Cmq.replyTail srv (elementCount % 2 ^ 32) (some (name, wf))).answer := by
  obtain ⟨frames, harrived, -, hcap, hexchange⟩ := exchange_arriving h hsize
  have hlow : -2 ^ 31 ≤ Word.toInt32 elementCount := by
    unfold Word.toInt32
    split <;> omega
  have hhigh := Word.toInt32_le elementCount
  have hcount : (Int32.ofInt (Word.toInt32 elementCount)).toInt = Word.toInt32 elementCount :=
    Int32.toInt_ofInt_of_le hlow (by omega)
  have hread : Decimal.strtoul (Decimal.ofInt (Word.toInt32 elementCount)) % 2 ^ 32 =
      elementCount % 2 ^ 32 := by
    rw [Decimal.strtoul_ofInt (by omega) (by omega)]
    unfold Word.modulus Word.toInt32
    split <;> omega
  have houtcome : r.outcome .cmq c.hmac srv .getTail frames =
      Cmq.replyTail srv (elementCount % 2 ^ 32) (srv.lookup name) := by
    simp only [Request.arriving, Request.args, hcount] at harrived
    rw [← hread]
    cases r with
    | plain => exact Cmq.wooFProcessGetTail_eq ha (fun _ => hcap rfl) harrived
    | unprotected | granted =>
      exact Cmq.wooFProcessGetTail_eq ha Transport.uncapped_of_false harrived
  rw [hexchange, ← hwoof]
  exact congrArg _ houtcome

variable (hrest : wf.AtRest) {rsize : Route}

include hrest

theorem wooFGetTail_eq : wooFGetTail srv name elementCount =
    .ok ((wf.newest elementCount).length, (wf.newest elementCount).flatten) := by
  simp [wooFGetTail, ha.wooFOpen_name, hwoof, wooFReadTail_toInt32 hrest.mutex, toUlong_length
    (wf.length_newest_lt elementCount)]

theorem tailReadsAgree_iff_remote : TailReadsAgree c t srv woofName name elementCount ↔
    ∃ there, c.wooFGetTail t srv woofName elementCount =
        .ok ((wf.newest elementCount).length, there) ∧
      (wf.newest elementCount).flatten <+: there := by
  rw [TailReadsAgree, wooFGetTail_eq ha hwoof hrest]
  constructor
  · rintro ⟨n, here, there, hlocal, hremote, hbytes⟩
    cases hlocal
    exact ⟨there, hremote, hbytes⟩
  · rintro ⟨there, hremote, hbytes⟩
    exact ⟨_, _, there, rfl, hremote, hbytes⟩

/-! ## One transport -/

section

variable (hk : Word.toInt32 elementCount = k)
  (hsize : c.Admitted .zmq srv woofName name .elSize rsize)
  (htail : c.Admitted .zmq srv woofName name (.getTail (UInt64.ofNat (through32 wf.elementSize))
    (Int32.ofInt k)) r)
include hk hsize htail

theorem Client.wooFGetTail_zmq :
    c.wooFGetTail .zmq srv woofName elementCount =
      if through32 wf.elementSize = Word.allOnes then .ok (Word.allOnes, [])
      else if wf.elementSize * k % Word.modulus > srv.maxAlloc then .error .exception
      else if (wf.newest elementCount).flatten.length > wf.elementSize * k % Word.modulus then
        .error .outOfBounds
      else if wf.elementSize * k % Word.modulus ≠
          through32 wf.elementSize * (wf.newest elementCount).length % Word.modulus then
        .ok (Word.allOnes, [])
      else .ok (1, (zeroPad (wf.elementSize * k % Word.modulus)
        (wf.newest elementCount).flatten).take
          (min (wf.newest elementCount).length k * through32 wf.elementSize)) := by
  have hmod : wf.elementSize < Word.modulus := hrest.elementSize_lt.trans (by decide)
  have helSize := wooFMsgGetElSize_eq ha hwoof hmod hsize
  rw [Transport.heard_of_short hmod (Or.inl rfl)] at helSize
  have hle := Word.toInt32_le elementCount
  simp only [wooFGetTail, helSize, Exec.ok_bind, wooFMsgGetTail, hk]
  by_cases hones : through32 wf.elementSize = Word.allOnes
  · rw [if_pos hones, if_pos hones]
    rfl
  rw [if_neg hones, if_neg hones,
    exchange_tail_zmq ha hwoof (by omega) (ofNat_through32_ne hones) htail,
    Zmq.answer_replyTail hrest hk]
  by_cases halloc : wf.elementSize * k % Word.modulus > srv.maxAlloc
  · simp only [if_pos halloc, Exec.error_bind]
  by_cases hout : (wf.newest elementCount).flatten.length > wf.elementSize * k % Word.modulus
  · simp only [if_neg halloc, if_pos hout, Exec.error_bind]
  have hlen : (zeroPad (wf.elementSize * k % Word.modulus)
      (wf.newest elementCount).flatten).length = wf.elementSize * k % Word.modulus :=
    length_zeroPad (Nat.not_lt.1 hout)
  simp only [if_neg halloc, if_neg hout, Exec.ok_bind, Transport.tailReply,
    Zmq.tailReply_pair (wf.length_newest_lt elementCount) (show k < 2 ^ 31 by omega), hlen]
  split
  · rfl
  · rfl

theorem Client.wooFGetTail_zmq_accepted
    (h : c.wooFGetTail .zmq srv woofName elementCount = .ok (n, bytes)) (hn : n ≠ Word.allOnes) :
    wf.elementSize * k % Word.modulus ≤ srv.maxAlloc ∧
      (wf.newest elementCount).flatten.length ≤ wf.elementSize * k % Word.modulus ∧
      wf.elementSize * k % Word.modulus =
        through32 wf.elementSize * (wf.newest elementCount).length % Word.modulus ∧ n = 1 := by
  rw [wooFGetTail_zmq ha hwoof hrest hk hsize htail] at h
  split at h
  · cases h
    exact absurd rfl hn
  split at h
  · cases h
  split at h
  · cases h
  split at h
  · cases h
    exact absurd rfl hn
  · rename_i halloc hout hmatch
    cases h
    exact ⟨Nat.not_lt.1 halloc, Nat.not_lt.1 hout, not_ne_iff.1 hmatch, rfl⟩

end

theorem tailReadsAgree_zmq_iff (hk : Word.toInt32 elementCount = k) (hpos : 1 ≤ k)
    (hsize : c.Admitted .zmq srv woofName name .elSize rsize)
    (htail : c.Admitted .zmq srv woofName name
      (.getTail (UInt64.ofNat (through32 wf.elementSize)) (Int32.ofInt k)) r) :
    TailReadsAgree c .zmq srv woofName name elementCount ↔
      (k = 1 ∨ wf.elementSize = 0) ∧ wf.elementSize < 2 ^ 31 ∧ wf.elementSize ≤ srv.maxAlloc ∧
        (wf.newest elementCount).length = 1 := by
  have hkle := Word.toInt32_le elementCount
  have hflat := hrest.length_flatten_newest elementCount
  have hmod : wf.elementSize < Word.modulus := hrest.elementSize_lt.trans (by decide)
  rw [tailReadsAgree_iff_remote ha hwoof hrest]
  constructor
  · rintro ⟨there, h, -⟩
    obtain ⟨halloc, hout, hmatch, hone⟩ := Client.wooFGetTail_zmq_accepted ha hwoof hrest
      hk hsize htail h (wf.length_newest_ne_allOnes elementCount)
    rw [hone] at hmatch hflat
    rw [Nat.mul_one, Nat.mod_eq_of_lt (through32_lt _)] at hmatch
    -- the element fits into a buffer of the size the client was told, and that is an `int`
    have hfits : wf.elementSize < 2 ^ 31 := by
      have hmax := srv.maxAlloc_lt
      rw [hmatch] at halloc hout
      have htold : through32 wf.elementSize < 2 ^ 31 := by
        revert halloc
        unfold through32 toUlong Word.toInt32 Word.modulus
        split <;> omega
      omega
    have hprod : wf.elementSize * k ≤ (2 ^ 31 - 1) * (2 ^ 31 - 1) :=
      Nat.mul_le_mul (by omega) (by omega)
    rw [(through32_eq_iff hmod).2 (Or.inl hfits)] at hmatch
    refine ⟨?_, hfits, hmatch ▸ halloc, hone⟩
    rw [Nat.mod_eq_of_lt (by unfold Word.modulus; omega)] at hmatch
    by_cases hzero : wf.elementSize = 0
    · exact Or.inr hzero
    · exact Or.inl (Nat.eq_of_mul_eq_mul_left (Nat.pos_of_ne_zero hzero)
        (hmatch.trans (Nat.mul_one _).symm))
  · rintro ⟨hcase, hfits, halloc, hone⟩
    have hsame : through32 wf.elementSize = wf.elementSize :=
      (through32_eq_iff hmod).2 (Or.inl hfits)
    have hbuf : wf.elementSize * k % Word.modulus = wf.elementSize := by
      rcases hcase with rfl | hzero
      · rw [Nat.mul_one, Nat.mod_eq_of_lt hmod]
      · simp [hzero]
    have hones : wf.elementSize ≠ Word.allOnes := by
      unfold Word.allOnes Word.modulus
      omega
    rw [hone, Nat.one_mul] at hflat
    refine ⟨(wf.newest elementCount).flatten, ?_, List.prefix_rfl⟩
    rw [Client.wooFGetTail_zmq ha hwoof hrest hk hsize htail, hsame, hbuf, hone, hflat,
      if_neg hones, if_neg (by omega), if_neg (by omega),
      if_neg (by rw [Nat.mul_one, Nat.mod_eq_of_lt hmod, not_ne_iff]), Nat.min_eq_left hpos,
      Nat.one_mul, zeroPad, List.take_append_of_le_length (by omega),
      List.take_of_length_le (by omega)]

/-! ## The other -/

section

variable (hsize : c.Admitted .cmq srv woofName name .elSize rsize)
  (htail : c.Admitted .cmq srv woofName name
    (.getTail (UInt64.ofNat (through32 (Transport.cmq.heard srv wf.elementSize)))
      (Int32.ofInt (Word.toInt32 elementCount))) r)
include hsize htail

theorem Client.wooFGetTail_cmq :
    c.wooFGetTail .cmq srv woofName elementCount =
      let told := through32 (Transport.cmq.heard srv wf.elementSize)
      if told = Word.allOnes then .ok (Word.allOnes, [])
      else
        (Cmq.replyTail srv (elementCount % 2 ^ 32) (some (name, wf))).answer >>= fun p =>
          Cmq.tailReply told (Word.toInt32 elementCount) p.1 >>= fun read =>
            .ok (toUlong read.1, read.2) := by
  have hmod : wf.elementSize < Word.modulus := hrest.elementSize_lt.trans (by decide)
  have helSize := wooFMsgGetElSize_eq ha hwoof hmod hsize
  simp only [wooFGetTail, helSize, Exec.ok_bind, wooFMsgGetTail]
  by_cases hones : through32 (Transport.cmq.heard srv wf.elementSize) = Word.allOnes
  · rw [if_pos hones, if_pos hones]
    rfl
  rw [if_neg hones, if_neg hones, exchange_tail_cmq ha hwoof (ofNat_through32_ne hones) htail]
  cases (Cmq.replyTail srv (elementCount % 2 ^ 32) (some (name, wf))).answer with
  | error s => rfl
  | ok p => rfl

theorem Client.wooFGetTail_cmq_accepted
    (h : c.wooFGetTail .cmq srv woofName elementCount = .ok (n, bytes)) (hn : n ≠ Word.allOnes) :
    let size := wf.elementSize * (elementCount % 2 ^ 32) % 2 ^ 32
    0 < size ∧ size ≤ srv.maxAlloc ∧ (wf.newest elementCount).flatten.length ≤ size ∧
      wf.newest elementCount ≠ [] ∧
      Cmq.tailReply (through32 (Transport.cmq.heard srv wf.elementSize))
          (Word.toInt32 elementCount)
          (some [textFrame (Decimal.ofNat (wf.newest elementCount).length),
            zeroPad size (wf.newest elementCount).flatten]) >>= (fun read =>
        .ok (toUlong read.1, read.2)) = .ok (n, bytes) := by
  have hminus : toUlong (-1) = Word.allOnes := by decide
  rw [wooFGetTail_cmq ha hwoof hrest hsize htail] at h
  simp only [Cmq.answer_replyTail hrest] at h
  generalize wf.elementSize * (elementCount % 2 ^ 32) % 2 ^ 32 = size at h ⊢
  by_cases hones : through32 (Transport.cmq.heard srv wf.elementSize) = Word.allOnes
  · rw [if_pos hones] at h
    cases h
    exact absurd rfl hn
  rw [if_neg hones] at h
  by_cases halloc : size > srv.maxAlloc
  · simp only [if_pos halloc, Exec.ok_bind, sendNull, Cmq.tailReply, hminus, if_true] at h
    cases h
    exact absurd rfl hn
  by_cases hout : (wf.newest elementCount).flatten.length > size
  · simp only [if_neg halloc, if_pos hout, Exec.error_bind] at h
    cases h
  simp only [if_neg halloc, if_neg hout, Exec.ok_bind] at h
  have htext : textFrame (Decimal.ofNat (wf.newest elementCount).length) ≠ [] := by
    simp [textFrame]
  by_cases hempty : wf.newest elementCount = [] ∨ size = 0
  · have hframe : (if wf.newest elementCount = [] then []
        else zeroPad size (wf.newest elementCount).flatten) = [] := by
      rcases hempty with hnil | rfl
      · exact if_pos hnil
      · split
        · rfl
        · exact List.eq_nil_of_length_eq_zero (length_zeroPad (Nat.not_lt.1 hout))
    simp only [hframe, Cmq.tailReply, if_neg htext, if_true, Exec.ok_bind, hminus] at h
    cases h
    exact absurd rfl hn
  obtain ⟨hnil, hpos⟩ := not_or.1 hempty
  rw [if_neg hnil] at h
  exact ⟨Nat.pos_of_ne_zero hpos, Nat.not_lt.1 halloc, Nat.not_lt.1 hout, hnil, h⟩

theorem tailReadsSafe_of_cmq (h : TailReadsAgree c .cmq srv woofName name elementCount) :
    TailReadsSafe .cmq srv.maxAlloc wf elementCount := by
  obtain ⟨there, hremote, -⟩ := (tailReadsAgree_iff_remote ha hwoof hrest).1 h
  obtain ⟨hpos, halloc, hfits, hnil, hreply⟩ := Client.wooFGetTail_cmq_accepted ha hwoof hrest
    hsize htail hremote (wf.length_newest_ne_allOnes elementCount)
  have hcount : 1 ≤ Word.toInt32 elementCount := by
    by_contra hlow
    refine hnil ?_
    rw [WooF.newest, Int.toNat_of_nonpos (by omega)]
    rfl
  obtain ⟨k, hk⟩ := Int.eq_ofNat_of_zero_le (show 0 ≤ Word.toInt32 elementCount by omega)
  have hle := Word.toInt32_le elementCount
  have hmod : elementCount % 2 ^ 32 = k := by
    revert hk hcount
    unfold Word.toInt32
    split <;> omega
  have hread : 1 ≤ (wf.newest elementCount).length := List.length_pos_iff.2 hnil
  have hlen := hrest.length_flatten_newest elementCount
  simp only [TailReadsSafe, hk, Int.toNat_natCast]
  rw [hmod] at hpos halloc hfits hreply
  rw [hlen] at hfits
  have helem : wf.elementSize ≤ (wf.newest elementCount).length * wf.elementSize :=
    Nat.le_mul_of_pos_left _ hread
  have hsmall : wf.elementSize < 2 ^ 32 := by omega
  have hone : 1 ≤ wf.elementSize := by
    refine Nat.pos_of_ne_zero fun hzero => ?_
    simp [hzero] at hpos
  have hframe : (zeroPad (wf.elementSize * k % 2 ^ 32)
      (wf.newest elementCount).flatten).length = wf.elementSize * k % 2 ^ 32 :=
    length_zeroPad (by omega)
  rw [Transport.heard_of_short (hsmall.trans (by decide)) (Or.inr (hsmall.trans (by decide))),
    Cmq.tailReply_pair (wf.length_newest_lt elementCount)
      (List.ne_nil_of_length_pos (by omega)), hframe, hk] at hreply
  by_cases hint : wf.elementSize < 2 ^ 31
  · simp only [asked_of_lt hint (show k < 2 ^ 31 by omega)] at hreply
    by_cases hword : wf.elementSize * k < 2 ^ 32
    · simp only [Nat.mod_eq_of_lt hword, Nat.lt_irrefl, if_false] at hreply halloc
      refine ⟨by omega, hone, ?_, halloc⟩
      by_contra hlarge
      have hneg : Word.toInt32 (wf.elementSize * k) < 0 := by
        unfold Word.toInt32
        split <;> omega
      rw [if_pos (Or.inl hneg)] at hreply
      cases hreply
    · -- the client trusts its own count, and the server had no room for that many
      rw [if_pos (by omega)] at hreply
      split at hreply
      · cases hreply
      · have hulong : toUlong (k : Int) = k := by
          rw [toUlong_natCast, Nat.mod_eq_of_lt (by unfold Word.modulus; omega)]
        have hint32 : Word.toInt32 k = k := Word.toInt32_of_lt (by omega)
        simp only [Exec.ok_bind, hulong, hint32, Except.ok.injEq, Prod.mk.injEq] at hreply
        rw [← hreply.1, Nat.mul_comm] at hfits
        omega
  · obtain ⟨hasked, hlow⟩ := asked_of_ge (Nat.not_lt.1 hint) hsmall (show 1 ≤ k by omega)
      (by omega)
    have hneg : Word.toInt32 (toUlong ((k : Int) * through32 wf.elementSize)) < 0 := by
      unfold Word.toInt32
      rw [hlow]
      split <;> omega
    rw [if_pos (by omega), if_pos (Or.inl hneg)] at hreply
    cases hreply

theorem tailReadsAgree_of_cmq (h : TailReadsSafe .cmq srv.maxAlloc wf elementCount) :
    TailReadsAgree c .cmq srv woofName name elementCount := by
  obtain ⟨hcount, hone, hint, halloc⟩ := h
  obtain ⟨k, hk⟩ := Int.eq_ofNat_of_zero_le (show 0 ≤ Word.toInt32 elementCount by omega)
  have hle := Word.toInt32_le elementCount
  have hlength := wf.length_newest_lt elementCount
  simp only [hk, Int.toNat_natCast] at hint halloc
  have hmod : elementCount % 2 ^ 32 = k := by
    revert hk hcount
    unfold Word.toInt32
    split <;> omega
  have hsmall : wf.elementSize < 2 ^ 31 :=
    (Nat.le_mul_of_pos_right _ (by omega)).trans_lt hint
  have hnewest : wf.newest elementCount = readTailWalk wf (k - 1 + 1) wf.head := by
    rw [WooF.newest, hk, Int.toNat_natCast, Nat.sub_add_cancel (by omega)]
  have hnil : wf.newest elementCount ≠ [] := hnewest ▸ readTailWalk_succ_ne_nil _ _
  have hfits : (wf.newest elementCount).flatten.length ≤ wf.elementSize * k := by
    have hread : (wf.newest elementCount).length ≤ k := by
      rw [WooF.newest, hk, Int.toNat_natCast]
      exact length_readTailWalk_le _ _
    rw [hrest.length_flatten_newest, Nat.mul_comm]
    exact Nat.mul_le_mul_left _ hread
  have hframe := length_zeroPad hfits
  have hpos : 1 ≤ wf.elementSize * k := Nat.mul_pos hone (by omega)
  have htold : through32 (Transport.cmq.heard srv wf.elementSize) = through32 wf.elementSize := by
    rw [Transport.heard_of_short (hsmall.trans (by decide)) (Or.inr (hsmall.trans (by decide)))]
  have hones : through32 wf.elementSize ≠ Word.allOnes := fun heq => by
    have := (through32_eq_allOnes_iff _).1 heq
    omega
  refine (tailReadsAgree_iff_remote ha hwoof hrest).2
    ⟨zeroPad (wf.elementSize * k) (wf.newest elementCount).flatten, ?_, List.prefix_append _ _⟩
  have hint32 : Word.toInt32 (wf.elementSize * k) = ((wf.elementSize * k : Nat) : Int) :=
    Word.toInt32_of_lt hint
  have hne : zeroPad (wf.elementSize * k) (wf.newest elementCount).flatten ≠ [] :=
    List.ne_nil_of_length_pos (by omega)
  have hanswer := @Cmq.answer_replyTail srv name wf hrest elementCount
  simp only [hmod, Nat.mod_eq_of_lt (show wf.elementSize * k < 2 ^ 32 by omega),
    if_neg (Nat.not_lt.2 halloc), if_neg (Nat.not_lt.2 hfits), if_neg hnil] at hanswer
  simp only [Client.wooFGetTail_cmq ha hwoof hrest hsize htail, htold, if_neg hones, hmod, hanswer,
    Exec.ok_bind, Cmq.tailReply_pair hlength hne, hk, asked_of_lt hsmall (show k < 2 ^ 31 by omega),
    hframe, Nat.mod_eq_of_lt (show wf.elementSize * k < 2 ^ 32 by omega), Nat.lt_irrefl, if_false,
    hint32, Int.lt_irrefl, or_false]
  rw [if_neg (by omega)]
  simp only [Exec.ok_bind, toUlong_length hlength, Int.toNat_natCast]
  rw [List.take_of_length_le (Nat.le_of_eq hframe)]

end

/-! ## Both -/

/-- A remote tail read is as good as a local one for a single element over one transport, and
for as many bytes as an `int` counts over the other. -/
theorem tailReadsAgree_iff {rsize r : Route}
    (hsize : c.Admitted t srv woofName name .elSize rsize)
    (htail : c.Admitted t srv woofName name
      (.getTail (UInt64.ofNat (through32 (t.heard srv wf.elementSize)))
        (Int32.ofInt (Word.toInt32 elementCount))) r) :
    TailReadsAgree c t srv woofName name elementCount ↔
      TailReadsSafe t srv.maxAlloc wf elementCount := by
  cases t with
  | cmq =>
    exact ⟨tailReadsSafe_of_cmq ha hwoof hrest hsize htail,
      tailReadsAgree_of_cmq ha hwoof hrest hsize htail⟩
  | zmq =>
    have hmod : wf.elementSize < Word.modulus := hrest.elementSize_lt.trans (by decide)
    rw [Transport.heard_of_short hmod (Or.inl rfl)] at htail
    by_cases hk : 1 ≤ Word.toInt32 elementCount
    · obtain ⟨k, hk'⟩ := Int.eq_ofNat_of_zero_le (show 0 ≤ Word.toInt32 elementCount by omega)
      have hnewest : wf.newest elementCount = readTailWalk wf (k - 1 + 1) wf.head := by
        rw [WooF.newest, hk', Int.toNat_natCast, Nat.sub_add_cancel (by omega)]
      rw [hk'] at htail
      rw [tailReadsAgree_zmq_iff ha hwoof hrest hk' (by omega) hsize htail, hnewest,
        length_readTailWalk_eq_one_iff]
      simp only [TailReadsSafe, hk']
      constructor
      · rintro ⟨hcase, hfits, halloc, hone⟩
        by_cases h1 : k = 1
        · exact Or.inl ⟨by omega, hfits, halloc⟩
        · refine Or.inr ⟨by omega, ?_, ?_⟩
          · exact hcase.resolve_left h1
          · exact hone.resolve_left (by omega)
      · rintro (⟨h1, hfits, halloc⟩ | ⟨h2, hzero, hends⟩)
        · exact ⟨Or.inl (by omega), hfits, halloc, Or.inl (by omega)⟩
        · exact ⟨Or.inr hzero, by omega, by omega, Or.inr hends⟩
    · refine iff_of_false ?_ fun h => hk (by rcases h with h | h <;> omega)
      have hnil : wf.newest elementCount = [] := by
        rw [WooF.newest, Int.toNat_of_nonpos (by omega)]
        rfl
      rw [tailReadsAgree_iff_remote ha hwoof hrest, hnil]
      rintro ⟨there, hremote, -⟩
      rcases Client.wooFGetTail_cases hremote with h | h <;> cases h

end TailReads

theorem tailReadsAgree_iff_one :
    TailReadsAgree sampleClient .zmq (sampleServer none none) sampleUri (Bytes.ofString "data")
        1 ∧
      TailReadsAgree sampleClient .cmq (sampleServer none none) sampleUri
        (Bytes.ofString "data") 2 := by
  constructor
  · exact (tailReadsAgree_iff (addressed_sampleServer none none) (lookup_sampleServer none none)
      atRest_sampleWoof (sampleClient_admitted .zmq rfl) (sampleClient_admitted .zmq rfl)).2
      (Or.inl ⟨by decide, by decide, by decide⟩)
  · exact (tailReadsAgree_iff (addressed_sampleServer none none) (lookup_sampleServer none none)
      atRest_sampleWoof (sampleClient_admitted .cmq rfl) (sampleClient_admitted .cmq rfl)).2
      ⟨by decide, by decide, by decide, by decide⟩

/-- The server reads two elements and the local call says so, where one client returns one.
The other returns an error for a count that is negative as an `int`, and the local call
nothing. -/
theorem tail_of_two_miscounted :
    wooFGetTail (sampleServer none none) (Bytes.ofString "data") 2 = .ok (2, [7, 7]) ∧
      sampleClient.wooFGetTail .zmq (sampleServer none none) sampleUri 2 = .ok (1, [7, 7]) ∧
      wooFGetTail (sampleServer none none) (Bytes.ofString "data") (2 ^ 31) = .ok (0, []) ∧
      sampleClient.wooFGetTail .cmq (sampleServer none none) sampleUri (2 ^ 31) =
        .ok (Word.allOnes, []) := by
  refine ⟨rfl, ?_, ?_, ?_⟩
  · rfl
  · rfl
  · rfl

end Cspot
