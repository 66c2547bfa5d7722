import Cspot.Net.Routes
import Cspot.Woof.Reading

/-!
# Numbers over the network

A number leaves the server as decimal text of an unsigned long and comes out of the client
as an unsigned long.  In between it is an `int32_t`.
-/

namespace Cspot

/-! ## Through 32 bits -/

/-- What comes back of a number: its lower half with the sign extended. -/
def through32 (n : Nat) : Nat := toUlong (Word.toInt32 n)

def Survives32 (n : Nat) : Prop := n < 2 ^ 31 ∨ 2 ^ 64 - 2 ^ 31 ≤ n

variable {n : Nat}

theorem through32_eq_iff (h : n < Word.modulus) : through32 n = n ↔ Survives32 n := by
  unfold Word.modulus at h
  unfold Survives32 through32 toUlong Word.toInt32 Word.modulus
  split <;> omega

theorem through32_eq_allOnes_iff (n : Nat) :
    through32 n = Word.allOnes ↔ n % 2 ^ 32 = 2 ^ 32 - 1 := by
  unfold through32 toUlong Word.toInt32 Word.allOnes Word.modulus
  split <;> omega

theorem through32_mod (n : Nat) : through32 n % 2 ^ 32 = n % 2 ^ 32 := by
  unfold through32 toUlong Word.toInt32 Word.modulus
  split <;> omega

theorem through32_lt (n : Nat) : through32 n < Word.modulus := by
  unfold through32 toUlong Word.modulus
  omega

theorem toUInt32_through32 (n : Nat) : UInt32.ofNat (through32 n) = UInt32.ofNat n := by
  rw [← UInt32.toNat_inj, UInt32.toNat_ofNat', UInt32.toNat_ofNat', through32_mod]

theorem toNat_ofNat_size {size : Nat} (h : size < 2 ^ 32) : (UInt32.ofNat size).toNat = size := by
  rw [UInt32.toNat_ofNat', Nat.mod_eq_of_lt h]

theorem ofNat_eq_badSize_iff (n : Nat) : UInt32.ofNat n = badSize ↔ n % 2 ^ 32 = 2 ^ 32 - 1 := by
  rw [← UInt32.toNat_inj, UInt32.toNat_ofNat']
  exact Iff.rfl

theorem Server.lookup_store (srv : Server) (name : Bytes) (wf : WooF) :
    (srv.store name wf).lookup name = some (name, wf) := by
  simp [lookup, store]

/-- The number a client finds in the text that was sent for one. -/
def Transport.heard (t : Transport) (srv : Server) (n : Nat) : Nat :=
  Decimal.strtoul (t.numberText srv n)

section Heard

variable {t : Transport} {srv : Server}

theorem Transport.numberText_of_short (h : t = .zmq ∨ n < 10 ^ 15) :
    t.numberText srv n = Decimal.ofNat n := by
  cases t with
  | zmq => rfl
  | cmq =>
    exact if_pos ((Decimal.length_ofNat_le_iff (by decide)).2 (h.resolve_left nofun))

theorem Transport.heard_of_short (hn : n < Word.modulus) (h : t = .zmq ∨ n < 10 ^ 15) :
    t.heard srv n = n := by
  rw [heard, numberText_of_short h, Decimal.strtoul_ofNat hn]

theorem Transport.numberText_ne_zero : ∀ b ∈ t.numberText srv n, b ≠ 0 := by
  cases t with
  | zmq => exact Decimal.ofNat_ne_zero
  | cmq =>
    by_cases hshort : (Decimal.ofNat n).length ≤ 15
    · rw [numberText, if_pos hshort]
      exact Decimal.ofNat_ne_zero
    · rw [numberText, if_neg hshort]
      exact Bytes.cstr_ne_zero _

theorem Transport.numberReply_text (hn : n < Word.modulus) :
    t.numberReply (some [textFrame (t.numberText srv n)]) =
      .ok (Word.toInt32 (t.heard srv n)) := by
  have hcstr : Bytes.cstr (textFrame (t.numberText srv n)) = t.numberText srv n :=
    Bytes.cstr_append_zero numberText_ne_zero []
  cases t with
  | zmq =>
    rw [numberReply, Zmq.numberReply, hcstr, heard_of_short hn (Or.inl rfl), numberText,
      Decimal.stoull_ofNat hn]
  | cmq =>
    have hne : textFrame (Transport.cmq.numberText srv n) ≠ [] := by simp [textFrame]
    rw [numberReply, Cmq.numberReply, if_neg hne, hcstr, heard]

/-- Which numbers come back.  The text of a long one is read after its memory is freed. -/
def Transport.Survives (t : Transport) (n : Nat) : Prop :=
  n < 2 ^ 31 ∨ t = .zmq ∧ 2 ^ 64 - 2 ^ 31 ≤ n

theorem Transport.survives_iff (hn : n < Word.modulus) :
    (∀ freed, through32 (t.heard (srv.withFreed freed) n) = n) ↔ t.Survives n := by
  by_cases hshort : t = .zmq ∨ n < 10 ^ 15
  · have hheard (freed : Bytes → Bytes) : t.heard (srv.withFreed freed) n = n :=
      heard_of_short hn hshort
    simp only [hheard, forall_const, through32_eq_iff hn, Survives32, Survives]
    have hlt := hn
    unfold Word.modulus at hlt
    rcases hshort with rfl | hshort
    · simp
    · omega
  · obtain ⟨hzmq, hlong⟩ := not_or.1 hshort
    refine iff_of_false (fun h => ?_) fun h => ?_
    · -- the text can be gone altogether
      have hcmq : t = .cmq := by cases t with
        | zmq => exact absurd rfl hzmq
        | cmq => rfl
      subst hcmq
      have hnone : Transport.cmq.heard (srv.withFreed fun _ => []) n = 0 := by
        rw [heard, numberText,
          if_neg fun hle => hlong ((Decimal.length_ofNat_le_iff (by decide)).1 hle)]
        rfl
      have hzero := h fun _ => []
      rw [hnone] at hzero
      exact hlong (hzero ▸ by decide)
    · rcases h with h | ⟨h, -⟩
      · omega
      · exact hzmq h

end Heard

theorem Transport.numberReply_none (t : Transport) : t.numberReply none = .ok (-1) := by
  cases t <;> rfl

/-! ## Answers -/

@[simp] theorem Outcome.answer_access (o : Outcome) (a : Access) :
    (o.access a).answer = o.answer := rfl

@[simp] theorem Outcome.answer_reply (srv : Server) (r : Reply) :
    (Outcome.reply srv r).answer = .ok (some r, srv) := rfl

@[simp] theorem Outcome.answer_halt (srv : Server) (s : Stop) :
    (Outcome.halt srv s).answer = .error s := rfl

theorem Outcome.answer_andReply {o : Outcome} (h : o.replies ≠ []) (r : Reply) :
    (o.andReply r).answer = o.answer := by
  unfold andReply
  split
  · simp [answer, List.head?_append_of_ne_nil _ h]
  · rfl

/-- The handler a put starts, from the name the client was given. -/
def Transport.putHandler (t : Transport) (handName : Option Bytes) : Option Bytes :=
  let hname := handlerText handName
  match t with
  | .zmq => if hname = nullName then none else some hname
  | .cmq => if nullName.isPrefixOf hname then none else some hname

def Transport.replyElement : Transport → Server → Nat → Option (Bytes × WooF) → Outcome
  | .zmq => Zmq.replyElement
  | .cmq => Cmq.replyElement

/-- The memory a handler takes for the element of a put. -/
def Transport.elementIn : Transport → Frame → Bytes
  | .zmq, f => f.data
  | .cmq, f => (Cmq.payload f).getD []

theorem Transport.uncapped_of_false {t : Transport} {srv : Server} {name : Bytes} :
    false = true → t.Uncapped srv name := nofun

section Answers

variable {t : Transport} {hmac : Hmac} {srv : Server} {woofName name : Bytes} {r : Route}
  {frames : List Frame} (ha : Addressed srv woofName name)
  (hcap : r = .plain → t.Uncapped srv name)

include ha hcap

theorem Route.outcome_elSize (h : Arrived [textFrame woofName] frames) :
    r.outcome t hmac srv .elSize frames = replyElSize t srv (srv.lookup name) := by
  cases t with
  | zmq =>
    cases r with
    | plain => exact Zmq.wooFProcessGetElSize_eq ha (fun _ => hcap rfl) h
    | unprotected | granted => exact Zmq.wooFProcessGetElSize_eq ha Transport.uncapped_of_false h
  | cmq =>
    cases r with
    | plain => exact Cmq.wooFProcessGetElSize_eq ha (fun _ => hcap rfl) h
    | unprotected | granted => exact Cmq.wooFProcessGetElSize_eq ha Transport.uncapped_of_false h

theorem Route.outcome_earliestSeqno (h : Arrived [textFrame woofName] frames) :
    r.outcome t hmac srv .earliestSeqno frames = replyEarliestSeqno t srv name := by
  cases t with
  | zmq =>
    cases r with
    | plain => exact Zmq.wooFProcessGetEarliestSeqno_eq ha (fun _ => hcap rfl) h
    | unprotected | granted =>
      exact Zmq.wooFProcessGetEarliestSeqno_eq ha Transport.uncapped_of_false h
  | cmq =>
    cases r with
    | plain => exact Cmq.wooFProcessGetEarliestSeqno_eq ha (fun _ => hcap rfl) h
    | unprotected | granted =>
      exact Cmq.wooFProcessGetEarliestSeqno_eq ha Transport.uncapped_of_false h

theorem Route.outcome_get {seqNo : UInt32}
    (h : Arrived [textFrame woofName, textFrame (decimal seqNo)] frames) :
    r.outcome t hmac srv .get frames = t.replyElement srv seqNo.toNat (srv.lookup name) := by
  cases t with
  | zmq =>
    cases r with
    | plain => exact Zmq.wooFProcessGet_eq ha (fun _ => hcap rfl) h
    | unprotected | granted => exact Zmq.wooFProcessGet_eq ha Transport.uncapped_of_false h
  | cmq =>
    cases r with
    | plain => exact Cmq.wooFProcessGet_eq ha (fun _ => hcap rfl) h
    | unprotected | granted => exact Cmq.wooFProcessGet_eq ha Transport.uncapped_of_false h

/-- The second reply of one handler comes too late to matter to the client. -/
theorem Route.answer_latestSeqno {wf : WooF} (hwoof : srv.lookup name = some (name, wf))
    (h : Arrived [textFrame woofName] frames) :
    (r.outcome t hmac srv .latestSeqno frames).answer =
      .ok (some [textFrame (t.numberText srv (wooFLatestSeqno wf))], srv) := by
  have hreply : (replyLatestSeqno t srv (srv.lookup name)).answer =
      .ok (some [textFrame (t.numberText srv (wooFLatestSeqno wf))], srv) := by
    rw [hwoof]
    rfl
  rw [← hreply]
  cases t with
  | zmq =>
    cases r with
    | plain => exact congrArg _ (Zmq.wooFProcessGetLatestSeqno_eq ha (fun _ => hcap rfl) h)
    | granted =>
      exact congrArg _ (Zmq.wooFProcessGetLatestSeqno_eq ha Transport.uncapped_of_false h)
    | unprotected =>
      have heq := Zmq.wooFProcessGetLatestSeqno_eq ha Transport.uncapped_of_false h
      have htwice : Route.unprotected.outcome .zmq hmac srv .latestSeqno frames =
          (Zmq.wooFProcessGetLatestSeqno srv false frames).andReply (sendErr .zmq srv) := rfl
      rw [htwice, heq, hwoof]
      exact Outcome.answer_andReply (List.cons_ne_nil _ _) _
  | cmq =>
    cases r with
    | plain => exact congrArg _ (Cmq.wooFProcessGetLatestSeqno_eq ha (fun _ => hcap rfl) h)
    | unprotected | granted =>
      exact congrArg _ (Cmq.wooFProcessGetLatestSeqno_eq ha Transport.uncapped_of_false h)

theorem Route.outcome_put {handName : Option Bytes} {elem : Bytes}
    (hzero : ∀ b ∈ handlerText handName, b ≠ 0)
    (h : Arrived [textFrame woofName, textFrame (handlerText handName), elem] frames) :
    ∃ f ∈ frames, f.data = elem ∧ r.outcome t hmac srv .put frames =
      replyPut t srv name (t.putHandler handName) (t.elementIn f) := by
  cases t with
  | zmq =>
    obtain ⟨f, hf, hdata⟩ := h.getElem? (i := 2) rfl
    refine ⟨f, List.mem_of_getElem? hf, hdata, ?_⟩
    rw [Transport.elementIn, hdata]
    cases r with
    | plain => exact Zmq.wooFProcessPut_eq ha (fun _ => hcap rfl) hzero h
    | unprotected | granted => exact Zmq.wooFProcessPut_eq ha Transport.uncapped_of_false hzero h
  | cmq =>
    cases r with
    | plain => exact Cmq.wooFProcessPut_eq ha (fun _ => hcap rfl) hzero h
    | unprotected | granted => exact Cmq.wooFProcessPut_eq ha Transport.uncapped_of_false hzero h

end Answers

theorem wooFLatestSeqno_lt (wf : WooF) : wooFLatestSeqno wf < Word.modulus :=
  Nat.mod_lt _ (by decide)

theorem wooFGetEarliest_lt (wf : WooF) : wooFGetEarliest wf < Word.modulus := by
  unfold wooFGetEarliest
  split <;> exact Nat.mod_lt _ (by decide)

/-! ## Calls that return a number -/

section Calls

variable {c : Client} {t : Transport} {srv : Server} {woofName name : Bytes} {wf : WooF} {r : Route}
  (ha : Addressed srv woofName name) (hwoof : srv.lookup name = some (name, wf)) {req : Request}
  {srv' : Server}

theorem Client.wooFMsgNumber_of_exchange {teller : Server} (hn : n < Word.modulus)
    (h : c.exchange t srv woofName req =
      .ok (some [textFrame (t.numberText teller n)], srv')) :
    c.wooFMsgNumber t srv woofName req = .ok (through32 (t.heard teller n), srv') := by
  simp [wooFMsgNumber, h, Transport.numberReply_text hn, through32]

theorem Client.wooFMsgNumber_of_unanswered (h : c.exchange t srv woofName req = .ok (none, srv')) :
    c.wooFMsgNumber t srv woofName req = .ok (Word.allOnes, srv') := by
  have hminus : toUlong (-1) = Word.allOnes := by decide
  simp [wooFMsgNumber, h, t.numberReply_none, hminus]

include ha hwoof

theorem Client.wooFMsgGetElSize_eq (hsize : wf.elementSize < Word.modulus)
    (h : c.Admitted t srv woofName name .elSize r) :
    c.wooFMsgGetElSize t srv woofName = .ok (through32 (t.heard srv wf.elementSize), srv) := by
  obtain ⟨frames, harrived, -, hcap, hexchange⟩ := exchange_of_admitted h trivial nofun
  refine wooFMsgNumber_of_exchange hsize ?_
  have houtcome : r.outcome t c.hmac srv Request.elSize.operation frames =
      replyElSize t srv (srv.lookup name) := Route.outcome_elSize ha hcap harrived
  rw [hexchange, houtcome, hwoof]
  rfl

theorem Client.wooFMsgGetLatestSeqno_eq (h : c.Admitted t srv woofName name .latestSeqno r) :
    c.wooFMsgGetLatestSeqno t srv woofName =
      .ok (through32 (t.heard srv (wooFLatestSeqno wf)), srv) := by
  obtain ⟨frames, harrived, -, hcap, hexchange⟩ := exchange_of_admitted h trivial nofun
  refine wooFMsgNumber_of_exchange (wooFLatestSeqno_lt wf) ?_
  exact hexchange.trans (Route.answer_latestSeqno ha hcap hwoof harrived)

theorem Client.wooFMsgGetEarliestSeqno_eq
    (h : c.Admitted t srv woofName name .earliestSeqno r) :
    c.wooFMsgGetEarliestSeqno t srv woofName =
      .ok (through32 (t.heard srv (wooFGetEarliest wf)), srv) := by
  obtain ⟨frames, harrived, -, hcap, hexchange⟩ := exchange_of_admitted h trivial nofun
  refine wooFMsgNumber_of_exchange (wooFGetEarliest_lt wf) ?_
  have houtcome : r.outcome t c.hmac srv Request.earliestSeqno.operation frames =
      replyEarliestSeqno t srv name := Route.outcome_earliestSeqno ha hcap harrived
  rw [hexchange, houtcome, replyEarliestSeqno, ha.wooFOpen_name, hwoof]
  by_cases herr : wooFGetEarliest wf = Word.allOnes
  · simp [herr, sendErr]
  · simp [herr, replyNumber]

end Calls

theorem atRest_sampleWoof : (sampleWoof [7]).AtRest :=
  ⟨by decide, by decide, by decide, fun _ => rfl⟩

end Cspot
