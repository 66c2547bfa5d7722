import Cspot.Net.Numbers

/-!
# Sequence numbers at both ends

What remote puts, gets and queries for the ends of the log return, against what the server
did for them.
-/

namespace Cspot

def readResult : Option Bytes → Int × Bytes
  | none => (-1, [])
  | some element => (1, element)

/-- Every frame lies in a buffer of its own size. -/
def Client.Exact (c : Client) : Prop := ∀ sent, ∀ f ∈ c.arrive sent, f.beyond = []

/-- The remote calls return what the server has come to: `n` for its append, with which it
has gone over to `after`. -/
structure NumbersSurvive (c : Client) (t : Transport) (srv : Server) (woofName : Bytes)
    (wf : WooF) (handName : Option Bytes) (element : Bytes) (n : Nat) (after : Server)
    (seqNo : Nat) : Prop where
  put : c.wooFMsgPut t srv woofName handName element = .ok (n, after)
  get : ∀ read wf', wooFReadWithCause wf seqNo = .ok (read, wf') →
    c.wooFMsgGet t srv woofName wf.elementSize seqNo = .ok (readResult read)
  latest : c.wooFMsgGetLatestSeqno t srv woofName = .ok (wooFLatestSeqno wf, srv)
  earliest : c.wooFMsgGetEarliestSeqno t srv woofName = .ok (wooFGetEarliest wf, srv)

/-- When a get is right: the lower half of the number reads the same element.  An element
without bytes looks like a failure to one client, and a failure like it to the other.  One
server needs the memory for the element and the other says that it failed. -/
def GetSurvives (t : Transport) (maxAlloc : Nat) (wf : WooF) (seqNo : Nat) : Prop :=
  match t with
  | .zmq => wf.elementSize ≤ maxAlloc ∧
      if wf.elementSize = 0 then wf.elementAt seqNo ≠ none
      else wf.elementAt (seqNo % 2 ^ 32) = wf.elementAt seqNo
  | .cmq =>
      if wf.elementSize = 0 ∨ wf.elementSize > maxAlloc then wf.elementAt seqNo = none
      else wf.elementAt (seqNo % 2 ^ 32) = wf.elementAt seqNo

structure NumbersFit (t : Transport) (maxAlloc : Nat) (wf : WooF) (n seqNo : Nat) : Prop where
  size : wf.elementSize < 2 ^ 32 - 1
  put : t.Survives n
  get : GetSurvives t maxAlloc wf seqNo
  latest : t.Survives (wooFLatestSeqno wf)
  earliest : t.Survives (wooFGetEarliest wf)

section SeqNos

variable {c : Client} {t : Transport} {srv : Server} {woofName name : Bytes} {wf : WooF}
  {handName : Option Bytes} {element : Bytes} {n seqNo : Nat} {g : Globals} {wf' : WooF}
  {r : Route}

theorem Transport.elementIn_of_exact (t : Transport) {f : Frame} (h : f.beyond = []) :
    t.elementIn f = f.data := by
  cases t with
  | zmq => rfl
  | cmq =>
    by_cases hdata : f.data = []
    · simp [elementIn, Cmq.payload, hdata]
    · simp [elementIn, Cmq.payload, hdata, Frame.memory, h]

theorem handlerText_ne_zero (h : (Request.put handName element).Valid) :
    ∀ b ∈ handlerText handName, b ≠ 0 := by
  cases handName with
  | none => exact Bytes.ne_zero_of_notMem (by decide)
  | some handler => exact h

theorem store_ne_of_placed (hwoof : srv.lookup name = some (name, wf))
    (hplaced : wf.Placed element wf') (g : Globals) :
    ({ srv with globals := g } : Server).store name wf' ≠ srv := by
  intro h
  have hlookup := Server.lookup_store { srv with globals := g } name wf'
  rw [h, hwoof] at hlookup
  cases hlookup
  exact hplaced.seqNo_ne rfl

theorem replyPut_of_ok (ha : Addressed srv woofName name)
    (hwoof : srv.lookup name = some (name, wf)) {hand : Option Bytes}
    (happend : wooFAppendWithCause srv.globals wf hand element 0 0 = .ok (n, g, wf')) :
    (replyPut t srv name hand element).answer = .ok (some [textFrame (t.numberText srv n)],
      ({ srv with globals := g } : Server).store name wf') := by
  simp only [replyPut, ha.wooFOpen_name, Exec.serve_ok, hwoof, happend, Outcome.answer_access]
  cases t <;> rfl

theorem replyPut_of_short (ha : Addressed srv woofName name)
    (hwoof : srv.lookup name = some (name, wf)) (hand : Option Bytes)
    (hshort : element.length < wf.elementSize) :
    ∃ s, (replyPut t srv name hand element).answer = .error s := by
  cases happend : wooFAppendWithCause srv.globals wf hand element 0 0 with
  | error s => exact ⟨s, by simp [replyPut, ha.wooFOpen_name, hwoof, happend]⟩
  | ok result =>
    obtain ⟨n, g, wf'⟩ := result
    have hfits := (wooFAppendWithCause_placed happend).2.fits
    omega

section Put

variable (ha : Addressed srv woofName name) (hwoof : srv.lookup name = some (name, wf))
  (hexact : c.Exact) (hvalid : (Request.put handName element).Valid)
  (helem : element.length = wf.elementSize) (hn : n < Word.modulus)
  (happend : wooFAppendWithCause srv.globals wf (t.putHandler handName) element 0 0 =
    .ok (n, g, wf'))
  (hput : c.Admitted t srv woofName name
    (.put handName (element.take (element.length % 2 ^ 32))) r)

include ha hwoof hexact hvalid helem hn happend hput

theorem Client.wooFMsgPut_eq_iff :
    c.wooFMsgPut t srv woofName handName element =
        .ok (n, ({ srv with globals := g } : Server).store name wf') ↔
      wf.elementSize < 2 ^ 32 - 1 ∧ through32 (t.heard srv n) = n := by
  have hlen : (element.take (element.length % 2 ^ 32)).length = wf.elementSize % 2 ^ 32 := by
    rw [List.length_take, helem]
    omega
  unfold wooFMsgPut
  by_cases hbad : wf.elementSize % 2 ^ 32 = 2 ^ 32 - 1
  · have hsized : ¬ (Request.put handName (element.take (element.length % 2 ^ 32))).Sized :=
      fun h => h (hlen.trans hbad)
    rw [wooFMsgNumber_of_unanswered (exchange_of_not_sized hsized)]
    refine iff_of_false (fun h => ?_) fun h => by omega
    have hsame := congrArg Prod.snd (Except.ok.inj h)
    exact store_ne_of_placed hwoof (wooFAppendWithCause_placed happend).2 g hsame.symm
  · have hsized : (Request.put handName (element.take (element.length % 2 ^ 32))).Sized :=
      fun h => hbad (hlen.symm.trans h)
    obtain ⟨frames, harrived, ⟨sent, hsub⟩, hcap, hexchange⟩ :=
      exchange_of_admitted hput hsized nofun
    obtain ⟨f, hf, hdata, houtcome⟩ : ∃ f ∈ frames, _ ∧ r.outcome t c.hmac srv .put frames = _ :=
      Route.outcome_put ha hcap (handlerText_ne_zero hvalid) harrived
    rw [t.elementIn_of_exact (hexact sent f (hsub hf)), hdata] at houtcome
    have hexchange := hexchange.trans (congrArg Outcome.answer houtcome)
    by_cases hsmall : wf.elementSize < 2 ^ 32
    · have hwhole : element.take (element.length % 2 ^ 32) = element :=
        List.take_of_length_le (by omega)
      rw [hwhole, replyPut_of_ok ha hwoof happend] at hexchange
      have hnumber : c.wooFMsgNumber t srv woofName (.put handName element) =
          .ok (through32 (t.heard srv n), ({ srv with globals := g } : Server).store name wf') :=
        wooFMsgNumber_of_exchange hn hexchange
      rw [hwhole, hnumber]
      simp only [Except.ok.injEq, Prod.mk.injEq, and_true]
      exact ⟨fun h => ⟨by omega, h⟩, fun h => h.2⟩
    · obtain ⟨s, hs⟩ := replyPut_of_short ha hwoof (t.putHandler handName)
        (show (element.take (element.length % 2 ^ 32)).length < wf.elementSize by omega)
      rw [hs] at hexchange
      rw [wooFMsgNumber, hexchange, Exec.error_bind]
      exact iff_of_false (by simp) fun h => by omega

end Put

/-! ## Gets -/

theorem readResult_inj {a b : Option Bytes} (h : readResult a = readResult b) : a = b := by
  cases a with
  | none =>
    cases b with
    | none => rfl
    | some y => exact absurd (congrArg Prod.fst h) (show (-1 : Int) ≠ 1 by decide)
  | some x =>
    cases b with
    | none => exact absurd (congrArg Prod.fst h) (show (1 : Int) ≠ -1 by decide)
    | some y => exact congrArg some (congrArg Prod.snd h)

def Transport.getResult (maxAlloc size : Nat) (element : Option Bytes) :
    Transport → Exec (Int × Bytes)
  | .zmq =>
    if size > maxAlloc then .error .exception
    else .ok (if size = 0 then (1, []) else readResult element)
  | .cmq => .ok (if size = 0 ∨ size > maxAlloc then (-1, []) else readResult element)

section Get

variable (ha : Addressed srv woofName name) (hwoof : srv.lookup name = some (name, wf))
  (hrest : wf.AtRest)

include hrest

theorem Transport.getReply_element (t : Transport) (hsize : wf.elementSize < 2 ^ 32 - 1) (s : Nat) :
    ((t.replyElement srv s (some (name, wf))).answer >>= fun p =>
        t.getReply (UInt32.ofNat wf.elementSize) p.1) =
      t.getResult srv.maxAlloc wf.elementSize (wf.elementAt s) := by
  have hnat : (UInt32.ofNat wf.elementSize).toNat = wf.elementSize :=
    toNat_ofNat_size (by omega)
  have hlen : ∀ x, wf.elementAt s = some x → x.length = wf.elementSize :=
    fun x hx => hrest.length_of_elementAt hx
  cases t with
  | zmq =>
    simp only [replyElement, Zmq.replyElement, getReply, Zmq.getReply, hnat, getResult]
    by_cases halloc : wf.elementSize > srv.maxAlloc
    · simp [halloc]
    simp only [if_neg halloc, hrest.wooFReadWithCause_eq, Exec.serve_ok, Outcome.answer_access,
      Outcome.answer_reply, Exec.ok_bind]
    by_cases hzero : wf.elementSize = 0
    · cases hx : wf.elementAt s with
      | none => simp [hzero]
      | some x =>
        have hnil : x = [] := List.eq_nil_of_length_eq_zero ((hlen x hx).trans hzero)
        simp [hzero, hnil]
    · cases hx : wf.elementAt s with
      | none => simp [hzero, readResult, Ne.symm hzero]
      | some x => simp [hzero, readResult, hlen x hx]
  | cmq =>
    have hmod : wf.elementSize % 2 ^ 32 = wf.elementSize := Nat.mod_eq_of_lt (by omega)
    simp only [replyElement, Cmq.replyElement, getReply, getResult, hmod]
    by_cases hnull : wf.elementSize = 0 ∨ wf.elementSize > srv.maxAlloc
    · simp [hnull, sendNull, Cmq.getReply]
    · simp only [if_neg hnull, hrest.wooFReadWithCause_eq, Exec.serve_ok, Outcome.answer_access]
      cases hx : wf.elementAt s with
      | none => simp [readResult, Cmq.getReply]
      | some x =>
        have hne : x ≠ [] := by
          rintro rfl
          exact hnull (Or.inl (hlen [] hx).symm)
        simp [readResult, hne, hlen x hx, Cmq.getReply]

include ha hwoof

theorem Client.wooFMsgGet_eq (hsize : wf.elementSize < 2 ^ 32 - 1)
    (hget : c.Admitted t srv woofName name
      (.get (UInt32.ofNat wf.elementSize) (UInt32.ofNat seqNo)) r) :
    c.wooFMsgGet t srv woofName wf.elementSize seqNo =
      t.getResult srv.maxAlloc wf.elementSize (wf.elementAt (seqNo % 2 ^ 32)) := by
  have hsized : (Request.get (UInt32.ofNat wf.elementSize) (UInt32.ofNat seqNo)).Sized := by
    intro h
    have := (ofNat_eq_badSize_iff _).1 h
    omega
  obtain ⟨frames, harrived, -, hcap, hexchange⟩ := exchange_of_admitted hget hsized nofun
  have houtcome : r.outcome t c.hmac srv .get frames = _ := Route.outcome_get ha hcap harrived
  rw [UInt32.toNat_ofNat', hwoof] at houtcome
  have hexchange := hexchange.trans (congrArg Outcome.answer houtcome)
  simp only [wooFMsgGet, hexchange]
  exact t.getReply_element hrest hsize _

omit ha hwoof in
theorem getSurvives_iff (t : Transport) (maxAlloc : Nat) :
    t.getResult maxAlloc wf.elementSize (wf.elementAt (seqNo % 2 ^ 32)) =
        .ok (readResult (wf.elementAt seqNo)) ↔
      GetSurvives t maxAlloc wf seqNo := by
  have hsame : readResult (wf.elementAt (seqNo % 2 ^ 32)) = readResult (wf.elementAt seqNo) ↔
      wf.elementAt (seqNo % 2 ^ 32) = wf.elementAt seqNo := ⟨readResult_inj, congrArg readResult⟩
  cases t with
  | zmq =>
    rw [Transport.getResult, GetSurvives]
    by_cases halloc : wf.elementSize > maxAlloc
    · exact iff_of_false (by simp [halloc]) fun h => Nat.not_lt.2 h.1 halloc
    rw [if_neg halloc, Except.ok.injEq, and_iff_right (Nat.not_lt.1 halloc)]
    by_cases hzero : wf.elementSize = 0
    · rw [if_pos hzero, if_pos hzero]
      cases hx : wf.elementAt seqNo with
      | none => simp [readResult]
      | some x =>
        have hnil : x = [] :=
          List.eq_nil_of_length_eq_zero ((hrest.length_of_elementAt hx).trans hzero)
        simp [readResult, hnil]
    · rw [if_neg hzero, if_neg hzero, hsame]
  | cmq =>
    rw [Transport.getResult, GetSurvives, Except.ok.injEq]
    by_cases hnull : wf.elementSize = 0 ∨ wf.elementSize > maxAlloc
    · rw [if_pos hnull, if_pos hnull]
      cases wf.elementAt seqNo <;> simp [readResult]
    · rw [if_neg hnull, if_neg hnull, hsame]

end Get

/-! ## All of them -/

/-- Which numbers survive whatever freed memory holds, and with them which elements are
found again. -/
theorem numbersSurvive_iff {rput rget rlatest rearliest : Route}
    (ha : Addressed srv woofName name) (hwoof : srv.lookup name = some (name, wf))
    (hrest : wf.AtRest) (hexact : c.Exact) (hvalid : (Request.put handName element).Valid)
    (helem : element.length = wf.elementSize) (hseq : wf.seqNo < Word.modulus)
    (happend : wooFAppendWithCause srv.globals wf (t.putHandler handName) element 0 0 =
      .ok (n, g, wf'))
    (hput : c.Admitted t srv woofName name
      (.put handName (element.take (element.length % 2 ^ 32))) rput)
    (hget : c.Admitted t srv woofName name
      (.get (UInt32.ofNat wf.elementSize) (UInt32.ofNat seqNo)) rget)
    (hlatest : c.Admitted t srv woofName name .latestSeqno rlatest)
    (hearliest : c.Admitted t srv woofName name .earliestSeqno rearliest) :
    (∀ freed, NumbersSurvive c t (srv.withFreed freed) woofName wf handName element n
        ((({ srv with globals := g } : Server).store name wf').withFreed freed) seqNo) ↔
      NumbersFit t srv.maxAlloc wf n seqNo := by
  have hn : n < Word.modulus := (wooFAppendWithCause_placed happend).1 ▸ hseq
  have hwoof' (freed : Bytes → Bytes) : (srv.withFreed freed).lookup name = some (name, wf) := hwoof
  have hputIff (freed : Bytes → Bytes) := Client.wooFMsgPut_eq_iff (ha.withFreed freed)
    (hwoof' freed) hexact hvalid helem hn happend (hput.withFreed freed)
  have hgetEq (hsize : wf.elementSize < 2 ^ 32 - 1) (freed : Bytes → Bytes) :=
    Client.wooFMsgGet_eq (ha.withFreed freed) (hwoof' freed) hrest hsize (hget.withFreed freed)
  have hlatestEq (freed : Bytes → Bytes) := Client.wooFMsgGetLatestSeqno_eq (ha.withFreed freed)
    (hwoof' freed) (hlatest.withFreed freed)
  have hearliestEq (freed : Bytes → Bytes) := Client.wooFMsgGetEarliestSeqno_eq
    (ha.withFreed freed) (hwoof' freed) (hearliest.withFreed freed)
  constructor
  · intro h
    have hsize := ((hputIff id).1 (h id).put).1
    refine ⟨hsize, (Transport.survives_iff hn).1 fun freed => ((hputIff freed).1 (h freed).put).2,
      ?_, ?_, ?_⟩
    · have hread := (h id).get _ _ (hrest.wooFReadWithCause_eq seqNo)
      rw [hgetEq hsize] at hread
      exact (getSurvives_iff hrest t srv.maxAlloc).1 hread
    · exact (Transport.survives_iff (wooFLatestSeqno_lt wf)).1 fun freed =>
        (Prod.mk.inj (Except.ok.inj ((hlatestEq freed).symm.trans (h freed).latest))).1
    · exact (Transport.survives_iff (wooFGetEarliest_lt wf)).1 fun freed =>
        (Prod.mk.inj (Except.ok.inj ((hearliestEq freed).symm.trans (h freed).earliest))).1
  · intro h freed
    refine ⟨(hputIff freed).2 ⟨h.size, (Transport.survives_iff hn).2 h.put freed⟩, ?_, ?_, ?_⟩
    · intro read after hread
      rw [hrest.wooFReadWithCause_eq] at hread
      cases hread
      rw [hgetEq h.size]
      exact (getSurvives_iff hrest t srv.maxAlloc).2 h.get
    · rw [hlatestEq, (Transport.survives_iff (wooFLatestSeqno_lt wf)).2 h.latest]
    · rw [hearliestEq, (Transport.survives_iff (wooFGetEarliest_lt wf)).2 h.earliest]

end SeqNos

/-! ## Small and large numbers -/

theorem sampleClient_exact : sampleClient.Exact := by
  intro sent f hf
  obtain ⟨data, -, rfl⟩ := List.mem_map.1 hf
  rfl

theorem unlocked_sampleWoof : (sampleWoof [7]).Unlocked :=
  ⟨by decide, by decide, by decide, by decide⟩

theorem numbersSurvive_iff_two :
    NumbersFit .zmq (sampleServer none none).maxAlloc (sampleWoof [7]) 2 1 ∧ ∀ freed,
      NumbersSurvive sampleClient .zmq ((sampleServer none none).withFreed freed) sampleUri
        (sampleWoof [7]) none [7] 2
        (((sampleServer none none).store (Bytes.ofString "data")
          ((sampleWoof [7]).pushed [7] (sampleWoof [7]).wrappedTail)).withFreed freed) 1 := by
  have hvalid : (Request.put none [7]).Valid := trivial
  have hget : GetSurvives .zmq (sampleServer none none).maxAlloc (sampleWoof [7]) 1 := by
    refine ⟨by decide, ?_⟩
    rw [if_neg (by decide)]
    rfl
  have hfit : NumbersFit .zmq (sampleServer none none).maxAlloc (sampleWoof [7]) 2 1 :=
    ⟨by decide, Or.inl (by decide), hget, Or.inl (by decide), Or.inl (by decide)⟩
  exact ⟨hfit, (numbersSurvive_iff (addressed_sampleServer none none)
    (lookup_sampleServer none none) atRest_sampleWoof sampleClient_exact hvalid rfl (by decide)
    (wooFAppendWithCause_none unlocked_sampleWoof rfl 0 0)
    (sampleClient_admitted .zmq rfl) (sampleClient_admitted .zmq rfl)
    (sampleClient_admitted .zmq rfl) (sampleClient_admitted .zmq rfl)).2 hfit⟩

def laterServer (seqNo : Nat) : Server :=
  (sampleServer none none).store (Bytes.ofString "data") { sampleWoof [7] with seqNo := seqNo }

/-- A put of number 2^32 returns zero, and the number before it is taken for an error. -/
theorem later_numbers_lost :
    (replyPut .zmq (laterServer 4294967296) (Bytes.ofString "data") none [7]).replies =
        [[textFrame (Decimal.ofNat 4294967296)]] ∧
      (sampleClient.wooFMsgPut .zmq (laterServer 4294967296) sampleUri none [7]).map Prod.fst =
        .ok 0 ∧
      wooFLatestSeqno { sampleWoof [7] with seqNo := 4294967296 } = 4294967295 ∧
      (sampleClient.wooFMsgGetLatestSeqno .cmq (laterServer 4294967296) sampleUri).map Prod.fst =
        .ok Word.allOnes := by
  refine ⟨?_, ?_, ?_, ?_⟩
  · rfl
  · rfl
  · rfl
  · rfl

end Cspot
