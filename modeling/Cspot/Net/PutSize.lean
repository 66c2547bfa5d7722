import Cspot.Net.Numbers

/-!
# Puts with an element of the wrong size

The length of the element frame is known to the transport, the size of an element to the
append, and nobody compares them.
-/

namespace Cspot

/-! ## Messages -/

def putTag : Option Frame → Tag
  | none => .plain .put
  | some _ => .cap .put

/-- A put as it arrives: the tag, maybe a capability, and the three arguments. -/
structure PutMessage (t : Transport) (tagFrame : Frame) (cap : Option Frame)
    (woofName hname elem : Bytes) (args : List Frame) : Prop where
  tag : t.readTag tagFrame = .ok (some (putTag cap))
  args : Arrived [textFrame woofName, textFrame hname, elem] args
  hname_ne_zero : ∀ b ∈ hname, b ≠ 0

/-- The server turns the put away before it looks at the element. -/
def TurnedAway (t : Transport) (hmac : Hmac) (srv : Server) (name : Bytes) (args : List Frame) :
    Option Frame → Prop
  | none => (t = .zmq → (capName name).length ≤ 255) ∧ ¬ t.Uncapped srv name
  | some cap => (t.capHandler .put).authorize hmac srv cap args = .ok .refused

/-- The request was answered by the error value and the log is as before. -/
structure Outcome.RejectsPut (o : Outcome) (name : Bytes) (wf : WooF) : Prop where
  replies : o.replies = [[textFrame (Decimal.ofNat Word.allOnes)]]
  unchanged : ∃ wf', o.server.lookup name = some (name, wf') ∧ wf'.head = wf.head ∧
    wf'.tail = wf.tail ∧ wf'.seqNo = wf.seqNo ∧ wf'.slots = wf.slots

def Outcome.AcceptsPut (o : Outcome) (name : Bytes) : Prop :=
  o.stop = none ∧ ∃ handName element, .append name handName element ∈ o.accesses

/-- Elements of another size are rejected, and what is stored is the frame. -/
structure PutSizeChecked (o : Outcome) (name : Bytes) (wf : WooF) (elem : Bytes) : Prop where
  rejects : elem.length ≠ wf.elementSize → o.RejectsPut name wf
  stores : o.AcceptsPut name → ∃ wf', o.server.lookup name = some (name, wf') ∧
    (wf'.slots wf'.head).element = elem

section Put

variable {t : Transport} {hmac : Hmac} {srv : Server} {woofName name hname elem : Bytes}
  {wf : WooF} {args : List Frame}

/-! ## Outcomes -/

theorem putSizeChecked_reply_iff (hwoof : srv.lookup name = some (name, wf)) {r : Reply} :
    PutSizeChecked (.reply srv r) name wf elem ↔
      elem.length = wf.elementSize ∨ r = [textFrame (Decimal.ofNat Word.allOnes)] := by
  constructor
  · intro h
    by_cases hlen : elem.length = wf.elementSize
    · exact Or.inl hlen
    · exact Or.inr (List.cons.inj (h.rejects hlen).replies).1
  · intro h
    refine ⟨fun hne => ⟨?_, wf, hwoof, rfl, rfl, rfl, rfl⟩, ?_⟩
    · rw [h.resolve_left hne]
      rfl
    · rintro ⟨-, handName, element, hmem⟩
      cases hmem

theorem putSizeChecked_halt_iff {o : Outcome} (hreplies : o.replies = []) {s : Stop}
    (hstop : o.stop = some s) :
    PutSizeChecked o name wf elem ↔ elem.length = wf.elementSize := by
  constructor
  · intro h
    by_contra hne
    have := (h.rejects hne).replies
    rw [hreplies] at this
    cases this
  · intro hlen
    refine ⟨fun hne => absurd hlen hne, ?_⟩
    rintro ⟨hnone, -⟩
    rw [hstop] at hnone
    cases hnone

theorem Transport.take_elementIn (t : Transport) {f : Frame} {size : Nat}
    (h : f.data.length = size) : (t.elementIn f).take size = f.data := by
  subst h
  cases t with
  | zmq => exact List.take_length
  | cmq =>
    by_cases hdata : f.data = []
    · simp [elementIn, Cmq.payload, hdata]
    · simp [elementIn, Cmq.payload, hdata, Frame.memory]

theorem putSizeChecked_replyPut_iff (ha : Addressed srv woofName name)
    (hwoof : srv.lookup name = some (name, wf)) (hand : Option Bytes) (f : Frame) :
    PutSizeChecked (replyPut t srv name hand (t.elementIn f)) name wf f.data ↔
      f.data.length = wf.elementSize := by
  rw [replyPut, ha.wooFOpen_name, hwoof, Exec.serve_ok]
  dsimp only
  cases happend : wooFAppendWithCause srv.globals wf hand (t.elementIn f) 0 0 with
  | error s => exact putSizeChecked_halt_iff rfl rfl
  | ok result =>
    obtain ⟨n, g, wf'⟩ := result
    have hplaced := (wooFAppendWithCause_placed happend).2
    have hlookup := Server.lookup_store { srv with globals := g } name wf'
    constructor
    · intro h
      by_contra hne
      obtain ⟨after, hafter, -, -, hseq, -⟩ := (h.rejects hne).unchanged
      have hsame : after = wf' := by
        have := hafter.symm.trans hlookup
        simpa using this
      rw [hsame] at hseq
      exact hplaced.seqNo_ne hseq
    · intro hlen
      refine ⟨fun hne => absurd hlen hne, fun _ => ⟨wf', hlookup, ?_⟩⟩
      rw [hplaced.slot]
      exact t.take_elementIn hlen

/-! ## Requests -/

theorem Zmq.unlessCap_of_capped (hfits : (capName name).length ≤ 255)
    (h : ¬ Transport.zmq.Uncapped srv name) (err : Reply) (k : Outcome) :
    Zmq.unlessCap srv true (some name) err k = .reply srv err := by
  have hns := srv.exists_eq_ok (show nsCapName.length ≤ 255 by decide)
  simp only [Transport.Uncapped, srv.exists_eq_ok hfits, hns, Except.ok.injEq] at h
  simp only [Zmq.unlessCap, if_true, Option.getD_some, srv.exists_eq_ok hfits, hns,
    Exec.serve_ok]
  cases hdir : (srv.dir (capName name)).isSome with
  | true => rfl
  | false =>
    cases hnsDir : (srv.dir nsCapName).isSome with
    | true => rfl
    | false => exact absurd ⟨hdir, hnsDir⟩ h

section Plain

variable (ha : Addressed srv woofName name)
  (h : Arrived [textFrame woofName, textFrame hname, elem] args)

include ha h

theorem Transport.process_put_of_capped (hfits : t = .zmq → (capName name).length ≤ 255)
    (hcap : ¬ t.Uncapped srv name) :
    t.process hmac srv (.plain .put) args = .reply srv (sendErr t srv) := by
  obtain ⟨f, g, i, rfl, hf, hg, hi⟩ := h.three
  cases t with
  | zmq =>
    simp [process, Zmq.process, Zmq.wooFProcessPut, Frame.cstr_of_text hf ha.woofName_ne_zero,
      ha.guardName_eq, Zmq.unlessCap_of_capped (hfits rfl) hcap]
  | cmq =>
    have hopens : CapOpens srv name := by
      by_contra hnot
      rw [CapOpens, ha.fileName_eq, Option.getD_some, not_or, not_not, not_not] at hnot
      exact hcap hnot
    have hrefuse := Cmq.unlessCap_of_opens ha.named.slash_notMem hopens
      (.reply srv (sendErr .cmq srv))
    rw [ha.fileName_eq] at hrefuse
    simp [process, Cmq.process, Cmq.wooFProcessPut, Cmq.payload_of_text hf,
      Frame.cString_of_text hf ha.woofName_ne_zero, ha.guardName_eq, Cmq.payload_of_text hg,
      hrefuse]

theorem Transport.process_put_of_long (hlong : ¬ (capName name).length ≤ 255) :
    Transport.zmq.process hmac srv (.plain .put) args = .halt srv .exception := by
  obtain ⟨f, g, i, rfl, hf, hg, hi⟩ := h.three
  simp [process, Zmq.process, Zmq.wooFProcessPut, Frame.cstr_of_text hf ha.woofName_ne_zero,
    ha.guardName_eq, Zmq.unlessCap, srv.exists_eq_error hlong]

end Plain

theorem putSizeChecked_outcome_iff {r : Route} (ha : Addressed srv woofName name)
    (hwoof : srv.lookup name = some (name, wf)) (hzero : ∀ b ∈ hname, b ≠ 0)
    (hcap : r = .plain → t.Uncapped srv name)
    (h : Arrived [textFrame woofName, textFrame hname, elem] args) :
    PutSizeChecked (r.outcome t hmac srv .put args) name wf elem ↔
      elem.length = wf.elementSize := by
  obtain ⟨f, -, rfl, houtcome⟩ : ∃ f ∈ args, f.data = elem ∧
      r.outcome t hmac srv .put args =
        replyPut t srv name (t.putHandler (some hname)) (t.elementIn f) :=
    Route.outcome_put ha hcap hzero h
  rw [houtcome]
  exact putSizeChecked_replyPut_iff ha hwoof _ f

section Served

variable {tagFrame : Frame} {cap : Option Frame} (ha : Addressed srv woofName name)
  (hput : PutMessage t tagFrame cap woofName hname elem args)

include ha hput

theorem serve_put_of_turnedAway (h : TurnedAway t hmac srv name args cap) :
    t.serve hmac srv (tagFrame :: (cap.toList ++ args)) = .reply srv (sendErr t srv) := by
  rw [Transport.serve_of_readTag hput.tag]
  cases cap with
  | none => exact Transport.process_put_of_capped ha hput.args h.1 h.2
  | some cap =>
    have hrun : t.process hmac srv (putTag (some cap)) ((some cap).toList ++ args) =
        (t.capHandler .put).run hmac srv (cap :: args) :=
      t.process_cap hmac srv .put (cap :: args)
    rw [hrun, CapHandler.run, show _ = Except.ok Verdict.refused from h, Exec.serve_ok,
      Transport.capHandler_refusal]
    rfl

theorem putSizeChecked_of_not_turnedAway (hwoof : srv.lookup name = some (name, wf))
    (h : ¬ TurnedAway t hmac srv name args cap) :
    PutSizeChecked (t.serve hmac srv (tagFrame :: (cap.toList ++ args))) name wf elem ↔
      elem.length = wf.elementSize := by
  have hiff {r : Route} (hcap : r = .plain → t.Uncapped srv name) :
      PutSizeChecked (r.outcome t hmac srv .put args) name wf elem ↔
        elem.length = wf.elementSize :=
    putSizeChecked_outcome_iff ha hwoof hput.hname_ne_zero hcap hput.args
  rw [Transport.serve_of_readTag hput.tag]
  cases cap with
  | none =>
    by_cases hcap : t.Uncapped srv name
    · exact hiff (r := .plain) fun _ => hcap
    · obtain ⟨rfl, hlong⟩ : t = .zmq ∧ ¬ (capName name).length ≤ 255 := by
        by_contra hnot
        exact h ⟨fun ht => not_not.1 fun hlong => hnot ⟨ht, hlong⟩, hcap⟩
      rw [show putTag none = .plain .put from rfl, Option.toList_none, List.nil_append,
        Transport.process_put_of_long ha hput.args hlong]
      exact putSizeChecked_halt_iff rfl rfl
  | some cap =>
    have hrun : t.process hmac srv (putTag (some cap)) ((some cap).toList ++ args) =
        (t.capHandler .put).run hmac srv (cap :: args) :=
      t.process_cap hmac srv .put (cap :: args)
    rw [hrun, CapHandler.run]
    cases hverdict : (t.capHandler .put).authorize hmac srv cap args with
    | error s => exact putSizeChecked_halt_iff rfl rfl
    | ok verdict =>
      cases verdict with
      | refused => exact absurd hverdict h
      | unprotected => exact hiff (r := .unprotected) Route.noConfusion
      | granted => exact hiff (r := .granted) Route.noConfusion

end Served

/-- The size of an element is respected by those who send it, or not at all.  The error value
of a put that is turned away gets lost over one of the transports, so the result is about
whatever its freed memory holds. -/
theorem putSizeChecked_iff {tagFrame : Frame} {cap : Option Frame}
    (ha : Addressed srv woofName name) (hwoof : srv.lookup name = some (name, wf))
    (hput : PutMessage t tagFrame cap woofName hname elem args) :
    (∀ freed, PutSizeChecked
        (t.serve hmac (srv.withFreed freed) (tagFrame :: (cap.toList ++ args))) name wf elem) ↔
      elem.length = wf.elementSize ∨ t = .zmq ∧ TurnedAway t hmac srv name args cap := by
  have hsame (freed : Bytes → Bytes) : TurnedAway t hmac (srv.withFreed freed) name args cap ↔
      TurnedAway t hmac srv name args cap := by
    cases t <;> cases cap <;> exact Iff.rfl
  by_cases haway : TurnedAway t hmac srv name args cap
  · have hserve (freed : Bytes → Bytes) :
        t.serve hmac (srv.withFreed freed) (tagFrame :: (cap.toList ++ args)) =
          .reply (srv.withFreed freed) (sendErr t (srv.withFreed freed)) :=
      serve_put_of_turnedAway (ha.withFreed freed) hput ((hsame freed).2 haway)
    have hreply (freed : Bytes → Bytes) (r : Reply) :
        PutSizeChecked (.reply (srv.withFreed freed) r) name wf elem ↔ _ :=
      have hwoof' : (srv.withFreed freed).lookup name = some (name, wf) := hwoof
      putSizeChecked_reply_iff hwoof'
    simp only [hserve, hreply]
    cases t with
    | zmq => exact iff_of_true (fun _ => Or.inr rfl) (Or.inr ⟨rfl, haway⟩)
    | cmq =>
      refine ⟨fun h => Or.inl ?_, fun h freed => Or.inl (h.resolve_right nofun)⟩
      -- the memory of the text may hold an empty string by now
      have hempty : sendErr .cmq (srv.withFreed fun _ => []) = [[0]] := by
        rw [sendErr, Transport.numberText, if_neg (by decide)]
        rfl
      exact (h fun _ => []).resolve_right (hempty ▸ by decide)
  · have hiff (freed : Bytes → Bytes) := putSizeChecked_of_not_turnedAway (ha.withFreed freed)
      hput (show (srv.withFreed freed).lookup name = some (name, wf) from hwoof)
      (mt (hsame freed).1 haway)
    simp only [hiff, forall_const, haway, and_false, or_false]

end Put

theorem putSizeChecked_iff_one :
    (sampleWoof [7]).elementSize = 1 ∧ ∀ freed, PutSizeChecked
      (Transport.cmq.serve (fun _ _ => 0) ((sampleServer none none).withFreed freed)
        [numberAt 1, textAt sampleUri, textAt nullName, ⟨[9], []⟩]) (Bytes.ofString "data")
      (sampleWoof [7]) [9] := by
  have htag : Transport.cmq.readTag (numberAt 1) = .ok (some (.plain .put)) :=
    Transport.readTag_plainNumber .cmq rfl rfl
  have hput : PutMessage .cmq (numberAt 1) none sampleUri nullName [9]
      [textAt sampleUri, textAt nullName, ⟨[9], []⟩] :=
    ⟨htag, rfl, Bytes.ne_zero_of_notMem (by decide)⟩
  exact ⟨rfl, (putSizeChecked_iff (addressed_sampleServer none none)
    (lookup_sampleServer none none) hput).2 (Or.inl rfl)⟩

/-- Two bytes for a woof of single bytes: the first one is stored, and the put is answered
with its number. -/
theorem long_put_truncated :
    (Transport.zmq.serve (fun _ _ => 0) (sampleServer none none)
        [numberAt 1, textAt sampleUri, textAt nullName, ⟨[9, 8], []⟩]).replies =
        [[textFrame (Decimal.ofNat 2)]] ∧
      ((Transport.zmq.serve (fun _ _ => 0) (sampleServer none none)
        [numberAt 1, textAt sampleUri, textAt nullName, ⟨[9, 8], []⟩]).server.lookup
        (Bytes.ofString "data")).map (fun opened => (opened.2.slots opened.2.head).element) =
        some [9] := by
  refine ⟨?_, ?_⟩
  · rfl
  · rfl

end Cspot
