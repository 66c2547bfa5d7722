import Cspot.Net.Answering

/-!
# Which requests the ZeroMQ server answers once

A number that cannot be converted ends the server before it looks at the name.  From the
name on, a handler answers unless the operation on the woof does not return.
-/

namespace Cspot.Zmq

/-! ## Operations that return -/

def rangeTurns (count : Int) (elementSize : Nat) : Nat :=
  if maxTransfer ≤ toUlong ((count + 1) * elementSize) then min 1 count.toNat else count.toNat

def ReadReturns (srv : Server) (seqNo : Nat) (wf : WooF) : Prop :=
  wf.elementSize ≤ srv.maxAlloc ∧ (wooFReadWithCause wf seqNo).Returns

/-- There is a buffer for the range, and what can be read of the range fits into it. -/
def RangeReturns (srv : Server) (seqNo : Nat) (count : Int) (wf : WooF) : Prop :=
  toUlong (count * wf.elementSize) ≤ srv.maxAlloc ∧
    ∃ read, readRun wf seqNo (rangeTurns count wf.elementSize) = .ok read ∧
      read.1.flatten.length ≤ toUlong (count * wf.elementSize)

def TailReturns (srv : Server) (elCount : Nat) (wf : WooF) : Prop :=
  wf.elementSize * elCount % Word.modulus ≤ srv.maxAlloc ∧
    ∃ read, wooFReadTail wf (Word.toInt32 elCount) = .ok read ∧
      read.2.1.flatten.length ≤ wf.elementSize * elCount % Word.modulus

variable {srv : Server} {name : Bytes} {wf : WooF}

theorem oneReply_replyElement_iff {seqNo : Nat} :
    (replyElement srv seqNo (some (name, wf))).OneReply ↔ ReadReturns srv seqNo wf := by
  unfold replyElement ReadReturns
  dsimp only
  split
  · exact iff_of_false (Outcome.not_oneReply_halt srv _) (by omega)
  · rw [Outcome.oneReply_access_iff,
      Exec.serve_oneReply_iff_returns fun _ => Outcome.oneReply_reply _ _]
    exact (and_iff_right (by omega)).symm

theorem oneReply_replyRange_iff {seqNo : Nat} {count : Int} :
    (replyRange srv seqNo count (some (name, wf))).OneReply ↔
      RangeReturns srv seqNo count wf := by
  unfold replyRange RangeReturns rangeTurns
  simp only [decide_eq_true_eq]
  split
  · exact iff_of_false (Outcome.not_oneReply_halt srv _) (by omega)
  · rw [Outcome.oneReply_access_iff, oneReply_copied_iff fun _ => Outcome.oneReply_reply _ _]
    exact (and_iff_right (by omega)).symm

theorem oneReply_replyTail_iff {elCount : Nat} :
    (replyTail srv elCount (some (name, wf))).OneReply ↔ TailReturns srv elCount wf := by
  unfold replyTail TailReturns
  dsimp only
  split
  · exact iff_of_false (Outcome.not_oneReply_halt srv _) (by omega)
  · rw [Outcome.oneReply_access_iff, oneReply_copied_iff fun _ => Outcome.oneReply_reply _ _]
    exact (and_iff_right (by omega)).symm

/-! ## The woof a request reaches -/

theorem unlessCap_oneReply_iff {noCap : Bool} {localName : Option Bytes} {err : Reply}
    {k : Outcome} :
    (unlessCap srv noCap localName err k).OneReply ↔
      (noCap = true → (capName (localName.getD [])).length ≤ 255) ∧
        ((noCap = true → Transport.zmq.Uncapped srv (localName.getD [])) → k.OneReply) := by
  unfold unlessCap Transport.Uncapped
  cases noCap with
  | false => simp
  | true =>
    by_cases hlong : (capName (localName.getD [])).length ≤ 255
    · have hns := srv.exists_eq_ok (show nsCapName.length ≤ 255 by decide)
      simp only [srv.exists_eq_ok hlong, hns, Exec.serve_ok, Except.ok.injEq, hlong]
      cases (srv.dir (capName (localName.getD []))).isSome with
      | true => simp [Outcome.oneReply_reply]
      | false => cases (srv.dir nsCapName).isSome <;> simp [Outcome.oneReply_reply]
    · simp [srv.exists_eq_error hlong, hlong, Outcome.not_oneReply_halt]

/-! ## Requests without a capability -/

/-- The name resolves, and a request without a capability can ask for the capability woof
of one that passes the guard. -/
def NameAnswers (srv : Server) (noCap : Bool) (wname : Bytes) : Prop :=
  Resolves srv.uriPath wname ∧ (noCap = true → Passes srv.uriPath wname →
    ∀ localName, wooFLocalName srv.uriPath wname = .ok localName →
      (capName (localName.getD [])).length ≤ 255)

/-- A request for this operation is answered: its numbers can be converted, its name
resolves, and the operation on the woof it reaches returns. -/
def Answers (srv : Server) (noCap : Bool) : Operation → List Frame → Prop
  | .elSize, [name] | .latestSeqno, [name] | .earliestSeqno, [name] =>
    NameAnswers srv noCap (Bytes.cstr name.data)
  | .put, [name, hand, elem] =>
    NameAnswers srv noCap (Bytes.cstr name.data) ∧
      (Passes srv.uriPath (Bytes.cstr name.data) →
        ∀ wf, Transport.zmq.ReachesPut srv noCap (Bytes.cstr name.data) wf →
          (wooFAppendWithCause srv.globals wf (putHandler hand) elem.data 0 0).Returns)
  | .get, [name, seqNoStr] =>
    ∃ seqNo, Decimal.stoull (Bytes.cstr seqNoStr.data) = some seqNo ∧
      NameAnswers srv noCap (Bytes.cstr name.data) ∧
      (Passes srv.uriPath (Bytes.cstr name.data) →
        ∀ wf, Transport.zmq.Reaches srv noCap (Bytes.cstr name.data) wf →
          ReadReturns srv seqNo wf)
  | .getRange, [name, seqNoStr, countStr] =>
    ∃ seqNo count, Decimal.stoull (Bytes.cstr seqNoStr.data) = some seqNo ∧
      Decimal.stoi (Bytes.cstr countStr.data) = some count ∧
      NameAnswers srv noCap (Bytes.cstr name.data) ∧
      (Passes srv.uriPath (Bytes.cstr name.data) →
        ∀ wf, Transport.zmq.Reaches srv noCap (Bytes.cstr name.data) wf →
          RangeReturns srv seqNo count wf)
  | .getTail, [name, elCountStr] =>
    ∃ elCount, Decimal.stoull (Bytes.cstr elCountStr.data) = some elCount ∧
      NameAnswers srv noCap (Bytes.cstr name.data) ∧
      (Passes srv.uriPath (Bytes.cstr name.data) →
        ∀ wf, Transport.zmq.Reaches srv noCap (Bytes.cstr name.data) wf →
          TailReturns srv elCount wf)
  | _, _ => True

section Handlers

variable {srv : Server} {noCap : Bool} {frames : List Frame} {wname : Bytes}

theorem oneReply_named_iff {err : Reply} {k : Option Bytes → Outcome}
    (hk : Resolves srv.uriPath wname → ∀ localName,
      wooFLocalName srv.uriPath wname = .ok localName → (k localName).OneReply) :
    (guardName srv wname (.reply srv err) fun localName =>
        unlessCap srv noCap localName err (k localName)).OneReply ↔
      NameAnswers srv noCap wname := by
  rw [guardName_oneReply_iff]
  refine and_congr_right fun hres => ?_
  rw [and_iff_right fun _ => Outcome.oneReply_reply srv err]
  constructor
  · exact fun h hcap hpass localName hlocal =>
      (unlessCap_oneReply_iff.1 (h hpass localName hlocal)).1 hcap
  · exact fun h hpass localName hlocal => unlessCap_oneReply_iff.2
      ⟨fun hcap => h hcap hpass localName hlocal, fun _ => hk hres localName hlocal⟩

theorem oneReply_read_iff {k : Option (Bytes × WooF) → Outcome} {returns : WooF → Prop}
    (hnone : (k none).OneReply) (hsome : ∀ name wf, (k (some (name, wf))).OneReply ↔ returns wf) :
    (guardName srv wname (.reply srv sendNull) fun localName =>
        unlessCap srv noCap localName sendNull
          ((openNamed srv wname localName).serve srv k)).OneReply ↔
      NameAnswers srv noCap wname ∧ (Passes srv.uriPath wname →
        ∀ wf, Transport.zmq.Reaches srv noCap wname wf → returns wf) := by
  rw [guardName_oneReply_iff, NameAnswers, and_assoc]
  refine and_congr_right fun hres => ?_
  rw [and_iff_right fun _ => Outcome.oneReply_reply srv sendNull]
  simp only [unlessCap_oneReply_iff, forall_and]
  refine and_congr ⟨fun h hcap hpass localName hlocal => h hpass localName hlocal hcap,
    fun h hpass localName hlocal hcap => h hcap hpass localName hlocal⟩ ?_
  exact imp_congr_right fun _ => oneReply_guarded_iff hres hnone hsome fun _ _ => Iff.rfl

theorem oneReply_getElSize_iff :
    (wooFProcessGetElSize srv noCap frames).OneReply ↔ Answers srv noCap .elSize frames := by
  match frames with
  | [] | _ :: _ :: _ => exact iff_of_true (Outcome.oneReply_reply srv _) trivial
  | [name] =>
    refine oneReply_named_iff fun hres localName _ => ?_
    refine (openForElSize_returns hres).serve_oneReply_iff.2 fun opened _ => ?_
    exact oneReply_replyElSize opened

theorem oneReply_getLatestSeqno_iff :
    (wooFProcessGetLatestSeqno srv noCap frames).OneReply ↔
      Answers srv noCap .latestSeqno frames := by
  match frames with
  | [] | _ :: _ :: _ => exact iff_of_true (Outcome.oneReply_reply srv _) trivial
  | [name] =>
    refine oneReply_named_iff fun hres localName hlocal => ?_
    refine (openNamed_returns hres hlocal).serve_oneReply_iff.2 fun opened _ => ?_
    exact oneReply_replyLatestSeqno opened

theorem oneReply_getEarliestSeqno_iff :
    (wooFProcessGetEarliestSeqno srv noCap frames).OneReply ↔
      Answers srv noCap .earliestSeqno frames := by
  match frames with
  | [] | _ :: _ :: _ => exact iff_of_true (Outcome.oneReply_reply srv _) trivial
  | [name] =>
    refine oneReply_named_iff fun hres localName hlocal => ?_
    exact oneReply_replyEarliestSeqno (slash_notMem_of_nameFromURI hlocal)

theorem oneReply_put_iff :
    (wooFProcessPut srv noCap frames).OneReply ↔ Answers srv noCap .put frames := by
  match frames with
  | [] | [_] | [_, _] | _ :: _ :: _ :: _ :: _ =>
    exact iff_of_true (Outcome.oneReply_reply srv _) trivial
  | [name, hand, elem] =>
    refine guardName_oneReply_iff.trans ?_
    rw [Answers, NameAnswers, and_assoc]
    refine and_congr_right fun hres => ?_
    rw [and_iff_right fun _ => Outcome.oneReply_reply srv _]
    constructor
    · intro h
      refine ⟨fun hcap hpass localName hlocal => ?_, ?_⟩
      · cases localName with
        | none => decide
        | some localName => exact (unlessCap_oneReply_iff.1 (h hpass _ hlocal)).1 hcap
      · rintro hpass wf ⟨localName, found, hlocal, hsome, hcap, hwoof⟩
        cases localName with
        | none => exact absurd rfl (hsome rfl)
        | some localName =>
          have hput := (unlessCap_oneReply_iff.1 (h hpass _ hlocal)).2 hcap
          exact (oneReply_replyPut_iff (slash_notMem_of_nameFromURI hlocal)).1 hput found wf
            hwoof
    · rintro ⟨hfits, h⟩ hpass localName hlocal
      cases localName with
      | none => exact Outcome.oneReply_reply srv _
      | some localName =>
        refine unlessCap_oneReply_iff.2 ⟨fun hcap => hfits hcap hpass _ hlocal, fun hcap => ?_⟩
        refine (oneReply_replyPut_iff (slash_notMem_of_nameFromURI hlocal)).2 ?_
        intro found wf hwoof
        exact h hpass wf ⟨some localName, found, hlocal, by simp, hcap, hwoof⟩

theorem oneReply_get_iff :
    (wooFProcessGet srv noCap frames).OneReply ↔ Answers srv noCap .get frames := by
  match frames with
  | [] | [_] | _ :: _ :: _ :: _ => exact iff_of_true (Outcome.oneReply_reply srv _) trivial
  | [name, seqNoStr] =>
    unfold wooFProcessGet Answers
    dsimp only
    cases Decimal.stoull (Bytes.cstr seqNoStr.data) with
    | none => simp [Outcome.not_oneReply_halt]
    | some seqNo =>
      simp only [Option.some.injEq, exists_eq_left']
      refine oneReply_read_iff (Outcome.oneReply_reply srv sendNull) fun _ _ => ?_
      exact oneReply_replyElement_iff

theorem oneReply_getTail_iff :
    (wooFProcessGetTail srv noCap frames).OneReply ↔ Answers srv noCap .getTail frames := by
  match frames with
  | [] | [_] | _ :: _ :: _ :: _ => exact iff_of_true (Outcome.oneReply_reply srv _) trivial
  | [name, elCountStr] =>
    unfold wooFProcessGetTail Answers
    dsimp only
    cases Decimal.stoull (Bytes.cstr elCountStr.data) with
    | none => simp [Outcome.not_oneReply_halt]
    | some elCount =>
      simp only [Option.some.injEq, exists_eq_left']
      refine oneReply_read_iff (Outcome.oneReply_reply srv _) fun _ _ => ?_
      exact oneReply_replyTail_iff

theorem oneReply_getRange_iff :
    (wooFProcessGetRange srv noCap frames).OneReply ↔ Answers srv noCap .getRange frames := by
  match frames with
  | [] | [_] | [_, _] | _ :: _ :: _ :: _ :: _ =>
    exact iff_of_true (Outcome.oneReply_reply srv _) trivial
  | [name, seqNoStr, countStr] =>
    unfold wooFProcessGetRange Answers
    dsimp only
    cases Decimal.stoull (Bytes.cstr seqNoStr.data) with
    | none => simp [Outcome.not_oneReply_halt]
    | some seqNo =>
      cases Decimal.stoi (Bytes.cstr countStr.data) with
      | none => simp [Outcome.not_oneReply_halt]
      | some count =>
        simp only [Option.some.injEq, exists_eq_left', exists_and_left]
        refine oneReply_read_iff (Outcome.oneReply_reply srv sendNull) fun _ _ => ?_
        exact oneReply_replyRange_iff

def handler (srv : Server) (noCap : Bool) : Operation → List Frame → Outcome
  | .elSize => wooFProcessGetElSize srv noCap
  | .put => wooFProcessPut srv noCap
  | .get => wooFProcessGet srv noCap
  | .getRange => wooFProcessGetRange srv noCap
  | .getTail => wooFProcessGetTail srv noCap
  | .latestSeqno => wooFProcessGetLatestSeqno srv noCap
  | .earliestSeqno => wooFProcessGetEarliestSeqno srv noCap
  | .create => fun _ => .reply srv (sendErr .zmq srv)

theorem handler_oneReply_iff (op : Operation) :
    (handler srv noCap op frames).OneReply ↔ Answers srv noCap op frames := by
  cases op with
  | elSize => exact oneReply_getElSize_iff
  | put => exact oneReply_put_iff
  | get => exact oneReply_get_iff
  | getRange => exact oneReply_getRange_iff
  | getTail => exact oneReply_getTail_iff
  | latestSeqno => exact oneReply_getLatestSeqno_iff
  | earliestSeqno => exact oneReply_getEarliestSeqno_iff
  | create => exact iff_of_true (Outcome.oneReply_reply srv _) trivial

theorem process_plain (hmac : Hmac) (srv : Server) (op : Operation) (frames : List Frame) :
    process hmac srv (.plain op) frames = handler srv true op frames := by
  cases op <;> rfl

end Handlers

/-! ## Requests with a capability -/

/-- The request for the latest number of an unprotected woof is answered twice, and the
one for a range goes to the handler of single elements. -/
def UnprotectedAnswers (srv : Server) : Operation → List Frame → Prop
  | .latestSeqno, _ => False
  | .getRange, frames => Answers srv false .get frames
  | op, frames => Answers srv false op frames

def TagAnswers (hmac : Hmac) (srv : Server) : Tag → List Frame → Prop
  | .plain op, frames => Answers srv true op frames
  | .cap _, [] => True
  | .cap op, cap :: frames =>
    VerdictAnswers ((capHandler op).authorize hmac srv cap frames)
      (UnprotectedAnswers srv op frames) (Answers srv false op frames)

section Cap

variable {hmac : Hmac} {srv : Server} {frames : List Frame} {op : Operation}

theorem getLatestSeqno_oneReply_of_stop
    (h : (wooFProcessGetLatestSeqno srv false frames).stop = none) :
    (wooFProcessGetLatestSeqno srv false frames).OneReply := by
  match frames, h with
  | [], _ | _ :: _ :: _, _ => exact Outcome.oneReply_reply srv _
  | [name], h => exact oneReply_getLatestSeqno_iff.2 ⟨resolves_of_guardName_stop h, nofun⟩

/-- With a capability the same handlers run, but on a woof without protection the one for
ranges is not used. -/
theorem unprotected_eq_handler (hlatest : op ≠ .latestSeqno) :
    (capHandler op).unprotected srv frames =
      handler srv false (if op = .getRange then .get else op) frames := by
  cases op with
  | latestSeqno => exact absurd rfl hlatest
  | _ => rfl

theorem perform_eq_handler (hop : op ≠ .create) :
    (capHandler op).perform srv frames = handler srv false op frames := by
  cases op with
  | create => exact absurd rfl hop
  | _ => rfl

theorem unprotected_oneReply_iff :
    ((capHandler op).unprotected srv frames).OneReply ↔ UnprotectedAnswers srv op frames := by
  by_cases hlatest : op = .latestSeqno
  · subst hlatest
    exact iff_of_false (Outcome.not_oneReply_andReply getLatestSeqno_oneReply_of_stop _) id
  · have hanswers : UnprotectedAnswers srv op frames =
        Answers srv false (if op = .getRange then .get else op) frames := by
      cases op with
      | latestSeqno => exact absurd rfl hlatest
      | _ => rfl
    rw [unprotected_eq_handler hlatest, hanswers]
    exact handler_oneReply_iff _

theorem createWooF_oneReply (wname elSizeStr historyStr : Bytes) :
    (createWooF srv wname elSizeStr historyStr).OneReply := by
  unfold createWooF
  dsimp only
  split
  · exact Outcome.oneReply_reply srv _
  · exact Outcome.oneReply_access_iff.2 (Outcome.oneReply_reply srv _)

theorem perform_oneReply_iff {cap : Frame}
    (h : (capHandler op).authorize hmac srv cap frames = .ok .granted) :
    ((capHandler op).perform srv frames).OneReply ↔ Answers srv false op frames := by
  by_cases hop : op = .create
  · subst hop
    obtain ⟨wname, elSize, history, hname, helSize, hhistory⟩ :=
      Transport.createTexts_of_granted (t := .zmq) h
    refine iff_of_true ?_ trivial
    refine Exec.serve_oneReply_iff.2 ⟨wname, hname, ?_⟩
    refine Exec.serve_oneReply_iff.2 ⟨elSize, helSize, ?_⟩
    exact Exec.serve_oneReply_iff.2 ⟨history, hhistory, createWooF_oneReply _ _ _⟩
  · rw [perform_eq_handler hop]
    exact handler_oneReply_iff op

theorem process_oneReply_iff {tag : Tag} :
    (process hmac srv tag frames).OneReply ↔ TagAnswers hmac srv tag frames := by
  cases tag with
  | plain op =>
    rw [process_plain]
    exact handler_oneReply_iff op
  | cap op =>
    cases frames with
    | nil => exact iff_of_true (Outcome.oneReply_reply srv _) trivial
    | cons cap frames =>
      exact CapHandler.run_oneReply_iff unprotected_oneReply_iff perform_oneReply_iff

end Cap

end Cspot.Zmq
