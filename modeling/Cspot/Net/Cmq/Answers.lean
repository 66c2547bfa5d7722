import Cspot.Net.Answering

/-!
# Which requests the CMQ server answers once

The handlers use their strings in place, so a string has to end inside its memory.  Two
handlers do not survive a refusal when there is a frame too many.
-/

namespace Cspot.Cmq

/-! ## Operations that return -/

/-- There is no frame to read into, or what can be read fits into it. -/
def ReadReturns (srv : Server) (seqNo : Nat) (wf : WooF) : Prop :=
  (wf.elementSize % 2 ^ 32 = 0 ∨ wf.elementSize % 2 ^ 32 > srv.maxAlloc) ∨
    ∃ read, wooFReadWithCause wf seqNo = .ok read ∧
      (read.1.getD []).length ≤ wf.elementSize % 2 ^ 32

/-- The buffer is empty, or what can be read of the range fits into it. -/
def RangeReturns (seqNo count : Nat) (wf : WooF) : Prop :=
  min (count * wf.elementSize % Word.modulus) maxTransfer = 0 ∨
    ∃ read, readRun wf seqNo count = .ok read ∧
      read.1.flatten.length ≤ min (count * wf.elementSize % Word.modulus) maxTransfer

/-- A buffer that cannot be had is answered for, unlike on the other transport. -/
def TailReturns (srv : Server) (elCount : Nat) (wf : WooF) : Prop :=
  srv.maxAlloc < wf.elementSize * elCount % 2 ^ 32 ∨
    ∃ read, wooFReadTail wf (Word.toInt32 elCount) = .ok read ∧
      read.2.1.flatten.length ≤ wf.elementSize * elCount % 2 ^ 32

variable {name : Bytes} {srv : Server} {wf : WooF} {seqNo : Nat}

theorem oneReply_replyElement_iff :
    (replyElement srv seqNo (some (name, wf))).OneReply ↔ ReadReturns srv seqNo wf := by
  unfold replyElement ReadReturns
  dsimp only
  split
  · rename_i hzero
    exact iff_of_true (Outcome.oneReply_reply srv _) (Or.inl hzero)
  · rename_i hzero
    rw [Outcome.oneReply_access_iff, oneReply_copied_iff fun _ => Outcome.oneReply_reply _ _,
      or_iff_right hzero]

theorem oneReply_replyRange_iff {count : Nat} :
    (replyRange srv seqNo count (some (name, wf))).OneReply ↔ RangeReturns seqNo count wf := by
  unfold replyRange RangeReturns
  dsimp only
  split
  · rename_i hzero
    exact iff_of_true (Outcome.oneReply_reply srv _) (Or.inl hzero)
  · rename_i hzero
    rw [Outcome.oneReply_access_iff, oneReply_copied_iff fun _ => Outcome.oneReply_reply _ _,
      or_iff_right hzero]

theorem oneReply_replyTail_iff {elCount : Nat} :
    (replyTail srv elCount (some (name, wf))).OneReply ↔ TailReturns srv elCount wf := by
  unfold replyTail TailReturns
  dsimp only
  split
  · rename_i hsize
    exact iff_of_true (Outcome.oneReply_reply srv _) (Or.inl hsize)
  · rename_i hsize
    rw [Outcome.oneReply_access_iff, oneReply_copied_iff fun _ => Outcome.oneReply_reply _ _,
      or_iff_right hsize]

/-! ## The woof a request reaches -/

theorem unlessCap_oneReply_iff {noCap : Bool} {localName : Option Bytes}
    (hslash : slash ∉ localName.getD []) {refuse k : Outcome} :
    (unlessCap srv noCap localName refuse k).OneReply ↔
      (¬ (noCap = true → Transport.cmq.Uncapped srv (localName.getD [])) → refuse.OneReply) ∧
        ((noCap = true → Transport.cmq.Uncapped srv (localName.getD [])) → k.OneReply) := by
  unfold unlessCap Transport.Uncapped
  cases noCap with
  | false => simp
  | true =>
    rw [wooFOpen_of_slash_notMem (slash_notMem_capName hslash),
      wooFOpen_of_slash_notMem slash_notMem_nsCapName]
    cases hown : srv.lookup (capName (localName.getD [])) with
    | some own => simp [hown]
    | none =>
      cases hns : srv.lookup nsCapName with
      | some ns => simp [hown, hns]
      | none => simp [hown, hns]

theorem oneReply_opened_iff {srv : Server} {noCap : Bool} {wname : Bytes}
    {k : Option (Bytes × WooF) → Outcome} {returns : WooF → Prop}
    (hres : Resolves srv.uriPath wname) {err : Reply} (hnone : (k none).OneReply)
    (hsome : ∀ name wf, (k (some (name, wf))).OneReply ↔ returns wf) :
    (∀ localName, wooFLocalName srv.uriPath wname = .ok localName →
        (unlessCap srv noCap localName (.reply srv err)
          ((openNamed srv wname localName).serve srv k)).OneReply) ↔
      ∀ wf, Transport.cmq.Reaches srv noCap wname wf → returns wf := by
  refine oneReply_guarded_iff hres hnone hsome fun localName hlocal => ?_
  rw [unlessCap_oneReply_iff (slash_notMem_of_nameFromURI hlocal),
    and_iff_right fun _ => Outcome.oneReply_reply srv err]

/-! ## Requests without a capability -/

/-- What has to hold of the frames behind the name of a put that passed the guard. -/
def PutAnswers (srv : Server) (noCap : Bool) (wname : Bytes) : List Frame → Prop
  | [] => True
  | [hand] => hand.data ≠ []
  | hand :: elem :: _ => hand.data ≠ [] ∧
      ∀ wf, Transport.cmq.ReachesPut srv noCap wname wf →
        (wooFAppendWithCause srv.globals wf (putHandler hand.memory)
          ((payload elem).getD []) 0 0).Returns

def GetAnswers (srv : Server) (noCap : Bool) (wname : Bytes) : List Frame → Prop
  | [] => True
  | seqNo :: _ => ∃ text, payloadText seqNo = .ok text ∧
      ∀ wf, Transport.cmq.Reaches srv noCap wname wf → ReadReturns srv (Decimal.strtoul text) wf

def RangeAnswers (srv : Server) (noCap : Bool) (wname : Bytes) : List Frame → Prop
  | seqNo :: count :: _ => ∃ text countText, payloadText seqNo = .ok text ∧
      payloadText count = .ok countText ∧
      ∀ wf, Transport.cmq.Reaches srv noCap wname wf →
        RangeReturns (Decimal.strtoul text) (Decimal.strtoul countText) wf
  | _ => True

/-- The sizes of a create are numbers to the end of their strings. -/
def CreateAnswers (frames : List Frame) : Prop :=
  ∀ elSize history, frameText frames 1 = .ok elSize → frameText frames 2 = .ok history →
    (Decimal.strtol elSize).2 = [] ∧ (Decimal.strtol history).2 = []

def NameAnswers (srv : Server) (name : Frame) (rest : Bytes → Prop) : Prop :=
  name.data = [] ∨ ∃ wname, payloadText name = .ok wname ∧ Resolves srv.uriPath wname ∧
    (Passes srv.uriPath wname → rest wname)

/-- Two handlers do not survive their own refusal of a request with a frame too many. -/
def SoleAnswers (srv : Server) (noCap : Bool) (name : Frame) (rest : List Frame) : Prop :=
  name.data = [] ∨ ∃ wname, payloadText name = .ok wname ∧ Resolves srv.uriPath wname ∧
    (rest = [] ∨ Passes srv.uriPath wname ∧
      ∀ localName, wooFLocalName srv.uriPath wname = .ok localName →
        noCap = true → Transport.cmq.Uncapped srv (localName.getD []))

/-- A request for this operation is answered: its strings end inside their memory, its
name resolves, and the operation on the woof it reaches returns. -/
def Answers (srv : Server) (noCap : Bool) : Operation → List Frame → Prop
  | .elSize, name :: rest | .earliestSeqno, name :: rest => SoleAnswers srv noCap name rest
  | .put, name :: rest => NameAnswers srv name fun wname => PutAnswers srv noCap wname rest
  | .get, name :: rest => NameAnswers srv name fun wname => GetAnswers srv noCap wname rest
  | .getRange, name :: rest => NameAnswers srv name fun wname => RangeAnswers srv noCap wname rest
  | .latestSeqno, name :: _ =>
    ∃ wname, payloadText name = .ok wname ∧ Resolves srv.uriPath wname
  | .getTail, name :: elCount :: _ =>
    ∃ text wname, payloadText elCount = .ok text ∧ payloadText name = .ok wname ∧
      Resolves srv.uriPath wname ∧
      ∀ wf, Transport.cmq.Reaches srv noCap wname wf →
        TailReturns srv (Decimal.strtoul text % 2 ^ 32) wf
  | .create, frames => CreateAnswers frames
  | _, _ => True

section Handlers

variable {srv : Server} {noCap : Bool} {frames : List Frame} {name : Frame}
  {k : Bytes → Option Bytes → Outcome} {err : Reply} {rest : List Frame} {wname : Bytes}
  {op : Operation}

theorem oneReply_guarded_iff {refuse : Outcome} :
    (match payload name with
      | none => Outcome.reply srv err
      | some memory =>
        (cString memory).serve srv fun wname => guardName srv wname refuse (k wname)).OneReply ↔
      name.data = [] ∨ ∃ wname, payloadText name = .ok wname ∧ Resolves srv.uriPath wname ∧
        (¬ Passes srv.uriPath wname → refuse.OneReply) ∧
        (Passes srv.uriPath wname → ∀ localName,
          wooFLocalName srv.uriPath wname = .ok localName → (k wname localName).OneReply) := by
  by_cases hdata : name.data = []
  · simp [payload, hdata, Outcome.oneReply_reply]
  · simp [payload, payloadText, hdata, Exec.serve_oneReply_iff, guardName_oneReply_iff]

theorem oneReply_named_iff {rest : Bytes → Prop}
    (hk : ∀ wname, Resolves srv.uriPath wname →
      ((∀ localName, wooFLocalName srv.uriPath wname = .ok localName →
        (k wname localName).OneReply) ↔ rest wname)) :
    (match payload name with
      | none => Outcome.reply srv err
      | some memory =>
        (cString memory).serve srv fun wname =>
          guardName srv wname (.reply srv err) (k wname)).OneReply ↔
      NameAnswers srv name rest := by
  refine oneReply_guarded_iff.trans (or_congr_right (exists_congr fun wname => ?_))
  refine and_congr_right fun _ => and_congr_right fun hres => ?_
  rw [and_iff_right fun _ => Outcome.oneReply_reply srv err]
  exact imp_congr_right fun _ => hk wname hres

theorem oneReply_destroyAsList_iff {r : Reply} :
    (destroyAsList srv rest (.reply srv r)).OneReply ↔ rest = [] := by
  unfold destroyAsList
  split
  · rename_i hrest
    exact iff_of_true (Outcome.oneReply_reply srv r) hrest
  · rename_i hrest
    exact iff_of_false (Outcome.not_oneReply_halt srv _) hrest

theorem oneReply_sole_iff
    (hk : ∀ wname, Resolves srv.uriPath wname → ∀ localName,
      wooFLocalName srv.uriPath wname = .ok localName → (k wname localName).OneReply) :
    (match payload name with
      | none => Outcome.reply srv err
      | some memory =>
        (cString memory).serve srv fun wname =>
          guardName srv wname (destroyAsList srv rest (.reply srv err)) fun localName =>
            unlessCap srv noCap localName (destroyAsList srv rest (.reply srv err))
              (k wname localName)).OneReply ↔
      SoleAnswers srv noCap name rest := by
  refine oneReply_guarded_iff.trans (or_congr_right (exists_congr fun wname => ?_))
  refine and_congr_right fun _ => and_congr_right fun hres => ?_
  have hcap : ∀ localName, wooFLocalName srv.uriPath wname = .ok localName →
      ((unlessCap srv noCap localName (destroyAsList srv rest (.reply srv err))
          (k wname localName)).OneReply ↔
        rest = [] ∨ (noCap = true → Transport.cmq.Uncapped srv (localName.getD []))) := by
    intro localName hlocal
    rw [unlessCap_oneReply_iff (slash_notMem_of_nameFromURI hlocal), oneReply_destroyAsList_iff,
      and_iff_left fun _ => hk wname hres localName hlocal, or_comm, or_iff_not_imp_left]
  rw [oneReply_destroyAsList_iff]
  by_cases hrest : rest = []
  · simp only [hrest, implies_true, true_and, true_or, iff_true]
    exact fun _ localName hlocal => (hrest ▸ hcap localName hlocal).2 (Or.inl rfl)
  · simp only [hrest, imp_false, not_not, false_or]
    refine and_congr_right fun hpass => ?_
    rw [forall_prop_of_true hpass]
    refine forall_congr' fun localName => imp_congr_right fun hlocal => ?_
    rw [hcap localName hlocal, or_iff_right hrest]

theorem oneReply_getElSize_iff :
    (wooFProcessGetElSize srv noCap frames).OneReply ↔ Answers srv noCap .elSize frames := by
  cases frames with
  | nil => exact iff_of_true (Outcome.oneReply_reply srv _) trivial
  | cons name rest =>
    refine oneReply_sole_iff fun wname hres localName _ => ?_
    refine (openForElSize_returns hres).serve_oneReply_iff.2 fun opened _ => ?_
    exact oneReply_replyElSize opened

theorem oneReply_getEarliestSeqno_iff :
    (wooFProcessGetEarliestSeqno srv noCap frames).OneReply ↔
      Answers srv noCap .earliestSeqno frames := by
  cases frames with
  | nil => exact iff_of_true (Outcome.oneReply_reply srv _) trivial
  | cons name rest =>
    refine oneReply_sole_iff fun wname _ localName hlocal => ?_
    exact oneReply_replyEarliestSeqno (slash_notMem_of_nameFromURI hlocal)

theorem oneReply_put_iff :
    (wooFProcessPut srv noCap frames).OneReply ↔ Answers srv noCap .put frames := by
  cases frames with
  | nil => exact iff_of_true (Outcome.oneReply_reply srv _) trivial
  | cons name rest =>
    refine oneReply_named_iff fun wname hres => ?_
    obtain ⟨found, hfound⟩ := hres.wooFLocalName_returns
    match rest with
    | [] => exact iff_of_true (fun _ _ => Outcome.oneReply_reply srv _) trivial
    | [hand] =>
      by_cases hhand : hand.data = []
      · simp [PutAnswers, payload, hhand, hfound, Outcome.not_oneReply_halt]
      · simp [PutAnswers, payload, hhand, Outcome.oneReply_reply]
    | hand :: elem :: _ =>
      by_cases hhand : hand.data = []
      · simp [PutAnswers, payload, hhand, hfound, Outcome.not_oneReply_halt]
      · have hpayload : payload hand = some hand.memory := if_neg hhand
        simp only [hpayload, PutAnswers, ne_eq, hhand, not_false_eq_true, true_and]
        constructor
        · rintro h wf ⟨localName, file, hlocal, -, hcap, hwoof⟩
          have hslash := slash_notMem_of_nameFromURI hlocal
          have hput := ((unlessCap_oneReply_iff hslash).1 (h localName hlocal)).2 hcap
          exact (oneReply_replyPut_iff hslash).1 hput file wf hwoof
        · intro h localName hlocal
          have hslash := slash_notMem_of_nameFromURI hlocal
          refine (unlessCap_oneReply_iff hslash).2
            ⟨fun _ => Outcome.oneReply_reply srv _, fun hcap => ?_⟩
          refine (oneReply_replyPut_iff hslash).2 fun file wf hwoof => ?_
          exact h wf ⟨localName, file, hlocal, by simp, hcap, hwoof⟩

theorem oneReply_text_iff {f : Frame} (hres : Resolves srv.uriPath wname) {p : Bytes → Prop}
    (hk : ∀ text, (∀ localName, wooFLocalName srv.uriPath wname = .ok localName →
      (k text localName).OneReply) ↔ p text) :
    (∀ localName, wooFLocalName srv.uriPath wname = .ok localName →
        ((payloadText f).serve srv fun text => k text localName).OneReply) ↔
      ∃ text, payloadText f = .ok text ∧ p text := by
  obtain ⟨found, hfound⟩ := hres.wooFLocalName_returns
  have hone : ∀ q : Option Bytes → Prop,
      (∀ localName, wooFLocalName srv.uriPath wname = .ok localName → q localName) ↔ q found := by
    intro q
    simp [hfound]
  rw [hone, Exec.serve_oneReply_iff]
  refine exists_congr fun text => and_congr_right fun _ => ?_
  rw [← hk text, hone]

theorem oneReply_get_iff :
    (wooFProcessGet srv noCap frames).OneReply ↔ Answers srv noCap .get frames := by
  cases frames with
  | nil => exact iff_of_true (Outcome.oneReply_reply srv _) trivial
  | cons name rest =>
    refine oneReply_named_iff fun wname hres => ?_
    cases rest with
    | nil => exact iff_of_true (fun _ _ => Outcome.oneReply_reply srv _) trivial
    | cons seqNo rest =>
      refine oneReply_text_iff hres fun text => ?_
      refine oneReply_opened_iff hres (Outcome.oneReply_reply srv sendNull) fun _ _ => ?_
      exact oneReply_replyElement_iff

theorem oneReply_getRange_iff :
    (wooFProcessGetRange srv noCap frames).OneReply ↔ Answers srv noCap .getRange frames := by
  cases frames with
  | nil => exact iff_of_true (Outcome.oneReply_reply srv _) trivial
  | cons name rest =>
    refine oneReply_named_iff fun wname hres => ?_
    match rest with
    | [] | [_] => exact iff_of_true (fun _ _ => Outcome.oneReply_reply srv _) trivial
    | seqNo :: count :: _ =>
      simp only [RangeAnswers, exists_and_left]
      refine oneReply_text_iff hres fun text => ?_
      refine oneReply_text_iff hres fun countText => ?_
      refine oneReply_opened_iff hres (Outcome.oneReply_reply srv sendNull) fun _ _ => ?_
      exact oneReply_replyRange_iff

theorem oneReply_getLatestSeqno_iff :
    (wooFProcessGetLatestSeqno srv noCap frames).OneReply ↔
      Answers srv noCap .latestSeqno frames := by
  cases frames with
  | nil => exact iff_of_true (Outcome.oneReply_reply srv _) trivial
  | cons name rest =>
    refine Exec.serve_oneReply_iff.trans (exists_congr fun wname => and_congr_right fun _ => ?_)
    refine Iff.trans ?_ (wooFNameFromURI_returns_iff 1024)
    constructor
    · intro h
      obtain ⟨localName, hlocal, -⟩ := Exec.serve_oneReply_iff.1 h
      exact ⟨localName, hlocal⟩
    · rintro ⟨localName, hlocal⟩
      have hres := (wooFNameFromURI_returns_iff 1024).1 ⟨localName, hlocal⟩
      refine Exec.serve_oneReply_iff.2 ⟨localName, hlocal, ?_⟩
      refine (unlessCap_oneReply_iff (slash_notMem_of_nameFromURI hlocal)).2
        ⟨fun _ => Outcome.oneReply_reply srv _, fun _ => ?_⟩
      refine (openNamed_returns hres hlocal).serve_oneReply_iff.2 fun opened _ => ?_
      exact oneReply_replyLatestSeqno opened

theorem oneReply_getTail_iff :
    (wooFProcessGetTail srv noCap frames).OneReply ↔ Answers srv noCap .getTail frames := by
  match frames with
  | [] | [_] => exact iff_of_true (Outcome.oneReply_reply srv _) trivial
  | name :: elCount :: _ =>
    simp only [Answers, exists_and_left]
    refine Exec.serve_oneReply_iff.trans (exists_congr fun text => and_congr_right fun _ => ?_)
    refine Exec.serve_oneReply_iff.trans (exists_congr fun wname => and_congr_right fun _ => ?_)
    by_cases hres : Resolves srv.uriPath wname
    · refine hres.wooFLocalName_returns.serve_oneReply_iff.trans ?_
      rw [and_iff_right hres]
      refine oneReply_opened_iff hres (Outcome.oneReply_reply srv _) fun _ _ => ?_
      exact oneReply_replyTail_iff
    · refine iff_of_false (fun h => hres ?_) fun h => hres h.1
      obtain ⟨localName, hlocal, -⟩ := Exec.serve_oneReply_iff.1 h
      exact (wooFNameFromURI_returns_iff 1024).1 ⟨localName, hlocal⟩

def handler (srv : Server) (noCap : Bool) : Operation → List Frame → Outcome
  | .elSize => wooFProcessGetElSize srv noCap
  | .put => wooFProcessPut srv noCap
  | .get => wooFProcessGet srv noCap
  | .getRange => wooFProcessGetRange srv noCap
  | .getTail => wooFProcessGetTail srv noCap
  | .latestSeqno => wooFProcessGetLatestSeqno srv noCap
  | .earliestSeqno => wooFProcessGetEarliestSeqno srv noCap
  | .create => fun _ => .silent srv

theorem handler_oneReply_iff (hop : op ≠ .create) :
    (handler srv noCap op frames).OneReply ↔ Answers srv noCap op frames := by
  cases op with
  | elSize => exact oneReply_getElSize_iff
  | put => exact oneReply_put_iff
  | get => exact oneReply_get_iff
  | getRange => exact oneReply_getRange_iff
  | getTail => exact oneReply_getTail_iff
  | latestSeqno => exact oneReply_getLatestSeqno_iff
  | earliestSeqno => exact oneReply_getEarliestSeqno_iff
  | create => exact absurd rfl hop

theorem process_plain (hmac : Hmac) (srv : Server) (op : Operation) (frames : List Frame) :
    process hmac srv (.plain op) frames = handler srv true op frames := by
  cases op <;> rfl

theorem capHandler_eq_handler (hop : op ≠ .create) (srv : Server) (frames : List Frame) :
    (capHandler op).unprotected srv frames = handler srv false op frames ∧
      (capHandler op).perform srv frames = handler srv false op frames := by
  cases op with
  | create => exact absurd rfl hop
  | _ => exact ⟨rfl, rfl⟩

theorem createWooF_oneReply_iff {elSizeStr historyStr : Bytes} :
    (createWooF srv wname elSizeStr historyStr).OneReply ↔
      (Decimal.strtol elSizeStr).2 = [] ∧ (Decimal.strtol historyStr).2 = [] := by
  unfold createWooF
  dsimp only
  split
  · rename_i htrailing
    refine iff_of_false (Outcome.not_oneReply_silent srv) fun h => ?_
    exact htrailing.elim (absurd h.1) (absurd h.2)
  · rename_i hwhole
    have hwhole' := not_or.1 hwhole
    exact iff_of_true (Outcome.oneReply_access_iff.2 (Outcome.oneReply_reply srv _))
      ⟨not_not.1 hwhole'.1, not_not.1 hwhole'.2⟩

end Handlers

/-- A create needs a capability, so there is no handler for one without. -/
def TagAnswers (hmac : Hmac) (srv : Server) : Tag → List Frame → Prop
  | .plain op, frames => op ≠ .create ∧ Answers srv true op frames
  | .cap _, [] => True
  | .cap op, cap :: frames =>
    VerdictAnswers ((capHandler op).authorize hmac srv cap frames)
      (op = .create ∨ Answers srv false op frames) (Answers srv false op frames)

section Cap

variable {hmac : Hmac} {srv : Server} {frames : List Frame} {op : Operation}

theorem process_plain_oneReply_iff :
    (process hmac srv (.plain op) frames).OneReply ↔
      op ≠ .create ∧ Answers srv true op frames := by
  rw [process_plain]
  by_cases hop : op = .create
  · subst hop
    exact iff_of_false (Outcome.not_oneReply_silent srv) fun h => h.1 rfl
  · rw [and_iff_right hop]
    exact handler_oneReply_iff hop

theorem unprotected_oneReply_iff :
    ((capHandler op).unprotected srv frames).OneReply ↔
      op = .create ∨ Answers srv false op frames := by
  by_cases hop : op = .create
  · subst hop
    exact iff_of_true (Outcome.oneReply_reply srv _) (Or.inl rfl)
  · rw [(capHandler_eq_handler hop srv frames).1, or_iff_right hop]
    exact handler_oneReply_iff hop

theorem perform_oneReply_iff {cap : Frame}
    (h : (capHandler op).authorize hmac srv cap frames = .ok .granted) :
    ((capHandler op).perform srv frames).OneReply ↔ Answers srv false op frames := by
  by_cases hop : op = .create
  · subst hop
    obtain ⟨wname, elSize, history, hname, helSize, hhistory⟩ :=
      Transport.createTexts_of_granted (t := .cmq) h
    simp only [capHandler, wooFProcessCreatewithCAP, hname, helSize, hhistory, Exec.serve_ok,
      Answers, CreateAnswers, Except.ok.injEq, createWooF_oneReply_iff]
    refine ⟨?_, fun h => h elSize history rfl rfl⟩
    rintro h _ _ rfl rfl
    exact h
  · rw [(capHandler_eq_handler hop srv frames).2]
    exact handler_oneReply_iff hop

theorem process_oneReply_iff {tag : Tag} :
    (process hmac srv tag frames).OneReply ↔ TagAnswers hmac srv tag frames := by
  cases tag with
  | plain op => exact process_plain_oneReply_iff
  | cap op =>
    cases frames with
    | nil => exact iff_of_true (Outcome.oneReply_reply srv _) trivial
    | cons cap frames =>
      exact CapHandler.run_oneReply_iff unprotected_oneReply_iff perform_oneReply_iff

end Cap

end Cspot.Cmq
