import Cspot.Net.Agreement
import Cspot.Net.CapNames
import Cspot.Net.Replies

/-!
# Requests the server lets through

There are three ways to the handler of an operation: without a capability frame when
nothing protects the woof, with one nobody asked for, and with one that passes the check.
On each of them the handler ends up with the woof the URI names.
-/

namespace Cspot

/-! ## Routes -/

/-- The URI names a file that no handler turns away for its name. -/
structure Addressed (srv : Server) (woofName name : Bytes) : Prop where
  named : NamedBy srv.uriPath woofName name
  woofName_ne_zero : ∀ b ∈ woofName, b ≠ 0
  long : 4 ≤ name.length
  fits : name.length < 1024
  ending : endsInCap name = false

/-- The server finds no capability woof for the name. -/
def Transport.Uncapped : Transport → Server → Bytes → Prop
  | .zmq, srv, name => srv.exists (capName name) = .ok false ∧ srv.exists nsCapName = .ok false
  | .cmq, srv, name => srv.lookup (capName name) = none ∧ srv.lookup nsCapName = none

inductive Route
  | plain
  | unprotected
  | granted
deriving Repr, DecidableEq

namespace Route

/-- The server takes the message to its handler on this route. -/
def Admits (t : Transport) (hmac : Hmac) (srv : Server) (name : Bytes) (op : Operation) :
    Route → List Frame → Prop
  | .plain, f :: _ => t.readTag f = .ok (some (.plain op)) ∧ t.Uncapped srv name
  | .unprotected, f :: cap :: frames => t.readTag f = .ok (some (.cap op)) ∧
      (t.capHandler op).authorize hmac srv cap frames = .ok .unprotected
  | .granted, f :: cap :: frames => t.readTag f = .ok (some (.cap op)) ∧
      (t.capHandler op).authorize hmac srv cap frames = .ok .granted
  | _, _ => False

def outcome (t : Transport) (hmac : Hmac) (srv : Server) (op : Operation) (frames : List Frame) :
    Route → Outcome
  | .plain => t.process hmac srv (.plain op) frames
  | .unprotected => (t.capHandler op).unprotected srv frames
  | .granted => (t.capHandler op).perform srv frames

def headers : Route → Nat
  | .plain => 1
  | _ => 2

section

variable {t : Transport} {hmac : Hmac} {srv : Server} {name : Bytes} {op : Operation} {r : Route}
  {message : List Frame} (h : r.Admits t hmac srv name op message)
include h

theorem Admits.serve_eq :
    t.serve hmac srv message = r.outcome t hmac srv op (message.drop r.headers) := by
  match r, message, h with
  | .plain, f :: frames, h => exact Transport.serve_of_readTag h.1 frames
  | .unprotected, f :: cap :: frames, h =>
    rw [Transport.serve_of_readTag h.1, Transport.process_cap, CapHandler.run, h.2]
    rfl
  | .granted, f :: cap :: frames, h =>
    rw [Transport.serve_of_readTag h.1, Transport.process_cap, CapHandler.run, h.2]
    rfl

theorem Admits.uncapped (hplain : r = .plain) : t.Uncapped srv name := by
  subst hplain
  match message, h with
  | f :: _, h => exact h.2

theorem Admits.withFreed (freed : Bytes → Bytes) :
    r.Admits t hmac (srv.withFreed freed) name op message := by
  match r, message, h with
  | .plain, _ :: _, h => exact ⟨h.1, by cases t <;> exact h.2⟩
  | .unprotected, _ :: _ :: _, h => exact ⟨h.1, by cases t <;> cases op <;> exact h.2⟩
  | .granted, _ :: _ :: _, h => exact ⟨h.1, by cases t <;> cases op <;> exact h.2⟩

end

end Route

/-! ## Messages of a client -/

/-- A request that is sent at all is admitted on this route. -/
def Client.Admitted (c : Client) (t : Transport) (srv : Server) (woofName name : Bytes)
    (req : Request) (r : Route) : Prop :=
  req.Sized → ∃ sent, t.request c.hmac c.keychain c.garbage woofName req = .ok (some sent) ∧
    r.Admits t c.hmac srv name req.operation (c.arrive sent)

section Messages

variable {t : Transport} {hmac : Hmac} {keychain : Keychain} {garbage : UInt64} {woofName : Bytes}
  {req : Request} {srv : Server} {name : Bytes} {c : Client} {call : Call} {sent : List Bytes}
  {r : Route}

theorem Call.header_cases {header : List Bytes}
    (h : call.header hmac keychain woofName = .ok (some header)) :
    (∃ n, call.operation.plainNumber = some n ∧ header = [textFrame (Decimal.ofNat n)]) ∨
      ∃ cap, header = [textFrame (Decimal.ofNat call.operation.capNumber), cap] := by
  unfold Call.header at h
  split at h
  · cases hn : call.operation.plainNumber with
    | none => simp [hn] at h
    | some n =>
      simp only [hn, Option.map_some, Except.ok.injEq, Option.some.injEq] at h
      exact Or.inl ⟨n, rfl, h.symm⟩
  · obtain ⟨cap, -, h⟩ := Exec.bind_eq_ok.1 h
    cases cap with
    | none => simp at h
    | some cap =>
      simp only [Exec.pure_eq, Except.ok.injEq, Option.some.injEq] at h
      exact Or.inr ⟨cap, h.symm⟩

theorem Transport.request_cases
    (h : t.request hmac keychain garbage woofName req = .ok (some sent)) :
    (∃ n, req.operation.plainNumber = some n ∧
        sent = textFrame (Decimal.ofNat n) :: req.arriving t woofName) ∨
      ∃ cap, sent =
        textFrame (Decimal.ofNat req.operation.capNumber) :: cap :: req.arriving t woofName := by
  unfold Transport.request at h
  cases hcall : t.call garbage woofName req with
  | none => simp [hcall] at h
  | some call =>
    have hfor := callFor_of_call hcall
    simp only [hcall] at h
    obtain ⟨header, hheader, h⟩ := Exec.bind_eq_ok.1 h
    cases header with
    | none => simp at h
    | some header =>
      have hdeliver := Option.some.inj (Except.ok.inj h)
      rw [deliver_eq hcall] at hdeliver
      rcases Call.header_cases hheader with ⟨n, hn, rfl⟩ | ⟨cap, rfl⟩
      · exact Or.inl ⟨n, hfor.operation ▸ hn, hdeliver.symm⟩
      · exact Or.inr ⟨cap, by rw [← hdeliver, hfor.operation]; rfl⟩

theorem Route.Admits.arrived_args {message : List Frame}
    (h : r.Admits t hmac srv name req.operation message)
    (hsent : t.request hmac keychain garbage woofName req = .ok (some sent))
    (harrived : Arrived sent message) :
    Arrived (req.arriving t woofName) (message.drop r.headers) := by
  rcases Transport.request_cases hsent with ⟨n, hn, rfl⟩ | ⟨cap, rfl⟩
  · obtain ⟨f, rest, rfl, hf, harrived⟩ := arrived_cons_iff.1 harrived
    have htag := t.readTag_plainNumber hn hf
    match r, rest, h with
    | .plain, _, _ => exact harrived
    | .unprotected, _ :: _, h => exact absurd (htag.symm.trans h.1) (by simp)
    | .granted, _ :: _, h => exact absurd (htag.symm.trans h.1) (by simp)
  · obtain ⟨f, rest, rfl, hf, harrived⟩ := arrived_cons_iff.1 harrived
    obtain ⟨capFrame, rest, rfl, -, harrived⟩ := arrived_cons_iff.1 harrived
    have htag := t.readTag_capNumber _ hf
    match r, h with
    | .plain, h => exact absurd (htag.symm.trans h.1) (by simp)
    | .unprotected, _ => exact harrived
    | .granted, _ => exact harrived

theorem Client.exchange_arriving (h : c.Admitted t srv woofName name req r)
    (hsized : req.Sized) :
    ∃ frames, Arrived (req.arriving t woofName) frames ∧ (∃ sent, frames ⊆ c.arrive sent) ∧
      (r = .plain → t.Uncapped srv name) ∧
      c.exchange t srv woofName req = (r.outcome t c.hmac srv req.operation frames).answer := by
  obtain ⟨sent, hsent, hadmits⟩ := h hsized
  refine ⟨_, hadmits.arrived_args hsent (c.arrived sent), ⟨sent, List.drop_subset _ _⟩,
    hadmits.uncapped, ?_⟩
  rw [Client.exchange, hsent, ← hadmits.serve_eq]
  rfl

theorem Client.Admitted.withFreed (h : c.Admitted t srv woofName name req r)
    (freed : Bytes → Bytes) : c.Admitted t (srv.withFreed freed) woofName name req r := by
  intro hsized
  obtain ⟨sent, hsent, hadmits⟩ := h hsized
  exact ⟨sent, hsent, hadmits.withFreed freed⟩

/-- The arguments arrive as they were sent but in one case. -/
theorem Client.exchange_of_admitted (h : c.Admitted t srv woofName name req r)
    (hsized : req.Sized) (hop : ¬ (t = .cmq ∧ req.operation = .getTail)) :
    ∃ frames, Arrived (req.args woofName) frames ∧ (∃ sent, frames ⊆ c.arrive sent) ∧
      (r = .plain → t.Uncapped srv name) ∧
      c.exchange t srv woofName req = (r.outcome t c.hmac srv req.operation frames).answer := by
  rw [← Request.arriving_eq_args woofName hop]
  exact exchange_arriving h hsized

theorem Client.exchange_of_not_sized (hsized : ¬ req.Sized) :
    c.exchange t srv woofName req = .ok (none, srv) := by
  rcases call_cases t c.garbage woofName req with ⟨hcall, -⟩ | ⟨-, -, h, -⟩
  · simp [Client.exchange, Transport.request, hcall]
  · exact absurd h hsized

theorem Transport.search_of_no_keys (hcall : t.call garbage woofName req = some call)
    (hkeys : ∀ key, keychain key = none) : call.search keychain woofName = none := by
  have hboth : searchKeychain keychain woofName = none := by simp [searchKeychain, hkeys]
  cases req with
  | elSize | latestSeqno | earliestSeqno =>
    cases hcall
    exact hboth
  | put handlerName elem =>
    obtain ⟨-, h⟩ := Option.ite_none_left_eq_some.1 hcall
    cases h
    exact hboth
  | get elemSize seqNo | getRange elemSize seqNo count | create elemSize historySize =>
    obtain ⟨-, h⟩ := Option.ite_none_left_eq_some.1 hcall
    cases h
    exact hboth
  | getTail elSize elCount =>
    cases t <;> obtain ⟨-, h⟩ := Option.ite_none_left_eq_some.1 hcall <;> cases h
    · exact hkeys woofName
    · exact hboth

theorem Client.admitted_plain {n : Nat} (hkeys : ∀ key, c.keychain key = none)
    (hn : req.operation.plainNumber = some n) (hcap : t.Uncapped srv name) :
    c.Admitted t srv woofName name req .plain := by
  intro hsized
  rcases call_cases t c.garbage woofName req with ⟨-, hnot⟩ | ⟨call, hcall, -, hfor⟩
  · exact absurd hsized hnot
  have hsearch := Transport.search_of_no_keys hcall hkeys
  refine ⟨textFrame (Decimal.ofNat n) :: req.arriving t woofName, ?_, ?_⟩
  · simp [Transport.request, hcall, Call.header, hsearch, hfor.operation, hn, deliver_eq hcall]
  · obtain ⟨f, rest, harrive, hf, -⟩ :=
      arrived_cons_iff.1 (c.arrived (textFrame (Decimal.ofNat n) :: req.arriving t woofName))
    rw [harrive]
    exact ⟨t.readTag_plainNumber hn hf, hcap⟩

end Messages

/-! ## The woof behind the name -/

section Arrived

variable {frames : List Frame} {first second third : Bytes}

theorem Arrived.one (h : Arrived [first] frames) : ∃ f, frames = [f] ∧ f.data = first := by
  obtain ⟨f, rest, rfl, hf, h⟩ := arrived_cons_iff.1 h
  exact ⟨f, by rw [List.map_eq_nil_iff.1 h], hf⟩

theorem Arrived.two (h : Arrived [first, second] frames) :
    ∃ f g, frames = [f, g] ∧ f.data = first ∧ g.data = second := by
  obtain ⟨f, rest, rfl, hf, h⟩ := arrived_cons_iff.1 h
  obtain ⟨g, rfl, hg⟩ := h.one
  exact ⟨f, g, rfl, hf, hg⟩

theorem Arrived.three (h : Arrived [first, second, third] frames) :
    ∃ f g i, frames = [f, g, i] ∧ f.data = first ∧ g.data = second ∧ i.data = third := by
  obtain ⟨f, rest, rfl, hf, h⟩ := arrived_cons_iff.1 h
  obtain ⟨g, i, rfl, hg, hi⟩ := h.two
  exact ⟨f, g, i, rfl, hf, hg, hi⟩

end Arrived

theorem decimal_ne_zero (n : UInt32) : ∀ b ∈ decimal n, b ≠ 0 := Decimal.ofNat_ne_zero

theorem lt_modulus_of_uint32 (n : UInt32) : n.toNat < Word.modulus := by
  have hlt := n.toNat_lt
  unfold Word.modulus
  omega

namespace Addressed

variable {srv : Server} {woofName name : Bytes} (h : Addressed srv woofName name)

include h

theorem fileName_eq : fileName name = some name := if_pos h.fits

theorem guardName_eq (refuse : Outcome) (k : Option Bytes → Outcome) :
    guardName srv woofName refuse k = k (some name) := by
  have hfits := h.fits
  simp [guardName, h.named.isCAPName_eq_zero (by omega) h.long h.ending, h.named.localName,
    h.fileName_eq]

theorem localName_eq : wooFLocalName srv.uriPath woofName = .ok (some name) := by
  rw [h.named.localName, h.fileName_eq]

theorem wooFOpen_name : wooFOpen srv name = .ok (srv.lookup name) :=
  wooFOpen_of_slash_notMem h.named.slash_notMem

theorem withFreed (freed : Bytes → Bytes) : Addressed (srv.withFreed freed) woofName name :=
  ⟨h.named, h.woofName_ne_zero, h.long, h.fits, h.ending⟩

theorem openForElSize_eq : openForElSize srv woofName (some name) = .ok (srv.lookup name) := by
  have hfits : name.length < 4096 := by have := h.fits; omega
  simp [openForElSize, wooFOpen, h.named.valid, h.named.nameFromURI, hfits]

end Addressed

variable {srv : Server} {name : Bytes} {noCap : Bool}

theorem Zmq.unlessCap_of_uncapped (h : noCap = true → Transport.zmq.Uncapped srv name) (err : Reply)
    (k : Outcome) :
    Zmq.unlessCap srv noCap (some name) err k = k := by
  cases noCap with
  | false => rfl
  | true => simp [Zmq.unlessCap, (h rfl).1, (h rfl).2]

theorem Cmq.unlessCap_of_uncapped (hslash : slash ∉ name)
    (h : noCap = true → Transport.cmq.Uncapped srv name) (refuse k : Outcome) :
    Cmq.unlessCap srv noCap (some name) refuse k = k := by
  cases noCap with
  | false => rfl
  | true =>
    have hcap := slash_notMem_capName hslash
    simp [Cmq.unlessCap, wooFOpen_of_slash_notMem hcap,
      wooFOpen_of_slash_notMem slash_notMem_nsCapName, (h rfl).1, (h rfl).2]

section Handlers

variable {srv : Server} {woofName name : Bytes} {noCap : Bool} {frames : List Frame}
  (ha : Addressed srv woofName name)

include ha

namespace Zmq

variable (hcap : noCap = true → Transport.zmq.Uncapped srv name) {seqNo : UInt32}

include hcap

theorem wooFProcessGetElSize_eq (h : Arrived [textFrame woofName] frames) :
    wooFProcessGetElSize srv noCap frames = replyElSize .zmq srv (srv.lookup name) := by
  obtain ⟨f, rfl, hf⟩ := h.one
  simp [wooFProcessGetElSize, Frame.cstr_of_text hf ha.woofName_ne_zero, ha.guardName_eq,
    unlessCap_of_uncapped hcap, ha.openForElSize_eq]

theorem wooFProcessGetLatestSeqno_eq (h : Arrived [textFrame woofName] frames) :
    wooFProcessGetLatestSeqno srv noCap frames = replyLatestSeqno .zmq srv (srv.lookup name) := by
  obtain ⟨f, rfl, hf⟩ := h.one
  simp [wooFProcessGetLatestSeqno, Frame.cstr_of_text hf ha.woofName_ne_zero, ha.guardName_eq,
    unlessCap_of_uncapped hcap, openNamed, ha.wooFOpen_name]

theorem wooFProcessGetEarliestSeqno_eq (h : Arrived [textFrame woofName] frames) :
    wooFProcessGetEarliestSeqno srv noCap frames = replyEarliestSeqno .zmq srv name := by
  obtain ⟨f, rfl, hf⟩ := h.one
  simp [wooFProcessGetEarliestSeqno, Frame.cstr_of_text hf ha.woofName_ne_zero,
    ha.guardName_eq, unlessCap_of_uncapped hcap]

theorem wooFProcessGet_eq (h : Arrived [textFrame woofName, textFrame (decimal seqNo)] frames) :
    wooFProcessGet srv noCap frames = replyElement srv seqNo.toNat (srv.lookup name) := by
  obtain ⟨f, g, rfl, hf, hg⟩ := h.two
  simp [wooFProcessGet, Frame.cstr_of_text hf ha.woofName_ne_zero,
    Frame.cstr_of_text hg (decimal_ne_zero seqNo), decimal,
    Decimal.stoull_ofNat (lt_modulus_of_uint32 seqNo), ha.guardName_eq,
    unlessCap_of_uncapped hcap, openNamed, ha.wooFOpen_name]

theorem wooFProcessGetRange_eq {count : UInt32} (hcount : count.toNat < 2 ^ 31)
    (h : Arrived [textFrame woofName, textFrame (decimal seqNo), textFrame (decimal count)]
      frames) :
    wooFProcessGetRange srv noCap frames =
      replyRange srv seqNo.toNat count.toNat (srv.lookup name) := by
  obtain ⟨f, g, i, rfl, hf, hg, hi⟩ := h.three
  simp [wooFProcessGetRange, Frame.cstr_of_text hf ha.woofName_ne_zero,
    Frame.cstr_of_text hg (decimal_ne_zero seqNo), Frame.cstr_of_text hi (decimal_ne_zero count),
    decimal, Decimal.stoull_ofNat (lt_modulus_of_uint32 seqNo), Decimal.stoi_ofNat hcount,
    ha.guardName_eq, unlessCap_of_uncapped hcap, openNamed, ha.wooFOpen_name]

theorem wooFProcessGetTail_eq {count : Int} {elCount : Nat}
    (hcount : Decimal.stoull (Decimal.ofInt count) = some elCount)
    (hzero : ∀ b ∈ Decimal.ofInt count, b ≠ 0)
    (h : Arrived [textFrame woofName, textFrame (Decimal.ofInt count)] frames) :
    wooFProcessGetTail srv noCap frames = replyTail srv elCount (srv.lookup name) := by
  obtain ⟨f, g, rfl, hf, hg⟩ := h.two
  simp [wooFProcessGetTail, Frame.cstr_of_text hf ha.woofName_ne_zero,
    Frame.cstr_of_text hg hzero, hcount, ha.guardName_eq, unlessCap_of_uncapped hcap, openNamed,
    ha.wooFOpen_name]

theorem wooFProcessPut_eq {hname elem : Bytes} (hzero : ∀ b ∈ hname, b ≠ 0)
    (h : Arrived [textFrame woofName, textFrame hname, elem] frames) :
    wooFProcessPut srv noCap frames =
      replyPut .zmq srv name (if hname = nullName then none else some hname) elem := by
  obtain ⟨f, g, i, rfl, hf, hg, hi⟩ := h.three
  simp [wooFProcessPut, Frame.cstr_of_text hf ha.woofName_ne_zero, ha.guardName_eq,
    unlessCap_of_uncapped hcap, putHandler, Frame.cstr_of_text hg hzero, hi]

end Zmq

namespace Cmq

variable (hcap : noCap = true → Transport.cmq.Uncapped srv name) {seqNo : UInt32}

include hcap

theorem wooFProcessGetElSize_eq (h : Arrived [textFrame woofName] frames) :
    wooFProcessGetElSize srv noCap frames = replyElSize .cmq srv (srv.lookup name) := by
  obtain ⟨f, rfl, hf⟩ := h.one
  simp [wooFProcessGetElSize, payload_of_text hf, Frame.cString_of_text hf ha.woofName_ne_zero,
    ha.guardName_eq, unlessCap_of_uncapped ha.named.slash_notMem hcap, ha.openForElSize_eq]

theorem wooFProcessGetLatestSeqno_eq (h : Arrived [textFrame woofName] frames) :
    wooFProcessGetLatestSeqno srv noCap frames = replyLatestSeqno .cmq srv (srv.lookup name) := by
  obtain ⟨f, rfl, hf⟩ := h.one
  simp [wooFProcessGetLatestSeqno, payloadText_of_text hf ha.woofName_ne_zero,
    ha.localName_eq, unlessCap_of_uncapped ha.named.slash_notMem hcap, openNamed,
    ha.wooFOpen_name]

theorem wooFProcessGetEarliestSeqno_eq (h : Arrived [textFrame woofName] frames) :
    wooFProcessGetEarliestSeqno srv noCap frames = replyEarliestSeqno .cmq srv name := by
  obtain ⟨f, rfl, hf⟩ := h.one
  simp [wooFProcessGetEarliestSeqno, payload_of_text hf,
    Frame.cString_of_text hf ha.woofName_ne_zero, ha.guardName_eq,
    unlessCap_of_uncapped ha.named.slash_notMem hcap]

theorem wooFProcessGet_eq (h : Arrived [textFrame woofName, textFrame (decimal seqNo)] frames) :
    wooFProcessGet srv noCap frames = replyElement srv seqNo.toNat (srv.lookup name) := by
  obtain ⟨f, g, rfl, hf, hg⟩ := h.two
  simp [wooFProcessGet, payload_of_text hf, Frame.cString_of_text hf ha.woofName_ne_zero,
    payloadText_of_text hg (decimal_ne_zero seqNo), decimal,
    Decimal.strtoul_ofNat (lt_modulus_of_uint32 seqNo), ha.guardName_eq,
    unlessCap_of_uncapped ha.named.slash_notMem hcap, openNamed, ha.wooFOpen_name]

theorem wooFProcessGetRange_eq {count : UInt32}
    (h : Arrived [textFrame woofName, textFrame (decimal seqNo), textFrame (decimal count)]
      frames) :
    wooFProcessGetRange srv noCap frames =
      replyRange srv seqNo.toNat count.toNat (srv.lookup name) := by
  obtain ⟨f, g, i, rfl, hf, hg, hi⟩ := h.three
  simp [wooFProcessGetRange, payload_of_text hf, Frame.cString_of_text hf ha.woofName_ne_zero,
    payloadText_of_text hg (decimal_ne_zero seqNo), payloadText_of_text hi (decimal_ne_zero count),
    decimal, Decimal.strtoul_ofNat (lt_modulus_of_uint32 seqNo),
    Decimal.strtoul_ofNat (lt_modulus_of_uint32 count), ha.guardName_eq,
    unlessCap_of_uncapped ha.named.slash_notMem hcap, openNamed, ha.wooFOpen_name]

theorem wooFProcessGetTail_eq {count : Int} {rest : List Bytes}
    (h : Arrived (textFrame woofName :: textFrame (Decimal.ofInt count) :: rest) frames) :
    wooFProcessGetTail srv noCap frames =
      replyTail srv (Decimal.strtoul (Decimal.ofInt count) % 2 ^ 32) (srv.lookup name) := by
  obtain ⟨f, frames, rfl, hf, h⟩ := arrived_cons_iff.1 h
  obtain ⟨g, frames, rfl, hg, -⟩ := arrived_cons_iff.1 h
  simp [wooFProcessGetTail, payloadText_of_text hf ha.woofName_ne_zero,
    payloadText_of_text hg Decimal.ofInt_ne_zero, ha.localName_eq,
    unlessCap_of_uncapped ha.named.slash_notMem hcap, openNamed, ha.wooFOpen_name]

theorem wooFProcessPut_eq {hname elem : Bytes} (hzero : ∀ b ∈ hname, b ≠ 0)
    (h : Arrived [textFrame woofName, textFrame hname, elem] frames) :
    ∃ f ∈ frames, f.data = elem ∧ wooFProcessPut srv noCap frames =
      replyPut .cmq srv name (if nullName.isPrefixOf hname then none else some hname)
        ((payload f).getD []) := by
  obtain ⟨f, g, i, rfl, hf, hg, hi⟩ := h.three
  refine ⟨i, by simp, hi, ?_⟩
  have hmemory : g.memory = hname ++ 0 :: g.beyond := by
    rw [Frame.memory, hg, textFrame, List.append_assoc, List.singleton_append]
  have hhand : putHandler g.memory =
      if nullName.isPrefixOf hname then none else some hname := by
    rw [putHandler, hmemory, Bytes.cstr_append_zero hzero,
      isPrefixOf_append_zero (Bytes.ne_zero_of_notMem (by decide))]
  simp [wooFProcessPut, payload_of_text hf, Frame.cString_of_text hf ha.woofName_ne_zero,
    payload_of_text hg, ha.guardName_eq, unlessCap_of_uncapped ha.named.slash_notMem hcap, hhand]

end Cmq

end Handlers

/-! ## A client -/

def sampleClient : Client where
  hmac := fun _ _ => 0
  keychain := fun _ => none
  garbage := 0
  arrive := fun sent => sent.map fun data => ⟨data, []⟩
  arrived := arrived_map

theorem sampleClient_admitted (t : Transport) {req : Request} {n : Nat}
    (hn : req.operation.plainNumber = some n) :
    sampleClient.Admitted t (sampleServer none none) sampleUri (Bytes.ofString "data") req
      .plain := by
  refine Client.admitted_plain (fun _ => rfl) hn ?_
  cases t <;> exact ⟨by decide, by decide⟩

theorem addressed_sampleServer (own ns : Option Wcap) :
    Addressed (sampleServer own ns) sampleUri (Bytes.ofString "data") where
  named := ⟨by decide, _, rfl, by decide, by decide⟩
  woofName_ne_zero := Bytes.ne_zero_of_notMem (by decide)
  long := by decide
  fits := by decide
  ending := by decide

theorem lookup_sampleServer (own ns : Option Wcap) :
    (sampleServer own ns).lookup (Bytes.ofString "data") =
      some (Bytes.ofString "data", sampleWoof [7]) := rfl

end Cspot
