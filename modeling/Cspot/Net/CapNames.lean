import Cspot.Net.Transport

/-!
# Requests that name a capability woof

A secret stays on the server as long as no request for a name with the capability ending
gets anything but the refusal of its operation.  What stands in the directory under the
name must not make a difference, so every result here is about all of it.
-/

namespace Cspot

/-! ## Refusals -/

/-- The request was turned away: one error or null reply, and no woof touched. -/
structure Outcome.Refuses (o : Outcome) (t : Transport) (op : Operation) : Prop where
  replies : o.replies = [op.refusal t o.server]
  accesses : o.accesses = []
  stop : o.stop = none

theorem Outcome.refuses_reply (t : Transport) (srv : Server) (op : Operation) :
    (Outcome.reply srv (op.refusal t srv)).Refuses t op :=
  ⟨rfl, rfl, rfl⟩

variable {t : Transport}

theorem Outcome.not_refuses_halt (srv : Server) (s : Stop) (op : Operation) :
    ¬ (Outcome.halt srv s).Refuses t op := by
  intro h
  cases h.stop

theorem Outcome.not_refuses_access (o : Outcome) (a : Access) (op : Operation) :
    ¬ (o.access a).Refuses t op := by
  intro h
  cases h.accesses

variable {srv : Server} {name : Bytes}

theorem Exec.serve_refuses_iff {α : Type} {x : Exec α} {k : α → Outcome} {op : Operation} :
    (x.serve srv k).Refuses t op ↔ ∃ a, x = .ok a ∧ (k a).Refuses t op := by
  cases x with
  | error s =>
    refine ⟨fun h => absurd h (Outcome.not_refuses_halt srv s op), ?_⟩
    rintro ⟨a, ha, -⟩
    cases ha
  | ok a =>
    refine ⟨fun h => ⟨a, rfl, h⟩, ?_⟩
    rintro ⟨b, hb, h⟩
    cases hb
    exact h

/-! ## The name in a request -/

def Transport.uriText : Transport → Tag → List Frame → Exec Bytes
  | .zmq, .plain _, name :: _ => .ok (Bytes.cstr name.data)
  | .zmq, .cap _, _ :: frames => frameText frames 0
  | .cmq, .plain _, name :: _ => Cmq.payloadText name
  | .cmq, .cap _, _ :: name :: _ => Cmq.payloadText name
  | _, _, _ => .error .assertion

/-- The request is for the file `name`, which has the ending of a capability woof. -/
structure NamesCap (t : Transport) (uriPath : UriPath) (tag : Tag) (frames : List Frame)
    (uri name : Bytes) : Prop where
  text : t.uriText tag frames = .ok uri
  named : NamedBy uriPath uri name
  ending : endsInCap name = true

def Server.withEntry (srv : Server) (name : Bytes) (entry : Option Entry) : Server :=
  { srv with dir := fun n => if n = name then entry else srv.dir n }

theorem Server.lookup_withEntry_of_ne {other : Bytes} (h : other ≠ name) (entry : Option Entry) :
    (srv.withEntry name entry).lookup other = srv.lookup other := by
  simp [lookup, withEntry, h]

theorem Server.lookup_withEntry_none (srv : Server) (name : Bytes) :
    (srv.withEntry name none).lookup name = none := by
  simp [lookup, withEntry]

theorem Server.lookup_withEntry_woof (srv : Server) (name : Bytes) (wf : WooF) :
    (srv.withEntry name (some (.woof wf))).lookup name = some (name, wf) := by
  simp [lookup, withEntry]

/-- Whatever the server has under the name, the request is turned away in the same way. -/
def Hidden (t : Transport) (hmac : Hmac) (srv : Server) (tag : Tag) (name : Bytes)
    (message : List Frame) : Prop :=
  ∀ entry, (t.serve hmac (srv.withEntry name entry) message).Refuses t tag.operation

/-! ## What the handlers without a guard open -/

theorem slash_notMem_fileName (h : slash ∉ name) : slash ∉ (fileName name).getD [] := by
  unfold fileName
  split
  · exact h
  · simp

theorem capName_fileName_ne (name : Bytes) : capName ((fileName name).getD []) ≠ name := by
  intro h
  have hlen := congrArg List.length h
  unfold fileName at hlen
  split at hlen
  · simp [capName, Bytes.ofString] at hlen
  · simp [capName, Bytes.ofString] at hlen
    omega

/-- One of the two capability woofs a handler asks for can be opened. -/
def CapOpens (srv : Server) (name : Bytes) : Prop :=
  srv.lookup (capName ((fileName name).getD [])) ≠ none ∨ srv.lookup nsCapName ≠ none

def Server.target (srv : Server) (name : Bytes) : Option (Bytes × WooF) :=
  if name.length < 4096 then srv.lookup name else none

theorem openNamed_eq_target {uri : Bytes} (h : NamedBy srv.uriPath uri name) :
    openNamed srv uri (fileName name) = .ok (srv.target name) := by
  unfold fileName
  split
  · have hlen' : name.length < 4096 := by omega
    rw [openNamed, wooFOpen_of_slash_notMem h.slash_notMem, Server.target, if_pos hlen']
  · rw [openNamed, wooFOpen, if_pos h.valid, h.nameFromURI, Server.target]
    by_cases hlen : name.length < 4096
    · simp [hlen]
    · simp [hlen]

def CapOpensBeside (srv : Server) (name : Bytes) : Prop :=
  srv.lookup (capName ((fileName name).getD [])) ≠ none ∨
    name ≠ nsCapName ∧ srv.lookup nsCapName ≠ none

theorem capOpens_withEntry_iff {entry : Option Entry} :
    CapOpens (srv.withEntry name entry) name ↔ CapOpensBeside srv name ∨
      name = nsCapName ∧ (srv.withEntry name entry).lookup name ≠ none := by
  rw [CapOpens, CapOpensBeside,
    Server.lookup_withEntry_of_ne (capName_fileName_ne name) entry]
  by_cases h : name = nsCapName
  · simp [h]
  · rw [Server.lookup_withEntry_of_ne (Ne.symm h) entry]
    simp [h]

theorem Cmq.unlessCap_of_opens (hslash : slash ∉ name) (h : CapOpens srv name)
    (refuse k : Outcome) :
    Cmq.unlessCap srv true (fileName name) refuse k = refuse := by
  have hcap := slash_notMem_capName (slash_notMem_fileName hslash)
  simp only [Cmq.unlessCap, if_true, wooFOpen_of_slash_notMem hcap,
    wooFOpen_of_slash_notMem slash_notMem_nsCapName, Exec.serve_ok]
  cases hown : srv.lookup (capName ((fileName name).getD [])) with
  | some opened => rfl
  | none =>
    cases hns : srv.lookup nsCapName with
    | some opened => rfl
    | none => rcases h with h | h <;> contradiction

theorem Cmq.unlessCap_of_not_opens (hslash : slash ∉ name) (h : ¬ CapOpens srv name)
    (refuse k : Outcome) :
    Cmq.unlessCap srv true (fileName name) refuse k = k := by
  have hcap := slash_notMem_capName (slash_notMem_fileName hslash)
  obtain ⟨hown, hns⟩ := not_or.1 h
  simp [Cmq.unlessCap, wooFOpen_of_slash_notMem hcap, wooFOpen_of_slash_notMem
    slash_notMem_nsCapName, not_not.1 hown, not_not.1 hns]

theorem Cmq.unlessCap_refuses_iff (op : Operation) {noCap : Bool} {k : Outcome}
    (hslash : slash ∉ name) :
    (Cmq.unlessCap srv noCap (fileName name) (.reply srv (op.refusal t srv)) k).Refuses t op ↔
      noCap = true ∧ CapOpens srv name ∨ k.Refuses t op := by
  cases noCap with
  | false => simp [Cmq.unlessCap]
  | true =>
    by_cases h : CapOpens srv name
    · rw [Cmq.unlessCap_of_opens hslash h]
      exact iff_of_true (Outcome.refuses_reply t srv op) (Or.inl ⟨rfl, h⟩)
    · rw [Cmq.unlessCap_of_not_opens hslash h]
      simp [h]

/-! ## The handlers with a guard -/

theorem CapHandler.run_of_localName_none {h : CapHandler} {hmac : Hmac} {cap : Frame}
    {frames : List Frame} (hnone : h.localName srv cap frames = .ok none) :
    h.run hmac srv (cap :: frames) = .reply srv (h.refusal srv) := by
  simp [run, authorize, hnone]

namespace Zmq

/-- The numbers a handler converts before it looks at the name. -/
def Converts : Operation → List Frame → Prop
  | .get, [_, seqNo] => Decimal.stoull (Bytes.cstr seqNo.data) ≠ none
  | .getTail, [_, elCount] => Decimal.stoull (Bytes.cstr elCount.data) ≠ none
  | .getRange, [_, seqNo, count] =>
    Decimal.stoull (Bytes.cstr seqNo.data) ≠ none ∧ Decimal.stoi (Bytes.cstr count.data) ≠ none
  | _, _ => True

variable {op : Operation} {hmac : Hmac} {frames : List Frame} {uri : Bytes}

theorem refuses_converted_iff {n : Option Nat} {refuse : Outcome}
    (hrefuse : refuse.Refuses .zmq op) :
    (match n with
      | none => Outcome.halt srv .exception
      | some _ => refuse).Refuses .zmq op ↔ n ≠ none := by
  cases n with
  | none => simp [Outcome.not_refuses_halt]
  | some a => simp [hrefuse]

theorem process_plain_refuses_iff (hname : NamesCap .zmq srv.uriPath (.plain op) frames uri name) :
    (process hmac srv (.plain op) frames).Refuses .zmq op ↔ Converts op frames := by
  obtain ⟨huri, hnamed, hending⟩ := hname
  rcases frames with _ | ⟨f, rest⟩
  · cases huri
  cases huri
  have hguard := guardName_of_endsInCap hnamed hending
  -- a wrong number of frames and the guard end in the same reply
  have hreply := Outcome.refuses_reply .zmq srv op
  cases op with
  | elSize | latestSeqno | earliestSeqno =>
    match rest with
    | _ :: _ => exact iff_of_true hreply trivial
    | [] =>
      simp only [process, wooFProcessGetElSize, wooFProcessGetLatestSeqno,
        wooFProcessGetEarliestSeqno, hguard, Converts, iff_true]
      exact hreply
  | put =>
    match rest with
    | [] | [_] | _ :: _ :: _ :: _ => exact iff_of_true hreply trivial
    | [hand, elem] =>
      simp only [process, wooFProcessPut, hguard, Converts, iff_true]
      exact hreply
  | get =>
    match rest with
    | [] | _ :: _ :: _ => exact iff_of_true hreply trivial
    | [seqNo] =>
      simp only [process, wooFProcessGet, hguard, Converts]
      exact refuses_converted_iff hreply
  | getTail =>
    match rest with
    | [] | _ :: _ :: _ => exact iff_of_true hreply trivial
    | [elCount] =>
      simp only [process, wooFProcessGetTail, hguard, Converts]
      exact refuses_converted_iff hreply
  | getRange =>
    match rest with
    | [] | [_] | _ :: _ :: _ :: _ => exact iff_of_true hreply trivial
    | [seqNo, count] =>
      simp only [process, wooFProcessGetRange, hguard, Converts]
      cases Decimal.stoull (Bytes.cstr seqNo.data) with
      | none => simp [Outcome.not_refuses_halt]
      | some n =>
        cases Decimal.stoi (Bytes.cstr count.data) with
        | none => simp [Outcome.not_refuses_halt]
        | some z => exact iff_of_true hreply ⟨by simp, by simp⟩
  | create => exact iff_of_true hreply trivial

theorem process_cap_refuses_iff (hname : NamesCap .zmq srv.uriPath (.cap op) frames uri name) :
    (process hmac srv (.cap op) frames).Refuses .zmq op ↔ (op = .put → frames.length = 4) := by
  obtain ⟨huri, hnamed, hending⟩ := hname
  rcases frames with _ | ⟨cap, frames⟩
  · cases huri
  have hlocal : localNameOf srv cap frames = .ok none := by
    rw [localNameOf, show frameText frames 0 = .ok uri from huri]
    exact guardedName_of_endsInCap hnamed hending
  have hrefused {h : CapHandler} (hop : h.refusal srv = op.refusal .zmq srv)
      (hnone : h.localName srv cap frames = .ok none) :
      (h.run hmac srv (cap :: frames)).Refuses .zmq op := by
    rw [CapHandler.run_of_localName_none hnone, hop]
    exact Outcome.refuses_reply .zmq srv op
  have hrefusal := Transport.capHandler_refusal .zmq srv op
  by_cases hput : op = .put
  · subst hput
    by_cases hlen : frames.length = 3
    · refine iff_of_true (hrefused hrefusal ?_) fun _ => by simp [hlen]
      rw [← hlocal]
      exact if_neg (not_not.2 hlen)
    · refine iff_of_false ?_ fun h => hlen (by simpa using h rfl)
      have hstop : wooFProcessPutwithCAP.localName srv cap frames = .error .outOfBounds :=
        if_pos hlen
      rw [process, capHandler, CapHandler.run, CapHandler.authorize, hstop]
      exact Outcome.not_refuses_halt srv _ _
  · refine iff_of_true (hrefused hrefusal ?_) fun h => absurd h hput
    rw [capHandler_localName hput]
    exact hlocal

end Zmq

namespace Cmq

variable {f : Frame} {frames : List Frame} {uri : Bytes} {hmac : Hmac} {op : Operation}
  {opened : Option (Bytes × WooF)} {noCap : Bool}

theorem payload_of_payloadText {text : Bytes} (h : payloadText f = .ok text) :
    payload f = some f.memory ∧ cString f.memory = .ok text := by
  unfold payloadText at h
  cases hpayload : payload f with
  | none => simp [hpayload] at h
  | some memory =>
    have hmemory : memory = f.memory := by
      unfold payload at hpayload
      split at hpayload
      · cases hpayload
      · exact (Option.some.inj hpayload).symm
    rw [hpayload] at h
    exact ⟨congrArg some hmemory, hmemory ▸ h⟩

/-- Two handlers fall over a frame behind the name. -/
def Releases (op : Operation) (frames : List Frame) : Prop :=
  op = .elSize ∨ op = .earliestSeqno → frames.length = 1

theorem process_plain_refuses_iff_of_guarded (hguarded : ¬ Unguarded op) (hop : op ≠ .create)
    (hname : NamesCap .cmq srv.uriPath (.plain op) frames uri name) :
    (process hmac srv (.plain op) frames).Refuses .cmq op ↔ Releases op frames := by
  obtain ⟨huri, hnamed, hending⟩ := hname
  rcases frames with _ | ⟨f, rest⟩
  · cases huri
  obtain ⟨hpayload, htext⟩ := payload_of_payloadText (show payloadText f = .ok uri from huri)
  have hguard := guardName_of_endsInCap hnamed hending
  have hreply := Outcome.refuses_reply .cmq srv op
  have hdestroy :
      (destroyAsList srv rest (.reply srv (op.refusal .cmq srv))).Refuses .cmq op ↔ rest = [] := by
    unfold destroyAsList
    split
    · rename_i hrest
      exact iff_of_true hreply hrest
    · rename_i hrest
      exact iff_of_false (Outcome.not_refuses_halt srv _ op) hrest
  cases op with
  | elSize =>
    simp only [process, wooFProcessGetElSize, hpayload, htext, Exec.serve_ok, hguard]
    exact hdestroy.trans (by simp [Releases])
  | earliestSeqno =>
    simp only [process, wooFProcessGetEarliestSeqno, hpayload, htext, Exec.serve_ok, hguard]
    exact hdestroy.trans (by simp [Releases])
  | put =>
    simp only [process, wooFProcessPut, hpayload, htext, Exec.serve_ok, hguard]
    exact iff_of_true hreply (by simp [Releases])
  | get =>
    simp only [process, wooFProcessGet, hpayload, htext, Exec.serve_ok, hguard]
    exact iff_of_true hreply (by simp [Releases])
  | getRange =>
    simp only [process, wooFProcessGetRange, hpayload, htext, Exec.serve_ok, hguard]
    exact iff_of_true hreply (by simp [Releases])
  | getTail => exact absurd (Or.inr rfl) hguarded
  | latestSeqno => exact absurd (Or.inl rfl) hguarded
  | create => exact absurd rfl hop

theorem process_cap_refuses_of_guarded (hguarded : ¬ Unguarded op)
    (hname : NamesCap .cmq srv.uriPath (.cap op) frames uri name) :
    (process hmac srv (.cap op) frames).Refuses .cmq op := by
  obtain ⟨huri, hnamed, hending⟩ := hname
  rcases frames with _ | ⟨cap, _ | ⟨f, rest⟩⟩
  · cases huri
  · cases huri
  obtain ⟨-, htext⟩ := payload_of_payloadText (show payloadText f = .ok uri from huri)
  obtain ⟨present, hlocal⟩ := capHandler_localName hguarded
  have hnone : (capHandler op).localName srv cap (f :: rest) = .ok none := by
    rw [hlocal, localNameOf, show frameText (f :: rest) 0 = .ok uri from htext]
    by_cases hframes : payload cap = none ∨ hasPayload (f :: rest) 0 = false
    · simp [hframes]
    · simp [hframes, guardedName_of_endsInCap hnamed hending]
  rw [process, CapHandler.run_of_localName_none hnone,
    show (capHandler op).refusal srv = op.refusal .cmq srv from
      Transport.capHandler_refusal .cmq srv op]
  exact Outcome.refuses_reply .cmq srv op

/-! ## The handlers without a guard -/

theorem replyLatestSeqno_refuses_iff :
    (replyLatestSeqno .cmq srv opened).Refuses .cmq .latestSeqno ↔ opened = none := by
  cases opened with
  | none => exact iff_of_true (Outcome.refuses_reply .cmq srv .latestSeqno) rfl
  | some entry => exact iff_of_false (Outcome.not_refuses_access _ _ _) (by simp)

theorem getLatestSeqno_refuses_iff (rest : List Frame) (htext : payloadText f = .ok uri)
    (hnamed : NamedBy srv.uriPath uri name) :
    (wooFProcessGetLatestSeqno srv noCap (f :: rest)).Refuses .cmq .latestSeqno ↔
      noCap = true ∧ CapOpens srv name ∨ srv.target name = none := by
  simp only [wooFProcessGetLatestSeqno, htext, hnamed.localName, Exec.serve_ok,
    openNamed_eq_target hnamed]
  refine (unlessCap_refuses_iff .latestSeqno hnamed.slash_notMem).trans ?_
  rw [replyLatestSeqno_refuses_iff]

/-- The buffer for the elements is not to be had. -/
def TailTooLarge (srv : Server) (elCount : Nat) (wf : WooF) : Prop :=
  srv.maxAlloc < wf.elementSize * elCount % 2 ^ 32

theorem replyTail_refuses_iff {elCount : Nat} :
    (replyTail srv elCount opened).Refuses .cmq .getTail ↔
      ∃ file wf, opened = some (file, wf) ∧ TailTooLarge srv elCount wf := by
  cases opened with
  | none =>
    -- a woof that is not there has no elements, which is a reply of its own
    refine iff_of_false ?_ (by simp)
    intro h
    have hreply : [textFrame (Decimal.ofNat 0), []] = sendNull := List.cons.inj h.replies |>.1
    exact absurd (congrArg List.length hreply) (by simp [sendNull])
  | some entry =>
    obtain ⟨file, wf⟩ := entry
    by_cases hsize : TailTooLarge srv elCount wf
    · refine iff_of_true ?_ ⟨file, wf, rfl, hsize⟩
      rw [replyTail, if_pos (show wf.elementSize * elCount % 2 ^ 32 > srv.maxAlloc from hsize)]
      exact Outcome.refuses_reply .cmq srv .getTail
    · refine iff_of_false ?_ ?_
      · rw [replyTail,
          if_neg (show ¬ wf.elementSize * elCount % 2 ^ 32 > srv.maxAlloc from hsize)]
        exact Outcome.not_refuses_access _ _ _
      · rintro ⟨file', wf', heq, hsize'⟩
        cases heq
        exact hsize hsize'

/-- The tail handler sends a null reply without having read anything. -/
def TailQuiet (srv : Server) (noCap : Bool) (name : Bytes) : List Frame → Prop
  | _ :: elCount :: _ => ∃ text, payloadText elCount = .ok text ∧
      (noCap = true ∧ CapOpens srv name ∨
        ∃ file wf, srv.target name = some (file, wf) ∧
          TailTooLarge srv (Decimal.strtoul text % 2 ^ 32) wf)
  | _ => True

theorem getTail_refuses_iff {rest : List Frame} (htext : payloadText f = .ok uri)
    (hnamed : NamedBy srv.uriPath uri name) :
    (wooFProcessGetTail srv noCap (f :: rest)).Refuses .cmq .getTail ↔
      TailQuiet srv noCap name (f :: rest) := by
  cases rest with
  | nil => exact iff_of_true (Outcome.refuses_reply .cmq srv .getTail) trivial
  | cons elCount rest =>
    simp only [wooFProcessGetTail, TailQuiet, htext, hnamed.localName, Exec.serve_ok,
      openNamed_eq_target hnamed]
    refine Exec.serve_refuses_iff.trans (exists_congr fun text => and_congr_right fun _ => ?_)
    refine (unlessCap_refuses_iff .getTail hnamed.slash_notMem).trans ?_
    rw [replyTail_refuses_iff]

/-! ## Over everything that can stand under the name -/

theorem latestSeqno_hidden_iff :
    (∀ entry, CapOpens (srv.withEntry name entry) name ∨
        (srv.withEntry name entry).target name = none) ↔
      4096 ≤ name.length ∨ name = nsCapName ∨ CapOpensBeside srv name := by
  constructor
  · intro h
    by_contra hnot
    obtain ⟨hlen, hns, hbeside⟩ : ¬ 4096 ≤ name.length ∧ name ≠ nsCapName ∧
        ¬ CapOpensBeside srv name := by simpa using hnot
    -- nothing refuses, so a woof under the name is opened
    rcases h (some (.woof (sampleWoof []))) with hopens | htarget
    · rw [capOpens_withEntry_iff] at hopens
      rcases hopens with hopens | ⟨heq, -⟩
      · exact hbeside hopens
      · exact hns heq
    · rw [Server.target, if_pos (by omega), Server.lookup_withEntry_woof] at htarget
      cases htarget
  · rintro (hlen | hns | hbeside) entry
    · exact Or.inr (if_neg (by omega))
    · by_cases hlookup : (srv.withEntry name entry).lookup name = none
      · refine Or.inr ?_
        unfold Server.target
        split
        · exact hlookup
        · rfl
      · exact Or.inl (capOpens_withEntry_iff.2 (Or.inr ⟨hns, hlookup⟩))
    · exact Or.inl (capOpens_withEntry_iff.2 (Or.inl hbeside))

/-- What keeps the tail handler from reading the named woof. -/
def TailHidden (srv : Server) (name : Bytes) : List Frame → Prop
  | _ :: elCount :: _ => (∃ text, payloadText elCount = .ok text) ∧ CapOpensBeside srv name
  | _ => True

theorem getTail_hidden_iff :
    (∀ entry, TailQuiet (srv.withEntry name entry) true name frames) ↔
      TailHidden srv name frames := by
  rcases frames with _ | ⟨f, _ | ⟨elCount, rest⟩⟩
  · exact iff_of_true (fun _ => trivial) trivial
  · exact iff_of_true (fun _ => trivial) trivial
  constructor
  · intro h
    -- with nothing under the name, neither the name nor the allocator can refuse
    obtain ⟨text, htext, hquiet⟩ := h none
    refine ⟨⟨text, htext⟩, ?_⟩
    have hlookup := srv.lookup_withEntry_none name
    rcases hquiet with ⟨-, hopens⟩ | ⟨file, wf, htarget, -⟩
    · rcases capOpens_withEntry_iff.1 hopens with hbeside | ⟨-, hsome⟩
      · exact hbeside
      · exact absurd hlookup hsome
    · rw [Server.target, hlookup] at htarget
      simp at htarget
  · rintro ⟨⟨text, htext⟩, hbeside⟩ entry
    exact ⟨text, htext, Or.inl ⟨rfl, capOpens_withEntry_iff.2 (Or.inl hbeside)⟩⟩

end Cmq

end Cspot
