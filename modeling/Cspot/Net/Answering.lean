import Cspot.Net.Routes

/-!
# Turns of the server that answer

The clients of both transports send a request and wait for one message.  A turn of the
server that ends without a reply leaves its client waiting, and a second reply is taken
for the answer to the next request.  What is shared here by both servers are the names, the
operations on a woof, and the capability check.
-/

namespace Cspot

/-! ## Outcomes -/

/-- One message back, and the thread goes on to the next request. -/
structure Outcome.OneReply (o : Outcome) : Prop where
  replies : o.replies.length = 1
  stop : o.stop = none

theorem Outcome.oneReply_reply (srv : Server) (r : Reply) : (Outcome.reply srv r).OneReply :=
  ⟨rfl, rfl⟩

theorem Outcome.not_oneReply_halt (srv : Server) (s : Stop) : ¬ (Outcome.halt srv s).OneReply := by
  intro h
  cases h.stop

theorem Outcome.not_oneReply_silent (srv : Server) : ¬ (Outcome.silent srv).OneReply := by
  intro h
  cases h.replies

variable {o : Outcome}

theorem Outcome.oneReply_access_iff {a : Access} : (o.access a).OneReply ↔ o.OneReply :=
  ⟨fun h => ⟨h.replies, h.stop⟩, fun h => ⟨h.replies, h.stop⟩⟩

theorem Outcome.not_oneReply_andReply (h : o.stop = none → o.OneReply) (r : Reply) :
    ¬ (o.andReply r).OneReply := by
  intro hone
  unfold andReply at hone
  split at hone
  · rename_i hstop
    have hlen := hone.replies
    simp [(h hstop).replies] at hlen
  · exact absurd hone.stop ‹_›

def Exec.Returns {α : Type} (x : Exec α) : Prop := ∃ a, x = .ok a

variable {α : Type} {srv : Server} {x : Exec α} {k : α → Outcome}

theorem Exec.serve_oneReply_iff : (x.serve srv k).OneReply ↔ ∃ a, x = .ok a ∧ (k a).OneReply := by
  cases x with
  | error s =>
    refine ⟨fun h => absurd h (Outcome.not_oneReply_halt srv s), ?_⟩
    rintro ⟨a, ha, -⟩
    cases ha
  | ok a =>
    refine ⟨fun h => ⟨a, rfl, h⟩, ?_⟩
    rintro ⟨b, hb, h⟩
    cases hb
    exact h

theorem Exec.Returns.serve_oneReply_iff (h : x.Returns) :
    (x.serve srv k).OneReply ↔ ∀ a, x = .ok a → (k a).OneReply := by
  obtain ⟨a, rfl⟩ := h
  simp

theorem Exec.serve_oneReply_iff_returns (hk : ∀ a, (k a).OneReply) :
    (x.serve srv k).OneReply ↔ x.Returns := by
  rw [Exec.serve_oneReply_iff]
  exact exists_congr fun a => and_iff_left (hk a)

/-! ## Names -/

/-- The walk back to the last slash of the path ends. -/
def Resolves (uriPath : UriPath) (wname : Bytes) : Prop :=
  wooFValidURI wname = true → ∀ path, uriPath wname = some path → slash ∈ path

/-- The guard finds a name without the capability ending. -/
def Passes (uriPath : UriPath) (wname : Bytes) : Prop := wooFIsCAPName uriPath wname = .ok 0

section Names

variable {srv : Server} {uriPath : UriPath} {wname : Bytes} {localName : Option Bytes}
  {refuse : Outcome} {k : Option Bytes → Outcome}

theorem wooFNameFromURI_returns_iff (len : Nat) :
    (wooFNameFromURI uriPath wname len).Returns ↔ Resolves uriPath wname := by
  unfold wooFNameFromURI Resolves Exec.Returns
  cases hvalid : wooFValidURI wname with
  | false => simp
  | true =>
    cases hpath : uriPath wname with
    | none => simp
    | some path =>
      by_cases hslash : slash ∈ path
      · by_cases hlen : (lastComponent path).length + 1 > len
        · simp [hslash, hlen]
        · simp [hslash, hlen]
      · simp [hslash]

theorem Resolves.wooFLocalName_returns (h : Resolves uriPath wname) :
    (wooFLocalName uriPath wname).Returns :=
  (wooFNameFromURI_returns_iff 1024).2 h

theorem Resolves.guard_cases (h : Resolves uriPath wname) :
    Passes uriPath wname ∨
      ∃ err, wooFIsCAPName uriPath wname = .ok err ∧ (err = 1 ∨ err < 0) := by
  obtain ⟨found, hfound⟩ := (wooFNameFromURI_returns_iff 4096).2 h
  unfold Passes wooFIsCAPName
  rw [hfound]
  cases found with
  | none => exact Or.inr ⟨-1, rfl, Or.inr (by decide)⟩
  | some name =>
    by_cases hshort : name.length < 4
    · exact Or.inr ⟨-1, by simp [hshort], Or.inr (by decide)⟩
    · cases hcap : endsInCap name with
      | true => exact Or.inr ⟨1, by simp [hshort, hcap], Or.inl rfl⟩
      | false => exact Or.inl (by simp [hshort, hcap])

theorem resolves_of_isCAPName (h : (wooFIsCAPName uriPath wname).Returns) :
    Resolves uriPath wname := by
  obtain ⟨err, herr⟩ := h
  obtain ⟨found, hfound, -⟩ := Exec.bind_eq_ok.1 herr
  exact (wooFNameFromURI_returns_iff 4096).1 ⟨found, hfound⟩

theorem guardName_oneReply_iff :
    (guardName srv wname refuse k).OneReply ↔
      Resolves srv.uriPath wname ∧ (¬ Passes srv.uriPath wname → refuse.OneReply) ∧
        (Passes srv.uriPath wname →
          ∀ localName, wooFLocalName srv.uriPath wname = .ok localName →
            (k localName).OneReply) := by
  by_cases hres : Resolves srv.uriPath wname
  · have hlocal := hres.wooFLocalName_returns
    rcases hres.guard_cases with hpass | ⟨err, herr, hbad⟩
    · have heq : guardName srv wname refuse k = (wooFLocalName srv.uriPath wname).serve srv k := by
        rw [guardName, show wooFIsCAPName srv.uriPath wname = .ok 0 from hpass]
        rfl
      rw [heq, hlocal.serve_oneReply_iff]
      simp [hres, hpass]
    · have heq : guardName srv wname refuse k = refuse := by
        rw [guardName, herr]
        exact if_pos hbad
      have hnot : ¬ Passes srv.uriPath wname := by
        intro hpass
        cases herr.symm.trans hpass
        revert hbad
        decide
      rw [heq]
      simp [hres, hnot]
  · refine iff_of_false (fun h => hres ?_) fun h => hres h.1
    obtain ⟨err, herr, -⟩ := Exec.serve_oneReply_iff.1 h
    exact resolves_of_isCAPName ⟨err, herr⟩

theorem resolves_of_guardName_stop (h : (guardName srv wname refuse k).stop = none) :
    Resolves srv.uriPath wname := by
  cases hguard : wooFIsCAPName srv.uriPath wname with
  | error s =>
    rw [guardName, hguard] at h
    cases h
  | ok err => exact resolves_of_isCAPName ⟨err, hguard⟩

theorem wooFOpen_returns (h : Resolves srv.uriPath wname) : (wooFOpen srv wname).Returns := by
  unfold wooFOpen
  split
  · obtain ⟨found, hfound⟩ := (wooFNameFromURI_returns_iff 4096).2 h
    rw [hfound]
    cases found with
    | none => exact ⟨none, rfl⟩
    | some name => exact ⟨srv.lookup name, rfl⟩
  · exact ⟨srv.lookup wname, rfl⟩

theorem openNamed_returns (h : Resolves srv.uriPath wname)
    (hlocal : wooFLocalName srv.uriPath wname = .ok localName) :
    (openNamed srv wname localName).Returns := by
  cases localName with
  | none => exact wooFOpen_returns h
  | some name => exact ⟨_, wooFOpen_of_slash_notMem (slash_notMem_of_nameFromURI hlocal)⟩

theorem openForElSize_returns (h : Resolves srv.uriPath wname) :
    (openForElSize srv wname localName).Returns := by
  cases localName with
  | none => exact ⟨_, wooFOpen_of_slash_notMem (by simp)⟩
  | some name => exact wooFOpen_returns h

end Names

/-! ## Operations on an opened woof -/

section Opened

variable {t : Transport} {srv : Server} {localName : Bytes}

theorem oneReply_replyElSize (opened : Option (Bytes × WooF)) :
    (replyElSize t srv opened).OneReply := by
  cases opened <;> exact ⟨rfl, rfl⟩

theorem oneReply_replyLatestSeqno (opened : Option (Bytes × WooF)) :
    (replyLatestSeqno t srv opened).OneReply := by
  cases opened <;> exact ⟨rfl, rfl⟩

theorem oneReply_replyEarliestSeqno (h : slash ∉ localName) :
    (replyEarliestSeqno t srv localName).OneReply := by
  rw [replyEarliestSeqno, wooFOpen_of_slash_notMem h, Exec.serve_ok]
  cases srv.lookup localName with
  | none => exact Outcome.oneReply_reply srv _
  | some opened =>
    refine Outcome.oneReply_access_iff.2 ?_
    split
    · exact Outcome.oneReply_reply srv _
    · exact Outcome.oneReply_reply srv _

theorem oneReply_replyPut_iff (h : slash ∉ localName) {handName : Option Bytes} {element : Bytes} :
    (replyPut t srv localName handName element).OneReply ↔
      ∀ name wf, srv.lookup localName = some (name, wf) →
        (wooFAppendWithCause srv.globals wf handName element 0 0).Returns := by
  rw [replyPut, wooFOpen_of_slash_notMem h, Exec.serve_ok]
  cases hwoof : srv.lookup localName with
  | none => simp [replyNumber, Outcome.oneReply_reply]
  | some opened =>
    obtain ⟨name, wf⟩ := opened
    simp only [Outcome.oneReply_access_iff, Option.some.injEq, Prod.mk.injEq, and_imp,
      forall_eq', forall_apply_eq_imp_iff]
    exact Exec.serve_oneReply_iff_returns fun _ => Outcome.oneReply_reply _ _

theorem oneReply_copied_iff {bytes : α → Bytes} {size : Nat} (hk : ∀ a, (k a).OneReply) :
    (x.serve srv fun a =>
        if (bytes a).length > size then .halt srv .outOfBounds else k a).OneReply ↔
      ∃ a, x = .ok a ∧ (bytes a).length ≤ size := by
  rw [Exec.serve_oneReply_iff]
  refine exists_congr fun a => and_congr_right fun _ => ?_
  split
  · exact iff_of_false (Outcome.not_oneReply_halt srv _) (by omega)
  · exact iff_of_true (hk a) (by omega)

end Opened

/-! ## The woof a request reaches -/

/-- The handler gets to this woof, past the capability woofs if it asks for them. -/
def Transport.Reaches (t : Transport) (srv : Server) (noCap : Bool) (wname : Bytes)
    (wf : WooF) : Prop :=
  ∃ localName name, wooFLocalName srv.uriPath wname = .ok localName ∧
    (noCap = true → t.Uncapped srv (localName.getD [])) ∧
    openNamed srv wname localName = .ok (some (name, wf))

/-- A put goes by the file name alone; without one it is turned away on one transport and
goes to the empty name on the other. -/
def Transport.ReachesPut (t : Transport) (srv : Server) (noCap : Bool) (wname : Bytes)
    (wf : WooF) : Prop :=
  ∃ localName name, wooFLocalName srv.uriPath wname = .ok localName ∧
    (t = .zmq → localName ≠ none) ∧
    (noCap = true → t.Uncapped srv (localName.getD [])) ∧
    srv.lookup (localName.getD []) = some (name, wf)

section Opened

variable {wname : Bytes} {k : Option (Bytes × WooF) → Outcome} {returns : WooF → Prop}
  (hres : Resolves srv.uriPath wname) (hnone : (k none).OneReply)
  (hsome : ∀ name wf, (k (some (name, wf))).OneReply ↔ returns wf)

include hres hnone hsome

/-- The part of a handler from the name on, which answers unless an operation on the woof
does not return. -/
theorem serve_openNamed_oneReply_iff {localName : Option Bytes}
    (hlocal : wooFLocalName srv.uriPath wname = .ok localName) :
    ((openNamed srv wname localName).serve srv k).OneReply ↔
      ∀ name wf, openNamed srv wname localName = .ok (some (name, wf)) → returns wf := by
  rw [(openNamed_returns hres hlocal).serve_oneReply_iff]
  constructor
  · intro h name wf hopen
    exact (hsome name wf).1 (h _ hopen)
  · intro h opened hopen
    cases opened with
    | none => exact hnone
    | some opened => exact (hsome opened.1 opened.2).2 (h _ _ hopen)

theorem oneReply_guarded_iff {t : Transport} {noCap : Bool} {guarded : Option Bytes → Prop}
    (hguarded : ∀ localName, wooFLocalName srv.uriPath wname = .ok localName →
      (guarded localName ↔ ((noCap = true → t.Uncapped srv (localName.getD [])) →
        ((openNamed srv wname localName).serve srv k).OneReply))) :
    (∀ localName, wooFLocalName srv.uriPath wname = .ok localName → guarded localName) ↔
      ∀ wf, t.Reaches srv noCap wname wf → returns wf := by
  constructor
  · rintro h wf ⟨localName, name, hlocal, hcap, hopen⟩
    have hserve := (hguarded localName hlocal).1 (h localName hlocal) hcap
    exact (serve_openNamed_oneReply_iff hres hnone hsome hlocal).1 hserve name wf hopen
  · intro h localName hlocal
    refine (hguarded localName hlocal).2 fun hcap => ?_
    refine (serve_openNamed_oneReply_iff hres hnone hsome hlocal).2 fun name wf hopen => ?_
    exact h wf ⟨localName, name, hlocal, hcap, hopen⟩

end Opened

/-! ## Requests with a capability -/

/-- The check comes to a verdict, and the request is answered on the way the verdict
sends it. -/
def VerdictAnswers (authorize : Exec Verdict) (unprotected granted : Prop) : Prop :=
  ∃ verdict, authorize = .ok verdict ∧ (verdict = .unprotected → unprotected) ∧
    (verdict = .granted → granted)

theorem CapHandler.run_oneReply_iff {h : CapHandler} {hmac : Hmac} {cap : Frame}
    {frames : List Frame} {unprotected granted : Prop}
    (hunprotected : (h.unprotected srv frames).OneReply ↔ unprotected)
    (hgranted : h.authorize hmac srv cap frames = .ok .granted →
      ((h.perform srv frames).OneReply ↔ granted)) :
    (h.run hmac srv (cap :: frames)).OneReply ↔
      VerdictAnswers (h.authorize hmac srv cap frames) unprotected granted := by
  rw [run, Exec.serve_oneReply_iff, VerdictAnswers]
  refine exists_congr fun verdict => and_congr_right fun hverdict => ?_
  cases verdict with
  | unprotected => simpa using hunprotected
  | refused => simp [Outcome.oneReply_reply]
  | granted => simpa using hgranted hverdict

end Cspot
