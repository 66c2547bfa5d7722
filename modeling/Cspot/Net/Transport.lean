import Cspot.Net.Cmq.Backend
import Cspot.Net.Zmq.Backend

/-!
# The two transports

Both servers read a tag from the first frame and hand the rest to the handler for it.
-/

namespace Cspot

namespace Transport

def capHandler : Transport → Operation → CapHandler
  | .zmq => Zmq.capHandler
  | .cmq => Cmq.capHandler

def process : Transport → Hmac → Server → Tag → List Frame → Outcome
  | .zmq => Zmq.process
  | .cmq => Cmq.process

def readTag : Transport → Frame → Exec (Option Tag)
  | .zmq => Zmq.readTag
  | .cmq => Cmq.readTag

def serve : Transport → Hmac → Server → List Frame → Outcome
  | .zmq => Zmq.wooFMsgThread
  | .cmq => Cmq.wooFMsgThread

variable {t : Transport}

theorem serve_of_readTag {hmac : Hmac} {srv : Server} {f : Frame} {tag : Tag}
    (h : t.readTag f = .ok (some tag)) (frames : List Frame) :
    t.serve hmac srv (f :: frames) = t.process hmac srv tag frames := by
  cases t with
  | zmq =>
    rw [serve, Zmq.wooFMsgThread, show Zmq.readTag f = .ok (some tag) from h]
    rfl
  | cmq =>
    rw [serve, Cmq.wooFMsgThread, show Cmq.readTag f = .ok (some tag) from h]
    rfl

theorem process_cap (t : Transport) (hmac : Hmac) (srv : Server) (op : Operation)
    (frames : List Frame) :
    t.process hmac srv (.cap op) frames = (t.capHandler op).run hmac srv frames := by
  cases t <;> rfl

theorem capHandler_refusal (t : Transport) (srv : Server) (op : Operation) :
    (t.capHandler op).refusal srv = op.refusal t srv := by
  cases t <;> cases op <;> rfl

/-- Only the tail handler of one transport has a check of its own. -/
theorem capHandler_signed {op : Operation} (h : ¬ (t = .zmq ∧ op = .getTail)) :
    (t.capHandler op).Signed := by
  intro hmac srv localName frames cap
  cases t with
  | cmq => cases op <;> rfl
  | zmq =>
    cases op with
    | getTail => exact absurd ⟨rfl, rfl⟩ h
    | _ => rfl

theorem createTexts_of_granted {hmac : Hmac} {srv : Server} {cap : Frame} {frames : List Frame}
    (h : (t.capHandler .create).authorize hmac srv cap frames = .ok .granted) :
    ∃ wname elSize history, frameText frames 0 = .ok wname ∧ frameText frames 1 = .ok elSize ∧
      frameText frames 2 = .ok history := by
  have hsigned : (t.capHandler .create).Signed := capHandler_signed (by simp)
  obtain ⟨text, htext⟩ := CapHandler.exists_payload_of_granted hsigned h
  cases t with
  | zmq | cmq =>
    obtain ⟨wname, hname, htext⟩ := Exec.bind_eq_ok.1 htext
    obtain ⟨elSize, helSize, htext⟩ := Exec.bind_eq_ok.1 htext
    obtain ⟨history, hhistory, -⟩ := Exec.bind_eq_ok.1 htext
    exact ⟨wname, elSize, history, hname, helSize, hhistory⟩

end Transport

/-! ## The name a handler works with -/

variable {localName wname : Bytes} {cap : Frame} {frames : List Frame} {op : Operation}
  {srv : Server}

theorem wooFLocalName_of_guardedName (h : guardedName srv wname = .ok (some localName)) :
    wooFLocalName srv.uriPath wname = .ok (some localName) := by
  obtain ⟨err, -, h⟩ := Exec.bind_eq_ok.1 h
  by_cases hbad : err = 1 ∨ err < 0
  · simp [hbad] at h
  · simpa [hbad] using h

theorem Zmq.wooFLocalName_of_localNameOf (hname : frameText frames 0 = .ok wname)
    (h : Zmq.localNameOf srv cap frames = .ok (some localName)) :
    wooFLocalName srv.uriPath wname = .ok (some localName) := by
  rw [Zmq.localNameOf, hname] at h
  exact wooFLocalName_of_guardedName h

theorem Cmq.wooFLocalName_of_localNameOf {present : List Frame → Bool}
    (hname : frameText frames 0 = .ok wname)
    (h : Cmq.localNameOf present srv cap frames = .ok (some localName)) :
    wooFLocalName srv.uriPath wname = .ok (some localName) := by
  rw [Cmq.localNameOf, hname] at h
  by_cases hframes : Cmq.payload cap = none ∨ Cmq.hasPayload frames 0 = false
  · simp [hframes] at h
  simp only [hframes, if_false, Exec.ok_bind] at h
  obtain ⟨guarded, hguarded, h⟩ := Exec.bind_eq_ok.1 h
  by_cases hpresent : present frames = true
  · have heq : guarded = some localName := by simpa [hpresent] using h
    exact wooFLocalName_of_guardedName (heq ▸ hguarded)
  · simp [hpresent] at h

theorem Cmq.wooFLocalName_of_unguardedNameOf (hname : frameText frames 0 = .ok wname)
    (h : Cmq.unguardedNameOf srv cap frames = .ok (some localName)) :
    wooFLocalName srv.uriPath wname = .ok (some localName) := by
  rw [Cmq.unguardedNameOf, hname] at h
  by_cases hframes : Cmq.payload cap = none ∨ Cmq.hasPayload frames 0 = false
  · simp [hframes] at h
  · simpa [hframes] using h

/-- The operations whose handlers have no guard against names of capability woofs. -/
def Cmq.Unguarded (op : Operation) : Prop := op = .latestSeqno ∨ op = .getTail

theorem Zmq.capHandler_localName (h : op ≠ .put) :
    (Zmq.capHandler op).localName = Zmq.localNameOf := by
  cases op with
  | put => exact absurd rfl h
  | _ => rfl

theorem Cmq.capHandler_localName (h : ¬ Cmq.Unguarded op) :
    ∃ present, (Cmq.capHandler op).localName = Cmq.localNameOf present := by
  cases op with
  | latestSeqno => exact absurd (Or.inl rfl) h
  | getTail => exact absurd (Or.inr rfl) h
  | _ => exact ⟨_, rfl⟩

theorem Cmq.capHandler_localName_of_unguarded (h : Cmq.Unguarded op) :
    (Cmq.capHandler op).localName = Cmq.unguardedNameOf := by
  rcases h with rfl | rfl <;> rfl

/-- Whatever a handler checks first, the file name it goes on with is the one in the URI. -/
theorem Transport.wooFLocalName_of_localName {t : Transport}
    (hname : frameText frames 0 = .ok wname)
    (h : (t.capHandler op).localName srv cap frames = .ok (some localName)) :
    wooFLocalName srv.uriPath wname = .ok (some localName) := by
  cases t with
  | zmq =>
    by_cases hput : op = .put
    · subst hput
      have h : (if frames.length ≠ 3 then .error .outOfBounds
          else Zmq.localNameOf srv cap frames) = .ok (some localName) := h
      by_cases hlen : frames.length ≠ 3
      · simp [hlen] at h
      · exact Zmq.wooFLocalName_of_localNameOf hname (by simpa [hlen] using h)
    · rw [Transport.capHandler, Zmq.capHandler_localName hput] at h
      exact Zmq.wooFLocalName_of_localNameOf hname h
  | cmq =>
    rw [Transport.capHandler] at h
    by_cases hun : Cmq.Unguarded op
    · rw [Cmq.capHandler_localName_of_unguarded hun] at h
      exact Cmq.wooFLocalName_of_unguardedNameOf hname h
    · obtain ⟨present, hpresent⟩ := Cmq.capHandler_localName hun
      rw [hpresent] at h
      exact Cmq.wooFLocalName_of_localNameOf hname h

/-! ## A small server

Two places in each woof, one element in it, and a woof `data` with the capability woofs
one wants to see it with. -/

def sampleWoof (element : Bytes) : WooF :=
  { wooFCreate [] element.length 2 0 with seqNo := 2, head := 1, slots := fun _ => ⟨element, 1⟩ }

theorem wooFReadWithCause_sampleWoof (element : Bytes) :
    wooFReadWithCause (sampleWoof element) (wooFLatestSeqno (sampleWoof element)) =
      .ok (some element, sampleWoof element) := by
  have hlatest : Word.sub 2 1 = 1 := by decide
  have hearliest : Word.add (Word.sub 1 1) 1 = 1 := by decide
  have hmutex : semP (initSem 0 1) = .ok 0 := by decide
  simp only [wooFReadWithCause, wooFReadNdx, wooFLatestSeqno, wooFGetEarliest, sampleWoof,
    wooFCreate, hlatest, hearliest, hmutex]
  rfl

def sampleServer (own ns : Option Wcap) : Server where
  uriPath uri := some (uri.drop 8)
  dir name :=
    if name = Bytes.ofString "data" then some (.woof (sampleWoof [7]))
    else if name = capName (Bytes.ofString "data") then own.map fun c => .woof (sampleWoof c.bytes)
    else if name = nsCapName then ns.map fun c => .woof (sampleWoof c.bytes)
    else none
  globals :=
    { nameId := 0, wooFNamespace := [], myLogSeqNo := 0, nameLog := logCreate 0 4 }
  creates _ _ _ := true
  maxAlloc := 2 ^ 30
  maxAlloc_lt := by decide
  stack := zeroFill
  freed := id

def textAt (s : Bytes) : Frame := ⟨textFrame s, []⟩

def numberAt (n : Nat) : Frame := textAt (Decimal.ofNat n)

def capAt (cap : Wcap) : Frame := ⟨cap.bytes, []⟩

def sampleUri : Bytes := Bytes.ofString "woof://h/data"

end Cspot
