import Cspot.Caplets.Capability
import Cspot.Net.Server

/-!
# The capability check of the servers

A woof is protected by the principal in its own `.CAP` woof, by the principal of the
namespace in `CSPOT.CAP`, or by both.  A request with a capability frame carries a
signature of its payload where the check of the capability would stand, and the handler
derives the key that should have signed it from every principal it finds.
-/

namespace Cspot

inductive Verdict
  | unprotected
  | refused
  | granted
deriving Repr, DecidableEq

/-! ## Principals -/

/-- An element read into a local structure that held `fill` before. -/
def principalOf (fill element : Bytes) : Exec Wcap :=
  if element.length ≤ sizeofWcap then .ok (Wcap.ofBytes (element ++ fill.drop element.length))
  else .error .outOfBounds

/-- The latest element of a capability woof, none when the read fails. -/
def readPrincipal (fill : Bytes) (wf : WooF) : Exec (Option Wcap) := do
  let (element, _) ← wooFReadWithCause wf (wooFLatestSeqno wf)
  match element with
  | none => return none
  | some element =>
    let principal ← principalOf fill element
    return some principal

def zeroFill : Bytes := List.replicate sizeofWcap 0

/-- What a handler holds after it looked at one of the two capability woofs. -/
inductive Derived
  | absent
  | failed
  | cap (newCap : Wcap)
deriving Repr, DecidableEq

def deriveCap (hmac : Hmac) (needed : UInt32) : Option WooF → Exec Derived
  | none => .ok .absent
  | some wf => do
      match ← readPrincipal zeroFill wf with
      | none => return .failed
      | some principal =>
        match wooFCapAttenuate hmac principal needed with
        | none => return .failed
        | some newCap => return .cap newCap

/-- The signature stays zero when there is no capability to sign with. -/
def Derived.sig (hmac : Hmac) (payload : Bytes) : Derived → UInt64
  | .cap newCap => wooFCapSign hmac payload newCap.check
  | _ => 0

/-- The check field of the structure a capability frame is taken for. -/
def Frame.check (cap : Frame) : Exec UInt64 :=
  if sizeofWcap ≤ cap.memory.length then .ok (Wcap.ofBytes cap.memory).check
  else .error .outOfBounds

/-- The part of the check that follows once one of the woofs is open. -/
def checkSignature (hmac : Hmac) (needed : UInt32) (payload : Exec (Option Bytes))
    (cap : Frame) (wf wfNs : Option WooF) : Exec Verdict := do
  let newCapP ← deriveCap hmac needed wf
  if newCapP = .failed then return .refused
  let newCapNs ← deriveCap hmac needed wfNs
  if newCapNs = .failed then
    -- this way out drops the woof of its own principal a second time
    if wf.isSome then throw .doubleFree
    return .refused
  match ← payload with
  | none => return .refused
  | some payload =>
    let check ← cap.check
    if check = newCapP.sig hmac payload ∨ check = newCapNs.sig hmac payload then
      return .granted
    else return .refused

def capCheck (hmac : Hmac) (openCap : Bytes → Exec (Option WooF)) (localName : Bytes)
    (needed : UInt32) (payload : Exec (Option Bytes)) (cap : Frame) : Exec Verdict := do
  let wfNs ← openCap nsCapName
  let wf ← openCap (capName localName)
  if wf = none ∧ wfNs = none then return .unprotected
  checkSignature hmac needed payload cap wf wfNs

section CheckSignature

variable {hmac : Hmac} {needed : UInt32} {payload : Exec (Option Bytes)} {cap : Frame}
  {wf wfNs : Option WooF} {verdict : Verdict}

/-- Everything a completed check can have come to. -/
theorem checkSignature_cases
    (h : checkSignature hmac needed payload cap wf wfNs = .ok verdict) :
    verdict = .refused ∧ (deriveCap hmac needed wf = .ok .failed ∨
        wf = none ∧ deriveCap hmac needed wfNs = .ok .failed) ∨
      ∃ newCapP newCapNs,
        deriveCap hmac needed wf = .ok newCapP ∧ newCapP ≠ .failed ∧
        deriveCap hmac needed wfNs = .ok newCapNs ∧ newCapNs ≠ .failed ∧
        (verdict = .refused ∧ payload = .ok none ∨
          ∃ text check, payload = .ok (some text) ∧ cap.check = .ok check ∧
            verdict = if check = newCapP.sig hmac text ∨ check = newCapNs.sig hmac text
              then .granted else .refused) := by
  obtain ⟨newCapP, hp, h⟩ := Exec.bind_eq_ok.1 h
  by_cases hpf : newCapP = .failed
  · exact Or.inl ⟨by simpa [hpf, eq_comm] using h, Or.inl (hpf ▸ hp)⟩
  simp only [hpf, if_false] at h
  obtain ⟨newCapNs, hns, h⟩ := Exec.bind_eq_ok.1 h
  by_cases hnsf : newCapNs = .failed
  · cases wf with
    | some opened => simp [hnsf] at h
    | none => exact Or.inl ⟨by simpa [hnsf, eq_comm] using h, Or.inr ⟨rfl, hnsf ▸ hns⟩⟩
  simp only [hnsf, if_false] at h
  obtain ⟨text, htext, h⟩ := Exec.bind_eq_ok.1 h
  refine Or.inr ⟨newCapP, newCapNs, hp, hpf, hns, hnsf, ?_⟩
  cases text with
  | none => exact Or.inl ⟨by simpa [eq_comm] using h, htext⟩
  | some text =>
    obtain ⟨check, hcheck, h⟩ := Exec.bind_eq_ok.1 h
    refine Or.inr ⟨text, check, htext, hcheck, ?_⟩
    split at h <;> simp_all

theorem checkSignature_ne_unprotected :
    checkSignature hmac needed payload cap wf wfNs ≠ .ok .unprotected := by
  intro h
  obtain ⟨hverdict, -⟩ | ⟨newCapP, newCapNs, -, -, -, -, ⟨hverdict, -⟩ |
    ⟨text, check, -, -, hverdict⟩⟩ := checkSignature_cases h
  · cases hverdict
  · cases hverdict
  · split at hverdict <;> cases hverdict

theorem exists_sig_of_granted
    (h : checkSignature hmac needed payload cap wf wfNs = .ok .granted) :
    ∃ newCapP newCapNs text check,
      deriveCap hmac needed wf = .ok newCapP ∧ newCapP ≠ .failed ∧
      deriveCap hmac needed wfNs = .ok newCapNs ∧ newCapNs ≠ .failed ∧
      payload = .ok (some text) ∧ cap.check = .ok check ∧
      (check = newCapP.sig hmac text ∨ check = newCapNs.sig hmac text) := by
  obtain ⟨hverdict, -⟩ | ⟨newCapP, newCapNs, hp, hpf, hns, hnsf, ⟨hverdict, -⟩ |
    ⟨text, check, htext, hcheck, hverdict⟩⟩ := checkSignature_cases h
  · cases hverdict
  · cases hverdict
  · refine ⟨newCapP, newCapNs, text, check, hp, hpf, hns, hnsf, htext, hcheck, ?_⟩
    by_contra hsig
    rw [if_neg hsig] at hverdict
    cases hverdict

theorem checkSignature_granted {newCapP newCapNs : Derived} {text : Bytes} {check : UInt64}
    (hp : deriveCap hmac needed wf = .ok newCapP) (hpf : newCapP ≠ .failed)
    (hns : deriveCap hmac needed wfNs = .ok newCapNs) (hnsf : newCapNs ≠ .failed)
    (htext : payload = .ok (some text)) (hcheck : cap.check = .ok check)
    (hsig : check = newCapP.sig hmac text ∨ check = newCapNs.sig hmac text) :
    checkSignature hmac needed payload cap wf wfNs = .ok .granted := by
  simp [checkSignature, hp, hpf, hns, hnsf, htext, hcheck, hsig]

theorem capCheck_of_open {openCap : Bytes → Exec (Option WooF)} {localName : Bytes}
    (hns : openCap nsCapName = .ok wfNs) (hwf : openCap (capName localName) = .ok wf)
    (hone : ¬ (wf = none ∧ wfNs = none)) :
    capCheck hmac openCap localName needed payload cap =
      checkSignature hmac needed payload cap wf wfNs := by
  simp [capCheck, hns, hwf, hone]

end CheckSignature

/-! ## Payloads -/

/-- `snprintf` into a buffer of this size. -/
def snprintf (size : Nat) (text : Bytes) : Bytes := text.take (size - 1)

def blank : Bytes := [32]

def namePayload (wname : Bytes) : Exec (Option Bytes) := .ok (some wname)

def pairPayload (size : Nat) (wname first : Bytes) : Exec (Option Bytes) :=
  .ok (some (snprintf size (wname ++ blank ++ first)))

def triplePayload (size : Nat) (wname first second : Bytes) : Exec (Option Bytes) :=
  .ok (some (snprintf size (wname ++ blank ++ first ++ blank ++ second)))

/-- Name, handler and element one behind the other.  The size is an `int`: a negative one
is more than the allocator has, and after a wrap the copies run over the buffer. -/
def putPayload (wname hname elem : Bytes) : Exec (Option Bytes) :=
  let size := elem.length + wname.length + hname.length
  let psize := Word.toInt32 size
  if psize < 0 then .ok none
  else if psize < size then .error .outOfBounds
  else .ok (some (wname ++ hname ++ elem))

def nullName : Bytes := Bytes.ofString "NULL"

/-- The level a put needs, from the memory at the handler name. -/
def putNeeded (hname : Bytes) : UInt32 :=
  if nullName.isPrefixOf hname then wcapWrite else wcapExec

theorem putNeeded_le (hname : Bytes) : putNeeded hname ≤ wcapPrincipal := by
  unfold putNeeded
  split <;> decide

/-! ## Handlers -/

/-- What tells the handlers of requests with a capability frame apart.  The frame lists
are without the capability frame. -/
structure CapHandler where
  refusal : Server → Reply
  /-- The checks on the frames and the name before any capability woof is opened. -/
  localName : Server → (cap : Frame) → List Frame → Exec (Option Bytes)
  openCap : Server → Bytes → Exec (Option WooF)
  needed : List Frame → UInt32
  /-- The text a signature has to be of. -/
  payload : List Frame → Exec (Option Bytes)
  unprotected : Server → List Frame → Outcome
  perform : Server → List Frame → Outcome
  check : Hmac → Server → (localName : Bytes) → List Frame → (cap : Frame) → Exec Verdict :=
    fun hmac srv localName frames cap =>
      capCheck hmac (openCap srv) localName (needed frames) (payload frames) cap

namespace CapHandler

/-- All handlers but one check signatures. -/
def Signed (h : CapHandler) : Prop :=
  ∀ hmac srv localName frames cap, h.check hmac srv localName frames cap =
    capCheck hmac (h.openCap srv) localName (h.needed frames) (h.payload frames) cap

def authorize (h : CapHandler) (hmac : Hmac) (srv : Server) (cap : Frame)
    (frames : List Frame) : Exec Verdict := do
  match ← h.localName srv cap frames with
  | none => return .refused
  | some localName => h.check hmac srv localName frames cap

def run (h : CapHandler) (hmac : Hmac) (srv : Server) : List Frame → Outcome
  | [] => .reply srv (h.refusal srv)
  | cap :: frames =>
    (h.authorize hmac srv cap frames).serve srv fun
      | .unprotected => h.unprotected srv frames
      | .refused => .reply srv (h.refusal srv)
      | .granted => h.perform srv frames

variable {h : CapHandler} {hmac : Hmac} {srv : Server} {cap : Frame} {frames : List Frame}

theorem authorize_of_localName {localName : Bytes}
    (hlocal : h.localName srv cap frames = .ok (some localName)) :
    h.authorize hmac srv cap frames = h.check hmac srv localName frames cap := by
  simp [authorize, hlocal]

theorem exists_payload_of_granted (hsigned : h.Signed)
    (hgranted : h.authorize hmac srv cap frames = .ok .granted) :
    ∃ text, h.payload frames = .ok (some text) := by
  obtain ⟨localName, -, hcheck⟩ := Exec.bind_eq_ok.1 hgranted
  cases localName with
  | none => cases hcheck
  | some localName =>
    replace hcheck := (hsigned hmac srv localName frames cap).symm.trans hcheck
    obtain ⟨wfNs, -, hcheck⟩ := Exec.bind_eq_ok.1 hcheck
    obtain ⟨wf, -, hcheck⟩ := Exec.bind_eq_ok.1 hcheck
    split at hcheck
    · cases hcheck
    · obtain ⟨_, _, text, _, -, -, -, -, htext, -⟩ := exists_sig_of_granted hcheck
      exact ⟨text, htext⟩

end CapHandler

end Cspot
