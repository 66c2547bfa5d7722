import Cspot.Net.Transport

/-!
# What a server accepts as a signature

A request with a capability frame against a protected woof should be performed only under
a signature by a key that attenuation derives from a stored principal.  The signatures
start out as zero and one of them stays zero when only one of the two capability woofs
exists, so a check of zero is accepted then.  The tail handler of the ZeroMQ server
verifies no signature, and lets a request pass when only the namespace is protected.
-/

namespace Cspot

/-! ## Derived keys -/

theorem wooFCapAttenuate_isSome_iff (hmac : Hmac) (cap : Wcap) (perm : UInt32) :
    (wooFCapAttenuate hmac cap perm).isSome ↔ perm ≤ cap.permissions := by
  by_cases h : perm > cap.permissions
  · simp [wooFCapAttenuate, h]
  · have hle : perm ≤ cap.permissions := UInt32.not_lt.1 h
    by_cases heq : perm = cap.permissions
    · simp [wooFCapAttenuate, heq]
    · simp [wooFCapAttenuate, h, heq, hle]

variable {hmac : Hmac} {srv : Server} {localName : Bytes} {cap : Frame} {frames : List Frame}
  {t : Transport} {op : Operation} {wf : Option WooF} {wname : Bytes} {tagFrame : Frame}

theorem deriveCap_eq_cap_iff {needed : UInt32} {newCap : Wcap} :
    deriveCap hmac needed wf = .ok (.cap newCap) ↔
      ∃ opened principal, wf = some opened ∧ readPrincipal zeroFill opened = .ok (some principal) ∧
        wooFCapAttenuate hmac principal needed = some newCap := by
  cases wf with
  | none => simp [deriveCap]
  | some opened =>
    cases hread : readPrincipal zeroFill opened with
    | error s => simp [deriveCap, hread]
    | ok read =>
      cases read with
      | none => simp [deriveCap, hread]
      | some principal =>
        cases hatt : wooFCapAttenuate hmac principal needed <;>
          simp [deriveCap, hread, hatt]

theorem deriveCap_eq_absent_iff (hmac : Hmac) (needed : UInt32) :
    deriveCap hmac needed wf = .ok .absent ↔ wf = none := by
  cases wf with
  | none => simp [deriveCap]
  | some opened =>
    simp only [reduceCtorEq, iff_false]
    intro h
    obtain ⟨read, -, h⟩ := Exec.bind_eq_ok.1 h
    cases read with
    | none => simp at h
    | some principal =>
      cases hatt : wooFCapAttenuate hmac principal needed <;> simp [hatt] at h

/-! ## Requests that are performed -/

namespace CapHandler

variable {cap : Frame} {frames : List Frame} {localName : Bytes} {h : CapHandler} {srv : Server}
  {newCap : Wcap}

theorem run_accesses (hrun : (h.run hmac srv (cap :: frames)).accesses ≠ []) :
    ∃ localName, h.localName srv cap frames = .ok (some localName) ∧
      (h.check hmac srv localName frames cap = .ok .unprotected ∨
        h.check hmac srv localName frames cap = .ok .granted) := by
  obtain ⟨verdict, hverdict, hrun⟩ := Exec.exists_ok_of_serve_accesses hrun
  obtain ⟨name, hname, hcheck⟩ := Exec.bind_eq_ok.1 hverdict
  cases name with
  | none =>
    have hrefused : Verdict.refused = verdict := by simpa using hcheck
    subst hrefused
    exact absurd rfl hrun
  | some localName =>
    refine ⟨localName, hname, ?_⟩
    cases verdict with
    | refused => exact absurd rfl hrun
    | unprotected => exact Or.inl hcheck
    | granted => exact Or.inr hcheck

theorem run_of_granted (hname : h.localName srv cap frames = .ok (some localName))
    (hcheck : h.check hmac srv localName frames cap = .ok .granted) :
    h.run hmac srv (cap :: frames) = h.perform srv frames := by
  rw [run, authorize_of_localName hname, hcheck]
  rfl

/-- One of the two capability woofs of this name can be opened. -/
def Protects (h : CapHandler) (srv : Server) (localName : Bytes) : Prop :=
  (∃ wf, h.openCap srv (capName localName) = .ok (some wf)) ∨
    ∃ wf, h.openCap srv nsCapName = .ok (some wf)

/-- The received check is the signature of the payload under the key derived from the
principal in this capability woof. -/
def SignedFrom (h : CapHandler) (hmac : Hmac) (srv : Server) (capWoof : Bytes) (cap : Frame)
    (frames : List Frame) : Prop :=
  ∃ wf principal newCap text check,
    h.openCap srv capWoof = .ok (some wf) ∧
    readPrincipal zeroFill wf = .ok (some principal) ∧
    wooFCapAttenuate hmac principal (h.needed frames) = some newCap ∧
    h.payload frames = .ok (some text) ∧
    cap.check = .ok check ∧ check = wooFCapSign hmac text newCap.check

def OnlyCap (h : CapHandler) (srv : Server) (present missing : Bytes) (frames : List Frame) :
    Prop :=
  ∃ wf principal, h.openCap srv present = .ok (some wf) ∧ h.openCap srv missing = .ok none ∧
    readPrincipal zeroFill wf = .ok (some principal) ∧ h.needed frames ≤ principal.permissions

/-- The missing principal leaves a signature of zero, and zero is what was sent. -/
def AcceptsZero (h : CapHandler) (srv : Server) (localName : Bytes) (cap : Frame)
    (frames : List Frame) : Prop :=
  cap.check = .ok 0 ∧ (∃ text, h.payload frames = .ok (some text)) ∧
    (h.OnlyCap srv (capName localName) nsCapName frames ∨
      h.OnlyCap srv nsCapName (capName localName) frames)

theorem signedFrom_of_sig {capWoof : Bytes} {text : Bytes} (hopen : h.openCap srv capWoof = .ok wf)
    (hderive : deriveCap hmac (h.needed frames) wf = .ok (.cap newCap))
    (htext : h.payload frames = .ok (some text))
    (hcheck : cap.check = .ok ((Derived.cap newCap).sig hmac text)) :
    h.SignedFrom hmac srv capWoof cap frames := by
  obtain ⟨opened, principal, rfl, hread, hatt⟩ := deriveCap_eq_cap_iff.1 hderive
  exact ⟨opened, principal, newCap, text, _, hopen, hread, hatt, htext, hcheck, rfl⟩

theorem onlyCap_of_derived {present missing : Bytes} (hopen : h.openCap srv present = .ok wf)
    (hmissing : h.openCap srv missing = .ok none)
    (hderive : deriveCap hmac (h.needed frames) wf = .ok (.cap newCap)) :
    h.OnlyCap srv present missing frames := by
  obtain ⟨opened, principal, rfl, hread, hatt⟩ := deriveCap_eq_cap_iff.1 hderive
  have hle := (wooFCapAttenuate_isSome_iff hmac principal (h.needed frames)).1 (by simp [hatt])
  exact ⟨opened, principal, hopen, hmissing, hread, hle⟩

theorem signed_of_granted
    (hgranted : capCheck hmac (h.openCap srv) localName (h.needed frames) (h.payload frames) cap =
      .ok .granted) :
    h.SignedFrom hmac srv (capName localName) cap frames ∨
      h.SignedFrom hmac srv nsCapName cap frames ∨ h.AcceptsZero srv localName cap frames := by
  obtain ⟨wfNs, hns, hrest⟩ := Exec.bind_eq_ok.1 hgranted
  obtain ⟨wf, hwf, hrest⟩ := Exec.bind_eq_ok.1 hrest
  by_cases hnone : wf = none ∧ wfNs = none
  · simp [hnone] at hrest
  simp only [hnone, if_false] at hrest
  obtain ⟨newCapP, newCapNs, text, check, hp, hpf, hderiveNs, hnsf, htext, hcheck, hsig⟩ :=
    exists_sig_of_granted hrest
  -- a signature from a derived key is one; a missing woof makes the other the only one
  cases newCapP with
  | failed => exact absurd rfl hpf
  | cap newCap =>
    rcases hsig with rfl | rfl
    · exact Or.inl (signedFrom_of_sig hwf hp htext hcheck)
    cases newCapNs with
    | failed => exact absurd rfl hnsf
    | cap newCap' => exact Or.inr (Or.inl (signedFrom_of_sig hns hderiveNs htext hcheck))
    | absent =>
      have hnsNone := (deriveCap_eq_absent_iff hmac _).1 hderiveNs
      subst hnsNone
      exact Or.inr (Or.inr ⟨hcheck, ⟨text, htext⟩, Or.inl (onlyCap_of_derived hwf hns hp)⟩)
  | absent =>
    have hwfNone := (deriveCap_eq_absent_iff hmac _).1 hp
    subst hwfNone
    cases newCapNs with
    | failed => exact absurd rfl hnsf
    | absent => exact absurd ⟨rfl, (deriveCap_eq_absent_iff hmac _).1 hderiveNs⟩ hnone
    | cap newCap =>
      rcases hsig with rfl | rfl
      · exact Or.inr (Or.inr ⟨hcheck, ⟨text, htext⟩,
          Or.inr (onlyCap_of_derived hns hwf hderiveNs)⟩)
      · exact Or.inr (Or.inl (signedFrom_of_sig hns hderiveNs htext hcheck))

theorem not_unprotected_of_protects (hprot : h.Protects srv localName) :
    capCheck hmac (h.openCap srv) localName (h.needed frames) (h.payload frames) cap ≠
      .ok .unprotected := by
  intro hcheck
  obtain ⟨wfNs, hns, hrest⟩ := Exec.bind_eq_ok.1 hcheck
  obtain ⟨wf, hwf, hrest⟩ := Exec.bind_eq_ok.1 hrest
  have hone : ¬ (wf = none ∧ wfNs = none) := by
    rintro ⟨rfl, rfl⟩
    rcases hprot with ⟨opened, hopened⟩ | ⟨opened, hopened⟩
    · rw [hwf] at hopened
      cases hopened
    · rw [hns] at hopened
      cases hopened
  simp only [hone, if_false] at hrest
  exact checkSignature_ne_unprotected hrest

/-- Two woofs opened, the principal of one derived and the other missing: zero passes. -/
theorem granted_of_acceptsZero (hzero : h.AcceptsZero srv localName cap frames) (hmac : Hmac) :
    capCheck hmac (h.openCap srv) localName (h.needed frames) (h.payload frames) cap =
      .ok .granted := by
  obtain ⟨hcheck, ⟨text, htext⟩, honly⟩ := hzero
  rcases honly with ⟨wf, principal, hopen, hmissing, hread, hle⟩ |
    ⟨wf, principal, hopen, hmissing, hread, hle⟩
  all_goals
    obtain ⟨newCap, hatt⟩ :=
      Option.isSome_iff_exists.1 ((wooFCapAttenuate_isSome_iff hmac principal _).2 hle)
    have hderive := deriveCap_eq_cap_iff.2 ⟨wf, principal, rfl, hread, hatt⟩
    have habsent := (deriveCap_eq_absent_iff hmac (h.needed frames)).2 rfl
  · rw [capCheck_of_open hmissing hopen (by simp)]
    exact checkSignature_granted hderive (by simp) habsent (by simp) htext hcheck (Or.inr rfl)
  · rw [capCheck_of_open hopen hmissing (by simp)]
    exact checkSignature_granted habsent (by simp) hderive (by simp) htext hcheck (Or.inl rfl)

end CapHandler

/-! ## The tail handler -/

theorem wooFCapAuthorized_constant (secret : UInt64) (cap : Wcap) :
    wooFCapAuthorized (fun _ _ => cap.check) secret cap wcapRead = true := by
  have hfirst : wcapRead < wcapMaxPerm := by decide
  have hlevel : wcapPrincipal / 2 ≥ wcapRead := by decide
  have hmax : ¬ wcapRead > wcapMaxPerm := by decide
  simp [wooFCapAuthorized, authorizeLoop, permLevels, wooFCapCheck, principalCap, hfirst, hlevel,
    hmax]

/-- The tail handler lets the request pass for some keyed hash. -/
def TailOpen (srv : Server) (localName : Bytes) (cap : Frame) : Prop :=
  Zmq.openCap srv (capName localName) = .ok none ∨
    ∃ wf principal, Zmq.openCap srv (capName localName) = .ok (some wf) ∧
      readPrincipal srv.stack wf = .ok (some principal) ∧ sizeofWcap ≤ cap.memory.length

theorem tailOpen_of_checkTail (frames : List Frame)
    (h : Zmq.checkTail hmac srv localName frames cap = .ok .unprotected ∨
      Zmq.checkTail hmac srv localName frames cap = .ok .granted) :
    TailOpen srv localName cap := by
  obtain ⟨verdict, hverdict, hne⟩ : ∃ verdict,
      Zmq.checkTail hmac srv localName frames cap = .ok verdict ∧ verdict ≠ .refused := by
    rcases h with h | h
    · exact ⟨_, h, by decide⟩
    · exact ⟨_, h, by decide⟩
  obtain ⟨wf, hopen, hrest⟩ := Exec.bind_eq_ok.1 hverdict
  cases wf with
  | none => exact Or.inl hopen
  | some wf =>
    obtain ⟨principal, hread, hrest⟩ := Exec.bind_eq_ok.1 hrest
    cases principal with
    | none => exact absurd (by simpa [eq_comm] using hrest) hne
    | some principal =>
      refine Or.inr ⟨wf, principal, hopen, hread, ?_⟩
      by_contra hshort
      simp [Nat.not_le.1 hshort] at hrest

theorem checkTail_of_tailOpen (frames : List Frame) (h : TailOpen srv localName cap) :
    ∃ hmac, Zmq.checkTail hmac srv localName frames cap = .ok .unprotected ∨
      Zmq.checkTail hmac srv localName frames cap = .ok .granted := by
  refine ⟨fun _ _ => (Wcap.ofBytes cap.memory).check, ?_⟩
  rcases h with hnone | ⟨wf, principal, hopen, hread, hlen⟩
  · exact Or.inl (by simp [Zmq.checkTail, hnone])
  · exact Or.inr (by
      simp [Zmq.checkTail, hopen, hread, Nat.not_lt.2 hlen, wooFCapAuthorized_constant])

theorem run_wooFProcessGetTailwithCAP
    (hname : Zmq.localNameOf srv cap frames = .ok (some localName))
    (hcheck : Zmq.checkTail hmac srv localName frames cap = .ok .unprotected ∨
      Zmq.checkTail hmac srv localName frames cap = .ok .granted) :
    Zmq.wooFProcessGetTailwithCAP.run hmac srv (cap :: frames) =
      Zmq.wooFProcessGetTail srv false frames := by
  have hname' : Zmq.wooFProcessGetTailwithCAP.localName srv cap frames = .ok (some localName) :=
    hname
  rw [CapHandler.run, CapHandler.authorize_of_localName hname',
    show Zmq.wooFProcessGetTailwithCAP.check = Zmq.checkTail from rfl]
  rcases hcheck with hcheck | hcheck <;> rw [hcheck] <;> rfl

/-! ## Soundness -/

/-- A request passes the check of its handler for some keyed hash without a signature. -/
def Exposed (t : Transport) (op : Operation) (srv : Server) (localName : Bytes) (cap : Frame)
    (frames : List Frame) : Prop :=
  (t.capHandler op).localName srv cap frames = .ok (some localName) ∧
    ((t.capHandler op).perform srv frames).accesses ≠ [] ∧
    if t = .zmq ∧ op = .getTail then TailOpen srv localName cap
    else (t.capHandler op).AcceptsZero srv localName cap frames

/-- If the request is performed then its check was made with a key derived from a stored
principal. -/
def PerformedOnlySigned (t : Transport) (op : Operation) (hmac : Hmac) (srv : Server)
    (localName : Bytes) (tagFrame cap : Frame) (frames : List Frame) : Prop :=
  (t.serve hmac srv (tagFrame :: cap :: frames)).accesses ≠ [] →
    (t.capHandler op).SignedFrom hmac srv (capName localName) cap frames ∨
      (t.capHandler op).SignedFrom hmac srv nsCapName cap frames

theorem Transport.localName_unique {used : Bytes} (hname : frameText frames 0 = .ok wname)
    (hlocal : wooFLocalName srv.uriPath wname = .ok (some localName))
    (hused : (t.capHandler op).localName srv cap frames = .ok (some used)) :
    used = localName := by
  have h := t.wooFLocalName_of_localName hname hused
  rw [hlocal] at h
  exact (Option.some.inj (Except.ok.inj h)).symm

theorem performedOnlySigned_of_not_exposed (htag : t.readTag tagFrame = .ok (some (.cap op)))
    (hname : frameText frames 0 = .ok wname)
    (hlocal : wooFLocalName srv.uriPath wname = .ok (some localName))
    (hprot : (t.capHandler op).Protects srv localName)
    (hexp : ¬ Exposed t op srv localName cap frames) (hmac : Hmac) :
    PerformedOnlySigned t op hmac srv localName tagFrame cap frames := by
  intro hperf
  rw [Transport.serve_of_readTag htag, Transport.process_cap] at hperf
  obtain ⟨used, hused, hcheck⟩ := CapHandler.run_accesses hperf
  obtain rfl := t.localName_unique hname hlocal hused
  by_cases htail : t = .zmq ∧ op = .getTail
  · obtain ⟨rfl, rfl⟩ := htail
    have hopen : TailOpen srv used cap := tailOpen_of_checkTail frames hcheck
    have hperform : (Zmq.wooFProcessGetTail srv false frames).accesses ≠ [] :=
      run_wooFProcessGetTailwithCAP hused hcheck ▸ hperf
    exact absurd ⟨hused, hperform, by simpa using hopen⟩ hexp
  · rw [Transport.capHandler_signed htail] at hcheck
    rcases hcheck with hcheck | hcheck
    · exact absurd hcheck (CapHandler.not_unprotected_of_protects hprot)
    rcases CapHandler.signed_of_granted hcheck with hsigned | hsigned | hzero
    · exact Or.inl hsigned
    · exact Or.inr hsigned
    · have hgranted := (Transport.capHandler_signed htail hmac srv used frames cap).trans hcheck
      rw [CapHandler.run_of_granted hused hgranted] at hperf
      exact absurd ⟨hused, hperf, by simpa [htail] using hzero⟩ hexp

theorem not_performedOnlySigned_of_exposed (htag : t.readTag tagFrame = .ok (some (.cap op)))
    (hexp : Exposed t op srv localName cap frames) :
    ∃ hmac, ¬ PerformedOnlySigned t op hmac srv localName tagFrame cap frames := by
  obtain ⟨hused, hperform, hopen⟩ := hexp
  by_cases htail : t = .zmq ∧ op = .getTail
  · obtain ⟨rfl, rfl⟩ := htail
    obtain ⟨hmac, hcheck⟩ := checkTail_of_tailOpen frames (by simpa using hopen)
    refine ⟨hmac, fun hsound => ?_⟩
    have hrun := run_wooFProcessGetTailwithCAP hused hcheck
    -- no text is signed, so there is nothing a check could be the signature of
    rcases hsound (by
        rw [Transport.serve_of_readTag htag, Transport.process_cap]
        exact ne_of_eq_of_ne (congrArg Outcome.accesses hrun) hperform) with hsigned | hsigned
    all_goals
      obtain ⟨wf, principal, newCap, text, check, -, -, -, htext, -⟩ := hsigned
      cases htext
  · simp only [htail, if_false] at hopen
    -- under a hash that is never zero no signature is zero
    refine ⟨fun _ _ => 1, fun hsound => ?_⟩
    have hcheck := CapHandler.granted_of_acceptsZero hopen fun _ _ => 1
    have hgranted := (Transport.capHandler_signed htail _ srv localName frames cap).trans hcheck
    rcases hsound (by
        rw [Transport.serve_of_readTag htag, Transport.process_cap,
          CapHandler.run_of_granted hused hgranted]
        exact hperform) with hsigned | hsigned
    all_goals
      obtain ⟨wf, principal, newCap, text, check, -, -, -, -, hzero, hone⟩ := hsigned
      rw [hopen.1] at hzero
      cases hzero
      exact absurd hone (by simp [wooFCapSign])

theorem performedOnlySigned_iff_not_exposed {t : Transport} {op : Operation} {srv : Server}
    {tagFrame cap : Frame} {frames : List Frame} {wname localName : Bytes}
    (htag : t.readTag tagFrame = .ok (some (.cap op)))
    (hname : frameText frames 0 = .ok wname)
    (hlocal : wooFLocalName srv.uriPath wname = .ok (some localName))
    (hprot : (t.capHandler op).Protects srv localName) :
    (∀ hmac, PerformedOnlySigned t op hmac srv localName tagFrame cap frames) ↔
      ¬ Exposed t op srv localName cap frames := by
  constructor
  · intro hsound hexp
    obtain ⟨hmac, hbad⟩ := not_performedOnlySigned_of_exposed htag hexp
    exact hbad (hsound hmac)
  · exact performedOnlySigned_of_not_exposed htag hname hlocal hprot

/-- With both capability woofs there a check of zero buys nothing. -/
theorem performedOnlySigned_iff_not_exposed_both :
    PerformedOnlySigned .cmq .get (fun _ _ => 1)
      (sampleServer (some (principalCap 9)) (some (principalCap 4))) (Bytes.ofString "data")
      (numberAt 23) (capAt ⟨wcapRead, 0, 0, 0⟩) [textAt sampleUri, numberAt 1] := by
  have hname : frameText [textAt sampleUri, numberAt 1] 0 = .ok sampleUri := by decide
  refine (performedOnlySigned_iff_not_exposed (by decide) hname (by decide)
    (Or.inl ⟨_, rfl⟩)).2 ?_ (fun _ _ => 1)
  rintro ⟨-, -, -, -, ⟨wf, principal, -, hmissing, -⟩ | ⟨wf, principal, -, hmissing, -⟩⟩ <;>
    cases hmissing

/-- A check of zero opens a woof with a principal of its own and none for the namespace,
and a tail is read whatever the check when only the namespace is protected. -/
theorem zero_check_performed :
    ¬ PerformedOnlySigned .zmq .elSize (fun _ _ => 1) (sampleServer (some (principalCap 9)) none)
        (Bytes.ofString "data") (numberAt 22) (capAt ⟨wcapRead, 0, 0, 0⟩) [textAt sampleUri] ∧
      ¬ PerformedOnlySigned .zmq .getTail (fun _ _ => 1)
        (sampleServer none (some (principalCap 9))) (Bytes.ofString "data") (numberAt 24)
        (capAt ⟨wcapRead, 0, 0, 5⟩) [textAt sampleUri, numberAt 1] := by
  constructor
  · intro h
    rcases h (by decide) with hsigned | hsigned
    all_goals
      obtain ⟨wf, principal, newCap, text, check, -, -, -, -, hzero, hone⟩ := hsigned
      have hcheck : (capAt ⟨wcapRead, 0, 0, 0⟩).check = .ok 0 := by decide
      rw [hcheck] at hzero
      cases hzero
      exact absurd hone (by simp [wooFCapSign])
  · intro h
    rcases h (by decide) with hsigned | hsigned
    all_goals
      obtain ⟨wf, principal, newCap, text, check, -, -, -, htext, -⟩ := hsigned
      cases htext

end Cspot
