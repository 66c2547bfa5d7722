import Cspot.Net.CapNames

/-!
# When a capability woof stays hidden

Of the handlers without a guard those for requests with a capability look at principals
first, and what they find may be the named woof itself.
-/

namespace Cspot

/-! ## The check as a condition -/

section Check

variable (hmac : Hmac) (needed : UInt32) (text : Bytes) (cap : Frame) (wf wfNs : Option WooF)

/-- Both principals can be used, and the received value and the two signatures are these. -/
def Compares (check sigP sigNs : UInt64) : Prop :=
  ∃ newCapP newCapNs, deriveCap hmac needed wf = .ok newCapP ∧ newCapP ≠ .failed ∧
    deriveCap hmac needed wfNs = .ok newCapNs ∧ newCapNs ≠ .failed ∧ cap.check = .ok check ∧
    newCapP.sig hmac text = sigP ∧ newCapNs.sig hmac text = sigNs

/-- A principal cannot be used, or the received value is none of the signatures. -/
def CheckFails : Prop :=
  deriveCap hmac needed wf = .ok .failed ∨ wf = none ∧ deriveCap hmac needed wfNs = .ok .failed ∨
    ∃ check sigP sigNs, Compares hmac needed text cap wf wfNs check sigP sigNs ∧
      check ≠ sigP ∧ check ≠ sigNs

variable {hmac needed text cap wf wfNs}

theorem Compares.checkSignature_eq {check sigP sigNs : UInt64}
    (h : Compares hmac needed text cap wf wfNs check sigP sigNs) :
    checkSignature hmac needed (.ok (some text)) cap wf wfNs =
      .ok (if check = sigP ∨ check = sigNs then .granted else .refused) := by
  obtain ⟨newCapP, newCapNs, hp, hpf, hns, hnsf, hcheck, rfl, rfl⟩ := h
  simp only [checkSignature, hp, hpf, hns, hnsf, hcheck, Exec.ok_bind, if_false]
  split <;> rfl

theorem checkSignature_of_failed {payload : Exec (Option Bytes)}
    (h : deriveCap hmac needed wf = .ok .failed) :
    checkSignature hmac needed payload cap wf wfNs = .ok .refused := by
  simp [checkSignature, h]

theorem checkSignature_ok_cases {verdict : Verdict}
    (h : checkSignature hmac needed (.ok (some text)) cap wf wfNs = .ok verdict) :
    deriveCap hmac needed wf = .ok .failed ∨
      wf = none ∧ deriveCap hmac needed wfNs = .ok .failed ∨
      ∃ check sigP sigNs, Compares hmac needed text cap wf wfNs check sigP sigNs := by
  obtain ⟨-, hfailed⟩ | ⟨newCapP, newCapNs, hp, hpf, hns, hnsf, ⟨-, hnone⟩ |
    ⟨_, check, -, hcheck, -⟩⟩ := checkSignature_cases h
  · exact or_assoc.1 (Or.inl hfailed)
  · cases hnone
  · exact Or.inr (Or.inr ⟨check, _, _, newCapP, newCapNs, hp, hpf, hns, hnsf, hcheck, rfl, rfl⟩)

theorem checkSignature_refused_iff :
    checkSignature hmac needed (.ok (some text)) cap wf wfNs = .ok .refused ↔
      CheckFails hmac needed text cap wf wfNs := by
  constructor
  · intro h
    rcases checkSignature_ok_cases h with hp | hns | ⟨check, sigP, sigNs, hcompares⟩
    · exact Or.inl hp
    · exact Or.inr (Or.inl hns)
    · refine Or.inr (Or.inr ⟨check, sigP, sigNs, hcompares, ?_⟩)
      rw [hcompares.checkSignature_eq] at h
      by_contra hsig
      rw [if_pos (by tauto)] at h
      cases h
  · rintro (hp | ⟨rfl, hns⟩ | ⟨check, sigP, sigNs, hcompares, hneP, hneNs⟩)
    · exact checkSignature_of_failed hp
    · have hp : deriveCap hmac needed none = .ok .absent := rfl
      simp [checkSignature, hp, hns]
    · rw [hcompares.checkSignature_eq, if_neg (by tauto)]

end Check

namespace Cmq

variable {srv : Server} {name : Bytes} {hmac : Hmac} {cap : Frame}

theorem run_refuses_iff {h : CapHandler} {op : Operation} {frames : List Frame}
    (hop : h.refusal srv = op.refusal .cmq srv)
    (hbase : h.unprotected srv frames = h.perform srv frames) :
    (h.run hmac srv (cap :: frames)).Refuses .cmq op ↔
      ∃ verdict, h.authorize hmac srv cap frames = .ok verdict ∧
        (verdict = .refused ∨ (h.perform srv frames).Refuses .cmq op) := by
  refine Exec.serve_refuses_iff.trans
    (exists_congr fun verdict => and_congr_right fun _ => ?_)
  cases verdict with
  | unprotected => simp [hbase]
  | granted => simp
  | refused =>
    refine iff_of_true ?_ (Or.inl rfl)
    rw [hop]
    exact Outcome.refuses_reply .cmq srv op

def principalWoof (srv : Server) (capWoof : Bytes) : Option WooF :=
  (srv.lookup capWoof).map Prod.snd

theorem openCap_eq {capWoof : Bytes} (h : slash ∉ capWoof) :
    openCap srv capWoof = .ok (principalWoof srv capWoof) := by
  simp [openCap, wooFOpen_of_slash_notMem h, principalWoof]

theorem principalWoof_withEntry_of_ne {other : Bytes} (h : other ≠ name) (entry : Option Entry) :
    principalWoof (srv.withEntry name entry) other = principalWoof srv other := by
  rw [principalWoof, Server.lookup_withEntry_of_ne h, principalWoof]

theorem capName_ne (name : Bytes) : capName name ≠ name := by
  intro h
  have hlen := congrArg List.length h
  simp [capName, Bytes.ofString] at hlen

def stuckWoof : WooF := { sampleWoof [] with mutex := 0 }

def verdictOn (hmac : Hmac) (uri : Bytes) (cap : Frame) (wf wfNs : Option WooF) :
    Exec Verdict :=
  if wf = none ∧ wfNs = none then .ok .unprotected
  else checkSignature hmac wcapRead (.ok (some uri)) cap wf wfNs

/-- There is nothing to check, or there is and both sides can be compared. -/
def CheckEnds (hmac : Hmac) (uri : Bytes) (cap : Frame) (wf wfNs : Option WooF) : Prop :=
  wf = none ∧ wfNs = none ∨
    ∃ check sigP sigNs, Compares hmac wcapRead uri cap wf wfNs check sigP sigNs

section Verdict

variable {hmac : Hmac} {uri : Bytes} {cap : Frame} {wf wfNs : Option WooF} {verdict : Verdict}

theorem verdictOn_of_failed (h : deriveCap hmac wcapRead wf = .ok .failed) :
    verdictOn hmac uri cap wf wfNs = .ok .refused := by
  have hwf : ¬ (wf = none ∧ wfNs = none) := by
    rintro ⟨rfl, -⟩
    cases h
  rw [verdictOn, if_neg hwf, checkSignature_of_failed h]

theorem failed_of_stuck (h : verdictOn hmac uri cap wf (some stuckWoof) = .ok verdict) :
    deriveCap hmac wcapRead wf = .ok .failed := by
  rw [verdictOn, if_neg (by simp)] at h
  rcases checkSignature_ok_cases h with hfailed | ⟨-, hns⟩ | ⟨_, _, _, _, _, -, -, hns, -⟩
  · exact hfailed
  · cases hns
  · cases hns

theorem verdictOn_refused_iff : verdictOn hmac uri cap wf wfNs = .ok .refused ↔
    ¬ (wf = none ∧ wfNs = none) ∧ CheckFails hmac wcapRead uri cap wf wfNs := by
  rw [← checkSignature_refused_iff, verdictOn]
  by_cases hnone : wf = none ∧ wfNs = none
  · simp [hnone]
  · simp [hnone]

theorem checkEnds_of_verdictOn (h : verdictOn hmac uri cap wf wfNs = .ok verdict)
    (hrefused : verdictOn hmac uri cap wf wfNs ≠ .ok .refused) :
    CheckEnds hmac uri cap wf wfNs := by
  by_cases hnone : wf = none ∧ wfNs = none
  · exact Or.inl hnone
  rw [verdictOn, if_neg hnone] at h hrefused
  rcases checkSignature_ok_cases h with hfailed | hfailed | hcompares
  · exact absurd (checkSignature_of_failed hfailed) hrefused
  · exact absurd (checkSignature_refused_iff.2 (Or.inr (Or.inl hfailed))) hrefused
  · exact Or.inr hcompares

theorem verdictOn_of_checkEnds (h : CheckEnds hmac uri cap wf wfNs) :
    ∃ verdict, verdictOn hmac uri cap wf wfNs = .ok verdict := by
  by_cases hnone : wf = none ∧ wfNs = none
  · exact ⟨_, if_pos hnone⟩
  · obtain ⟨check, sigP, sigNs, hcompares⟩ := h.resolve_left hnone
    rw [verdictOn, if_neg hnone]
    exact ⟨_, hcompares.checkSignature_eq⟩

theorem forall_verdictOn_iff (quiet : Option Entry → Prop) :
    (∀ entry, ∃ verdict, verdictOn hmac uri cap wf wfNs = .ok verdict ∧
        (verdict = .refused ∨ quiet entry)) ↔
      verdictOn hmac uri cap wf wfNs = .ok .refused ∨
        (∀ entry, quiet entry) ∧ CheckEnds hmac uri cap wf wfNs := by
  constructor
  · intro h
    by_cases hrefused : verdictOn hmac uri cap wf wfNs = .ok .refused
    · exact Or.inl hrefused
    have hquiet (entry : Option Entry) : quiet entry := by
      obtain ⟨verdict, hverdict, rfl | hquiet⟩ := h entry
      · exact absurd hverdict hrefused
      · exact hquiet
    obtain ⟨verdict, hverdict, -⟩ := h none
    exact Or.inr ⟨hquiet, checkEnds_of_verdictOn hverdict hrefused⟩
  · rintro (hrefused | ⟨hquiet, hends⟩) entry
    · exact ⟨_, hrefused, Or.inl rfl⟩
    · obtain ⟨verdict, hverdict⟩ := verdictOn_of_checkEnds hends
      exact ⟨verdict, hverdict, Or.inr (hquiet entry)⟩

theorem forall_verdictOn_namespace_iff (srv : Server) (quiet : Option Entry → Prop) :
    (∀ entry, ∃ verdict, verdictOn hmac uri cap wf
        (principalWoof (srv.withEntry nsCapName entry) nsCapName) = .ok verdict ∧
        (verdict = .refused ∨ quiet entry)) ↔ deriveCap hmac wcapRead wf = .ok .failed := by
  constructor
  · intro h
    -- a principal that is never handed out lets no check end that gets to it
    obtain ⟨verdict, hverdict, -⟩ := h (some (.woof stuckWoof))
    exact failed_of_stuck hverdict
  · intro hfailed entry
    exact ⟨_, verdictOn_of_failed hfailed, Or.inl rfl⟩

end Verdict

/-- What keeps a handler without a guard from going on with a request for the woof: no
capability, a name too long, a principal beside the named woof that cannot be used, or a
check that fails against principals other than the named woof. -/
def CapHidden (hmac : Hmac) (srv : Server) (uri name : Bytes) (cap : Frame) : Prop :=
  payload cap = none ∨ 1024 ≤ name.length ∨
    deriveCap hmac wcapRead (principalWoof srv (capName name)) = .ok .failed ∨
    name ≠ nsCapName ∧
      ¬ (principalWoof srv (capName name) = none ∧ principalWoof srv nsCapName = none) ∧
      CheckFails hmac wcapRead uri cap (principalWoof srv (capName name))
        (principalWoof srv nsCapName)

section Unguarded

variable {hmac : Hmac} {srv : Server} {op : Operation} {cap f : Frame} {rest : List Frame}
  {uri name : Bytes} (hun : Unguarded op) (htext : payloadText f = .ok uri)
  (hnamed : NamedBy srv.uriPath uri name)

include hun htext hnamed

theorem localName_unguarded (hcap : payload cap ≠ none) :
    (capHandler op).localName srv cap (f :: rest) = .ok (fileName name) := by
  obtain ⟨hpayload, htext⟩ := payload_of_payloadText htext
  have hframes : ¬ (payload cap = none ∨ hasPayload (f :: rest) 0 = false) := by
    simp [hcap, hasPayload, hpayload]
  rw [capHandler_localName_of_unguarded hun, unguardedNameOf, if_neg hframes,
    show frameText (f :: rest) 0 = .ok uri from htext]
  exact hnamed.localName

theorem authorize_of_unusable (h : payload cap = none ∨ 1024 ≤ name.length) :
    (capHandler op).authorize hmac srv cap (f :: rest) = .ok .refused := by
  have hlocal : (capHandler op).localName srv cap (f :: rest) = .ok none := by
    by_cases hcap : payload cap = none
    · rw [capHandler_localName_of_unguarded hun, unguardedNameOf, if_pos (Or.inl hcap)]
      rfl
    · rw [localName_unguarded hun htext hnamed hcap, fileName, if_neg]
      exact Nat.not_lt.2 (h.resolve_left hcap)
  rw [CapHandler.authorize, hlocal]
  rfl

theorem authorize_unguarded (hcap : payload cap ≠ none) (hlen : name.length < 1024) :
    (capHandler op).authorize hmac srv cap (f :: rest) =
      verdictOn hmac uri cap (principalWoof srv (capName name)) (principalWoof srv nsCapName) := by
  have hlocal : (capHandler op).localName srv cap (f :: rest) = .ok (some name) := by
    rw [localName_unguarded hun htext hnamed hcap, fileName, if_pos hlen]
  rw [CapHandler.authorize_of_localName hlocal]
  obtain ⟨-, htext⟩ := payload_of_payloadText htext
  have hpayload : namePayloadOf (f :: rest) = .ok (some uri) := by
    rw [namePayloadOf, show frameText (f :: rest) 0 = .ok uri from htext]
    rfl
  have hcheck : (capHandler op).check hmac srv name (f :: rest) cap =
      capCheck hmac (openCap srv) name wcapRead (namePayloadOf (f :: rest)) cap := by
    rcases hun with rfl | rfl <;> rfl
  rw [hcheck, hpayload, capCheck, openCap_eq slash_notMem_nsCapName,
    openCap_eq (slash_notMem_capName hnamed.slash_notMem)]
  rfl

/-- Whatever stands under the name, the handler comes to a verdict, and it refuses or has
nothing to send. -/
theorem forall_authorize_iff (rest : List Frame) (quiet : Option Entry → Prop) :
    (∀ entry, ∃ verdict,
        (capHandler op).authorize hmac (srv.withEntry name entry) cap (f :: rest) = .ok verdict ∧
          (verdict = .refused ∨ quiet entry)) ↔
      CapHidden hmac srv uri name cap ∨
        (∀ entry, quiet entry) ∧ name ≠ nsCapName ∧
          CheckEnds hmac uri cap (principalWoof srv (capName name))
            (principalWoof srv nsCapName) := by
  have hentry (entry : Option Entry) : NamedBy (srv.withEntry name entry).uriPath uri name :=
    hnamed
  by_cases hunusable : payload cap = none ∨ 1024 ≤ name.length
  · refine iff_of_true (fun entry => ?_) (Or.inl (by unfold CapHidden; tauto))
    exact ⟨_, authorize_of_unusable hun htext (hentry entry) hunusable, Or.inl rfl⟩
  obtain ⟨hcap, hlen⟩ := not_or.1 hunusable
  have hauth (entry : Option Entry) : (capHandler op).authorize hmac (srv.withEntry name entry)
      cap (f :: rest) = verdictOn hmac uri cap (principalWoof srv (capName name))
        (principalWoof (srv.withEntry name entry) nsCapName) := by
    rw [authorize_unguarded hun htext (hentry entry) hcap (by omega),
      principalWoof_withEntry_of_ne (capName_ne name)]
  simp only [hauth, CapHidden, hcap, hlen, false_or]
  by_cases hns : name = nsCapName
  · subst hns
    rw [forall_verdictOn_namespace_iff]
    simp
  · simp only [principalWoof_withEntry_of_ne (Ne.symm hns), forall_verdictOn_iff, ne_eq, hns,
      not_false_eq_true, true_and]
    refine or_congr_left ⟨fun h => Or.inr (verdictOn_refused_iff.1 h), ?_⟩
    rintro (hfailed | hfails)
    · exact verdictOn_of_failed hfailed
    · exact verdictOn_refused_iff.2 hfails

end Unguarded

theorem capHidden_or_iff {uri : Bytes} {p : Prop} :
    CapHidden hmac srv uri name cap ∨
      (∀ entry, (srv.withEntry name entry).target name = none) ∧ p ↔
        CapHidden hmac srv uri name cap := by
  refine ⟨?_, Or.inl⟩
  rintro (h | ⟨hquiet, -⟩)
  · exact h
  · have htarget := hquiet (some (.woof stuckWoof))
    rw [Server.target, Server.lookup_withEntry_woof] at htarget
    split at htarget
    · cases htarget
    · exact Or.inr (Or.inl (by omega))

theorem forall_tailQuiet_iff {f : Frame} {rest : List Frame} :
    (∀ entry, TailQuiet (srv.withEntry name entry) false name (f :: rest)) ↔
      (f :: rest).length = 1 := by
  cases rest with
  | nil => exact iff_of_true (fun _ => trivial) rfl
  | cons elCount rest =>
    refine iff_of_false (fun h => ?_) (by simp)
    obtain ⟨text, -, ⟨hcap, -⟩ | ⟨file, wf, htarget, -⟩⟩ := h none
    · cases hcap
    · rw [Server.target, Server.lookup_withEntry_none] at htarget
      simp at htarget

end Cmq

/-! ## All handlers -/

theorem Tag.ofNumber_ne_plain_create (n : Int) : Tag.ofNumber n ≠ some (.plain .create) := by
  unfold Tag.ofNumber
  split <;> simp

theorem Cmq.readTag_ne_plain_create {f : Frame} : Cmq.readTag f ≠ .ok (some (.plain .create)) := by
  intro h
  obtain ⟨text, -, h⟩ := Exec.bind_eq_ok.1 h
  exact Tag.ofNumber_ne_plain_create _ (Except.ok.inj h)

/-- When a request for a capability woof is turned away whatever the woof holds. -/
def HiddenWhen (hmac : Hmac) (srv : Server) (uri name : Bytes) :
    Transport → Tag → List Frame → Prop
  | .zmq, .plain op, frames => Zmq.Converts op frames
  | .zmq, .cap op, frames => op = .put → frames.length = 4
  | .cmq, .plain .latestSeqno, _ =>
    4096 ≤ name.length ∨ name = nsCapName ∨ CapOpensBeside srv name
  | .cmq, .plain .getTail, frames => Cmq.TailHidden srv name frames
  | .cmq, .plain op, frames => Cmq.Releases op frames
  | .cmq, .cap .latestSeqno, cap :: _ => Cmq.CapHidden hmac srv uri name cap
  | .cmq, .cap .getTail, cap :: frames =>
    Cmq.CapHidden hmac srv uri name cap ∨ frames.length = 1 ∧ name ≠ nsCapName ∧
      Cmq.CheckEnds hmac uri cap (Cmq.principalWoof srv (capName name))
        (Cmq.principalWoof srv nsCapName)
  | .cmq, .cap _, _ => True

variable {hmac : Hmac} {srv : Server} {uri name : Bytes} {op : Operation}

theorem Cmq.process_unguarded_refuses_iff {tag : Tag} {frames : List Frame}
    (hun : Cmq.Unguarded tag.operation) (hname : NamesCap .cmq srv.uriPath tag frames uri name) :
    (∀ entry,
        (Cmq.process hmac (srv.withEntry name entry) tag frames).Refuses .cmq tag.operation) ↔
      HiddenWhen hmac srv uri name .cmq tag frames := by
  obtain ⟨huri, hnamed, -⟩ := hname
  -- the name does not depend on the directory
  have hentry (entry : Option Entry) : NamedBy (srv.withEntry name entry).uriPath uri name :=
    hnamed
  cases tag with
  | plain op =>
    rcases frames with _ | ⟨f, rest⟩
    · cases huri
    have htext : Cmq.payloadText f = .ok uri := huri
    rcases hun with rfl | rfl
    · refine Iff.trans (forall_congr' fun entry => ?_) Cmq.latestSeqno_hidden_iff
      exact (Cmq.getLatestSeqno_refuses_iff rest htext (hentry entry)).trans (by simp)
    · refine Iff.trans (forall_congr' fun entry => ?_) Cmq.getTail_hidden_iff
      exact Cmq.getTail_refuses_iff htext (hentry entry)
  | cap op =>
    rcases frames with _ | ⟨cap, _ | ⟨f, rest⟩⟩
    · cases huri
    · cases huri
    have htext : Cmq.payloadText f = .ok uri := huri
    rcases hun with rfl | rfl
    · refine Iff.trans (forall_congr' fun entry => ?_) <|
        (Cmq.forall_authorize_iff (Or.inl rfl) htext hnamed rest
          fun entry => (srv.withEntry name entry).target name = none).trans
          Cmq.capHidden_or_iff
      refine (Cmq.run_refuses_iff rfl rfl).trans ?_
      refine exists_congr fun verdict => and_congr_right fun _ => or_congr_right ?_
      exact (Cmq.getLatestSeqno_refuses_iff rest htext (hentry entry)).trans (by simp)
    · refine Iff.trans (forall_congr' fun entry => ?_) <|
        (Cmq.forall_authorize_iff (Or.inr rfl) htext hnamed rest
          fun entry => Cmq.TailQuiet (srv.withEntry name entry) false name (f :: rest)).trans
          (or_congr_right (and_congr_left' Cmq.forall_tailQuiet_iff))
      refine (Cmq.run_refuses_iff rfl rfl).trans ?_
      refine exists_congr fun verdict => and_congr_right fun _ => or_congr_right ?_
      exact Cmq.getTail_refuses_iff htext (hentry entry)

theorem hiddenWhen_plain_of_guarded (h : ¬ Cmq.Unguarded op) (frames : List Frame) :
    HiddenWhen hmac srv uri name .cmq (.plain op) frames ↔ Cmq.Releases op frames := by
  cases op with
  | latestSeqno => exact absurd (Or.inl rfl) h
  | getTail => exact absurd (Or.inr rfl) h
  | _ => exact Iff.rfl

theorem hiddenWhen_cap_of_guarded (h : ¬ Cmq.Unguarded op) (frames : List Frame) :
    HiddenWhen hmac srv uri name .cmq (.cap op) frames := by
  cases op with
  | latestSeqno => exact absurd (Or.inl rfl) h
  | getTail => exact absurd (Or.inr rfl) h
  | _ => trivial

theorem hidden_iff_hiddenWhen {t : Transport} {hmac : Hmac} {srv : Server} {f : Frame}
    {tag : Tag} {frames : List Frame} {uri name : Bytes} (htag : t.readTag f = .ok (some tag))
    (hname : NamesCap t srv.uriPath tag frames uri name) :
    Hidden t hmac srv tag name (f :: frames) ↔ HiddenWhen hmac srv uri name t tag frames := by
  have hentry (entry : Option Entry) :
      NamesCap t (srv.withEntry name entry).uriPath tag frames uri name := hname
  have hconst {p : Prop} {o : Option Entry → Prop} (h : ∀ entry, o entry ↔ p) :
      (∀ entry, o entry) ↔ p :=
    ⟨fun ho => (h none).1 (ho none), fun hp entry => (h entry).2 hp⟩
  simp only [Hidden, Transport.serve_of_readTag htag frames]
  cases t with
  | zmq =>
    cases tag with
    | plain op => exact hconst fun entry => Zmq.process_plain_refuses_iff (hentry entry)
    | cap op => exact hconst fun entry => Zmq.process_cap_refuses_iff (hentry entry)
  | cmq =>
    by_cases hun : Cmq.Unguarded tag.operation
    · exact Cmq.process_unguarded_refuses_iff hun hname
    cases tag with
    | plain op =>
      have hop : op ≠ .create := by
        rintro rfl
        exact Cmq.readTag_ne_plain_create htag
      refine Iff.trans (hconst fun entry => ?_) (hiddenWhen_plain_of_guarded hun frames).symm
      exact Cmq.process_plain_refuses_iff_of_guarded hun hop (hentry entry)
    | cap op =>
      exact iff_of_true
        (fun entry => Cmq.process_cap_refuses_of_guarded hun (hentry entry))
        (hiddenWhen_cap_of_guarded hun frames)

def sampleCapUri : Bytes := Bytes.ofString "woof://h/data.CAP"

theorem namesCap_sampleCapUri (own ns : Option Wcap) :
    NamesCap .cmq (sampleServer own ns).uriPath (.plain .getTail)
      [textAt sampleCapUri, numberAt 1] sampleCapUri (Bytes.ofString "data.CAP") where
  text := by decide
  named := ⟨by decide, _, rfl, by decide, by decide⟩
  ending := by decide

/-- A capability woof of the namespace stands in the way of the tail handler. -/
theorem hidden_iff_hiddenWhen_namespace :
    Hidden .cmq (fun _ _ => 0) (sampleServer (some (principalCap 7)) (some (principalCap 4)))
      (.plain .getTail) (Bytes.ofString "data.CAP")
      [numberAt 4, textAt sampleCapUri, numberAt 1] := by
  refine (hidden_iff_hiddenWhen (by decide) (namesCap_sampleCapUri _ _)).2 ?_
  exact ⟨⟨Decimal.ofNat 1, by decide⟩, Or.inr ⟨by decide, fun h => by cases h⟩⟩

/-- Without it the secret itself is sent to whoever asks for the last element. -/
theorem tail_of_cap_woof_sent :
    (Transport.cmq.serve (fun _ _ => 0) (sampleServer (some (principalCap 7)) none)
        [numberAt 4, textAt sampleCapUri, numberAt 1]).replies =
      [[textFrame (Decimal.ofNat 1), (principalCap 7).bytes]] ∧
    ¬ Hidden .cmq (fun _ _ => 0) (sampleServer (some (principalCap 7)) none) (.plain .getTail)
        (Bytes.ofString "data.CAP") [numberAt 4, textAt sampleCapUri, numberAt 1] := by
  refine ⟨by decide, ?_⟩
  intro h
  have hreply := (h (some (.woof (sampleWoof (principalCap 7).bytes)))).replies
  exact absurd hreply (by decide)

end Cspot
