import Cspot.Net.Routes
import Cspot.Net.UriParts

/-!
# The guard of the names

A request without a capability is turned away by its name when the name is that of a
capability woof.  Any other request should be answered as a call on the server itself would
be, by `WooFGet` or `WooFPut` of the local name.
-/

namespace Cspot

/-! ## The local calls -/

/-- `WooFGet` of a local name, none for the result -1. -/
def Server.wooFGet (srv : Server) (name : Bytes) (seqNo : Nat) :
    Exec (Option Bytes × Server) := do
  match ← wooFOpen srv name with
  | none => return (none, srv)
  | some (file, wf) =>
    let (element, wf) ← wooFReadWithCause wf seqNo
    return (element, srv.store file wf)

/-- `WooFPut` of a local name; the cause is the process that calls it. -/
def Server.wooFPut (srv : Server) (name : Bytes) (handler : Option Bytes) (element : Bytes) :
    Exec (Nat × Server) := do
  match ← wooFOpen srv name with
  | none => return (Word.allOnes, srv)
  | some (file, wf) =>
    let (seqNo, globals, wf) ← wooFAppendWithCause srv.globals wf handler element
      srv.globals.nameId srv.globals.myLogSeqNo
    return (seqNo, { srv with globals := globals }.store file wf)

/-! ## Logs without their causes -/

def Event.eraseCause (event : Event) : Event := eventSetCause event 0 0

def Log.eraseCauses (log : Log) : Log :=
  { log with events := fun i => (log.events i).map Event.eraseCause }

def Globals.eraseCauses (g : Globals) : Globals := { g with nameLog := g.nameLog.eraseCauses }

def Server.eraseCauses (srv : Server) : Server := { srv with globals := srv.globals.eraseCauses }

theorem Exec.map_bind_congr {α β γ δ : Type} {x y : Exec α} {f : α → γ} {k : α → Exec β}
    {h : β → δ} (hxy : x.map f = y.map f)
    (hk : ∀ a b, f a = f b → (k a).map h = (k b).map h) : (x >>= k).map h = (y >>= k).map h := by
  cases x with
  | error s =>
    cases y with
    | error s' =>
      cases hxy
      rfl
    | ok b => cases hxy
  | ok a =>
    cases y with
    | error s' => cases hxy
    | ok b => exact hk a b (Except.ok.inj hxy)

variable {event event' : Event} {name woofName : Bytes} {uriPath : UriPath}

theorem logAdd_eraseCauses (h : event.eraseCause = event'.eraseCause) (log : Log) :
    (logAdd log event).map Log.eraseCauses = (logAdd log event').map Log.eraseCauses := by
  have hupdate (next : Nat) :
      (fun i => (Function.update log.events next (some event) i).map Event.eraseCause) =
        fun i => (Function.update log.events next (some event') i).map Event.eraseCause := by
    funext i
    by_cases hi : i = next
    · rw [hi, Function.update_self, Function.update_self, Option.map_some, Option.map_some, h]
    · rw [Function.update_of_ne hi, Function.update_of_ne hi]
  unfold logAdd
  cases remU (Word.add log.head 1) log.size with
  | error s => rfl
  | ok next =>
    by_cases htail : next = log.tail
    · cases remU (Word.add log.tail 1) log.size with
      | error s => simp [htail, Except.map]
      | ok tail => simp [htail, Except.map, Log.eraseCauses, ← hupdate]
    · simp [htail, Except.map, Log.eraseCauses, hupdate]

theorem logEvent_eraseCauses (h : event.eraseCause = event'.eraseCause) (log : Log) :
    (logEvent log event).map (fun (ls, log) => (ls, log.eraseCauses)) =
      (logEvent log event').map (fun (ls, log) => (ls, log.eraseCauses)) := by
  have hnumbered : ({ event with seqNo := log.seqNo } : Event).eraseCause =
      ({ event' with seqNo := log.seqNo } : Event).eraseCause := by
    simp only [Event.eraseCause, eventSetCause, Event.mk.injEq] at h ⊢
    simp [h]
  unfold logEvent
  cases semP log.mutex with
  | error s => rfl
  | ok mutex =>
    refine Exec.map_bind_congr (logAdd_eraseCauses hnumbered _) fun added added' hadded => ?_
    simp only [Log.eraseCauses, Log.mk.injEq] at hadded
    simp [Except.map, Log.eraseCauses, hadded]

theorem wooFAppendWithCause_eraseCauses (g : Globals) (wf : WooF) (handName : Option Bytes)
    (element : Bytes) (causeHost causeSeqNo causeHost' causeSeqNo' : Nat) :
    (wooFAppendWithCause g wf handName element causeHost causeSeqNo).map
        (fun (seqNo, g, wf) => (seqNo, g.eraseCauses, wf)) =
      (wooFAppendWithCause g wf handName element causeHost' causeSeqNo').map
        (fun (seqNo, g, wf) => (seqNo, g.eraseCauses, wf)) := by
  unfold wooFAppendWithCause
  cases wooFPlaceElement advanceTailWrapping wf element with
  | error s => rfl
  | ok placed =>
    obtain ⟨ndx, wf'⟩ := placed
    cases handName with
    | none => rfl
    | some handler =>
      have hevents : (triggerEvent g wf' handler ndx wf.seqNo causeHost causeSeqNo).eraseCause =
          (triggerEvent g wf' handler ndx wf.seqNo causeHost' causeSeqNo').eraseCause := rfl
      refine Exec.map_bind_congr (logEvent_eraseCauses hevents g.nameLog) ?_
      intro logged logged' hlogged
      obtain ⟨hls, hlog⟩ := Prod.mk.inj hlogged
      simp only [hls]
      split
      · rfl
      · simp only [Log.eraseCauses, Log.mk.injEq] at hlog
        simp [Except.map, Globals.eraseCauses, Globals.wakeForker, Log.eraseCauses, hlog]

/-! ## The guard -/

/-- The test on which the handlers turn a request away. -/
def GuardRefuses (uriPath : UriPath) (woofName : Bytes) : Prop :=
  ∃ err, wooFIsCAPName uriPath woofName = .ok err ∧ (err = 1 ∨ err < 0)

def EndsInCap (name : Bytes) : Prop :=
  Bytes.ofString ".CAP" <:+ name ∨ Bytes.ofString ".cap" <:+ name

theorem endsInCap_eq_true_iff : endsInCap name = true ↔ EndsInCap name := by
  simp only [endsInCap, EndsInCap, Bool.or_eq_true, decide_eq_true_eq, List.suffix_iff_eq_drop]
  exact or_congr eq_comm eq_comm

theorem EndsInCap.length_le (h : EndsInCap name) : 4 ≤ name.length :=
  h.elim (fun hend => hend.length_le) fun hend => hend.length_le

/-- A name too short for the ending is turned away as well. -/
theorem guardRefuses_iff (h : NamedBy uriPath woofName name) (hfits : name.length < 1024) :
    GuardRefuses uriPath woofName ↔ name.length < 4 ∨ EndsInCap name := by
  rw [← endsInCap_eq_true_iff]
  by_cases hshort : name.length < 4
  · have herr : wooFIsCAPName uriPath woofName = .ok (-1) := by
      have hlen : name.length < 4096 := by omega
      simp [wooFIsCAPName, h.nameFromURI, hlen, hshort]
    exact iff_of_true ⟨-1, herr, .inr (by decide)⟩ (.inl hshort)
  · cases hcap : endsInCap name with
    | true => exact iff_of_true (h.isCAPName_of_endsInCap hcap) (.inr rfl)
    | false =>
      have hzero := h.isCAPName_eq_zero (by omega) (by omega) hcap
      refine iff_of_false ?_ (by simp [hshort])
      rintro ⟨err, herr, hbad⟩
      rw [hzero] at herr
      cases herr
      rcases hbad with hone | hneg
      · cases hone
      · exact absurd hneg (by decide)

/-! ## Requests answered as local calls -/

structure InNamespace (uriPath : UriPath) (woofName ns name : Bytes) : Prop where
  woofName_ne_zero : ∀ b ∈ woofName, b ≠ 0
  valid : wooFValidURI woofName = true
  path : uriPath woofName = some (ns ++ slash :: name)
  ns_ne_nil : ns ≠ []
  name_ne_nil : name ≠ []
  slash_notMem : slash ∉ name
  fits : name.length < 1024

theorem InNamespace.named {ns : Bytes} (h : InNamespace uriPath woofName ns name) :
    NamedBy uriPath woofName name where
  valid := h.valid
  path := ⟨_, h.path, by simp, lastComponent_append_cons ns h.slash_notMem⟩

def Outcome.ServesGet (o : Outcome) : Exec (Option Bytes × Server) → Prop
  | .ok (element, srv) => o.replies = [[element.getD []]] ∧ o.stop = none ∧ o.server = srv
  | .error s => o.replies = [] ∧ o.stop = some s

/-- The same for a put, but for the cause in the log: a request does not name one. -/
def Outcome.ServesPut (o : Outcome) : Exec (Nat × Server) → Prop
  | .ok (seqNo, srv) => o.replies = [[textFrame (Decimal.ofNat seqNo)]] ∧ o.stop = none ∧
      o.server.eraseCauses = srv.eraseCauses
  | .error s => o.replies = [] ∧ o.stop = some s

/-- The guard turns away the names of capability woofs, and requests for the other woofs are
answered as the local calls would be. -/
structure NameGuardExact (srv : Server) (woofName name : Bytes) : Prop where
  refuses : GuardRefuses srv.uriPath woofName ↔ EndsInCap name
  turnedAway : EndsInCap name → ∀ nameFrame, Bytes.cstr nameFrame.data = woofName →
    (∀ seqNoFrame seqNo, Decimal.stoull (Bytes.cstr seqNoFrame.data) = some seqNo →
      Zmq.wooFProcessGet srv true [nameFrame, seqNoFrame] = .reply srv sendNull) ∧
    ∀ hand elem, Zmq.wooFProcessPut srv true [nameFrame, hand, elem] =
      .reply srv (sendErr .zmq srv)
  get : ¬ EndsInCap name → ∀ wf, srv.dir name = some (.woof wf) → ∀ nameFrame seqNoFrame seqNo,
    Bytes.cstr nameFrame.data = woofName →
    Decimal.stoull (Bytes.cstr seqNoFrame.data) = some seqNo →
    (Zmq.wooFProcessGet srv true [nameFrame, seqNoFrame]).ServesGet (srv.wooFGet name seqNo)
  put : ¬ EndsInCap name → ∀ wf, srv.dir name = some (.woof wf) → ∀ nameFrame hand elem,
    Bytes.cstr nameFrame.data = woofName →
    (Zmq.wooFProcessPut srv true [nameFrame, hand, elem]).ServesPut
      (srv.wooFPut name (Zmq.putHandler hand) elem.data)

section Served

variable {srv : Server} {name : Bytes} {wf : WooF}

theorem replyElement_servesGet (hslash : slash ∉ name) (hwoof : srv.dir name = some (.woof wf))
    (hsize : wf.elementSize ≤ srv.maxAlloc) (seqNo : Nat) :
    (Zmq.replyElement srv seqNo (srv.lookup name)).ServesGet (srv.wooFGet name seqNo) := by
  have hlookup : srv.lookup name = some (name, wf) := by rw [Server.lookup, hwoof]
  have hfits : ¬ wf.elementSize > srv.maxAlloc := by omega
  rw [Server.wooFGet, wooFOpen_of_slash_notMem hslash, hlookup, Exec.ok_bind]
  cases hread : wooFReadWithCause wf seqNo with
  | error s =>
    simp [Zmq.replyElement, hfits, hread, Outcome.ServesGet, Outcome.access, Outcome.halt]
  | ok result =>
    obtain ⟨element, wf'⟩ := result
    simp [Zmq.replyElement, hfits, hread, Outcome.ServesGet, Outcome.access, Outcome.reply]

theorem Exec.bind_ne_error {α β : Type} {x : Exec α} {k : α → Exec β} {s : Stop}
    (hx : x ≠ .error s) (hk : ∀ a, k a ≠ .error s) : (x >>= k) ≠ .error s := by
  cases x with
  | error s' => exact fun h => hx (congrArg _ (Except.error.inj h))
  | ok a => exact hk a

theorem wooFReadWithCause_ne_exception (wf : WooF) (seqNo : Nat) :
    wooFReadWithCause wf seqNo ≠ .error .exception := by
  refine Exec.bind_ne_error ?_ fun mutex => Exec.bind_ne_error ?_ fun ndx => ?_
  · unfold semP
    split <;> simp
  · unfold wooFReadNdx
    split
    · simp
    generalize (if seqNo = 0 then _ else _) = lSeqNo
    dsimp only
    split
    · simp
    refine Exec.bind_ne_error ?_ fun ndx => by simp
    unfold remU
    split <;> simp
  · cases ndx <;> simp

theorem not_servesGet_exception (hslash : slash ∉ name) (hwoof : srv.dir name = some (.woof wf))
    (seqNo : Nat) :
    ¬ (Outcome.halt srv .exception).ServesGet (srv.wooFGet name seqNo) := by
  have hlookup : srv.lookup name = some (name, wf) := by rw [Server.lookup, hwoof]
  simp only [Server.wooFGet, wooFOpen_of_slash_notMem hslash, hlookup, Exec.ok_bind]
  cases hread : wooFReadWithCause wf seqNo with
  | error s =>
    intro h
    cases h.2
    exact wooFReadWithCause_ne_exception wf seqNo hread
  | ok result =>
    intro h
    cases h.1

theorem replyPut_servesPut (hslash : slash ∉ name) (hwoof : srv.dir name = some (.woof wf))
    (handler : Option Bytes) (element : Bytes) :
    (replyPut .zmq srv name handler element).ServesPut (srv.wooFPut name handler element) := by
  have hlookup : srv.lookup name = some (name, wf) := by rw [Server.lookup, hwoof]
  have hcauses := wooFAppendWithCause_eraseCauses srv.globals wf handler element 0 0
    srv.globals.nameId srv.globals.myLogSeqNo
  simp only [replyPut, Server.wooFPut, wooFOpen_of_slash_notMem hslash, hlookup, Exec.ok_bind,
    Exec.serve_ok]
  generalize wooFAppendWithCause srv.globals wf handler element 0 0 = remote at hcauses
  generalize wooFAppendWithCause srv.globals wf handler element srv.globals.nameId
    srv.globals.myLogSeqNo = here at hcauses
  cases remote with
  | error s =>
    cases here with
    | error s' =>
      cases hcauses
      exact ⟨rfl, rfl⟩
    | ok result => cases hcauses
  | ok remote =>
    cases here with
    | error s' => cases hcauses
    | ok result =>
      obtain ⟨seqNo, globals, wf'⟩ := remote
      obtain ⟨seqNo', globals', wf''⟩ := result
      obtain ⟨rfl, hglobals, rfl⟩ : seqNo = seqNo' ∧
          globals.eraseCauses = globals'.eraseCauses ∧ wf' = wf'' := by
        simpa [Except.map] using hcauses
      refine ⟨rfl, rfl, ?_⟩
      simp [Outcome.access, replyNumber, Outcome.reply, Server.eraseCauses, Server.store,
        hglobals]

end Served

section Reads

variable {srv : Server} {woofName name : Bytes} {nameFrame seqNoFrame : Frame} {seqNo : Nat}
  (hname : Bytes.cstr nameFrame.data = woofName)
  (hseqNo : Decimal.stoull (Bytes.cstr seqNoFrame.data) = some seqNo)
  (hguard : ∀ refuse k, guardName srv woofName refuse k = k (some name))

include hname hseqNo hguard

theorem Zmq.wooFProcessGet_of_long (hlong : ¬ (capName name).length ≤ 255) :
    Zmq.wooFProcessGet srv true [nameFrame, seqNoFrame] = .halt srv .exception := by
  simp [Zmq.wooFProcessGet, hname, hseqNo, hguard, Zmq.unlessCap, srv.exists_eq_error hlong]

theorem Zmq.wooFProcessGet_of_uncapped (hcap : Transport.zmq.Uncapped srv name)
    (hslash : slash ∉ name) :
    Zmq.wooFProcessGet srv true [nameFrame, seqNoFrame] =
      Zmq.replyElement srv seqNo (srv.lookup name) := by
  simp [Zmq.wooFProcessGet, hname, hseqNo, hguard, Zmq.unlessCap_of_uncapped fun _ => hcap,
    openNamed, wooFOpen_of_slash_notMem hslash]

end Reads

/-- For a URI in a namespace, on a server without capability woofs for it, the guard is exact
exactly if the name is not shorter than the ending it looks for, and a woof under it can be
asked for: with the ending the name is one of a file, and there is a buffer for an element. -/
theorem nameGuardExact_iff {srv : Server} {woofName ns name : Bytes}
    (h : InNamespace srv.uriPath woofName ns name) (hcap : srv.dir (capName name) = none)
    (hns : srv.dir nsCapName = none) :
    NameGuardExact srv woofName name ↔ 4 ≤ name.length ∧
      (¬ EndsInCap name → ∀ wf, srv.dir name = some (.woof wf) →
        (capName name).length ≤ 255 ∧ wf.elementSize ≤ srv.maxAlloc) := by
  have hguard (hlong : 4 ≤ name.length) (hend : ¬ EndsInCap name) (refuse : Outcome)
      (k : Option Bytes → Outcome) : guardName srv woofName refuse k = k (some name) := by
    have hending : endsInCap name = false := by
      rwa [← Bool.not_eq_true, endsInCap_eq_true_iff]
    have hfits := h.fits
    simp [guardName, h.named.isCAPName_eq_zero (by omega) hlong hending, h.named.localName,
      fileName, hfits]
  have huncapped (hfits : (capName name).length ≤ 255) : Transport.zmq.Uncapped srv name :=
    ⟨by simp [srv.exists_eq_ok hfits, hcap],
      by simp [srv.exists_eq_ok (show nsCapName.length ≤ 255 by decide), hns]⟩
  constructor
  · intro hexact
    have hlong : 4 ≤ name.length := by
      by_contra hshort
      have hrefused := (guardRefuses_iff h.named h.fits).2 (.inl (by omega))
      exact hshort (hexact.refuses.1 hrefused).length_le
    refine ⟨hlong, fun hend wf hwoof => ?_⟩
    -- the first element of the woof is asked for
    have hname : Bytes.cstr (textAt woofName).data = woofName :=
      Frame.cstr_of_text rfl h.woofName_ne_zero
    have hseqNo : Decimal.stoull (Bytes.cstr (numberAt 1).data) = some 1 := by decide
    have hserves := hexact.get hend wf hwoof (textAt woofName) (numberAt 1) 1 hname hseqNo
    have hthrows := not_servesGet_exception h.slash_notMem hwoof 1
    by_cases hfits : (capName name).length ≤ 255
    · refine ⟨hfits, ?_⟩
      by_contra hsize
      have hlarge : wf.elementSize > srv.maxAlloc := by omega
      rw [Zmq.wooFProcessGet_of_uncapped hname hseqNo (hguard hlong hend) (huncapped hfits)
        h.slash_notMem, Server.lookup, hwoof, Zmq.replyElement, if_pos hlarge] at hserves
      exact hthrows hserves
    · rw [Zmq.wooFProcessGet_of_long hname hseqNo (hguard hlong hend) hfits] at hserves
      exact absurd hserves hthrows
  · rintro ⟨hlong, hservable⟩
    refine ⟨?_, ?_, ?_, ?_⟩
    · rw [guardRefuses_iff h.named h.fits]
      exact or_iff_right (by omega)
    · intro hend nameFrame hname
      have hrefuse := guardName_of_endsInCap h.named (endsInCap_eq_true_iff.2 hend)
      refine ⟨fun seqNoFrame seqNo hseqNo => ?_, fun hand elem => ?_⟩
      · simp [Zmq.wooFProcessGet, hname, hseqNo, hrefuse]
      · simp [Zmq.wooFProcessPut, hname, hrefuse]
    · intro hend wf hwoof nameFrame seqNoFrame seqNo hname hseqNo
      obtain ⟨hfits, hsize⟩ := hservable hend wf hwoof
      rw [Zmq.wooFProcessGet_of_uncapped hname hseqNo (hguard hlong hend) (huncapped hfits)
        h.slash_notMem]
      exact replyElement_servesGet h.slash_notMem hwoof hsize seqNo
    · intro hend wf hwoof nameFrame hand elem hname
      have hnocap (err : Reply) (k : Outcome) : Zmq.unlessCap srv true (some name) err k = k :=
        Zmq.unlessCap_of_uncapped (fun _ => huncapped (hservable hend wf hwoof).1) err k
      simp only [Zmq.wooFProcessPut, hname, hguard hlong hend, hnocap]
      exact replyPut_servesPut h.slash_notMem hwoof _ _

def oneWoofServer (name : Bytes) : Server :=
  { sampleServer none none with
    uriPath := samplePath
    dir := fun n => if n = name then some (.woof (sampleWoof [1, 2])) else none }

theorem nameGuardExact_data :
    NameGuardExact (oneWoofServer (Bytes.ofString "data")) (Bytes.ofString "woof://h/ns/data")
      (Bytes.ofString "data") := by
  have huri : InNamespace samplePath (Bytes.ofString "woof://h/ns/data") (Bytes.ofString "/ns")
      (Bytes.ofString "data") :=
    ⟨Bytes.ne_zero_of_notMem (by decide), by decide, by rfl, by decide, by decide, by decide,
      by decide⟩
  have hcap :
      (oneWoofServer (Bytes.ofString "data")).dir (capName (Bytes.ofString "data")) = none := by
    rfl
  have hns : (oneWoofServer (Bytes.ofString "data")).dir nsCapName = none := by rfl
  refine (nameGuardExact_iff huri hcap hns).2 ⟨by decide, fun _ wf hwoof => ⟨by decide, ?_⟩⟩
  cases hwoof
  decide

/-- A woof with a name of three letters can be read by `WooFGet` and not by a request. -/
theorem short_name_refused :
    GuardRefuses samplePath (Bytes.ofString "woof://h/ns/abc") ∧
      ¬ EndsInCap (Bytes.ofString "abc") ∧
      ¬ NameGuardExact (oneWoofServer (Bytes.ofString "abc")) (Bytes.ofString "woof://h/ns/abc")
        (Bytes.ofString "abc") := by
  have hrefuses : GuardRefuses samplePath (Bytes.ofString "woof://h/ns/abc") :=
    ⟨-1, by rfl, .inr (by decide)⟩
  have hend : ¬ EndsInCap (Bytes.ofString "abc") := fun h => absurd h.length_le (by decide)
  exact ⟨hrefuses, hend, fun h => hend (h.refuses.1 hrefuses)⟩

end Cspot
