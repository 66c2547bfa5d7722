import Cspot.Net.Principals
import Cspot.Net.Soundness

/-!
# The level a put is checked at

The ZeroMQ server picks the level from the first four bytes at the pointer to the handler
name, and the handler to start from the whole extracted string.
-/

namespace Cspot

/-! ## Appends of a put -/

theorem replyPut_accesses {t : Transport} {srv : Server} {localName element : Bytes}
    {handName : Option Bytes}
    (h : (replyPut t srv localName handName element).accesses ≠ []) :
    ∃ file, (replyPut t srv localName handName element).accesses =
      [.append file handName element] := by
  obtain ⟨opened, hopen, hrest⟩ := Exec.exists_ok_of_serve_accesses h
  rw [replyPut, hopen, Exec.serve_ok]
  cases opened with
  | none => exact absurd rfl hrest
  | some entry =>
    obtain ⟨file, wf⟩ := entry
    refine ⟨file, ?_⟩
    cases happend : wooFAppendWithCause srv.globals wf handName element 0 0 <;>
      simp [happend, replyNumber]

theorem Zmq.wooFProcessPut_accesses {srv : Server} {name hand elem : Frame}
    (h : (Zmq.wooFProcessPut srv false [name, hand, elem]).accesses ≠ []) :
    ∃ file, (Zmq.wooFProcessPut srv false [name, hand, elem]).accesses =
      [.append file (Zmq.putHandler hand) elem.data] := by
  obtain ⟨err, herr, hrest⟩ := Exec.exists_ok_of_serve_accesses h
  simp only [Zmq.wooFProcessPut, guardName, herr, Exec.serve_ok]
  split at hrest
  · exact absurd rfl hrest
  · rename_i hgood
    obtain ⟨localName, hlocal, hrest⟩ := Exec.exists_ok_of_serve_accesses hrest
    rw [if_neg hgood, hlocal, Exec.serve_ok]
    cases localName with
    | none => exact absurd rfl hrest
    | some localName => exact replyPut_accesses hrest

/-! ## Requests for a put -/

/-- A put with a capability frame whose append would be made, against a woof protected by
at least one principal. -/
structure PutRequest (srv : Server) (name hand elem : Frame) (localName text : Bytes)
    (own ns : Option UInt64) : Prop where
  admitted : ∀ cap, Zmq.wooFProcessPutwithCAP.localName srv cap [name, hand, elem] =
    .ok (some localName)
  payload : Zmq.wooFProcessPutwithCAP.payload [name, hand, elem] = .ok (some text)
  appends : (Zmq.wooFProcessPut srv false [name, hand, elem]).accesses ≠ []
  ownCap : HoldsPrincipal (Zmq.openCap srv) (capName localName) own
  nsCap : HoldsPrincipal (Zmq.openCap srv) nsCapName ns
  isProtected : ¬ (own = none ∧ ns = none)

def StartsHandler (hmac : Hmac) (srv : Server) (cap name hand elem : Frame) : Prop :=
  ∃ file handName element, Access.append file (some handName) element ∈
    (Zmq.wooFProcessPutwithCAP.run hmac srv [cap, name, hand, elem]).accesses

/-- The signature of the text under the key of this level of one of the principals. -/
def SignsAt (hmac : Hmac) (own ns : Option UInt64) (perm : UInt32) (text : Bytes)
    (sig : UInt64) : Prop :=
  ∃ secret newCap, (own = some secret ∨ ns = some secret) ∧
    wooFCapAttenuate hmac (principalCap secret) perm = some newCap ∧
    sig = wooFCapSign hmac text newCap.check

/-- Starting a handler takes the level for it, and a signature for writing does not do,
under any hash whose signatures for writing and executing differ. -/
def HandlerNeedsExec (srv : Server) (name hand elem : Frame) (text : Bytes)
    (own ns : Option UInt64) : Prop :=
  ∀ hmac cap, StartsHandler hmac srv cap name hand elem →
    Zmq.wooFProcessPutwithCAP.needed [name, hand, elem] = wcapExec ∧
      ((∀ sig, ¬ (SignsAt hmac own ns wcapWrite text sig ∧ SignsAt hmac own ns wcapExec text sig)) →
        ∀ check, cap.check = .ok check → ¬ SignsAt hmac own ns wcapWrite text check)

section Levels

variable {srv : Server} {name hand elem : Frame} {localName text : Bytes}
  {own ns : Option UInt64}

theorem signsAt_of_sig {hmac : Hmac} {perm : UInt32} {secret : Option UInt64}
    (hperm : perm ≤ wcapPrincipal) (hof : ∀ s, secret = some s → own = some s ∨ ns = some s)
    (hsome : secret ≠ none) :
    SignsAt hmac own ns perm text ((derivedFrom hmac perm secret).sig hmac text) := by
  cases secret with
  | none => exact absurd rfl hsome
  | some s => exact ⟨s, _, hof s rfl, wooFCapAttenuate_principalCap hmac s hperm, rfl⟩

namespace PutRequest

variable (h : PutRequest srv name hand elem localName text own ns)

include h

theorem granted_iff (hmac : Hmac) (cap : Frame) :
    Zmq.wooFProcessPutwithCAP.check hmac srv localName [name, hand, elem] cap = .ok .granted ↔
      ∃ check, cap.check = .ok check ∧
        (check = (derivedFrom hmac (putNeeded hand.memory) own).sig hmac text ∨
          check = (derivedFrom hmac (putNeeded hand.memory) ns).sig hmac text) :=
  capCheck_granted_iff_of_holds h.ownCap h.nsCap h.isProtected (putNeeded_le _) h.payload hmac cap

theorem protects : Zmq.wooFProcessPutwithCAP.Protects srv localName := by
  cases hown : own with
  | some secret =>
    obtain ⟨wf, after, hopen, -⟩ := hown ▸ h.ownCap
    exact Or.inl ⟨wf, hopen⟩
  | none =>
    cases hns : ns with
    | some secret =>
      obtain ⟨wf, after, hopen, -⟩ := hns ▸ h.nsCap
      exact Or.inr ⟨wf, hopen⟩
    | none => exact absurd ⟨hown, hns⟩ h.isProtected

theorem startsHandler_iff (hmac : Hmac) (cap : Frame) :
    StartsHandler hmac srv cap name hand elem ↔ Zmq.putHandler hand ≠ none ∧
      Zmq.wooFProcessPutwithCAP.check hmac srv localName [name, hand, elem] cap =
        .ok .granted := by
  obtain ⟨file, haccess⟩ := Zmq.wooFProcessPut_accesses h.appends
  constructor
  · rintro ⟨file', handName, element, hmem⟩
    obtain ⟨used, hused, hcheck⟩ := CapHandler.run_accesses (List.ne_nil_of_mem hmem)
    obtain rfl : localName = used := by
      rw [h.admitted cap] at hused
      exact Option.some.inj (Except.ok.inj hused)
    rcases hcheck with hcheck | hcheck
    · exact absurd hcheck (CapHandler.not_unprotected_of_protects h.protects)
    · rw [CapHandler.run_of_granted hused hcheck] at hmem
      have hmem : Access.append file' (some handName) element ∈
        (Zmq.wooFProcessPut srv false [name, hand, elem]).accesses := hmem
      rw [haccess, List.mem_singleton] at hmem
      cases hhand : Zmq.putHandler hand with
      | none => simp [hhand] at hmem
      | some _ => exact ⟨by simp, hcheck⟩
  · rintro ⟨hhand, hcheck⟩
    obtain ⟨handName, hhand⟩ := Option.ne_none_iff_exists'.1 hhand
    refine ⟨file, handName, elem.data, ?_⟩
    rw [CapHandler.run_of_granted (h.admitted cap) hcheck]
    have hmem : Access.append file (some handName) elem.data ∈
        (Zmq.wooFProcessPut srv false [name, hand, elem]).accesses := by
      simp [haccess, hhand]
    exact hmem

end PutRequest

theorem exists_hash_write_zero (secret : UInt64) :
    ∃ f : UInt64 → UInt64, f (f^[3] secret) ≠ 0 ∧ f (f^[4] secret) = 0 := by
  by_cases hzero : secret = 0
  · subst hzero
    exact ⟨fun key => if key = 4 then 0 else key + 1, by decide, by decide⟩
  · refine ⟨fun key => if key = secret then 0 else secret, ?_, ?_⟩
    · simp [Function.iterate_succ_apply, Ne.symm hzero, hzero]
    · simp [Function.iterate_succ_apply, Ne.symm hzero]

theorem signsAt_iff_of_one {secret : UInt64}
    (hone : own = some secret ∧ ns = none ∨ own = none ∧ ns = some secret)
    (f : UInt64 → UInt64) {perm : UInt32} (hperm : perm ≤ wcapPrincipal) (sig : UInt64) :
    SignsAt (fun key _ => f key) own ns perm text sig ↔
      sig = f (f^[permLevels - permLevel perm] secret) := by
  have hcheck := principalAt_check_iterate f secret (Nat.min_le_left permLevels perm.toNat.size)
  have hatt := wooFCapAttenuate_principalCap (fun key _ => f key) secret hperm
  constructor
  · rintro ⟨s, newCap, hs, hnew, rfl⟩
    obtain rfl : s = secret := by
      rcases hone with ⟨rfl, rfl⟩ | ⟨rfl, rfl⟩ <;> simpa [eq_comm] using hs
    rw [hatt] at hnew
    cases hnew
    exact congrArg f hcheck
  · rintro rfl
    refine ⟨secret, _, ?_, hatt, (congrArg f hcheck).symm⟩
    rcases hone with ⟨rfl, rfl⟩ | ⟨rfl, rfl⟩ <;> simp

def zeroCap : Frame := ⟨(Wcap.mk 0 0 0 0).bytes, []⟩

theorem zeroCap_check : zeroCap.check = .ok 0 := Frame.check_bytes ⟨0, 0, 0, 0⟩ []

section

variable (h : PutRequest srv name hand elem localName text own ns)
include h

theorem not_handlerNeedsExec_of_one (hhand : Zmq.putHandler hand ≠ none) {secret : UInt64}
    (hone : own = some secret ∧ ns = none ∨ own = none ∧ ns = some secret) :
    ¬ HandlerNeedsExec srv name hand elem text own ns := by
  obtain ⟨f, hexec, hwrite⟩ := exists_hash_write_zero secret
  have hsigns : ∀ perm ≤ wcapPrincipal, ∀ sig, SignsAt (fun key _ => f key) own ns perm text sig ↔
      sig = f (f^[permLevels - permLevel perm] secret) :=
    fun _ hperm => signsAt_iff_of_one hone f hperm
  intro hneeds
  -- the missing principal leaves a zero, and zero is the signature for writing
  have hgranted := (h.granted_iff (fun key _ => f key) zeroCap).2 ⟨0, zeroCap_check, by
    rcases hone with ⟨-, rfl⟩ | ⟨rfl, -⟩
    · exact Or.inr rfl
    · exact Or.inl rfl⟩
  obtain ⟨-, hnot⟩ := hneeds _ zeroCap ((h.startsHandler_iff _ _).2 ⟨hhand, hgranted⟩)
  refine hnot ?_ 0 zeroCap_check ((hsigns wcapWrite (by decide) 0).2 hwrite.symm)
  rintro sig ⟨hw, he⟩
  rw [hsigns wcapWrite (by decide)] at hw
  rw [hsigns wcapExec (by decide)] at he
  exact hexec (he.symm.trans (hw.trans hwrite))

/-- A name that starts like the placeholder is checked as if it were the placeholder. -/
theorem not_handlerNeedsExec_of_prefix (hhand : Zmq.putHandler hand ≠ none)
    (hpre : nullName.isPrefixOf hand.memory = true) :
    ¬ HandlerNeedsExec srv name hand elem text own ns := by
  intro hneeds
  have hgranted := (h.granted_iff (fun _ _ => 0) zeroCap).2 ⟨0, zeroCap_check, Or.inl (by
    cases own <;> rfl)⟩
  obtain ⟨hexec, -⟩ := hneeds _ zeroCap ((h.startsHandler_iff _ _).2 ⟨hhand, hgranted⟩)
  have hwrite : putNeeded hand.memory = wcapWrite := if_pos hpre
  exact absurd (hwrite.symm.trans hexec) (by decide)

theorem handlerNeedsExec_of_both (hpre : nullName.isPrefixOf hand.memory = false)
    (hown : own ≠ none) (hns : ns ≠ none) :
    HandlerNeedsExec srv name hand elem text own ns := by
  intro hmac cap hstarts
  obtain ⟨-, hgranted⟩ := (h.startsHandler_iff hmac cap).1 hstarts
  have hneeded : putNeeded hand.memory = wcapExec := if_neg (by simp [hpre])
  refine ⟨hneeded, fun hdistinct check hcheck hwrite => hdistinct check ⟨hwrite, ?_⟩⟩
  obtain ⟨check', hcheck', hsig⟩ := (h.granted_iff hmac cap).1 hgranted
  obtain rfl : check' = check := Except.ok.inj (hcheck'.symm.trans hcheck)
  rw [hneeded] at hsig
  rcases hsig with rfl | rfl
  · exact signsAt_of_sig (by decide) (fun s hs => Or.inl hs) hown
  · exact signsAt_of_sig (by decide) (fun s hs => Or.inr hs) hns

end

theorem handlerNeedsExec_iff (h : PutRequest srv name hand elem localName text own ns) :
    HandlerNeedsExec srv name hand elem text own ns ↔
      Zmq.putHandler hand = none ∨
        nullName.isPrefixOf hand.memory = false ∧ own ≠ none ∧ ns ≠ none := by
  constructor
  · intro hneeds
    by_contra hcond
    obtain ⟨hhand, hrest⟩ := not_or.1 hcond
    cases hpre : nullName.isPrefixOf hand.memory with
    | true => exact not_handlerNeedsExec_of_prefix h hhand hpre hneeds
    | false =>
      cases hown : own with
      | none =>
        obtain ⟨secret, hns⟩ := Option.ne_none_iff_exists'.1 fun hns =>
          h.isProtected ⟨hown, hns⟩
        exact not_handlerNeedsExec_of_one h hhand (Or.inr ⟨hown, hns⟩) hneeds
      | some secret =>
        cases hns : ns with
        | none => exact not_handlerNeedsExec_of_one h hhand (Or.inl ⟨hown, hns⟩) hneeds
        | some _ => exact hrest ⟨hpre, by simp [hown], by simp [hns]⟩
  · rintro (hhand | ⟨hpre, hown, hns⟩)
    · intro hmac cap hstarts
      exact absurd hhand ((h.startsHandler_iff hmac cap).1 hstarts).1
    · exact handlerNeedsExec_of_both h hpre hown hns

end Levels

/-- Both woofs there, and a handler whose name does not look like the placeholder. -/
theorem handlerNeedsExec_iff_run :
    HandlerNeedsExec (sampleServer (some (principalCap 9)) (some (principalCap 4)))
      (textAt sampleUri) (textAt (Bytes.ofString "run")) ⟨[5], []⟩
      (sampleUri ++ Bytes.ofString "run" ++ [5]) (some 9) (some 4) := by
  have hrequest : PutRequest (sampleServer (some (principalCap 9)) (some (principalCap 4)))
      (textAt sampleUri) (textAt (Bytes.ofString "run")) ⟨[5], []⟩ (Bytes.ofString "data")
      (sampleUri ++ Bytes.ofString "run" ++ [5]) (some 9) (some 4) :=
    { admitted := fun _ => by rfl
      payload := by decide
      appends := by decide
      ownCap := ⟨_, _, rfl, wooFReadWithCause_sampleWoof _⟩
      nsCap := ⟨_, _, rfl, wooFReadWithCause_sampleWoof _⟩
      isProtected := by simp }
  exact (handlerNeedsExec_iff hrequest).2 (Or.inr (by decide))

/-- The handler `NULLx` is started by a request signed for writing only. -/
theorem nullx_put_starts_handler :
    (Zmq.wooFProcessPutwithCAP.run (fun key _ => key + 1)
        (sampleServer (some (principalCap 9)) (some (principalCap 4)))
        [capAt ⟨wcapWrite, 0, 0, 14⟩, textAt sampleUri, textAt (Bytes.ofString "NULLx"),
          ⟨[5], []⟩]).accesses =
      [.append (Bytes.ofString "data") (some (Bytes.ofString "NULLx")) [5]] ∧
    SignsAt (fun key _ => key + 1) (some 9) (some 4) wcapWrite
      (sampleUri ++ Bytes.ofString "NULLx" ++ [5]) 14 ∧
    ¬ HandlerNeedsExec (sampleServer (some (principalCap 9)) (some (principalCap 4)))
      (textAt sampleUri) (textAt (Bytes.ofString "NULLx")) ⟨[5], []⟩
      (sampleUri ++ Bytes.ofString "NULLx" ++ [5]) (some 9) (some 4) := by
  have hrun : (Zmq.wooFProcessPutwithCAP.run (fun key _ => key + 1)
      (sampleServer (some (principalCap 9)) (some (principalCap 4)))
      [capAt ⟨wcapWrite, 0, 0, 14⟩, textAt sampleUri, textAt (Bytes.ofString "NULLx"),
        ⟨[5], []⟩]).accesses =
      [.append (Bytes.ofString "data") (some (Bytes.ofString "NULLx")) [5]] := by decide
  refine ⟨hrun, ⟨9, ⟨3, 0, 0, 13⟩, Or.inl rfl, by decide, by decide⟩, fun hneeds => ?_⟩
  obtain ⟨hexec, -⟩ := hneeds _ _ ⟨_, _, _, hrun ▸ List.mem_singleton_self _⟩
  exact absurd hexec (by decide)

end Cspot
