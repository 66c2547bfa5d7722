import Cspot.Net.Replies

/-!
# What a remote create reports

The handler of a create answers a refusal with a string in a frame, and a creation with
another one, whether it worked or not.  The client takes every frame that is not empty for
a success.
-/

namespace Cspot

/-! ## Reports -/

/-- `remote_create` on the reply to a request: negative when there is none. -/
def Outcome.createResult (o : Outcome) : Int := Cmq.createReply o.replies.head?

/-- The handler called `WooFCreate`, and the call succeeded. -/
def Outcome.Creates (o : Outcome) (srv : Server) : Prop :=
  ∃ wname elSize history, .create wname elSize history ∈ o.accesses ∧
    srv.creates wname elSize history = true

def CreateTold (srv : Server) (o : Outcome) : Prop := 0 ≤ o.createResult ↔ o.Creates srv

namespace Outcome

theorem not_creates_reply (srv : Server) (r : Reply) : ¬ (reply srv r).Creates srv := by
  rintro ⟨wname, elSize, history, hmem, -⟩
  cases hmem

theorem not_createTold_sendErr (t : Transport) (srv : Server) :
    ¬ CreateTold srv (reply srv (sendErr t srv)) := by
  intro h
  have hnonneg : 0 ≤ (reply srv (sendErr t srv)).createResult := by
    have hframe (text : Bytes) : textFrame text ≠ [] := by simp [textFrame]
    simp [createResult, reply, sendErr, Cmq.createReply, hframe]
  exact not_creates_reply srv (sendErr t srv) (h.1 hnonneg)

theorem createTold_of_no_reply {srv : Server} {o : Outcome} (hreplies : o.replies = [])
    (haccesses : o.accesses = []) : CreateTold srv o := by
  constructor
  · intro h
    simp [createResult, hreplies, Cmq.createReply] at h
  · rintro ⟨wname, elSize, history, hmem, -⟩
    rw [haccesses] at hmem
    cases hmem

end Outcome

namespace Cmq

variable {srv : Server} {hmac : Hmac} {frames : List Frame}

theorem createTold_createWooF_iff {wname elSizeStr historyStr : Bytes} :
    CreateTold srv (createWooF srv wname elSizeStr historyStr) ↔
      ((Decimal.strtol elSizeStr).2 = [] → (Decimal.strtol historyStr).2 = [] →
        srv.creates wname (toUlong (Decimal.strtol elSizeStr).1 % 2 ^ 32)
          (toUlong (Decimal.strtol historyStr).1 % 2 ^ 32) = true) := by
  unfold createWooF
  dsimp only
  split
  · rename_i htrailing
    refine iff_of_true (Outcome.createTold_of_no_reply rfl rfl) fun helSize hhistory => ?_
    exact htrailing.elim (absurd helSize) (absurd hhistory)
  · rename_i hwhole
    obtain ⟨helSize, hhistory⟩ := not_or.1 hwhole
    rw [forall_prop_of_true (not_not.1 helSize), forall_prop_of_true (not_not.1 hhistory)]
    -- the reply is the same for a creation that failed
    have hnonneg : 0 ≤ Cmq.createReply (some [Bytes.ofString "1"]) := by decide
    simp [CreateTold, Outcome.createResult, Outcome.Creates, Outcome.access, Outcome.reply, hnonneg]

/-- The creation works if the sizes are numbers to the end of their strings.  Otherwise it
is neither made nor answered. -/
def CreateWorks (srv : Server) (frames : List Frame) : Prop :=
  ∀ wname elSize history, frameText frames 0 = .ok wname → frameText frames 1 = .ok elSize →
    frameText frames 2 = .ok history →
    (Decimal.strtol elSize).2 = [] → (Decimal.strtol history).2 = [] →
    srv.creates wname (toUlong (Decimal.strtol elSize).1 % 2 ^ 32)
      (toUlong (Decimal.strtol history).1 % 2 ^ 32) = true

theorem createTold_perform_iff {cap : Frame}
    (h : wooFProcessCreatewithCAP.authorize hmac srv cap frames = .ok .granted) :
    CreateTold srv (wooFProcessCreatewithCAP.perform srv frames) ↔ CreateWorks srv frames := by
  obtain ⟨wname, elSize, history, hname, helSize, hhistory⟩ :=
    Transport.createTexts_of_granted (t := .cmq) h
  simp only [wooFProcessCreatewithCAP, hname, helSize, hhistory, Exec.serve_ok,
    createTold_createWooF_iff, CreateWorks, Except.ok.injEq]
  refine ⟨?_, fun hworks => hworks wname elSize history rfl rfl rfl⟩
  rintro hworks _ _ _ rfl rfl rfl
  exact hworks

/-- The check grants the request and the creation works, or the check does not end. -/
def CreateSettled (hmac : Hmac) (srv : Server) : List Frame → Prop
  | [] => False
  | cap :: frames =>
    ∀ verdict, wooFProcessCreatewithCAP.authorize hmac srv cap frames = .ok verdict →
      verdict = .granted ∧ CreateWorks srv frames

theorem createTold_run_iff :
    CreateTold srv (wooFProcessCreatewithCAP.run hmac srv frames) ↔
      CreateSettled hmac srv frames := by
  have hrefused : ¬ CreateTold srv (.reply srv (sendErr .cmq srv)) :=
    Outcome.not_createTold_sendErr .cmq srv
  cases frames with
  | nil => exact iff_of_false hrefused id
  | cons cap frames =>
    unfold CapHandler.run CreateSettled
    dsimp only
    cases hverdict : wooFProcessCreatewithCAP.authorize hmac srv cap frames with
    | error s => exact iff_of_true (Outcome.createTold_of_no_reply rfl rfl) nofun
    | ok verdict =>
      simp only [Exec.serve_ok, Except.ok.injEq, forall_eq']
      cases verdict with
      | unprotected => exact iff_of_false hrefused fun h => nomatch h.1
      | refused => exact iff_of_false hrefused fun h => nomatch h.1
      | granted => simpa using createTold_perform_iff hverdict

end Cmq

/-- Exactly the create requests whose outcome the client is told. -/
theorem createTold_iff (hmac : Hmac) (srv : Server) {f : Frame}
    (htag : Transport.cmq.readTag f = .ok (some (.cap .create))) (frames : List Frame) :
    CreateTold srv (Transport.cmq.serve hmac srv (f :: frames)) ↔
      Cmq.CreateSettled hmac srv frames := by
  rw [Transport.serve_of_readTag htag, Transport.process_cap]
  exact Cmq.createTold_run_iff

/-- A granted create of a woof that can be created. -/
theorem createTold_iff_granted :
    CreateTold (sampleServer (some (principalCap 9)) none)
      (Transport.cmq.serve (fun _ _ => 0) (sampleServer (some (principalCap 9)) none)
        [numberAt 31, capAt ⟨wcapInit, 0, 0, 0⟩, textAt sampleUri, numberAt 8, numberAt 4]) := by
  refine (createTold_iff _ _ (by decide) _).2 fun verdict hverdict => ?_
  have hgranted : Cmq.wooFProcessCreatewithCAP.authorize (fun _ _ => 0)
      (sampleServer (some (principalCap 9)) none) (capAt ⟨wcapInit, 0, 0, 0⟩)
      [textAt sampleUri, numberAt 8, numberAt 4] = .ok .granted := by
    decide
  exact ⟨(Except.ok.inj (hverdict.symm.trans hgranted)), fun _ _ _ _ _ _ _ _ => rfl⟩

/-- A refused create, and one that is granted and fails, are both reported as done. -/
theorem refused_create_reported_done :
    ¬ CreateTold (sampleServer (some (principalCap 9)) none)
        (Transport.cmq.serve (fun _ _ => 0) (sampleServer (some (principalCap 9)) none)
          [numberAt 31, capAt ⟨wcapInit, 0, 0, 5⟩, textAt sampleUri, numberAt 8, numberAt 4]) ∧
      ¬ CreateTold
          { sampleServer (some (principalCap 9)) none with creates := fun _ _ _ => false }
          (Transport.cmq.serve (fun _ _ => 0)
            { sampleServer (some (principalCap 9)) none with creates := fun _ _ _ => false }
            [numberAt 31, capAt ⟨wcapInit, 0, 0, 0⟩, textAt sampleUri, numberAt 8,
              numberAt 4]) := by
  refine ⟨fun h => ?_, fun h => ?_⟩
  · obtain ⟨wname, elSize, history, hmem, -⟩ := h.1 (by decide)
    have hnone : Access.create wname elSize history ∈ ([] : List Access) := hmem
    cases hnone
  · obtain ⟨wname, elSize, history, -, hcreates⟩ := h.1 (by decide)
    cases hcreates

end Cspot
