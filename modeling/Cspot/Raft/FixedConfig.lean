import Cspot.Raft.Cluster
import Cspot.Raft.Commit

/-!
# A fixed configuration

Without requests for another configuration every server keeps the members it was started with,
as long as no log brings in others.  What a step does to the term, the vote and the role of a
server is said here once for all handlers that have nothing to do with elections.
-/

namespace Cspot.Raft

/-! ## Entries and states -/

/-- The entry leaves the configuration as it is: it is none of a change under way, and if it is
one at all it names the members. -/
def Keeps (memberWoofs : List Name) (entry : LogEntry) : Prop :=
  entry.isConfig = .not ∨
    entry.isConfig = .new ∧ ∀ found ∈ decodeConfig entry.data, found.1 = memberWoofs

instance (memberWoofs : List Name) (entry : LogEntry) : Decidable (Keeps memberWoofs entry) :=
  inferInstanceAs (Decidable (_ ∨ _ ∧ _))

/-- The part of the server state that belongs to the configuration. -/
def ServerState.setting (state : ServerState) : Name × Nat × List Name × ConfigStatus :=
  (state.woofName, state.members, state.memberWoofs, state.currentConfig)

/-- The server has its name and the members of the fixed configuration. -/
def Settled (memberWoofs : List Name) (name : Name) (state : ServerState) : Prop :=
  state.setting = (name, memberWoofs.length, slots memberWoofs, .stable)

namespace Settled

variable {memberWoofs : List Name} {name : Name} {state : ServerState}

section

variable (h : Settled memberWoofs name state)
include h

theorem woofName : state.woofName = name :=
  congrArg (·.1) h

theorem members : state.members = memberWoofs.length :=
  congrArg (·.2.1) h

theorem slots : state.memberWoofs = Raft.slots memberWoofs :=
  congrArg (·.2.2.1) h

theorem stable : state.currentConfig = .stable :=
  congrArg (·.2.2.2) h

theorem config : state.config = memberWoofs := by
  rw [ServerState.config, h.members, h.slots, Raft.slots, List.take_left']
  rfl

end

end Settled

variable {memberWoofs : List Name} {name : Name} {state : ServerState} {request : AppendEntriesArg}
  {srv srv' : Server} {messages : List Message} {input : Input} {entry : LogEntry}
  {state' : ServerState} {k : Nat} {m : Membership} {c : Cluster} {action : Action}

theorem memberSlot_eq_none {woof : Name} (h : Settled memberWoofs name state) :
    state.memberSlot woof = none ↔ woof ∉ memberWoofs := by
  have hfind : (memberId woof (slots memberWoofs)).all (memberWoofs.length ≤ ·) = true ↔
      woof ∉ memberWoofs := by
    rw [memberId, slots, List.findIdx?_append]
    cases hfound : memberWoofs.findIdx? (· = woof) with
    | some m =>
      obtain ⟨_, hwoof, -⟩ := List.findIdx?_eq_some_iff_getElem.1 hfound
      have hmem : woof ∈ memberWoofs := by
        rw [← of_decide_eq_true hwoof]
        exact List.getElem_mem ..
      simp [hmem]
      omega
    | none =>
      have hnot : woof ∉ memberWoofs := by
        intro hmem
        have := List.findIdx?_eq_none_iff.1 hfound woof hmem
        simp at this
      simp only [Option.none_or, hnot, not_false_eq_true, iff_true]
      cases (List.replicate _ []).findIdx? (· = woof) with
      | none => rfl
      | some m => simp
  rw [← hfind, ServerState.memberSlot, h.slots, h.members]
  cases memberId woof (slots memberWoofs) with
  | none => simp
  | some m => simp

/-! ## Standing -/

/-- Term and vote are as they were, and a leader is one still. -/
def Stays (state state' : ServerState) : Prop :=
  state'.currentTerm = state.currentTerm ∧ state'.votedFor = state.votedFor ∧
    (state'.role = .leader ↔ state.role = .leader)

/-- The server has entered a later term, not as its leader. -/
def Leaves (state state' : ServerState) : Prop :=
  state.currentTerm < state'.currentTerm ∧ state'.role ≠ .leader

theorem Stays.refl (state : ServerState) : Stays state state := ⟨rfl, rfl, .rfl⟩

theorem Stays.trans {state₁ state₂ state₃ : ServerState} (h : Stays state₁ state₂)
    (h' : Stays state₂ state₃) : Stays state₁ state₃ :=
  ⟨h'.1.trans h.1, h'.2.1.trans h.2.1, h'.2.2.trans h.2.2⟩

theorem setting_fallBack (state : ServerState) (term : Nat) (leader : Name) :
    (fallBack state term leader).setting = state.setting := rfl

theorem setting_enterTerm (state : ServerState) (request : RequestVoteArg) :
    (enterTerm state request).setting = state.setting := by
  unfold enterTerm
  split <;> rfl

theorem setting_acceptLeader (state : ServerState) (request : AppendEntriesArg) :
    (acceptLeader state request).setting = state.setting := by
  unfold acceptLeader fallBack
  split <;> split <;> try rfl
  split <;> rfl

theorem acceptLeader_standing (hle : state.currentTerm ≤ request.term)
    (hleader : ¬ (request.term = state.currentTerm ∧ state.role = .leader)) :
    Stays state (acceptLeader state request) ∨ Leaves state (acceptLeader state request) := by
  have hterm := acceptLeader_term hle
  have hrole := acceptLeader_role state request
  rcases Nat.lt_or_eq_of_le hle with hlt | heq
  · exact .inr ⟨by omega, hrole⟩
  · have hnot : state.role ≠ .leader := fun h => hleader ⟨heq.symm, h⟩
    refine .inl ⟨by omega, ?_, by simp [hrole, hnot]⟩
    unfold acceptLeader
    simp only [show ¬ state.currentTerm < request.term by omega, if_false]
    split
    · rfl
    · split <;> rfl

theorem adoptConfig_new (hnew : entry.isConfig = .new) (state : ServerState) (seq : Nat)
    (memberWoofs : List Name) :
    ∃ role, (role = state.role ∨ state.role = .observer ∧ role = .follower) ∧
      adoptConfig state entry seq memberWoofs =
        { state with
          members := memberWoofs.length
          lastConfigSeqno := seq
          currentConfig := .stable
          memberWoofs := slots memberWoofs
          role := role } := by
  unfold adoptConfig
  by_cases hobserver : state.role = .observer
  · simp only [hnew, hobserver, true_and]
    split
    all_goals
      split
      · exact ⟨.follower, .inr rfl, rfl⟩
      · exact ⟨.observer, .inl rfl, rfl⟩
  · simp only [hnew, hobserver, false_and, if_false]
    exact ⟨state.role, .inl rfl, rfl⟩

theorem adoptConfig_settled (h : Settled memberWoofs name state) (hnew : entry.isConfig = .new)
    (seq : Nat) :
    Settled memberWoofs name (adoptConfig state entry seq memberWoofs) ∧
      Stays state (adoptConfig state entry seq memberWoofs) := by
  obtain ⟨role, hrole, heq⟩ := adoptConfig_new hnew state seq memberWoofs
  rw [heq]
  refine ⟨by simp [Settled, ServerState.setting, h.woofName], rfl, rfl, ?_⟩
  rcases hrole with rfl | ⟨hobserver, rfl⟩
  · exact .rfl
  · simp [hobserver]

/-! ## Servers -/

def Message.Keeps (memberWoofs : List Name) : Message → Prop
  | .appendEntries _ arg => ∀ entry ∈ arg.entries, Raft.Keeps memberWoofs entry
  | _ => True

/-- An input that leaves the configuration as it is. -/
def Input.Keeps (memberWoofs : List Name) : Input → Prop
  | .appendEntries arg => ∀ entry ∈ arg.entries, Raft.Keeps memberWoofs entry
  | .configChange _ => False
  | _ => True

/-- A server of the fixed configuration: all that it holds keeps the configuration.  While
`h_append_entries` waits, its copy of the state is the state up to the commit index. -/
structure Kept (memberWoofs : List Name) (name : Name) (srv : Server) : Prop where
  settled : Settled memberWoofs name srv.state
  log : ∀ slot, Keeps memberWoofs (srv.log.slots slot)
  elections : ∀ election ∈ srv.elections, election.memberWoofs = memberWoofs
  appending : ∀ request state, srv.appending = some ⟨request, state⟩ →
    (∃ commitIndex, state = { srv.state with commitIndex := commitIndex }) ∧
      ∀ entry ∈ request.entries, Keeps memberWoofs entry

def Message.ballot : Message → Bool
  | .requestVote _ _ | .voteResult _ _ => true
  | _ => false

/-- The step has nothing to do with an election. -/
structure Quiet (srv srv' : Server) (messages : List Message) : Prop where
  votePool : srv'.votePool = srv.votePool
  counting : srv'.counting = srv.counting
  elections : srv'.elections = srv.elections
  messages : ∀ message ∈ messages, message.ballot = false
  standing : Stays srv.state srv'.state ∨ Leaves srv.state srv'.state

theorem Kept.of_setting (h : Kept memberWoofs name srv)
    (hsetting : srv'.state.setting = srv.state.setting)
    (hlog : ∀ slot, Keeps memberWoofs (srv'.log.slots slot))
    (helections : srv'.elections = srv.elections)
    (happending : srv'.appending = none ∨
      srv'.appending = srv.appending ∧ srv'.state = srv.state) : Kept memberWoofs name srv' where
  settled := hsetting.trans h.settled
  log := hlog
  elections := by
    rw [helections]
    exact h.elections
  appending request state hpending := by
    rcases happending with hnone | ⟨hsame, hstate⟩
    · rw [hnone] at hpending
      simp at hpending
    · rw [hstate]
      exact h.appending request state (hsame ▸ hpending)

theorem Kept.idle (h : Kept memberWoofs name srv) (hstate : srv'.state = srv.state)
    (hlog : srv'.log = srv.log) (happending : srv'.appending = srv.appending)
    (hpool : srv'.votePool = srv.votePool) (hcounting : srv'.counting = srv.counting)
    (helections : srv'.elections = srv.elections) :
    Kept memberWoofs name srv' ∧ Quiet srv srv' [] ∧
      ∀ message ∈ ([] : List Message), message.Keeps memberWoofs := by
  refine ⟨h.of_setting (by rw [hstate]) (by rw [hlog]; exact h.log) helections
    (.inr ⟨happending, hstate⟩), ⟨hpool, hcounting, helections, by simp, .inl ?_⟩, by simp⟩
  rw [hstate]
  exact .refl _

/-! ## Replicating -/

theorem Noted.fixed {appendResults : List AppendEntriesResult} {term : Nat}
    (h : Noted appendResults term state state') :
    state'.setting = state.setting ∧ Stays state state' := by
  obtain ⟨_, _, _, rfl, -⟩ := h
  exact ⟨rfl, .refl _⟩

theorem updateCommitIndex_fixed (hstable : state.currentConfig = .stable)
    (h : updateCommitIndex srv state = some (srv', state')) :
    srv' = srv ∧ state'.setting = state.setting ∧ Stays state state' := by
  obtain ⟨rfl, commitIndex, rfl⟩ := updateCommitIndex_stable h hstable
  exact ⟨rfl, rfl, .refl _⟩

theorem finishReplicate_fixed (arg : ReplicateEntriesArg)
    (hstable : srv.state.currentConfig = .stable) (hsetting : state.setting = srv.state.setting)
    (hstays : Stays srv.state state) :
    ∃ replicateArg replicating applied state',
      finishReplicate srv arg state =
        { srv with
          state := state'
          replicateArg := replicateArg
          replicating := replicating
          applied := applied } ∧
      state'.setting = srv.state.setting ∧
      (Stays srv.state state' ∨ Leaves srv.state state') := by
  rcases finishReplicate_cases srv arg state with
    heq | ⟨state', hfell, heq⟩ | ⟨noted, srv', state', hnoted, hupdate, heq⟩
  · exact ⟨_, _, _, srv.state, heq, rfl, .inl (.refl _)⟩
  · obtain ⟨noted, result, m, hnoted, -, -, -, hlt, rfl⟩ := hfell
    refine ⟨_, _, _, _, heq, ?_, .inr ⟨?_, by simp [fallBack]⟩⟩
    · rw [setting_fallBack, hnoted.fixed.1, hsetting]
    · rw [← hstays.1]
      exact hlt
  · have hconfig : noted.currentConfig = .stable := by
      have hsame := hnoted.fixed.1.trans hsetting
      exact (congrArg (·.2.2.2) hsame).trans hstable
    obtain ⟨rfl, hsetting', hstays'⟩ := updateCommitIndex_fixed hconfig hupdate
    refine ⟨_, _, _, _, heq, ?_, .inl ?_⟩
    · exact hsetting'.trans (hnoted.fixed.1.trans hsetting)
    · exact (hstays.trans hnoted.fixed.2).trans hstays'

theorem hReplicateEntries_fixed {due : List Nat} (h : Kept memberWoofs name srv)
    (hreplicate : hReplicateEntries srv k due = some (srv', messages)) :
    (∃ replicateArg replicating applied state',
      srv' =
        { srv with
          state := state'
          replicateArg := replicateArg
          replicating := replicating
          applied := applied } ∧
      state'.setting = srv.state.setting ∧
      (Stays srv.state state' ∨ Leaves srv.state state')) ∧
    ∀ message ∈ messages, ∃ dest request, message = .appendEntries dest request ∧
      ∀ entry ∈ request.entries, Keeps memberWoofs entry := by
  obtain ⟨arg, -, ⟨rfl, rfl⟩ | ⟨-, -, rfl, hrest⟩⟩ := hReplicateEntries_cases hreplicate
  · exact ⟨⟨_, _, _, srv.state, rfl, rfl, .inl (.refl _)⟩, by simp⟩
  obtain ⟨hsent, hmessages⟩ := sendEntries_spec srv.log due
    (List.range (raftMaxMembers + raftMaxObservers)) srv.state
  refine ⟨?_, fun message hmessage => ?_⟩
  · rcases hrest with rfl | ⟨state, hstate, rfl⟩
    · exact ⟨_, _, _, srv.state, rfl, rfl, .inl (.refl _)⟩
    · obtain ⟨_, _, rfl, -⟩ := hsent state hstate
      exact finishReplicate_fixed arg h.settled.stable rfl (.refl _)
  · obtain ⟨m, request, rfl, hsent⟩ := hmessages message hmessage
    refine ⟨_, request, rfl, fun entry hentry => ?_⟩
    obtain ⟨slot, rfl⟩ := exists_slot_of_readEntries hsent.entries entry hentry
    exact h.log slot

/-! ## Appending -/

theorem dropConflicts_fixed (h : Kept memberWoofs name srv)
    (hrequest : ∀ entry ∈ request.entries, Keeps memberWoofs entry) :
    Kept memberWoofs name (dropConflicts srv request) ∧
      (dropConflicts srv request).state = srv.state := by
  rcases dropConflicts_cases srv request with hexit | ⟨log, state, hgoes, hcut⟩
  · rw [hexit]
    exact ⟨h, rfl⟩
  rw [hgoes]
  refine ⟨⟨h.settled, fun slot => ?_, h.elections, fun request' state' hpending => ?_⟩, rfl⟩
  · rcases hcut with ⟨rfl, -⟩ | ⟨-, hcut, -⟩
    · exact h.log slot
    · rw [RingLog.truncate_slots hcut]
      exact h.log slot
  · obtain ⟨rfl, rfl⟩ := hpending
    rcases hcut with ⟨-, rfl⟩ | ⟨-, -, rfl⟩ <;> exact ⟨⟨_, rfl⟩, hrequest⟩

/-- Only replies to a leader are sent. -/
def Replies (messages : List Message) : Prop :=
  ∀ message ∈ messages, ∃ dest result, message = .appendResult dest result

theorem replies_nil : Replies [] := by
  intro message hmessage
  simp at hmessage

theorem replies_appendReply (srv : Server) (request : AppendEntriesArg) (term : Nat)
    (success : Bool) (lastEntrySeq : Nat) :
    Replies (appendReply srv request term success lastEntrySeq) := by
  intro message hmessage
  rw [appendReply, List.mem_singleton] at hmessage
  exact ⟨_, _, hmessage⟩

theorem Replies.plain (h : Replies messages) (memberWoofs : List Name) :
    (∀ message ∈ messages, message.ballot = false) ∧
      ∀ message ∈ messages, message.Keeps memberWoofs := by
  refine ⟨fun message hmessage => ?_, fun message hmessage => ?_⟩
  · obtain ⟨dest, result, rfl⟩ := h message hmessage
    rfl
  · obtain ⟨dest, result, rfl⟩ := h message hmessage
    trivial

theorem hAppendEntries_replies (srv : Server) (request : AppendEntriesArg) :
    Replies (hAppendEntries srv request).2 := by
  rcases hAppendEntries_cases srv request with
    ⟨-, heq | ⟨-, -, heq⟩⟩ | ⟨-, -, -, ⟨-, heq | ⟨-, heq⟩ | ⟨-, -, heq⟩⟩ | ⟨-, -, heq, -⟩⟩
  · exact heq ▸ replies_nil
  · exact heq ▸ replies_appendReply srv request _ _ _
  · exact heq ▸ replies_nil
  · exact heq ▸ replies_appendReply srv request _ _ _
  · exact heq ▸ replies_appendReply srv request _ _ _
  · exact heq ▸ replies_nil

theorem hAppendEntries_fixed (h : Kept memberWoofs name srv) (hfree : srv.appending = none)
    (hrequest : ∀ entry ∈ request.entries, Keeps memberWoofs entry) :
    Kept memberWoofs name (hAppendEntries srv request).1 ∧
      (Stays srv.state (hAppendEntries srv request).1.state ∨
        Leaves srv.state (hAppendEntries srv request).1.state) := by
  rcases hAppendEntries_cases srv request with ⟨heq, -⟩ | ⟨-, hle, hleader, hrest⟩
  · rw [heq]
    exact ⟨h, .inl (.refl _)⟩
  have hstanding := acceptLeader_standing hle hleader
  have haccepted : Kept memberWoofs name { srv with state := acceptLeader srv.state request } :=
    h.of_setting (setting_acceptLeader srv.state request) h.log rfl (.inl hfree)
  rcases hrest with ⟨heq, -⟩ | ⟨-, -, -, heq⟩
  · rw [heq]
    exact ⟨haccepted, hstanding⟩
  · obtain ⟨hkept, hstate⟩ := dropConflicts_fixed haccepted hrequest
    rw [heq]
    exact ⟨hkept, by rw [hstate]; exact hstanding⟩

theorem hAppendEntries_pools (srv : Server) (request : AppendEntriesArg) :
    (hAppendEntries srv request).1.votePool = srv.votePool ∧
      (hAppendEntries srv request).1.counting = srv.counting ∧
      (hAppendEntries srv request).1.elections = srv.elections := by
  rcases hAppendEntries_cases srv request with ⟨heq, -⟩ | ⟨-, -, -, ⟨heq, -⟩ | ⟨-, -, -, heq⟩⟩
  · rw [heq]
    exact ⟨rfl, rfl, rfl⟩
  · rw [heq]
    exact ⟨rfl, rfl, rfl⟩
  · rw [heq]
    rcases dropConflicts_cases { srv with state := acceptLeader srv.state request } request with
      hsame | ⟨_, _, hsame, -⟩
    all_goals
      rw [hsame]
      exact ⟨rfl, rfl, rfl⟩

theorem finishAppend_fixed (h : Kept memberWoofs name srv)
    (hfinish : finishAppend srv = some (srv', messages)) :
    ∃ request state appended applied state', srv.appending = some ⟨request, state⟩ ∧
      srv' =
        { srv with
          appending := none
          log := srv.log.appendAll appended
          applied := applied
          state := state' } ∧
      Settled memberWoofs name state' ∧ Stays srv.state state' ∧
      (∀ entry ∈ appended, entry ∈ request.entries) ∧
      (messages = [] ∨ appended = request.entries ∧ ∃ answering,
        Settled memberWoofs name answering ∧
        messages = appendReply { srv with state := answering } request request.term true
          srv'.log.latest) := by
  obtain ⟨request, state, hpending, hspec⟩ := finishAppend_cases hfinish
  obtain ⟨⟨commitIndex, rfl⟩, hentries⟩ := h.appending _ _ hpending
  obtain ⟨appended, applied, state', ⟨hsettled, hstays⟩, rfl, hsub, hmessages⟩ := hspec
    (fun st => Settled memberWoofs name st ∧ Stays srv.state st)
    (by
      rintro entry hentry hconfig st seq woofs len hdecode ⟨hsettled, hstays⟩
      obtain ⟨hnew, hfound⟩ := (hentries entry hentry).resolve_left hconfig
      have hwoofs : woofs = memberWoofs := hfound (woofs, len) hdecode
      obtain ⟨hsettled', hstays'⟩ := adoptConfig_settled hsettled hnew seq
      rw [hwoofs]
      exact ⟨hsettled', hstays.trans hstays'⟩)
    (fun st checked commitIndex hst => hst) ⟨h.settled, .refl _⟩ ⟨h.settled, .refl _⟩
  refine ⟨request, _, appended, applied, state', hpending, rfl, hsettled, hstays, hsub, ?_⟩
  exact hmessages.imp_right fun ⟨hall, answering, hanswering, heq⟩ =>
    ⟨hall, answering, hanswering.1, heq⟩

/-! ## Steps -/

def Input.ballot : Input → Bool
  | .timeout | .election _ | .requestVote _ | .voteResult _ | .countVote _ => true
  | _ => false

theorem Kept.quiet (h : Kept memberWoofs name srv) (hinput : input.Keeps memberWoofs)
    (hballot : input.ballot = false) (hstep : srv.step input = some (srv', messages)) :
    Kept memberWoofs name srv' ∧ Quiet srv srv' messages ∧
      ∀ message ∈ messages, message.Keeps memberWoofs := by
  obtain ⟨hrun, hfree⟩ := Server.step_eq_some hstep
  cases input with
  | timeout | election _ | requestVote _ | voteResult _ | countVote _ =>
    simp [Input.ballot] at hballot
  | configChange _ => exact hinput.elim
  | appendEntries request =>
    simp only [Server.run, Option.some.injEq] at hrun
    obtain ⟨hkept, hstanding⟩ := hAppendEntries_fixed h (hfree rfl) hinput
    obtain ⟨hpool, hcounting, helections⟩ := hAppendEntries_pools srv request
    have hreplies := hAppendEntries_replies srv request
    rw [hrun] at hkept hstanding hpool hcounting helections hreplies
    obtain ⟨hballots, hkeeps⟩ := hreplies.plain memberWoofs
    exact ⟨hkept, ⟨hpool, hcounting, helections, hballots, hstanding⟩, hkeeps⟩
  | finishAppend =>
    obtain ⟨request, state, appended, applied, state', hpending, rfl, hsettled, hstays, hsub,
      hmessages⟩ := finishAppend_fixed h hrun
    have hreplies : Replies messages := by
      rcases hmessages with rfl | ⟨-, answering, -, rfl⟩
      · exact replies_nil
      · exact replies_appendReply _ _ _ _ _
    obtain ⟨hballots, hkeeps⟩ := hreplies.plain memberWoofs
    refine ⟨⟨hsettled, fun slot => ?_, h.elections, by simp⟩,
      ⟨rfl, rfl, rfl, hballots, .inl hstays⟩, hkeeps⟩
    rcases srv.log.slots_appendAll appended slot with hold | hnew
    · exact hold ▸ h.log slot
    · exact (h.appending request state hpending).2 _ (hsub _ hnew)
  | appendResult result =>
    obtain ⟨rfl, rfl⟩ := hrun
    exact h.idle rfl rfl rfl rfl rfl rfl
  | replicate k due =>
    obtain ⟨⟨replicateArg, replicating, applied, state', rfl, hsetting, hstanding⟩, hmessages⟩ :=
      hReplicateEntries_fixed h hrun
    refine ⟨h.of_setting hsetting h.log rfl (.inl (hfree rfl)),
      ⟨rfl, rfl, rfl, fun message hmessage => ?_, hstanding⟩, fun message hmessage => ?_⟩
    · obtain ⟨dest, request, rfl, -⟩ := hmessages message hmessage
      rfl
    · obtain ⟨dest, request, rfl, hentries⟩ := hmessages message hmessage
      exact hentries
  | putRequest request =>
    obtain ⟨rfl, rfl⟩ := hrun
    exact h.idle rfl rfl rfl rfl rfl rfl
  | readClientPut =>
    obtain ⟨srv₁, hread, ⟨⟩⟩ := Option.map_eq_some_iff.1 hrun
    obtain ⟨lastSeqno, -, rfl⟩ := readClientPut_eq_some hread
    exact h.idle rfl rfl rfl rfl rfl rfl
  | clientPut =>
    obtain ⟨_, state, _, entries, _, _, -, rfl, -, -, hentries, hmessages⟩ :=
      hClientPut_cases hrun
    refine ⟨h.of_setting rfl (fun slot => ?_) rfl (.inr ⟨rfl, rfl⟩),
      ⟨rfl, rfl, rfl, fun message hmessage => ?_, .inl (.refl _)⟩, fun message hmessage => ?_⟩
    · rcases srv.log.slots_appendAll entries slot with hold | hnew
      · exact hold ▸ h.log slot
      · exact .inl (hentries _ hnew).2
    · obtain ⟨request, rfl⟩ := hmessages message hmessage
      rfl
    · obtain ⟨request, rfl⟩ := hmessages message hmessage
      trivial
  | readForward k =>
    obtain ⟨srv₁, hread, ⟨⟩⟩ := Option.map_eq_some_iff.1 hrun
    obtain ⟨_, rfl⟩ := readForward_cases hread
    exact h.idle rfl rfl rfl rfl rfl rfl
  | forward k failed =>
    obtain ⟨srv₁, hforward, ⟨⟩⟩ := Option.map_eq_some_iff.1 hrun
    obtain ⟨_, _, _, rfl⟩ := hForwardPutResult_cases hforward
    exact h.idle rfl rfl rfl rfl rfl rfl

theorem hRequestVote_server (srv : Server) (request : RequestVoteArg) :
    (∃ state, (hRequestVote srv request).1 = { srv with state := state } ∧
      state.setting = srv.state.setting) ∧
    ((hRequestVote srv request).2 = [] ∨
      ∃ term granted granter, (hRequestVote srv request).2 =
        voteReply request term granted granter) := by
  have hsetting := setting_enterTerm srv.state request
  rcases hRequestVote_cases srv request with
    ⟨heq, hreply⟩ | ⟨-, -, -, ⟨heq, hreply⟩ | ⟨-, -, heq, hreply⟩⟩
  · refine ⟨⟨srv.state, heq, rfl⟩, ?_⟩
    rcases hreply with hnil | ⟨hreply, -⟩ | ⟨hreply, -⟩
    · exact .inl hnil
    · exact .inr ⟨_, _, _, hreply⟩
    · exact .inr ⟨_, _, _, hreply⟩
  · exact ⟨⟨_, heq, hsetting⟩, hreply.imp_right fun h => ⟨_, _, _, h⟩⟩
  · exact ⟨⟨_, heq, hsetting⟩, .inr ⟨_, _, _, hreply⟩⟩

theorem hCountVote_server (srv : Server) (seqNo : Nat) (result : RequestVoteResult) :
    ∃ state replicateArg replicating forwardArg forwarding,
      hCountVote srv seqNo result =
        { srv with
          state := state
          replicateArg := replicateArg
          replicating := replicating
          forwardArg := forwardArg
          forwarding := forwarding } ∧
      state.setting = srv.state.setting := by
  rcases hCountVote_cases srv seqNo result with heq | ⟨-, heq⟩ | ⟨-, -, -, -, heq⟩
  · exact ⟨srv.state, _, _, _, _, heq, rfl⟩
  · exact ⟨_, _, _, _, _, heq, rfl⟩
  · exact ⟨_, _, _, _, _, heq, rfl⟩

theorem Kept.vote (h : Kept memberWoofs name srv) (hballot : input.ballot = true)
    (hstep : srv.step input = some (srv', messages)) :
    Kept memberWoofs name srv' ∧ srv'.log = srv.log ∧ srv'.appending = srv.appending ∧
      ∀ message ∈ messages, message.ballot = true := by
  obtain ⟨hrun, hfree⟩ := Server.step_eq_some hstep
  cases input with
  | timeout =>
    obtain ⟨rfl, rfl⟩ := hrun
    rcases hTimeoutChecker_cases srv with heq | ⟨-, heq⟩
    · rw [heq]
      exact ⟨h, rfl, rfl, by simp⟩
    · rw [heq]
      refine ⟨⟨h.settled, h.log, fun election helection => ?_, ?_⟩, rfl, rfl, by simp⟩
      · rcases List.mem_append.1 helection with hold | hnew
        · exact h.elections election hold
        · rw [List.mem_singleton.1 hnew]
          exact h.settled.config
      · intro request state hpending
        rw [show (startElection srv).appending = none from hfree rfl] at hpending
        simp at hpending
  | election k =>
    obtain ⟨election, hk, ⟨rfl, phase, rfl, -⟩ | ⟨rfl, seqno, latest, -, hmessages⟩⟩ :=
      continueElection_cases hrun
    · refine ⟨⟨h.settled, h.log, fun e he => ?_, h.appending⟩, rfl, rfl, by simp⟩
      rcases List.mem_or_eq_of_mem_set he with hold | rfl
      · exact h.elections e hold
      · exact h.elections election (List.mem_of_getElem? hk)
    · refine ⟨⟨h.settled, h.log, fun e he => h.elections e (List.mem_of_mem_eraseIdx he),
        h.appending⟩, rfl, rfl, fun message hmessage => ?_⟩
      rcases hmessages with ⟨-, rfl⟩ | ⟨last, -, rfl⟩
      · simp at hmessage
      · obtain ⟨woof, -, rfl⟩ := List.mem_map.1 hmessage
        rfl
  | requestVote request =>
    simp only [Server.run, Option.some.injEq] at hrun
    obtain ⟨⟨state, hstate, hsetting⟩, hreply⟩ := hRequestVote_server srv request
    rw [hrun] at hstate hreply
    subst hstate
    refine ⟨h.of_setting hsetting h.log rfl (.inl (hfree rfl)), rfl, rfl,
      fun message hmessage => ?_⟩
    rcases hreply with rfl | ⟨term, granted, granter, rfl⟩
    · simp at hmessage
    · rw [List.mem_singleton.1 hmessage]
      rfl
  | voteResult result =>
    obtain ⟨rfl, rfl⟩ := hrun
    exact ⟨⟨h.settled, h.log, h.elections, h.appending⟩, rfl, rfl, by simp⟩
  | countVote k =>
    obtain ⟨srv₁, hcount, ⟨⟩⟩ := Option.map_eq_some_iff.1 hrun
    obtain ⟨seqNo, result, -, rfl⟩ := countWaiting_eq_some hcount
    obtain ⟨state, _, _, _, _, heq, hsetting⟩ :=
      hCountVote_server { srv with counting := srv.counting.eraseIdx k } seqNo result
    rw [heq]
    exact ⟨h.of_setting hsetting h.log rfl (.inl (hfree rfl)), rfl, rfl, by simp⟩
  | _ => simp [Input.ballot] at hballot

theorem Message.keeps_of_ballot {message : Message} (h : message.ballot = true)
    (memberWoofs : List Name) : message.Keeps memberWoofs := by
  cases message with
  | appendEntries => simp [Message.ballot] at h
  | _ => trivial

theorem Kept.step (h : Kept memberWoofs name srv) (hinput : input.Keeps memberWoofs)
    (hstep : srv.step input = some (srv', messages)) :
    Kept memberWoofs name srv' ∧ ∀ message ∈ messages, message.Keeps memberWoofs := by
  cases hballot : input.ballot with
  | true =>
    obtain ⟨hkept, -, -, hballots⟩ := h.vote hballot hstep
    exact ⟨hkept, fun message hmessage =>
      Message.keeps_of_ballot (hballots message hmessage) memberWoofs⟩
  | false =>
    obtain ⟨hkept, -, hkeeps⟩ := h.quiet hinput hballot hstep
    exact ⟨hkept, hkeeps⟩

/-! ## Clusters -/

structure Cluster.Kept (m : Membership) (c : Cluster) : Prop where
  memberWoofs : c.memberWoofs = m.memberWoofs
  servers : ∀ name, Raft.Kept m.memberWoofs name (c.servers name)
  network : ∀ message ∈ c.network, message.Keeps m.memberWoofs

theorem Input.keeps_of_takes (h : c.Kept m) {rest : List Message} (hsteady : Steady c action)
    (htakes : c.Takes action name input rest) :
    input.Keeps m.memberWoofs := by
  rcases htakes with ⟨rfl, harrives, -⟩ | ⟨k, message, -, hk, -, rfl, -⟩
  · cases input with
    | configChange arg => exact hsteady.elim
    | appendEntries arg => simp [Input.arrives] at harrives
    | _ => trivial
  · have hkeeps := h.network message (List.mem_of_getElem? hk)
    cases message with
    | appendEntries dest arg => exact hkeeps
    | _ => trivial

theorem sendFailed_kept (h : Kept memberWoofs name srv) (member : Name) (term : Nat) :
    Kept memberWoofs name (sendFailed srv member term) :=
  h.of_setting rfl h.log rfl (.inr ⟨rfl, rfl⟩)

theorem Cluster.Kept.step {c' : Cluster} (h : c.Kept m) (hsteady : Steady c action)
    (hstep : c.step action = some c') : c'.Kept m := by
  rcases Cluster.step_cases hstep with
    ⟨name, input, rest, srv, messages, -, htakes, hsrv, rfl⟩ | ⟨k, message, -, -, rfl⟩ |
    ⟨k, member, arg, -, -, rfl⟩
  · obtain ⟨hkept, hkeeps⟩ :=
      (h.servers name).step (Input.keeps_of_takes h hsteady htakes) hsrv
    refine ⟨h.memberWoofs, fun other => ?_, fun message hmessage => ?_⟩
    · rw [Cluster.set_servers]
      split
      · rename_i hother
        exact hother ▸ hkept
      · exact h.servers other
    · rcases List.mem_append.1 hmessage with hold | hnew
      · exact h.network message (htakes.mem message hold)
      · exact hkeeps message hnew
  · exact ⟨h.memberWoofs, h.servers, fun message hmessage =>
      h.network message (List.mem_of_mem_eraseIdx hmessage)⟩
  · refine ⟨h.memberWoofs, fun other => ?_, fun message hmessage =>
      h.network message (List.mem_of_mem_eraseIdx hmessage)⟩
    rw [Cluster.set_servers]
    split
    · rename_i hother
      exact hother ▸ sendFailed_kept (h.servers arg.leaderWoof) member arg.term
    · exact h.servers other

theorem Membership.start_kept (m : Membership) (observer : Name → Bool)
    {logs : Name → RingLog LogEntry}
    (hlogs : ∀ name slot, Keeps m.memberWoofs ((logs name).slots slot)) :
    (m.start observer logs).Kept m where
  memberWoofs := rfl
  servers name :=
    { settled := rfl
      log := hlogs name
      elections := by simp [start, startServer]
      appending := by simp [start, startServer] }
  network := by simp [start]

end Cspot.Raft
