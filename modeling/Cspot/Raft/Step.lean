import Cspot.Raft.Client
import Cspot.Raft.Commit

/-!
# Steps of a server

A step is a section of a handler, or the arrival of an element in one of the WooFs of the
server.  The sections under the server lock exclude each other, so none starts while
`h_append_entries` waits for the log lock with the server lock in its hands.
-/

namespace Cspot.Raft

inductive Input where
  | timeout
  | election (k : Nat)
  | requestVote (request : RequestVoteArg)
  | voteResult (result : RequestVoteResult)
  | countVote (k : Nat)
  | appendEntries (request : AppendEntriesArg)
  | finishAppend
  | appendResult (result : AppendEntriesResult)
  | replicate (k : Nat) (due : List Nat)
  | putRequest (request : ClientPutRequest)
  | readClientPut
  | clientPut
  | readForward (k : Nat)
  | forward (k : Nat) (failed : List Nat)
  | configChange (arg : ConfigChangeArg)
deriving Repr, DecidableEq

/-- The sections that take the server lock. -/
def Input.locks : Input → Bool
  | .timeout | .requestVote _ | .countVote _ | .appendEntries _ | .replicate _ _
  | .readForward _ | .configChange _ => true
  | _ => false

/-- A run of `h_count_vote` on the `k`th result that waits for it. -/
def countWaiting (srv : Server) (k : Nat) : Option Server :=
  match srv.counting[k]? with
  | none => none
  | some (seqNo, result) =>
    some (hCountVote { srv with counting := srv.counting.eraseIdx k } seqNo result)

/-- A vote result arrives in the pool and starts `h_count_vote`. -/
def receiveVote (srv : Server) (result : RequestVoteResult) : Server :=
  { srv with
    votePool := srv.votePool ++ [result]
    counting := srv.counting ++ [(srv.votePool.length + 1, result)] }

/-- The section itself, whoever holds the server lock. -/
def Server.run (srv : Server) : Input → Option (Server × List Message)
  | .timeout => some (hTimeoutChecker srv, [])
  | .election k => continueElection srv k
  | .requestVote request => some (hRequestVote srv request)
  | .voteResult result => some (receiveVote srv result, [])
  | .countVote k => (countWaiting srv k).map (·, [])
  | .appendEntries request => some (hAppendEntries srv request)
  | .finishAppend => Raft.finishAppend srv
  | .appendResult result =>
    some ({ srv with appendResults := srv.appendResults ++ [result] }, [])
  | .replicate k due => hReplicateEntries srv k due
  | .putRequest request => some ({ srv with putRequests := srv.putRequests ++ [request] }, [])
  | .readClientPut => (Raft.readClientPut srv).map (·, [])
  | .clientPut => hClientPut srv
  | .readForward k => (Raft.readForward srv k).map (·, [])
  | .forward k failed => (hForwardPutResult srv k failed).map (·, [])
  | .configChange arg => some (hConfigChange srv arg, [])

def Server.step (srv : Server) (input : Input) : Option (Server × List Message) :=
  if input.locks = true ∧ srv.appending.isSome = true then none else srv.run input

variable {srv srv' first : Server} {allowed : Server → Input → Prop}

theorem countWaiting_eq_some {k : Nat} (h : countWaiting srv k = some srv') :
    ∃ seqNo result, srv.counting[k]? = some (seqNo, result) ∧
      srv' = hCountVote { srv with counting := srv.counting.eraseIdx k } seqNo result := by
  unfold countWaiting at h
  split at h
  · simp at h
  · rename_i seqNo result hk
    exact ⟨seqNo, result, hk, (Option.some.inj h).symm⟩

theorem Server.step_eq_some {input : Input} {messages : List Message}
    (h : srv.step input = some (srv', messages)) :
    srv.run input = some (srv', messages) ∧ (input.locks = true → srv.appending = none) := by
  unfold step at h
  split at h
  · simp at h
  · rename_i hfree
    exact ⟨h, fun hlocks => by simpa [hlocks] using hfree⟩

/-! ## Steps that stay in bounds -/

/-- The step writes inside its arrays, and a request that cuts the log back finds it before its
first wrap and leaves an entry. -/
def Regular (srv : Server) : Input → Prop
  | .appendEntries request =>
    request.prevLogIndex < srv.log.latest →
      0 < request.prevLogIndex ∧ srv.log.latest < srv.log.size
  | .replicate _ _ => srv.state.currentConfig = .stable
  | .configChange arg =>
    arg.observe = true →
      (memberId arg.observerWoof srv.state.memberWoofs).isSome = true ∨
        srv.state.observers < raftMaxObservers
  | _ => True

instance (srv : Server) (input : Input) : Decidable (Regular srv input) := by
  unfold Regular
  rcases input <;> infer_instance

/-- No array has been overrun, and the log is as puts alone leave it. -/
structure Sane (srv : Server) : Prop where
  intact : srv.overrun = false
  log : SoundLog srv.log

theorem Sane.extends (h : Sane srv) (hlog : srv.log.Extends srv'.log)
    (hintact : srv'.overrun = srv.overrun) : Sane srv' :=
  ⟨hintact.trans h.intact, h.log.extends hlog⟩

theorem Sane.appendEntries {request : AppendEntriesArg} (h : Sane srv)
    (hregular : Regular srv (.appendEntries request)) : Sane (hAppendEntries srv request).1 := by
  have hsame : ∀ state, Sane { srv with state := state } := fun _ => ⟨h.intact, h.log⟩
  rcases hAppendEntries_cases srv request with
    ⟨heq, -⟩ | ⟨-, -, -, ⟨heq, -⟩ | ⟨-, -, -, heq⟩⟩
  · rw [heq]
    exact h
  · rw [heq]
    exact hsame _
  rw [heq]
  rcases dropConflicts_cases { srv with state := acceptLeader srv.state request } request with
    hexit | ⟨log, state, hgoes, ⟨rfl, -⟩ | ⟨hlong, hcut, -⟩⟩
  · rw [hexit]
    exact hsame _
  · rw [hgoes]
    exact ⟨h.intact, h.log⟩
  · rw [hgoes]
    obtain ⟨hpos, hround⟩ := hregular hlong
    exact ⟨h.intact, (h.log.truncate hround hpos hlong hcut).1⟩

theorem Sane.replicate {k : Nat} {due : List Nat} {messages : List Message} (h : Sane srv)
    (hstable : srv.state.currentConfig = .stable)
    (hrun : hReplicateEntries srv k due = some (srv', messages)) : Sane srv' := by
  have herase : Sane { srv with replicating := srv.replicating.eraseIdx k } := ⟨h.intact, h.log⟩
  obtain ⟨arg, -, ⟨rfl, -⟩ | ⟨-, -, -, rfl | ⟨state, hsend, rfl⟩⟩⟩ := hReplicateEntries_cases hrun
  · exact herase
  · exact herase
  obtain ⟨matchIndex, lastSent, rfl, -⟩ := (sendEntries_spec _ _ _ _).1 state hsend
  rcases finishReplicate_cases { srv with replicating := srv.replicating.eraseIdx k } arg _ with
    heq | ⟨fallen, -, heq⟩ | ⟨noted, srv₁, state₁, ⟨_, _, _, hnoted, -⟩, hupdate, heq⟩
  · rw [heq]
    exact herase
  · rw [heq]
    exact ⟨h.intact, h.log⟩
  · rw [heq]
    obtain ⟨rfl, -⟩ := updateCommitIndex_stable hupdate (by rw [hnoted]; exact hstable)
    exact ⟨h.intact, h.log⟩

theorem Sane.configChange {arg : ConfigChangeArg} (h : Sane srv)
    (hregular : Regular srv (.configChange arg)) : Sane (hConfigChange srv arg) := by
  unfold hConfigChange
  split
  · rename_i hobserve
    split
    · exact ⟨h.intact, h.log⟩
    · rename_i hnew
      have hroom := (hregular hobserve).resolve_left hnew
      exact ⟨by simp [configReply, addObserver, hroom, h.intact], h.log⟩
  split
  · exact ⟨h.intact, h.log⟩
  split
  · exact ⟨h.intact, h.log⟩
  split
  · exact h
  · exact h.extends (.append _ _) rfl

theorem Sane.step {input : Input} {messages : List Message} (h : Sane srv)
    (hregular : Regular srv input) (hstep : srv.step input = some (srv', messages)) :
    Sane srv' := by
  obtain ⟨hrun, -⟩ := Server.step_eq_some hstep
  cases input with
  | timeout =>
    obtain ⟨rfl, rfl⟩ := hrun
    rcases hTimeoutChecker_cases srv with heq | ⟨-, heq⟩
    all_goals
      rw [heq]
      exact ⟨h.intact, h.log⟩
  | election k =>
    obtain ⟨_, -, ⟨-, _, rfl, -⟩ | ⟨rfl, -⟩⟩ := continueElection_cases hrun
    all_goals exact ⟨h.intact, h.log⟩
  | requestVote request =>
    obtain rfl : (hRequestVote srv request).1 = srv' := congrArg Prod.fst (Option.some.inj hrun)
    rcases hRequestVote_cases srv request with ⟨heq, -⟩ | ⟨-, -, -, ⟨heq, -⟩ | ⟨-, -, heq, -⟩⟩
    all_goals
      rw [heq]
      exact ⟨h.intact, h.log⟩
  | countVote k =>
    obtain ⟨_, hcount, ⟨⟩⟩ := Option.map_eq_some_iff.1 hrun
    obtain ⟨seqNo, result, -, rfl⟩ := countWaiting_eq_some hcount
    rcases hCountVote_cases { srv with counting := srv.counting.eraseIdx k } seqNo result with
      heq | ⟨-, heq⟩ | ⟨-, -, -, -, heq⟩
    all_goals
      rw [heq]
      exact ⟨h.intact, h.log⟩
  | appendEntries request =>
    obtain rfl : (hAppendEntries srv request).1 = srv' := congrArg Prod.fst (Option.some.inj hrun)
    exact h.appendEntries hregular
  | finishAppend =>
    obtain ⟨request, state, -, hspec⟩ := finishAppend_cases hrun
    obtain ⟨appended, _, _, -, rfl, -⟩ := hspec (fun _ => True) (by simp) (by simp) trivial trivial
    exact h.extends ⟨appended, rfl⟩ rfl
  | replicate k due => exact h.replicate hregular hrun
  | readClientPut =>
    obtain ⟨_, hread, ⟨⟩⟩ := Option.map_eq_some_iff.1 hrun
    obtain ⟨_, -, rfl⟩ := readClientPut_eq_some hread
    exact ⟨h.intact, h.log⟩
  | clientPut =>
    obtain ⟨_, _, _, entries, _, _, -, rfl, -⟩ := hClientPut_cases hrun
    exact h.extends ⟨entries, rfl⟩ rfl
  | readForward k =>
    obtain ⟨_, hread, ⟨⟩⟩ := Option.map_eq_some_iff.1 hrun
    obtain ⟨_, rfl⟩ := readForward_cases hread
    exact ⟨h.intact, h.log⟩
  | forward k failed =>
    obtain ⟨_, hforward, ⟨⟩⟩ := Option.map_eq_some_iff.1 hrun
    obtain ⟨_, _, _, rfl⟩ := hForwardPutResult_cases hforward
    exact ⟨h.intact, h.log⟩
  | configChange arg =>
    obtain ⟨rfl, rfl⟩ := hrun
    exact h.configChange hregular
  | voteResult _ | appendResult _ | putRequest _ =>
    obtain ⟨rfl, rfl⟩ := hrun
    exact ⟨h.intact, h.log⟩

/-! ## Runs -/

inductive Server.Reaches (allowed : Server → Input → Prop) (first : Server) : Server → Prop where
  | refl : Reaches allowed first first
  | step {srv srv' : Server} {input : Input} {messages : List Message} :
      Reaches allowed first srv → allowed srv input → srv.step input = some (srv', messages) →
      Reaches allowed first srv'

theorem Server.Reaches.invariant {P : Server → Prop} (h : first.Reaches allowed srv)
    (hfirst : P first)
    (hstep : ∀ {srv srv' : Server} {input : Input} {messages : List Message}, P srv →
      allowed srv input → srv.step input = some (srv', messages) → P srv') : P srv := by
  induction h with
  | refl => exact hfirst
  | step _ hallowed hs ih => exact hstep ih hallowed hs

def Server.play (allowed : Server → Input → Prop) [∀ srv input, Decidable (allowed srv input)] :
    Server → List Input → Option Server
  | srv, [] => some srv
  | srv, input :: inputs =>
    if allowed srv input then
      match srv.step input with
      | none => none
      | some (srv', _) => play allowed srv' inputs
    else none

theorem Server.reaches_of_play [∀ srv input, Decidable (allowed srv input)] {inputs : List Input}
    (h : first.Reaches allowed srv) (hplay : srv.play allowed inputs = some srv') :
    first.Reaches allowed srv' := by
  induction inputs generalizing srv with
  | nil =>
    simp only [play, Option.some.injEq] at hplay
    exact hplay ▸ h
  | cons input inputs ih =>
    rw [play] at hplay
    split at hplay
    · rename_i hallowed
      split at hplay
      · simp at hplay
      · rename_i hs
        exact ih (h.step hallowed hs) hplay
    · simp at hplay

/-- What `raft_start_server` leaves, with `log` in the place of the empty log. -/
def startServer (woofName : Name) (memberWoofs : List Name) (observer : Bool)
    (log : RingLog LogEntry) : Server where
  state :=
    { woofName := woofName
      role := if observer = true then .observer else .follower
      currentTerm := 0
      votedFor := []
      currentLeader := woofName
      members := memberWoofs.length
      observers := 0
      memberWoofs := slots memberWoofs
      currentConfig := .stable
      lastConfigSeqno := 0
      commitIndex := 0
      nextIndex := fun _ => 0
      matchIndex := fun _ => 0
      lastSentRequestSeq := fun _ => 0
      ackedRequestSeq := fun _ => 0
      lastCheckedCommittedEntry := 0 }
  log := log

def emptyLog : RingLog LogEntry :=
  RingLog.empty historySizeExtraLong .zero historySizeExtraLong_pos

theorem emptyLog_sound : SoundLog emptyLog := ⟨.empty .., rfl⟩

end Cspot.Raft
