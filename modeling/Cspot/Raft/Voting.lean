import Cspot.Raft.Server

/-!
# The election handlers

`h_timeout_checker` starts an election, `h_request_vote` answers a candidate and
`h_count_vote` counts the answers.  What a handler does under the server lock is one step;
a handler that exits leaves what it has written so far.
-/

namespace Cspot.Raft

/-! ## Starting an election -/

def strstr (text needle : Bytes) : Bool := decide (needle <:+: text)

/-- Before the first term only some hosts may start an election. -/
def experimentCheat (woofName : Name) (term : Nat) : Bool :=
  if 0 < term then true
  else if strstr woofName (Bytes.ofString "128.111.45.140") ||
      strstr woofName (Bytes.ofString "128.111.45.119") then false
  else strstr woofName (Bytes.ofString "128.111.45")

def startElection (srv : Server) : Server :=
  { srv with
    state :=
      { srv.state with
        currentTerm := Word.add srv.state.currentTerm 1
        role := .candidate
        currentLeader := srv.state.woofName
        votedFor := [] }
    elections := srv.elections ++
      [{ term := Word.add srv.state.currentTerm 1
         memberWoofs := srv.state.config
         phase := .pool }] }

theorem startElection_term {srv : Server} (hwrap : srv.state.currentTerm + 1 < Word.modulus) :
    (startElection srv).state.currentTerm = srv.state.currentTerm + 1 := Word.add_of_lt hwrap

/-- `h_timeout_checker` under the server lock, run when the timeout has passed. -/
def hTimeoutChecker (srv : Server) : Server :=
  if srv.state.role = .leader ∨ srv.state.role = .observer ∨ srv.state.role = .shutdown then srv
  else if experimentCheat srv.state.woofName srv.state.currentTerm = true then startElection srv
  else srv

theorem hTimeoutChecker_cases (srv : Server) :
    hTimeoutChecker srv = srv ∨
      ((srv.state.role = .follower ∨ srv.state.role = .candidate) ∧
        hTimeoutChecker srv = startElection srv) := by
  unfold hTimeoutChecker
  split
  · exact .inl rfl
  · rename_i hrole
    split
    · refine .inr ⟨?_, rfl⟩
      cases h : srv.state.role <;> simp [h] at hrole ⊢
    · exact .inl rfl

def voteRequest (srv : Server) (election : Election) (votePoolSeqno latestLogEntry : Nat)
    (lastLogEntry : LogEntry) : RequestVoteArg where
  term := election.term
  candidateWoof := srv.state.woofName
  candidateVotePoolSeqno := votePoolSeqno
  lastLogIndex := latestLogEntry
  lastLogTerm := lastLogEntry.term

/-- The rest of `h_timeout_checker`, one read of a WooF at a time. -/
def continueElection (srv : Server) (k : Nat) : Option (Server × List Message) :=
  match srv.elections[k]? with
  | none => none
  | some election =>
    match election.phase with
    | .pool => some
        ({ srv with
           elections := srv.elections.set k { election with phase := .last srv.votePool.length } },
          [])
    | .last votePoolSeqno => some
        ({ srv with
           elections := srv.elections.set k
             { election with phase := .entry votePoolSeqno srv.log.latest } }, [])
    | .entry votePoolSeqno latestLogEntry =>
      let srv' := { srv with elections := srv.elections.eraseIdx k }
      -- the number of the last entry of an empty log asks for the latest entry
      match srv.log.get latestLogEntry with
      | none => some (srv', [])
      | some lastLogEntry => some (srv', election.memberWoofs.map fun woof =>
        .requestVote woof (voteRequest srv election votePoolSeqno latestLogEntry lastLogEntry))

theorem continueElection_cases {srv srv' : Server} {k : Nat} {messages : List Message}
    (h : continueElection srv k = some (srv', messages)) :
    ∃ election, srv.elections[k]? = some election ∧
      ((messages = [] ∧ ∃ phase,
          srv' = { srv with elections := srv.elections.set k { election with phase := phase } } ∧
          (phase = .last srv.votePool.length ∧ election.phase = .pool ∨
            ∃ seqno, phase = .entry seqno srv.log.latest ∧ election.phase = .last seqno)) ∨
        (srv' = { srv with elections := srv.elections.eraseIdx k } ∧
          ∃ seqno latest, election.phase = .entry seqno latest ∧
            (srv.log.get latest = none ∧ messages = [] ∨
              ∃ last, srv.log.get latest = some last ∧
                messages = election.memberWoofs.map fun woof =>
                  .requestVote woof (voteRequest srv election seqno latest last)))) := by
  unfold continueElection at h
  cases hk : srv.elections[k]? with
  | none => simp [hk] at h
  | some election =>
    refine ⟨election, rfl, ?_⟩
    simp only [hk] at h
    cases hphase : election.phase with
    | pool =>
      simp only [hphase] at h
      obtain ⟨rfl, rfl⟩ := h
      exact .inl ⟨rfl, _, rfl, .inl ⟨rfl, rfl⟩⟩
    | last seqno =>
      simp only [hphase] at h
      obtain ⟨rfl, rfl⟩ := h
      exact .inl ⟨rfl, _, rfl, .inr ⟨seqno, rfl, rfl⟩⟩
    | entry seqno latest =>
      simp only [hphase] at h
      cases hlast : srv.log.get latest with
      | none =>
        simp only [hlast] at h
        obtain ⟨rfl, rfl⟩ := h
        exact .inr ⟨rfl, seqno, latest, rfl, .inl ⟨hlast, rfl⟩⟩
      | some last =>
        simp only [hlast] at h
        obtain ⟨rfl, rfl⟩ := h
        exact .inr ⟨rfl, seqno, latest, rfl, .inr ⟨last, hlast, rfl⟩⟩

/-! ## Answering a candidate -/

def fallBack (state : ServerState) (term : Nat) (leader : Name) : ServerState :=
  { state with
    currentTerm := term
    role := .follower
    currentLeader := leader
    votedFor := [] }

/-- Is the log of the candidate not behind the one of the server?  None when the last entry
cannot be read. -/
def logUpToDate (log : RingLog LogEntry) (request : RequestVoteArg) : Option Bool :=
  if log.latest = 0 then some true
  else
    match log.get log.latest with
    | none => none
    | some last => some
        (!(decide (request.lastLogTerm < last.term) ||
          (decide (last.term = request.lastLogTerm) &&
            decide (request.lastLogIndex < log.latest))))

/-- The state in which a server of the same or a lower term looks at the request. -/
def enterTerm (state : ServerState) (request : RequestVoteArg) : ServerState :=
  if state.currentTerm < request.term then fallBack state request.term request.candidateWoof
  else state

def voteReply (request : RequestVoteArg) (term : Nat) (granted : Bool) (granter : Name) :
    List Message :=
  [.voteResult request.candidateWoof
    { term := term
      granted := granted
      candidateVotePoolSeqno := request.candidateVotePoolSeqno
      granter := granter }]

def hRequestVote (srv : Server) (request : RequestVoteArg) : Server × List Message :=
  if srv.state.role = .shutdown then (srv, [])
  else if srv.state.memberSlot request.candidateWoof = none then
    (srv, voteReply request 0 false [])
  else if request.term < srv.state.currentTerm then
    (srv, voteReply request srv.state.currentTerm false [])
  else
    let state := enterTerm srv.state request
    if state.votedFor = [] ∨ state.votedFor = request.candidateWoof then
      match logUpToDate srv.log request with
      | none => ({ srv with state := state }, [])
      | some false => ({ srv with state := state }, voteReply request state.currentTerm false [])
      | some true =>
        ({ srv with state := { state with votedFor := request.candidateWoof } },
          voteReply request state.currentTerm true state.woofName)
    else ({ srv with state := state }, voteReply request state.currentTerm false [])

/-- What a request changes: nothing, or the term alone, or the term and the vote.  Only the last
is answered with a vote. -/
theorem hRequestVote_cases (srv : Server) (request : RequestVoteArg) :
    ((hRequestVote srv request).1 = srv ∧
        ((hRequestVote srv request).2 = [] ∨
          (hRequestVote srv request).2 = voteReply request 0 false [] ∧
            srv.state.memberSlot request.candidateWoof = none ∨
          (hRequestVote srv request).2 = voteReply request srv.state.currentTerm false [] ∧
            request.term < srv.state.currentTerm)) ∨
      (srv.state.role ≠ .shutdown ∧ srv.state.memberSlot request.candidateWoof ≠ none ∧
        srv.state.currentTerm ≤ request.term ∧
        (((hRequestVote srv request).1 = { srv with state := enterTerm srv.state request } ∧
            ((hRequestVote srv request).2 = [] ∨
              (hRequestVote srv request).2 = voteReply request request.term false [])) ∨
          (((enterTerm srv.state request).votedFor = [] ∨
              (enterTerm srv.state request).votedFor = request.candidateWoof) ∧
            logUpToDate srv.log request = some true ∧
            (hRequestVote srv request).1 =
              { srv with
                state := { enterTerm srv.state request with votedFor := request.candidateWoof } } ∧
            (hRequestVote srv request).2 =
              voteReply request request.term true srv.state.woofName))) := by
  by_cases hdown : srv.state.role = .shutdown
  · exact .inl (by simp [hRequestVote, hdown])
  by_cases hslot : srv.state.memberSlot request.candidateWoof = none
  · exact .inl (by simp [hRequestVote, hdown, hslot])
  by_cases hlow : request.term < srv.state.currentTerm
  · exact .inl (by simp [hRequestVote, hdown, hslot, hlow])
  refine .inr ⟨hdown, hslot, by omega, ?_⟩
  have hterm : (enterTerm srv.state request).currentTerm = request.term := by
    unfold enterTerm fallBack
    split
    · rfl
    · omega
  have hname : (enterTerm srv.state request).woofName = srv.state.woofName := by
    unfold enterTerm fallBack
    split <;> rfl
  by_cases hvote : (enterTerm srv.state request).votedFor = [] ∨
      (enterTerm srv.state request).votedFor = request.candidateWoof
  · cases hlog : logUpToDate srv.log request with
    | none => exact .inl (by simp [hRequestVote, hdown, hslot, hlow, hvote, hlog])
    | some upToDate =>
      cases upToDate with
      | false => exact .inl (by simp [hRequestVote, hdown, hslot, hlow, hvote, hlog, hterm])
      | true =>
        exact .inr ⟨hvote, rfl,
          by simp [hRequestVote, hdown, hslot, hlow, hvote, hlog, hterm, hname]⟩
  · exact .inl (by simp [hRequestVote, hdown, hslot, hlow, hvote, hterm])

/-! ## Counting the answers -/

/-- The loop over the vote pool from number `voteSeq` on, with `count` results to go; none when
one cannot be read. -/
def countVotes (votePool : List RequestVoteResult) (members term : Nat) :
    (count voteSeq grantedVotes : Nat) → Option Nat
  | 0, _, grantedVotes => some grantedVotes
  | count + 1, voteSeq, grantedVotes =>
    match wooFGet historySizeShort votePool voteSeq with
    | none => none
    | some vote =>
      if vote.granted = true ∧ vote.term = term then
        if members / 2 < grantedVotes + 1 then some (grantedVotes + 1)
        else countVotes votePool members term count (voteSeq + 1) (grantedVotes + 1)
      else countVotes votePool members term count (voteSeq + 1) grantedVotes

def grantedVotes (srv : Server) (seqNo : Nat) (result : RequestVoteResult) : Option Nat :=
  countVotes srv.votePool srv.state.members result.term
    (seqNo - (result.candidateVotePoolSeqno + 1)) (result.candidateVotePoolSeqno + 1)
    (if result.granted = true then 1 else 0)

/-- The leader routines take over where those of an earlier term have stopped. -/
def startRoutines (srv : Server) : Server :=
  let replicateArg : ReplicateEntriesArg :=
    { term := srv.state.currentTerm
      lastSeenResultSeqno := (srv.replicateArg.map (·.lastSeenResultSeqno)).getD 0 }
  let forwardArg : ForwardPutResultArg :=
    { term := srv.state.currentTerm
      lastForwardedPutResult := (srv.forwardArg.map (·.lastForwardedPutResult)).getD 0 }
  { srv with
    replicateArg := some replicateArg
    replicating := srv.replicating ++ [replicateArg]
    forwardArg := some forwardArg
    forwarding := srv.forwarding ++ [⟨forwardArg, .queued⟩] }

def promote (srv : Server) (term : Nat) : Server :=
  startRoutines
    { srv with
      state :=
        { srv.state with
          currentTerm := term
          role := .leader
          currentLeader := srv.state.woofName
          votedFor := srv.state.woofName
          nextIndex := fun _ => srv.log.latest + 1
          matchIndex := fun _ => 0
          lastSentRequestSeq := fun _ => 0
          ackedRequestSeq := fun _ => 0 } }

def hCountVote (srv : Server) (seqNo : Nat) (result : RequestVoteResult) : Server :=
  if result.term = 0 then { srv with state := { srv.state with role := .shutdown } }
  else if result.term < srv.state.currentTerm then srv
  else if result.term = srv.state.currentTerm ∧ srv.state.role = .leader then srv
  else
    match grantedVotes srv seqNo result with
    | none => srv
    | some granted => if srv.state.members / 2 < granted then promote srv result.term else srv

/-- The result changes nothing, or it shuts the server down, or the candidate has won. -/
theorem hCountVote_cases (srv : Server) (seqNo : Nat) (result : RequestVoteResult) :
    hCountVote srv seqNo result = srv ∨
      (result.term = 0 ∧
        hCountVote srv seqNo result = { srv with state := { srv.state with role := .shutdown } }) ∨
      (0 < result.term ∧ srv.state.currentTerm ≤ result.term ∧
        ¬ (result.term = srv.state.currentTerm ∧ srv.state.role = .leader) ∧
        (∃ granted, grantedVotes srv seqNo result = some granted ∧
          srv.state.members / 2 < granted) ∧
        hCountVote srv seqNo result = promote srv result.term) := by
  by_cases hzero : result.term = 0
  · exact .inr (.inl ⟨hzero, by simp [hCountVote, hzero]⟩)
  by_cases hlow : result.term < srv.state.currentTerm
  · exact .inl (by simp [hCountVote, hzero, hlow])
  by_cases hleader : result.term = srv.state.currentTerm ∧ srv.state.role = .leader
  · exact .inl (by rw [hCountVote, if_neg hzero, if_neg hlow, if_pos hleader])
  rw [hCountVote, if_neg hzero, if_neg hlow, if_neg hleader]
  cases hgranted : grantedVotes srv seqNo result with
  | none => exact .inl rfl
  | some granted =>
    by_cases hmajority : srv.state.members / 2 < granted
    · exact .inr (.inr ⟨by omega, by omega, hleader, ⟨granted, rfl, hmajority⟩,
        by simp [hmajority]⟩)
    · exact .inl (by simp [hmajority])

/-! ## What is counted -/

def VoteFor (term : Nat) (vote : RequestVoteResult) : Prop :=
  vote.granted = true ∧ vote.term = term

instance (term : Nat) : DecidablePred (VoteFor term) := fun vote =>
  inferInstanceAs (Decidable (vote.granted = true ∧ vote.term = term))

/-- When every vote can be read, breaking off early does not change who wins. -/
theorem countVotes_of_read {votePool : List RequestVoteResult} (members term : Nat)
    (votes : List RequestVoteResult) (voteSeq granted : Nat)
    (hread : ∀ j (hj : j < votes.length),
      wooFGet historySizeShort votePool (voteSeq + j) = some (votes.get ⟨j, hj⟩)) :
    ∃ total, countVotes votePool members term votes.length voteSeq granted = some total ∧
      (members / 2 < total ↔ members / 2 < granted + votes.countP (VoteFor term)) := by
  induction votes generalizing voteSeq granted with
  | nil => exact ⟨granted, rfl, by simp⟩
  | cons vote votes ih =>
    have hfirst := hread 0 (by simp)
    have hrest : ∀ j (hj : j < votes.length),
        wooFGet historySizeShort votePool (voteSeq + 1 + j) = some (votes.get ⟨j, hj⟩) := by
      intro j hj
      have := hread (j + 1) (by simpa using hj)
      simpa [Nat.add_assoc, Nat.add_comm 1] using this
    simp only [Nat.add_zero, List.get_eq_getElem, List.getElem_cons_zero] at hfirst
    rw [List.length_cons, countVotes, hfirst]
    by_cases hvote : VoteFor term vote
    · have hcount : (vote :: votes).countP (VoteFor term) =
          votes.countP (VoteFor term) + 1 := by
        rw [List.countP_cons_of_pos (by simpa using hvote)]
      simp only [if_pos (show vote.granted = true ∧ vote.term = term from hvote), hcount]
      by_cases hover : members / 2 < granted + 1
      · exact ⟨granted + 1, by rw [if_pos hover], by omega⟩
      · obtain ⟨total, htotal, hiff⟩ := ih (voteSeq + 1) (granted + 1) hrest
        refine ⟨total, by rw [if_neg hover, htotal], ?_⟩
        omega
    · have hcount : (vote :: votes).countP (VoteFor term) = votes.countP (VoteFor term) := by
        rw [List.countP_cons_of_neg (by simpa using hvote)]
      simp only [if_neg (show ¬ (vote.granted = true ∧ vote.term = term) from hvote), hcount]
      exact ih (voteSeq + 1) granted hrest

end Cspot.Raft
