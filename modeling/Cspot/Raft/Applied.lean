import Cspot.Raft.Step

/-!
# Committed entries are looked at once

A leader raises its commit index and then goes through the entries it has committed; a
follower goes through them first and raises the index afterwards, so that it is always one
request behind.  As long as the commit index is raised by the leader routine alone, the
entries looked at are those up to the commit index, each once and in order.
-/

namespace Cspot.Raft

/-! ## Steps that do not commit -/

/-- Of what the loops over committed entries depend on, only the log has grown. -/
structure SameProgress (srv srv' : Server) : Prop where
  commitIndex : srv'.state.commitIndex = srv.state.commitIndex
  checked : srv'.state.lastCheckedCommittedEntry = srv.state.lastCheckedCommittedEntry
  applied : srv'.applied = srv.applied
  appending : srv'.appending = srv.appending
  log : srv.log.Extends srv'.log

theorem SameProgress.refl (srv : Server) : SameProgress srv srv :=
  ⟨rfl, rfl, rfl, rfl, RingLog.Extends.refl _⟩

theorem hTimeoutChecker_sameProgress (srv : Server) : SameProgress srv (hTimeoutChecker srv) := by
  rcases hTimeoutChecker_cases srv with h | ⟨-, h⟩
  · rw [h]
    exact SameProgress.refl srv
  · rw [h]
    exact ⟨rfl, rfl, rfl, rfl, RingLog.Extends.refl _⟩

variable {k : Nat} {messages : List Message} {request : AppendEntriesArg} {srv srv' : Server}

theorem continueElection_sameProgress (h : continueElection srv k = some (srv', messages)) :
    SameProgress srv srv' := by
  obtain ⟨election, -, ⟨-, phase, rfl, -⟩ | ⟨rfl, -⟩⟩ := continueElection_cases h
  · exact ⟨rfl, rfl, rfl, rfl, RingLog.Extends.refl _⟩
  · exact ⟨rfl, rfl, rfl, rfl, RingLog.Extends.refl _⟩

theorem enterTerm_progress (state : ServerState) (request : RequestVoteArg) :
    (enterTerm state request).commitIndex = state.commitIndex ∧
      (enterTerm state request).lastCheckedCommittedEntry = state.lastCheckedCommittedEntry := by
  unfold enterTerm
  split <;> exact ⟨rfl, rfl⟩

theorem hRequestVote_sameProgress (srv : Server) (request : RequestVoteArg) :
    SameProgress srv (hRequestVote srv request).1 := by
  obtain ⟨hcommit, hchecked⟩ := enterTerm_progress srv.state request
  rcases hRequestVote_cases srv request with ⟨h, -⟩ | ⟨-, -, -, ⟨h, -⟩ | ⟨-, -, h, -⟩⟩
  · rw [h]
    exact SameProgress.refl srv
  · rw [h]
    exact ⟨hcommit, hchecked, rfl, rfl, RingLog.Extends.refl _⟩
  · rw [h]
    exact ⟨hcommit, hchecked, rfl, rfl, RingLog.Extends.refl _⟩

theorem countWaiting_sameProgress (h : countWaiting srv k = some srv') : SameProgress srv srv' := by
  obtain ⟨seqNo, result, -, rfl⟩ := countWaiting_eq_some h
  rcases hCountVote_cases { srv with counting := srv.counting.eraseIdx k } seqNo result with
    h | ⟨-, h⟩ | ⟨-, -, -, -, h⟩
  all_goals
    rw [h]
    exact ⟨rfl, rfl, rfl, rfl, RingLog.Extends.refl _⟩

theorem hClientPut_sameProgress (h : hClientPut srv = some (srv', messages)) :
    SameProgress srv srv' := by
  obtain ⟨_, _, _, entries, _, _, -, rfl, -⟩ := hClientPut_cases h
  exact ⟨rfl, rfl, rfl, rfl, ⟨entries, rfl⟩⟩

theorem readForward_sameProgress (h : readForward srv k = some srv') : SameProgress srv srv' := by
  obtain ⟨_, rfl⟩ := readForward_cases h
  exact ⟨rfl, rfl, rfl, rfl, RingLog.Extends.refl _⟩

theorem hForwardPutResult_sameProgress {failed : List Nat}
    (h : hForwardPutResult srv k failed = some srv') : SameProgress srv srv' := by
  obtain ⟨_, _, _, rfl⟩ := hForwardPutResult_cases h
  exact ⟨rfl, rfl, rfl, rfl, RingLog.Extends.refl _⟩

theorem hConfigChange_sameProgress (srv : Server) (arg : ConfigChangeArg) :
    SameProgress srv (hConfigChange srv arg) := by
  unfold hConfigChange
  split
  · split <;> exact ⟨rfl, rfl, rfl, rfl, RingLog.Extends.refl _⟩
  split
  · exact ⟨rfl, rfl, rfl, rfl, RingLog.Extends.refl _⟩
  split
  · exact ⟨rfl, rfl, rfl, rfl, RingLog.Extends.refl _⟩
  split
  · exact SameProgress.refl srv
  · exact ⟨rfl, rfl, rfl, rfl, RingLog.Extends.append _ _⟩

theorem run_sameProgress {input : Input} (happend : ∀ request, input ≠ .appendEntries request)
    (hfinish : input ≠ .finishAppend) (hreplicate : ∀ k due, input ≠ .replicate k due)
    (h : srv.run input = some (srv', messages)) :
    SameProgress srv srv' := by
  cases input with
  | timeout =>
    obtain ⟨rfl, rfl⟩ := h
    exact hTimeoutChecker_sameProgress srv
  | election k => exact continueElection_sameProgress h
  | requestVote request =>
    have := hRequestVote_sameProgress srv request
    rwa [Option.some.inj h] at this
  | voteResult result =>
    obtain ⟨rfl, rfl⟩ := h
    exact ⟨rfl, rfl, rfl, rfl, RingLog.Extends.refl _⟩
  | countVote k =>
    obtain ⟨_, hcount, ⟨⟩⟩ := Option.map_eq_some_iff.1 h
    exact countWaiting_sameProgress hcount
  | appendEntries request => exact absurd rfl (happend request)
  | finishAppend => exact absurd rfl hfinish
  | appendResult result =>
    obtain ⟨rfl, rfl⟩ := h
    exact ⟨rfl, rfl, rfl, rfl, RingLog.Extends.refl _⟩
  | replicate k due => exact absurd rfl (hreplicate k due)
  | putRequest request =>
    obtain ⟨rfl, rfl⟩ := h
    exact ⟨rfl, rfl, rfl, rfl, RingLog.Extends.refl _⟩
  | readClientPut =>
    obtain ⟨_, hread, ⟨⟩⟩ := Option.map_eq_some_iff.1 h
    obtain ⟨_, -, rfl⟩ := readClientPut_eq_some hread
    exact ⟨rfl, rfl, rfl, rfl, RingLog.Extends.refl _⟩
  | clientPut => exact hClientPut_sameProgress h
  | readForward k =>
    obtain ⟨_, hread, ⟨⟩⟩ := Option.map_eq_some_iff.1 h
    exact readForward_sameProgress hread
  | forward k failed =>
    obtain ⟨_, hforward, ⟨⟩⟩ := Option.map_eq_some_iff.1 h
    exact hForwardPutResult_sameProgress hforward
  | configChange arg =>
    obtain ⟨rfl, rfl⟩ := h
    exact hConfigChange_sameProgress srv arg

/-! ## The entries looked at -/

/-- The entries looked at are those up to the commit index, each once and in order, and they
stand in the log for as long as its history goes. -/
structure AppliedOnce (srv : Server) : Prop where
  checked : srv.state.lastCheckedCommittedEntry = srv.state.commitIndex
  turns : srv.applied.map Prod.fst = List.range' 1 srv.state.commitIndex
  entries : ∀ turn ∈ srv.applied,
    srv.log.read turn.1 = some turn.2 ∨ turn.1 < srv.log.earliest

/-- A request under way does not lower or raise the commit index. -/
structure Orderly (srv : Server) : Prop extends AppliedOnce srv where
  logged : srv.state.commitIndex ≤ srv.log.latest
  appending : ∀ a, srv.appending = some a →
    a.state.commitIndex = srv.state.commitIndex ∧
      a.state.lastCheckedCommittedEntry = srv.state.lastCheckedCommittedEntry ∧
      a.request.leaderCommit ≤ srv.state.commitIndex

/-- The entries that have not been looked at can be read, and their numbers fit the counter of
the loops. -/
def ReadsSucceed (srv : Server) : Prop :=
  srv.log.earliest ≤ srv.state.lastCheckedCommittedEntry + 1 ∧ srv.log.latest < 2 ^ 32

/-- A request from a leader neither raises the commit index nor asks for a truncation below
it. -/
def KeepsCommit (srv : Server) (input : Input) : Prop :=
  ReadsSucceed srv ∧ Regular srv input ∧
    match input with
    | .appendEntries request => request.leaderCommit ≤ srv.state.commitIndex ∧
        srv.state.commitIndex ≤ request.prevLogIndex
    | _ => True

instance (srv : Server) (input : Input) : Decidable (KeepsCommit srv input) := by
  unfold KeepsCommit ReadsSucceed
  rcases input <;> infer_instance

theorem Orderly.sameProgress (h : Orderly srv) (hlog : SoundLog srv.log)
    (hsame : SameProgress srv srv') : Orderly srv' := by
  refine ⟨⟨?_, ?_, ?_⟩, ?_, ?_⟩
  · rw [hsame.checked, hsame.commitIndex, h.checked]
  · rw [hsame.applied, hsame.commitIndex, h.turns]
  · intro turn hturn
    rw [hsame.applied] at hturn
    rcases h.entries turn hturn with hread | hgone
    · exact hlog.read_extends hsame.log hread
    · exact .inr (Nat.lt_of_lt_of_le hgone hsame.log.earliest_le)
  · rw [hsame.commitIndex]
    exact Nat.le_trans h.logged hsame.log.latest_le
  · intro a ha
    rw [hsame.appending] at ha
    rw [hsame.commitIndex, hsame.checked]
    exact h.appending a ha

/-! ## The follower -/

theorem acceptLeader_progress (state : ServerState) (request : AppendEntriesArg) :
    (acceptLeader state request).commitIndex = state.commitIndex ∧
      (acceptLeader state request).lastCheckedCommittedEntry =
        state.lastCheckedCommittedEntry := by
  unfold acceptLeader fallBack
  split <;> split <;> try exact ⟨rfl, rfl⟩
  split <;> exact ⟨rfl, rfl⟩

theorem adoptConfig_progress (state : ServerState) (entry : LogEntry) (seq : Nat)
    (memberWoofs : List Name) :
    (adoptConfig state entry seq memberWoofs).commitIndex = state.commitIndex ∧
      (adoptConfig state entry seq memberWoofs).lastCheckedCommittedEntry =
        state.lastCheckedCommittedEntry := by
  unfold adoptConfig
  dsimp only
  split <;> exact ⟨rfl, rfl⟩

theorem Orderly.appendEntries (h : Orderly srv) (hlog : SoundLog srv.log)
    (hregular : Regular srv (.appendEntries request))
    (hcommit : request.leaderCommit ≤ srv.state.commitIndex)
    (hprev : srv.state.commitIndex ≤ request.prevLogIndex) (hfree : srv.appending = none) :
    Orderly (hAppendEntries srv request).1 := by
  obtain ⟨hsame, hchecked⟩ := acceptLeader_progress srv.state request
  have haccept : Orderly { srv with state := acceptLeader srv.state request } :=
    ⟨⟨hchecked.trans (h.checked.trans hsame.symm), by rw [hsame]; exact h.turns, h.entries⟩,
      by rw [hsame]; exact h.logged, by simp [hfree]⟩
  rcases hAppendEntries_cases srv request with
    ⟨heq, -⟩ | ⟨-, -, -, ⟨heq, -⟩ | ⟨-, -, -, heq⟩⟩
  · rw [heq]
    exact h
  · rw [heq]
    exact haccept
  rw [heq]
  rcases dropConflicts_cases { srv with state := acceptLeader srv.state request } request with
    hexit | ⟨log, state, hgoes, ⟨rfl, rfl⟩ | ⟨hlong, hcut, rfl⟩⟩
  · rw [hexit]
    exact haccept
  · rw [hgoes]
    refine ⟨⟨haccept.checked, haccept.turns, haccept.entries⟩, haccept.logged, ?_⟩
    intro a ha
    obtain rfl := Option.some.inj ha
    exact ⟨rfl, rfl, by rw [hsame]; exact hcommit⟩
  · -- what is cut off lies behind the commit index
    rw [hgoes]
    obtain ⟨hpos, hround⟩ := hregular hlong
    obtain ⟨-, hlatest, hearliest, hread⟩ := hlog.truncate hround hpos hlong hcut
    refine ⟨⟨haccept.checked, haccept.turns, ?_⟩, ?_, ?_⟩
    · intro turn hturn
      have hturn' : turn.1 ∈ List.range' 1 srv.state.commitIndex :=
        h.turns ▸ List.mem_map_of_mem hturn
      rw [List.mem_range'_1] at hturn'
      rw [hread, if_pos (by omega)]
      exact (h.entries turn hturn).imp_right (Nat.lt_of_lt_of_le · hearliest)
    · rw [hsame, hlatest]
      exact hprev
    · intro a ha
      obtain rfl := Option.some.inj ha
      refine ⟨?_, rfl, by rw [hsame]; exact hcommit⟩
      show min (acceptLeader srv.state request).commitIndex request.prevLogIndex = _
      rw [hsame]
      omega

theorem Orderly.finishAppend (h : Orderly srv) (hlog : SoundLog srv.log)
    (hfinish : finishAppend srv = some (srv', messages)) :
    Orderly srv' := by
  unfold Raft.finishAppend at hfinish
  split at hfinish
  · simp at hfinish
  rename_i request state happending
  obtain ⟨hcommit, hchecked, hleader⟩ := h.appending _ happending
  dsimp only at hcommit hchecked hleader
  obtain ⟨appended, state', heq, ⟨hcommit', hchecked'⟩, -, hfinal⟩ := appendAll_spec
    (P := fun st => st.commitIndex = srv.state.commitIndex ∧
      st.lastCheckedCommittedEntry = srv.state.lastCheckedCommittedEntry) request.entries
    (fun entry _ _ st seq memberWoofs _ _ hst =>
      ⟨(adoptConfig_progress st entry seq memberWoofs).1.trans hst.1,
        (adoptConfig_progress st entry seq memberWoofs).2.trans hst.2⟩)
    { srv with appending := none } state ⟨rfl, rfl⟩ ⟨hcommit, hchecked⟩
  have horderly : Orderly (appendAll request.entries { srv with appending := none } state).1 := by
    rw [heq]
    have hext : srv.log.Extends (srv.log.appendAll appended) := ⟨appended, rfl⟩
    refine ⟨⟨hchecked'.trans (h.checked.trans hcommit'.symm), ?_, ?_⟩, ?_, by simp⟩
    · show srv.applied.map Prod.fst = List.range' 1 state'.commitIndex
      rw [hcommit']
      exact h.turns
    · intro turn hturn
      rcases h.entries turn hturn with hread | hgone
      · exact hlog.read_extends hext hread
      · exact .inr (Nat.lt_of_lt_of_le hgone hext.earliest_le)
    · show state'.commitIndex ≤ _
      rw [hcommit']
      exact Nat.le_trans h.logged hext.latest_le
  split at hfinish
  · rename_i heq'
    simp only [Option.some.injEq, Prod.mk.injEq] at hfinish
    rw [heq'] at horderly
    exact hfinish.1 ▸ horderly
  · rename_i final heq'
    rw [heq'] at horderly hfinal
    obtain ⟨⟨hfinalCommit, -⟩, -⟩ := hfinal final rfl
    rw [if_neg (by omega)] at hfinish
    simp only [Option.some.injEq, Prod.mk.injEq] at hfinish
    exact hfinish.1 ▸ horderly

/-! ## The leader -/

theorem Orderly.replicated {noted state' : ServerState} {term : Nat} (h : Orderly srv)
    (hlog : SoundLog srv.log) (hreads : ReadsSucceed srv) (hstable : noted.currentConfig = .stable)
    (hfree : srv.appending = none)
    (hcommit : noted.commitIndex = srv.state.commitIndex)
    (hchecked : noted.lastCheckedCommittedEntry = srv.state.lastCheckedCommittedEntry)
    (hupdate : updateCommitIndex srv noted = some (srv', state')) :
    Orderly (replicated srv' state' term) := by
  obtain ⟨rfl, c, rfl⟩ := updateCommitIndex_stable hupdate hstable
  rw [h.checked] at hchecked
  -- the new commit index is the old one or the number of an entry of the log
  have hbounds : srv'.state.commitIndex ≤ c ∧ c ≤ srv'.log.latest := by
    rcases updateCommitIndex_scanned hupdate with hsame | hscan
    · have hc : c = srv'.state.commitIndex := hsame.trans hcommit
      exact ⟨by omega, by rw [hc]; exact h.logged⟩
    · obtain ⟨-, hgt, entry, hget, -⟩ := commitScan_eq_some hscan
      dsimp only at hgt hget
      rw [RingLog.get_of_pos _ (by omega)] at hget
      exact ⟨by omega, (RingLog.le_latest_of_read hget).2⟩
  have hlow := hreads.1
  rw [h.checked] at hlow
  have hread : ∀ j < c - srv'.state.commitIndex,
      ∃ entry, srv'.log.get (srv'.state.commitIndex + 1 + j) = some entry := by
    intro j hj
    rw [RingLog.get_of_pos _ (by omega)]
    exact hlog.exists_read (by omega) (by omega)
  obtain ⟨hok, hturns⟩ := applyTurns_of_read (some .zero) hread
  obtain ⟨done, -, hmap, hdone⟩ := applyTurns_spec srv'.log (some .zero)
    (c - srv'.state.commitIndex) (srv'.state.commitIndex + 1)
  rw [hdone hok] at hmap
  have hlen := congrArg List.length hmap
  rw [List.length_map, List.length_range'] at hlen
  simp only [Raft.replicated, hchecked]
  refine ⟨⟨?_, ?_, ?_⟩, hbounds.2, ?_⟩
  · show srv'.state.commitIndex + _ = c
    rw [hlen]
    omega
  · show (srv'.applied ++ _).map Prod.fst = List.range' 1 c
    rw [List.map_append, hmap, h.turns, Nat.add_comm srv'.state.commitIndex 1,
      List.range'_append_1]
    congr 1
    omega
  · intro turn hturn
    rcases List.mem_append.1 hturn with hold | hnew
    · exact h.entries turn hold
    · left
      have hget := hturns turn hnew
      have hpos : turn.1 ∈ List.range' (srv'.state.commitIndex + 1)
          (c - srv'.state.commitIndex) := hmap ▸ List.mem_map_of_mem hnew
      rw [List.mem_range'_1] at hpos
      rwa [RingLog.get_of_pos _ (by omega)] at hget
  · intro a ha
    have : srv'.appending = some a := ha
    rw [hfree] at this
    cases this

theorem Orderly.replicate {due : List Nat} (h : Orderly srv) (hlog : SoundLog srv.log)
    (hreads : ReadsSucceed srv) (hstable : srv.state.currentConfig = .stable)
    (hfree : srv.appending = none) (hrun : hReplicateEntries srv k due = some (srv', messages)) :
    Orderly srv' := by
  have herase : Orderly { srv with replicating := srv.replicating.eraseIdx k } :=
    h.sameProgress hlog ⟨rfl, rfl, rfl, rfl, RingLog.Extends.refl _⟩
  obtain ⟨arg, -, ⟨rfl, -⟩ | ⟨-, -, -, rfl | ⟨state, hsend, rfl⟩⟩⟩ := hReplicateEntries_cases hrun
  · exact herase
  · exact herase
  · obtain ⟨matchIndex, lastSent, rfl, -⟩ := (sendEntries_spec _ _ _ _).1 state hsend
    rcases finishReplicate_cases { srv with replicating := srv.replicating.eraseIdx k } arg _ with
      heq | ⟨fallen, hfell, heq⟩ | ⟨noted, srv₁, state₁, hnoted, hupdate, heq⟩
    · rw [heq]
      exact herase
    · rw [heq]
      obtain ⟨noted, result, m, ⟨_, _, _, rfl, -⟩, -, -, -, -, rfl⟩ := hfell
      exact h.sameProgress hlog ⟨rfl, rfl, rfl, rfl, RingLog.Extends.refl _⟩
    · rw [heq]
      obtain ⟨_, _, _, hsame, -⟩ := hnoted
      exact herase.replicated hlog hreads (by rw [hsame]; exact hstable) hfree (by rw [hsame])
        (by rw [hsame]) hupdate

/-! ## Whole runs -/

theorem Orderly.step {input : Input} (h : Orderly srv) (hlog : SoundLog srv.log)
    (hkeeps : KeepsCommit srv input)
    (hstep : srv.step input = some (srv', messages)) : Orderly srv' := by
  obtain ⟨hrun, hfree⟩ := Server.step_eq_some hstep
  cases input with
  | appendEntries request =>
    have := h.appendEntries hlog hkeeps.2.1 hkeeps.2.2.1 hkeeps.2.2.2 (hfree rfl)
    rwa [Option.some.inj hrun] at this
  | finishAppend => exact h.finishAppend hlog hrun
  | replicate k due =>
    exact h.replicate hlog hkeeps.1 hkeeps.2.1 (hfree rfl) hrun
  | _ =>
    exact h.sameProgress hlog (run_sameProgress (by simp) (by simp) (by simp) hrun)

def loneLeader : Option Server :=
  let name := Bytes.ofString "128.111.45"
  (startServer name [name] false (emptyLog.append .zero)).play KeepsCommit
    [.timeout, .election 0, .election 0, .election 0, .requestVote ⟨1, name, 0, 1, 0⟩,
      .voteResult ⟨1, true, 0, name⟩, .countVote 0, .putRequest ⟨[7], true, [], [], [], 0, []⟩,
      .readClientPut, .clientPut, .replicate 0 []]

def informedFollower : Option Server :=
  (startServer [98] [[97], [98]] false emptyLog).play (fun _ _ => True)
    [.appendEntries ⟨1, [97], 0, 0, 0, 1, [{ term := 1, isHandler := true }]⟩, .finishAppend,
      .appendEntries ⟨1, [97], 1, 1, 1, 2, []⟩]

end Cspot.Raft
