import Cspot.Raft.Voting

/-!
# The replication handlers

A leader sends its members the entries they lack, reads what they have answered and raises
its commit index; a follower checks that the entries fit its log and appends them.  Both go
through the entries that have been committed.
-/

namespace Cspot.Raft

/-! ## Committed entries -/

/-- The turns of a loop over `count` log entries from number `i` on, and whether it came to its
end; `missing` takes the place of an entry that cannot be read. -/
def applyTurns (log : RingLog LogEntry) (missing : Option LogEntry) :
    (count i : Nat) → List (Nat × LogEntry) × Bool
  | 0, _ => ([], true)
  | count + 1, i =>
    match (log.get i).or missing with
    | none => ([], false)
    | some entry =>
      let rest := applyTurns log missing count (i + 1)
      ((i, entry) :: rest.1, rest.2)

theorem applyTurns_spec (log : RingLog LogEntry) (missing : Option LogEntry) (count i : Nat) :
    ∃ done ≤ count, (applyTurns log missing count i).1.map Prod.fst = List.range' i done ∧
      ((applyTurns log missing count i).2 = true → done = count) := by
  induction count generalizing i with
  | zero => exact ⟨0, Nat.le_refl _, rfl, fun _ => rfl⟩
  | succ count ih =>
    rw [applyTurns]
    cases (log.get i).or missing with
    | none => exact ⟨0, Nat.zero_le _, rfl, by simp⟩
    | some entry =>
      obtain ⟨done, hle, hmap, hall⟩ := ih (i + 1)
      refine ⟨done + 1, by omega, ?_, fun hok => by rw [hall hok]⟩
      rw [List.map_cons, hmap, List.range'_succ]

theorem applyTurns_of_read {log : RingLog LogEntry} (missing : Option LogEntry) {count i : Nat}
    (hread : ∀ j < count, ∃ entry, log.get (i + j) = some entry) :
    (applyTurns log missing count i).2 = true ∧
      ∀ turn ∈ (applyTurns log missing count i).1, log.get turn.1 = some turn.2 := by
  induction count generalizing i with
  | zero => simp [applyTurns]
  | succ count ih =>
    obtain ⟨entry, hentry⟩ := hread 0 (by omega)
    rw [Nat.add_zero] at hentry
    obtain ⟨hok, hturns⟩ := ih (i := i + 1) fun j hj => by
      obtain ⟨entry, hentry⟩ := hread (j + 1) (by omega)
      exact ⟨entry, by rw [← hentry]; congr 1; omega⟩
    simp only [applyTurns, hentry, Option.some_or, List.mem_cons]
    refine ⟨hok, ?_⟩
    rintro turn (rfl | hturn)
    · exact hentry
    · exact hturns turn hturn

theorem applyTurns_of_missing (log : RingLog LogEntry) (entry : LogEntry) (count i : Nat) :
    (applyTurns log (some entry) count i).2 = true := by
  induction count generalizing i with
  | zero => rfl
  | succ count ih =>
    rw [applyTurns, Option.or_some]
    exact ih (i + 1)

/-- Go through the entries up to the commit index of `state` that have not been looked at. -/
def applyCommitted (missing : Option LogEntry) (srv : Server) (state : ServerState) :
    Server × Option ServerState :=
  let turns := applyTurns srv.log missing (state.commitIndex - state.lastCheckedCommittedEntry)
    (state.lastCheckedCommittedEntry + 1)
  ({ srv with applied := srv.applied ++ turns.1 },
    if turns.2 = true then some
      { state with
        lastCheckedCommittedEntry := state.lastCheckedCommittedEntry + turns.1.length }
    else none)

/-- The loop of the follower gives up at an entry it cannot read. -/
def invokeHandlerAndMapTopicIndex (srv : Server) (state : ServerState) :
    Server × Option ServerState :=
  applyCommitted none srv state

/-- The loop of the leader goes on with a zeroed entry. -/
def invokeCommitHandlerAndMapTopicIndex (srv : Server) (state : ServerState) :
    Server × Option ServerState :=
  applyCommitted (some .zero) srv state

/-! ## The follower -/

def appendReply (srv : Server) (request : AppendEntriesArg) (term : Nat) (success : Bool)
    (lastEntrySeq : Nat) : List Message :=
  [.appendResult request.leaderWoof
    { serverWoof := srv.state.woofName
      term := term
      success := success
      lastEntrySeq := lastEntrySeq
      ackSeq := request.ackSeq }]

/-- The state in which a server takes a request of its own or a higher term. -/
def acceptLeader (state : ServerState) (request : AppendEntriesArg) : ServerState :=
  if state.role = .observer then
    if state.currentTerm < request.term then
      { state with currentTerm := request.term, currentLeader := request.leaderWoof }
    else state
  else if state.currentTerm < request.term then
    fallBack state request.term request.leaderWoof
  else if state.role ≠ .follower then
    { state with role := .follower, currentLeader := request.leaderWoof }
  else state

@[simp] theorem acceptLeader_woofName (state : ServerState) (request : AppendEntriesArg) :
    (acceptLeader state request).woofName = state.woofName := by
  unfold acceptLeader fallBack
  split <;> split <;> try rfl
  split <;> rfl

theorem acceptLeader_term {state : ServerState} {request : AppendEntriesArg}
    (hle : state.currentTerm ≤ request.term) :
    (acceptLeader state request).currentTerm = request.term := by
  unfold acceptLeader fallBack
  split
  · split
    · rfl
    · omega
  split
  · rfl
  split
  · show state.currentTerm = request.term
    omega
  · omega

theorem acceptLeader_role (state : ServerState) (request : AppendEntriesArg) :
    (acceptLeader state request).role ≠ .leader := by
  unfold acceptLeader fallBack
  split
  · rename_i hobserver
    split <;> simp [hobserver]
  split
  · simp
  split
  · simp
  · rename_i hfollower
    simp only [ne_eq, not_not] at hfollower
    simp [hfollower]

/-- Is the entry in front of the request the one the leader has there?  None when it cannot be
read. -/
def previousMatches (log : RingLog LogEntry) (request : AppendEntriesArg) : Option Bool :=
  if request.prevLogIndex = 0 then some true
  else (log.get request.prevLogIndex).map fun entry => entry.term = request.prevLogTerm

/-- Delete whatever stands behind the previous entry; the handler exits when it cannot. -/
def dropConflicts (srv : Server) (request : AppendEntriesArg) : Server :=
  if request.prevLogIndex < srv.log.latest then
    match srv.log.truncate request.prevLogIndex with
    | none => srv
    | some log =>
      { srv with
        log := log
        appending := some
          { request
            state :=
              { srv.state with commitIndex := min srv.state.commitIndex request.prevLogIndex } } }
  else { srv with appending := some { request, state := srv.state } }

theorem dropConflicts_cases (srv : Server) (request : AppendEntriesArg) :
    dropConflicts srv request = srv ∨
      ∃ log state,
        dropConflicts srv request =
            { srv with log := log, appending := some { request, state } } ∧
          (log = srv.log ∧ state = srv.state ∨
            request.prevLogIndex < srv.log.latest ∧
              srv.log.truncate request.prevLogIndex = some log ∧
              state =
                { srv.state with
                  commitIndex := min srv.state.commitIndex request.prevLogIndex }) := by
  unfold dropConflicts
  by_cases hlong : request.prevLogIndex < srv.log.latest
  · rw [if_pos hlong]
    cases hcut : srv.log.truncate request.prevLogIndex with
    | none => exact .inl rfl
    | some log => exact .inr ⟨log, _, rfl, .inr ⟨hlong, rfl, rfl⟩⟩
  · rw [if_neg hlong]
    exact .inr ⟨srv.log, srv.state, rfl, .inl ⟨rfl, rfl⟩⟩

/-- `h_append_entries` up to the point where it takes the log lock. -/
def hAppendEntries (srv : Server) (request : AppendEntriesArg) : Server × List Message :=
  if srv.state.memberSlot request.leaderWoof = none then (srv, [])
  else if request.term < srv.state.currentTerm then
    (srv, appendReply srv request srv.state.currentTerm false srv.log.latest)
  else if request.term = srv.state.currentTerm ∧ srv.state.role = .leader then (srv, [])
  else
    let srv := { srv with state := acceptLeader srv.state request }
    if srv.log.latest < request.prevLogIndex then
      (srv, appendReply srv request request.term false srv.log.latest)
    else
      match previousMatches srv.log request with
      | none => (srv, [])
      | some false => (srv, appendReply srv request request.term false (request.prevLogIndex - 1))
      | some true => (dropConflicts srv request, [])

/-- The request is answered, with or without a look at the log, or it goes on to the log
lock. -/
theorem hAppendEntries_cases (srv : Server) (request : AppendEntriesArg) :
    ((hAppendEntries srv request).1 = srv ∧
        ((hAppendEntries srv request).2 = [] ∨
          request.term < srv.state.currentTerm ∧
            srv.state.memberSlot request.leaderWoof ≠ none ∧
            (hAppendEntries srv request).2 =
              appendReply srv request srv.state.currentTerm false srv.log.latest)) ∨
      (srv.state.memberSlot request.leaderWoof ≠ none ∧ srv.state.currentTerm ≤ request.term ∧
        ¬ (request.term = srv.state.currentTerm ∧ srv.state.role = .leader) ∧
        (((hAppendEntries srv request).1 =
              { srv with state := acceptLeader srv.state request } ∧
            ((hAppendEntries srv request).2 = [] ∨
              srv.log.latest < request.prevLogIndex ∧
                (hAppendEntries srv request).2 =
                  appendReply srv request request.term false srv.log.latest ∨
              request.prevLogIndex ≤ srv.log.latest ∧
                previousMatches srv.log request = some false ∧
                (hAppendEntries srv request).2 =
                  appendReply srv request request.term false (request.prevLogIndex - 1))) ∨
          (request.prevLogIndex ≤ srv.log.latest ∧ previousMatches srv.log request = some true ∧
            (hAppendEntries srv request).2 = [] ∧
            (hAppendEntries srv request).1 =
              dropConflicts { srv with state := acceptLeader srv.state request } request))) := by
  by_cases hslot : srv.state.memberSlot request.leaderWoof = none
  · exact .inl (by simp [hAppendEntries, hslot])
  by_cases hlow : request.term < srv.state.currentTerm
  · exact .inl (by simp [hAppendEntries, hslot, hlow])
  by_cases hleader : request.term = srv.state.currentTerm ∧ srv.state.role = .leader
  · refine .inl ?_
    rw [hAppendEntries, if_neg hslot, if_neg hlow, if_pos hleader]
    exact ⟨rfl, .inl rfl⟩
  refine .inr ⟨hslot, by omega, hleader, ?_⟩
  rw [hAppendEntries, if_neg hslot, if_neg hlow, if_neg hleader]
  by_cases hshort : srv.log.latest < request.prevLogIndex
  · exact .inl (by simp [hshort, appendReply])
  simp only [hshort, if_false]
  cases hprev : previousMatches srv.log request with
  | none => exact .inl ⟨rfl, .inl rfl⟩
  | some agrees =>
    cases agrees with
    | false =>
      exact .inl ⟨rfl, .inr (.inr ⟨by omega, rfl, by simp [appendReply]⟩)⟩
    | true => exact .inr ⟨by omega, rfl, rfl, rfl⟩

/-- Use the configuration of an entry that has been appended. -/
def adoptConfig (state : ServerState) (entry : LogEntry) (seq : Nat) (memberWoofs : List Name) :
    ServerState :=
  let state :=
    { state with
      members := memberWoofs.length
      lastConfigSeqno := seq
      currentConfig :=
        match entry.isConfig with
        | .joint => .joint
        | .new => .stable
        | .not => state.currentConfig
      memberWoofs := slots memberWoofs }
  -- the slot of a server that is not in the array is -1
  let joins :=
    match memberId state.woofName state.memberWoofs with
    | none => true
    | some m => decide (m < state.members)
  if state.role = .observer ∧ joins = true then { state with role := .follower } else state

/-- The loop over the entries of a request, none when a configuration cannot be read. -/
def appendAll : List LogEntry → Server → ServerState → Server × Option ServerState
  | [], srv, state => (srv, some state)
  | entry :: entries, srv, state =>
    let srv := { srv with log := srv.log.append entry }
    if entry.isConfig = .not then appendAll entries srv state
    else
      match decodeConfig entry.data with
      | none => (srv, none)
      | some (memberWoofs, _) =>
        let state := adoptConfig state entry srv.log.latest memberWoofs
        appendAll entries { srv with state := state } state

theorem appendAll_spec {P : ServerState → Prop} (entries : List LogEntry)
    (hadopt : ∀ entry ∈ entries, entry.isConfig ≠ .not → ∀ state seq memberWoofs len,
      decodeConfig entry.data = some (memberWoofs, len) → P state →
      P (adoptConfig state entry seq memberWoofs))
    (srv : Server) (state : ServerState) (hsrv : P srv.state) (hstate : P state) :
    ∃ appended state', (appendAll entries srv state).1 =
        { srv with log := srv.log.appendAll appended, state := state' } ∧ P state' ∧
      (∀ entry ∈ appended, entry ∈ entries) ∧
      ∀ final, (appendAll entries srv state).2 = some final → P final ∧ appended = entries := by
  induction entries generalizing srv state with
  | nil =>
    refine ⟨[], srv.state, rfl, hsrv, by simp, ?_⟩
    intro final hfinal
    simp only [appendAll, Option.some.injEq] at hfinal
    exact ⟨hfinal ▸ hstate, rfl⟩
  | cons entry entries ih =>
    have hrest : ∀ e ∈ entries, e.isConfig ≠ .not → ∀ state seq memberWoofs len,
        decodeConfig e.data = some (memberWoofs, len) → P state →
        P (adoptConfig state e seq memberWoofs) :=
      fun e he => hadopt e (List.mem_cons_of_mem _ he)
    have hcons : ∀ {appended : List LogEntry}, (∀ e ∈ appended, e ∈ entries) →
        ∀ e ∈ entry :: appended, e ∈ entry :: entries := by
      intro appended hsub e he
      rcases List.mem_cons.1 he with rfl | he
      · exact List.mem_cons_self ..
      · exact List.mem_cons_of_mem _ (hsub e he)
    simp only [appendAll]
    split
    · obtain ⟨appended, state', heq, hP, hsub, hfinal⟩ :=
        ih hrest { srv with log := srv.log.append entry } state hsrv hstate
      exact ⟨entry :: appended, state', heq, hP, hcons hsub, fun final h =>
        ⟨(hfinal final h).1, by rw [(hfinal final h).2]⟩⟩
    · rename_i hconfig
      split
      · exact ⟨[entry], srv.state, rfl, hsrv, by simp, by simp⟩
      · rename_i memberWoofs len hdecode
        have hnew := hadopt entry (List.mem_cons_self ..) hconfig state
          (srv.log.append entry).latest memberWoofs len hdecode hstate
        obtain ⟨appended, state', heq, hP, hsub, hfinal⟩ :=
          ih hrest { srv with
            log := srv.log.append entry
            state := adoptConfig state entry (srv.log.append entry).latest memberWoofs }
            _ hnew hnew
        exact ⟨entry :: appended, state', heq, hP, hcons hsub, fun final h =>
          ⟨(hfinal final h).1, by rw [(hfinal final h).2]⟩⟩

/-- The rest of `h_append_entries`.  The committed entries are looked at before the commit index
is raised. -/
def finishAppend (srv : Server) : Option (Server × List Message) :=
  match srv.appending with
  | none => none
  | some ⟨request, state⟩ =>
    match appendAll request.entries { srv with appending := none } state with
    | (srv, none) => some (srv, [])
    | (srv, some state) =>
      let reply := appendReply srv request request.term true srv.log.latest
      if state.commitIndex < request.leaderCommit then
        match invokeHandlerAndMapTopicIndex srv state with
        | (srv, none) => some (srv, [])
        | (srv, some state) => some
            ({ srv with
               state :=
                 { state with commitIndex := min request.leaderCommit srv.log.latest } }, reply)
      else some (srv, reply)

/-- The entries are appended, all of them if there is a reply, and the state that is put has what
the states before it and the configurations they adopt have. -/
theorem finishAppend_cases {srv srv' : Server} {messages : List Message}
    (h : finishAppend srv = some (srv', messages)) :
    ∃ request state, srv.appending = some ⟨request, state⟩ ∧
      ∀ P : ServerState → Prop,
        (∀ entry ∈ request.entries, entry.isConfig ≠ .not → ∀ st seq memberWoofs len,
          decodeConfig entry.data = some (memberWoofs, len) → P st →
          P (adoptConfig st entry seq memberWoofs)) →
        (∀ st checked commitIndex, P st →
          P { st with lastCheckedCommittedEntry := checked, commitIndex := commitIndex }) →
        P srv.state → P state →
        ∃ appended applied state', P state' ∧
          srv' =
            { srv with
              appending := none
              log := srv.log.appendAll appended
              applied := applied
              state := state' } ∧
          (∀ entry ∈ appended, entry ∈ request.entries) ∧
          (messages = [] ∨ appended = request.entries ∧ ∃ answering, P answering ∧
            messages = appendReply { srv with state := answering } request request.term true
              srv'.log.latest) := by
  unfold finishAppend at h
  split at h
  · simp at h
  rename_i request state happending
  refine ⟨request, state, happending, fun P hadopt hput hsrv hstate => ?_⟩
  obtain ⟨appended, state₁, heq, hstate₁, hsub, hfinal⟩ :=
    appendAll_spec request.entries hadopt { srv with appending := none } state hsrv hstate
  split at h
  · rename_i heq'
    simp only [Option.some.injEq, Prod.mk.injEq] at h
    rw [heq'] at heq
    exact ⟨appended, srv.applied, state₁, hstate₁, by rw [← h.1]; exact heq, hsub, .inl h.2.symm⟩
  rename_i srv₁ final heq'
  rw [heq'] at heq hfinal
  obtain ⟨hfinalP, hall⟩ := hfinal final rfl
  dsimp only at heq h
  have hreply : ∀ log : RingLog LogEntry, log = srv.log.appendAll appended →
      appendReply srv₁ request request.term true srv₁.log.latest =
        appendReply { srv with state := state₁ } request request.term true log.latest := by
    rintro log rfl
    rw [heq, appendReply, appendReply]
  split at h
  · simp only [invokeHandlerAndMapTopicIndex, applyCommitted] at h
    split at h
    · rename_i srv₂ hcommitted
      simp only [Option.some.injEq, Prod.mk.injEq] at h hcommitted
      refine ⟨appended, srv₂.applied, state₁, hstate₁, ?_, hsub, .inl h.2.symm⟩
      rw [← h.1, ← hcommitted.1, heq]
    · rename_i srv₂ checked hcommitted
      simp only [Option.some.injEq, Prod.mk.injEq] at h hcommitted
      obtain ⟨hsrv₂, hchecked⟩ := hcommitted
      split at hchecked
      · rw [Option.some.injEq] at hchecked
        refine ⟨appended, srv₂.applied,
          { final with
            lastCheckedCommittedEntry := checked.lastCheckedCommittedEntry
            commitIndex := min request.leaderCommit srv₂.log.latest },
          hput final _ _ hfinalP, ?_, hsub, .inr ⟨hall, state₁, hstate₁, ?_⟩⟩
        · rw [← h.1, ← hchecked, ← hsrv₂, heq]
        · rw [← h.2]
          exact hreply _ (by rw [← h.1, ← hsrv₂, heq])
      · simp at hchecked
  · simp only [Option.some.injEq, Prod.mk.injEq] at h
    refine ⟨appended, srv.applied, state₁, hstate₁, by rw [← h.1]; exact heq, hsub,
      .inr ⟨hall, state₁, hstate₁, ?_⟩⟩
    rw [← h.2]
    exact hreply _ (by rw [← h.1, heq])

/-! ## The leader: sending -/

def raftMaxEntriesPerRequest : Nat := 64

/-- How many entries a member is sent; the subtraction is one of unsigned words. -/
def numEntries (lastLogEntry nextIndex : Nat) : Nat :=
  min raftMaxEntriesPerRequest (Word.add (Word.sub lastLogEntry nextIndex) 1)

def readEntries (log : RingLog LogEntry) : (count i : Nat) → Option (List LogEntry)
  | 0, _ => some []
  | count + 1, i =>
    match log.get i with
    | none => none
    | some entry => (readEntries log count (i + 1)).map (entry :: ·)

theorem exists_slot_of_readEntries {log : RingLog LogEntry} {count i : Nat}
    {entries : List LogEntry} (h : readEntries log count i = some entries) :
    ∀ entry ∈ entries, ∃ slot, log.slots slot = entry := by
  induction count generalizing i entries with
  | zero =>
    simp only [readEntries, Option.some.injEq] at h
    simp [← h]
  | succ count ih =>
    rw [readEntries] at h
    cases hget : log.get i with
    | none => simp [hget] at h
    | some first =>
      simp only [hget, Option.map_eq_some_iff] at h
      obtain ⟨rest, hrest, rfl⟩ := h
      intro entry hentry
      rcases List.mem_cons.1 hentry with rfl | hentry
      · exact RingLog.exists_slot_of_get hget
      · exact ih hrest entry hentry

def prevTerm (log : RingLog LogEntry) (prevLogIndex : Nat) : Option Nat :=
  if prevLogIndex = 0 then some 0 else (log.get prevLogIndex).map (·.term)

/-- The request for the member in slot `m`, none when an entry cannot be read. -/
def appendRequest (log : RingLog LogEntry) (state : ServerState) (m count : Nat) :
    Option AppendEntriesArg :=
  match prevTerm log (state.nextIndex m - 1), readEntries log count (state.nextIndex m) with
  | some prevLogTerm, some entries => some
      { term := state.currentTerm
        leaderWoof := state.woofName
        prevLogIndex := state.nextIndex m - 1
        prevLogTerm := prevLogTerm
        leaderCommit := state.commitIndex
        ackSeq := state.lastSentRequestSeq m + 1
        entries := entries }
  | _, _ => none

/-- Slots that hold neither a member nor an observer. -/
def unused (state : ServerState) (m : Nat) : Bool :=
  (state.members ≤ m && m < raftMaxMembers) || raftMaxMembers + state.observers ≤ m

/-- The loop over the slots; `due` are those whose last heartbeat is too long ago.  None for the
state when the handler exits. -/
def sendEntries (log : RingLog LogEntry) (due : List Nat) :
    List Nat → ServerState → Option ServerState × List Message
  | [], state => (some state, [])
  | m :: ms, state =>
    if unused state m = true then sendEntries log due ms state
    else if state.memberWoofs.getD m [] = state.woofName then
      sendEntries log due ms
        { state with matchIndex := Function.update state.matchIndex m log.latest }
    else
      let count := numEntries log.latest (state.nextIndex m)
      if (0 < count ∧ state.ackedRequestSeq m = state.lastSentRequestSeq m) ∨ m ∈ due then
        match appendRequest log state m count with
        | none => (none, [])
        | some arg =>
          let rest := sendEntries log due ms
            { state with
              lastSentRequestSeq := Function.update state.lastSentRequestSeq m
                (state.lastSentRequestSeq m + 1) }
          (rest.1, .appendEntries (state.memberWoofs.getD m []) arg :: rest.2)
      else sendEntries log due ms state

structure Sent (log : RingLog LogEntry) (state : ServerState) (m : Nat) (arg : AppendEntriesArg) :
    Prop where
  used : unused state m = false
  other : state.memberWoofs.getD m [] ≠ state.woofName
  term : arg.term = state.currentTerm
  leaderWoof : arg.leaderWoof = state.woofName
  prevLogIndex : arg.prevLogIndex = state.nextIndex m - 1
  prevLogTerm : prevTerm log (state.nextIndex m - 1) = some arg.prevLogTerm
  leaderCommit : arg.leaderCommit = state.commitIndex
  entries : readEntries log (numEntries log.latest (state.nextIndex m)) (state.nextIndex m) =
    some arg.entries

theorem appendRequest_eq_some {log : RingLog LogEntry} {state : ServerState} {m count : Nat}
    {arg : AppendEntriesArg} (h : appendRequest log state m count = some arg) :
    arg.term = state.currentTerm ∧ arg.leaderWoof = state.woofName ∧
      arg.prevLogIndex = state.nextIndex m - 1 ∧
      prevTerm log (state.nextIndex m - 1) = some arg.prevLogTerm ∧
      arg.leaderCommit = state.commitIndex ∧
      readEntries log count (state.nextIndex m) = some arg.entries := by
  unfold appendRequest at h
  split at h
  · rename_i prevLogTerm entries hprev hentries
    obtain rfl := Option.some.inj h
    exact ⟨rfl, rfl, rfl, hprev, rfl, hentries⟩
  · simp at h

theorem sendEntries_spec (log : RingLog LogEntry) (due ms : List Nat) (state : ServerState) :
    (∀ state', (sendEntries log due ms state).1 = some state' → ∃ matchIndex lastSent,
        state' = { state with matchIndex := matchIndex, lastSentRequestSeq := lastSent } ∧
        ∀ m, matchIndex m = state.matchIndex m ∨
          state.memberWoofs.getD m [] = state.woofName ∧ matchIndex m = log.latest) ∧
      ∀ message ∈ (sendEntries log due ms state).2, ∃ m arg,
        message = .appendEntries (state.memberWoofs.getD m []) arg ∧ Sent log state m arg := by
  induction ms generalizing state with
  | nil =>
    refine ⟨?_, by simp [sendEntries]⟩
    intro state' h
    simp only [sendEntries, Option.some.injEq] at h
    exact ⟨state.matchIndex, state.lastSentRequestSeq, h.symm, fun _ => .inl rfl⟩
  | cons m ms ih =>
    rw [sendEntries]
    split
    · exact ih state
    rename_i hused
    split
    · rename_i hself
      obtain ⟨hstate, hsent⟩ :=
        ih { state with matchIndex := Function.update state.matchIndex m log.latest }
      refine ⟨fun state' h => ?_, fun message hmessage => ?_⟩
      · obtain ⟨matchIndex, lastSent, rfl, hmatch⟩ := hstate state' h
        refine ⟨matchIndex, lastSent, rfl, fun m' => ?_⟩
        rcases hmatch m' with hsame | hown
        · by_cases hm : m' = m
          · subst hm
            exact .inr ⟨hself, by rw [hsame]; simp⟩
          · exact .inl (by rw [hsame]; simp [hm])
        · exact .inr hown
      · obtain ⟨m', arg, heq, hs⟩ := hsent message hmessage
        exact ⟨m', arg, heq, ⟨hs.used, hs.other, hs.term, hs.leaderWoof, hs.prevLogIndex,
          hs.prevLogTerm, hs.leaderCommit, hs.entries⟩⟩
    rename_i hother
    dsimp only
    split
    · cases harg : appendRequest log state m (numEntries log.latest (state.nextIndex m)) with
      | none => exact ⟨by simp, by simp⟩
      | some arg =>
        obtain ⟨hstate, hsent⟩ := ih
          { state with
            lastSentRequestSeq := Function.update state.lastSentRequestSeq m
              (state.lastSentRequestSeq m + 1) }
        refine ⟨fun state' h => ?_, fun message hmessage => ?_⟩
        · obtain ⟨matchIndex, lastSent, rfl, hmatch⟩ := hstate state' h
          exact ⟨matchIndex, lastSent, rfl, hmatch⟩
        · rcases List.mem_cons.1 hmessage with rfl | hmessage
          · obtain ⟨hterm, hleader, hindex, hprev, hcommit, hentries⟩ :=
              appendRequest_eq_some harg
            exact ⟨m, arg, rfl, ⟨by simpa using hused, hother, hterm, hleader, hindex, hprev,
              hcommit, hentries⟩⟩
          · obtain ⟨m', arg', heq, hs⟩ := hsent message hmessage
            exact ⟨m', arg', heq, ⟨hs.used, hs.other, hs.term, hs.leaderWoof,
              hs.prevLogIndex, hs.prevLogTerm, hs.leaderCommit, hs.entries⟩⟩
    · exact ih state

/-- What `replicate_thread` leaves when its put fails. -/
def sendFailed (srv : Server) (member : Name) (term : Nat) : Server :=
  { srv with
    appendResults := srv.appendResults ++
      [{ serverWoof := member
         term := term
         success := false
         lastEntrySeq := srv.log.latest }] }

/-! ## The leader: results and commit index -/

inductive Checked where
  | failed
  | fellBack (state : ServerState)
  | done (state : ServerState)

/-- What the result of the member in slot `m` says about it. -/
def noteResult (state : ServerState) (m : Nat) (result : AppendEntriesResult) : ServerState :=
  { state with
    nextIndex := Function.update state.nextIndex m (result.lastEntrySeq + 1)
    ackedRequestSeq := Function.update state.ackedRequestSeq m result.ackSeq
    matchIndex :=
      if result.success = true then Function.update state.matchIndex m result.lastEntrySeq
      else state.matchIndex }

def checkAppendResult (appendResults : List AppendEntriesResult) (term : Nat) :
    (count resultSeq : Nat) → ServerState → Checked
  | 0, _, state => .done state
  | count + 1, resultSeq, state =>
    match wooFGet historySizeShort appendResults resultSeq with
    | none => .failed
    | some result =>
      match memberId result.serverWoof state.memberWoofs with
      | none => checkAppendResult appendResults term count (resultSeq + 1) state
      | some m =>
        if m < state.members ∧ state.currentTerm < result.term then
          .fellBack (fallBack state result.term result.serverWoof)
        else if result.term = term then
          checkAppendResult appendResults term count (resultSeq + 1) (noteResult state m result)
        else checkAppendResult appendResults term count (resultSeq + 1) state

/-- The state of a leader after some of the results for its term. -/
def Noted (appendResults : List AppendEntriesResult) (term : Nat) (state state' : ServerState) :
    Prop :=
  ∃ nextIndex matchIndex acked,
    state' =
      { state with
        nextIndex := nextIndex
        matchIndex := matchIndex
        ackedRequestSeq := acked } ∧
    (∀ m, nextIndex m = state.nextIndex m ∨
      ∃ result ∈ appendResults, result.term = term ∧ nextIndex m = result.lastEntrySeq + 1) ∧
    ∀ m, matchIndex m = state.matchIndex m ∨
      ∃ result ∈ appendResults, result.term = term ∧ result.success = true ∧
        memberId result.serverWoof state.memberWoofs = some m ∧
        matchIndex m = result.lastEntrySeq

theorem Noted.refl (appendResults : List AppendEntriesResult) (term : Nat) (state : ServerState) :
    Noted appendResults term state state :=
  ⟨_, _, _, rfl, fun _ => .inl rfl, fun _ => .inl rfl⟩

theorem Noted.noteResult {appendResults : List AppendEntriesResult} {term : Nat}
    {state state' : ServerState} {result : AppendEntriesResult} {m : Nat}
    (hresult : result ∈ appendResults) (hterm : result.term = term)
    (hm : memberId result.serverWoof state.memberWoofs = some m)
    (h : Noted appendResults term (noteResult state m result) state') :
    Noted appendResults term state state' := by
  obtain ⟨nextIndex, matchIndex, acked, rfl, hnext, hmatch⟩ := h
  refine ⟨nextIndex, matchIndex, acked, rfl, fun m' => ?_, fun m' => ?_⟩
  · rcases hnext m' with hsame | hseen
    · by_cases hm' : m' = m
      · subst hm'
        exact .inr ⟨result, hresult, hterm, by rw [hsame]; simp [Raft.noteResult]⟩
      · exact .inl (by rw [hsame]; simp [Raft.noteResult, hm'])
    · exact .inr hseen
  · rcases hmatch m' with hsame | hseen
    · by_cases hm' : m' = m ∧ result.success = true
      · obtain ⟨rfl, hsuccess⟩ := hm'
        exact .inr ⟨result, hresult, hterm, hsuccess, hm,
          by rw [hsame]; simp [Raft.noteResult, hsuccess]⟩
      · refine .inl ?_
        rw [hsame]
        by_cases hsuccess : result.success = true
        · have hne : m' ≠ m := fun heq => hm' ⟨heq, hsuccess⟩
          simp [Raft.noteResult, hsuccess, hne]
        · simp [Raft.noteResult, hsuccess]
    · exact .inr hseen

/-- What the loop over the results can come to. -/
def Checked.Follows (appendResults : List AppendEntriesResult) (term : Nat) (state : ServerState) :
    Checked → Prop
  | .failed => True
  | .done state' => Noted appendResults term state state'
  | .fellBack state' => ∃ noted result m, Noted appendResults term state noted ∧
      result ∈ appendResults ∧ memberId result.serverWoof state.memberWoofs = some m ∧
      m < state.members ∧ state.currentTerm < result.term ∧
      state' = fallBack noted result.term result.serverWoof

theorem checkAppendResult_follows (appendResults : List AppendEntriesResult) (term : Nat)
    (count resultSeq : Nat) (state : ServerState) :
    (checkAppendResult appendResults term count resultSeq state).Follows appendResults term
      state := by
  induction count generalizing resultSeq state with
  | zero => exact Noted.refl appendResults term state
  | succ count ih =>
    rw [checkAppendResult]
    cases hget : wooFGet historySizeShort appendResults resultSeq with
    | none => trivial
    | some result =>
      have hresult := mem_of_wooFGet hget
      cases hm : memberId result.serverWoof state.memberWoofs with
      | none => simpa only [hm] using ih (resultSeq + 1) state
      | some m =>
        simp only [hm]
        split
        · rename_i hhigher
          exact ⟨state, result, m, Noted.refl appendResults term state, hresult, hm,
            hhigher.1, hhigher.2, rfl⟩
        split
        · rename_i hterm
          have hnext := ih (resultSeq + 1) (noteResult state m result)
          generalize checkAppendResult appendResults term count (resultSeq + 1)
            (noteResult state m result) = outcome at hnext ⊢
          cases outcome with
          | failed => trivial
          | done state' => exact Noted.noteResult hresult hterm hm hnext
          | fellBack state' =>
            obtain ⟨noted, result', m', hnoted, hfall⟩ := hnext
            exact ⟨noted, result', m', hnoted.noteResult hresult hterm hm, hfall⟩
        · exact ih (resultSeq + 1) state

/-- The difference of two indices as the `int` that `qsort` looks at. -/
def compIndex (a b : Nat) : Int := Word.toInt32 (Word.sub b a)

def sortedMatchIndex (state : ServerState) : List Nat :=
  qsort compIndex ((List.range state.members).map state.matchIndex)

/-- The loop over the sorted indices from the middle on: the new commit index if there is one,
none outside when an entry cannot be read. -/
def commitScan (log : RingLog LogEntry) (commitIndex term : Nat) : List Nat → Option (Option Nat)
  | [] => some none
  | matchIndex :: rest =>
    if matchIndex ≤ commitIndex then some none
    else
      match log.get matchIndex with
      | none => none
      | some entry =>
        if entry.term = term then some (some matchIndex)
        else commitScan log commitIndex term rest

/-- The second of the two configurations in a joint entry. -/
def newMembers (data : Bytes) : Option (List Name) := do
  let (_, jointConfigLen) ← decodeConfig data
  let (newMemberWoofs, _) ← decodeConfig (data.drop jointConfigLen)
  return newMemberWoofs

/-- The joint configuration is committed: append the new one and use it.  `decode_config` clears
ten rows of an array that has eight of them, and the put in between passes the address of a
pointer; what follows is what the handler computes if both leave the rest alone. -/
def useNewConfig (srv : Server) (state : ServerState) : Option (Server × ServerState) := do
  let configEntry ← srv.log.get state.lastConfigSeqno
  match newMembers configEntry.data with
  | none => some ({ srv with overrun := true }, state)
  | some newMemberWoofs =>
    let log := srv.log.append
      { term := state.currentTerm
        isConfig := .new
        data := encodeConfig newMemberWoofs }
    let state :=
      { state with
        members := newMemberWoofs.length
        currentConfig := .stable
        lastConfigSeqno := log.latest
        memberWoofs := (slots newMemberWoofs).take raftMaxMembers ++
          state.memberWoofs.drop raftMaxMembers
        nextIndex := fun _ => log.latest + 1
        matchIndex := fun _ => 0 }
    let state :=
      if memberId state.woofName state.memberWoofs = none then { state with role := .shutdown }
      else state
    some ({ srv with log := log, overrun := true }, state)

def updateCommitIndex (srv : Server) (state : ServerState) : Option (Server × ServerState) :=
  match commitScan srv.log state.commitIndex state.currentTerm
      ((sortedMatchIndex state).drop (state.members / 2)) with
  | none => none
  | some none => some (srv, state)
  | some (some commitIndex) =>
    let state := { state with commitIndex := commitIndex }
    if state.currentConfig = .joint ∧ state.lastConfigSeqno ≤ commitIndex then
      useNewConfig srv state
    else some (srv, state)

/-- The end of `h_replicate_entries`: put the state, and the argument of the next turn. -/
def queueReplicate (srv : Server) (state : ServerState) (term : Nat) : Server :=
  let arg : ReplicateEntriesArg :=
    { term := term
      lastSeenResultSeqno := srv.appendResults.length }
  { srv with
    state := state
    replicateArg := some arg
    replicating := srv.replicating ++ [arg] }

/-- What `h_replicate_entries` does once the entries are sent. -/
def finishReplicate (srv : Server) (arg : ReplicateEntriesArg) (state : ServerState) : Server :=
  match checkAppendResult srv.appendResults arg.term
      (srv.appendResults.length - arg.lastSeenResultSeqno) (arg.lastSeenResultSeqno + 1) state with
  | .failed => srv
  | .fellBack state => { srv with state := state }
  | .done state =>
    match updateCommitIndex srv state with
    | none => srv
    | some (srv, state) =>
      match invokeCommitHandlerAndMapTopicIndex srv state with
      | (srv, none) => srv
      | (srv, some state) => queueReplicate srv state arg.term

/-- The end of a turn that is not broken off, with what the loop over the committed entries has
looked at. -/
def replicated (srv : Server) (state : ServerState) (term : Nat) : Server :=
  let turns := (applyTurns srv.log (some .zero)
    (state.commitIndex - state.lastCheckedCommittedEntry)
    (state.lastCheckedCommittedEntry + 1)).1
  queueReplicate { srv with applied := srv.applied ++ turns }
    { state with
      lastCheckedCommittedEntry := state.lastCheckedCommittedEntry + turns.length } term

theorem finishReplicate_cases (srv : Server) (arg : ReplicateEntriesArg) (state : ServerState) :
    finishReplicate srv arg state = srv ∨
      (∃ state', Checked.Follows srv.appendResults arg.term state (.fellBack state') ∧
        finishReplicate srv arg state = { srv with state := state' }) ∨
      ∃ noted srv' state', Noted srv.appendResults arg.term state noted ∧
        updateCommitIndex srv noted = some (srv', state') ∧
        finishReplicate srv arg state = replicated srv' state' arg.term := by
  rw [finishReplicate]
  have hfollows := checkAppendResult_follows srv.appendResults arg.term
    (srv.appendResults.length - arg.lastSeenResultSeqno) (arg.lastSeenResultSeqno + 1) state
  split
  · exact .inl rfl
  · rename_i state' hfell
    rw [hfell] at hfollows
    exact .inr (.inl ⟨state', hfollows, rfl⟩)
  · rename_i noted hdone
    rw [hdone] at hfollows
    split
    · exact .inl rfl
    · rename_i srv' state' hupdate
      refine .inr (.inr ⟨noted, srv', state', hfollows, hupdate, ?_⟩)
      simp [invokeCommitHandlerAndMapTopicIndex, applyCommitted, applyTurns_of_missing, replicated]

/-- A turn of the `k`th replication routine. -/
def hReplicateEntries (srv : Server) (k : Nat) (due : List Nat) : Option (Server × List Message) :=
  match srv.replicating[k]? with
  | none => none
  | some arg =>
    let srv := { srv with replicating := srv.replicating.eraseIdx k }
    if srv.state.currentTerm ≠ arg.term ∨ srv.state.role ≠ .leader then some (srv, [])
    else
      match sendEntries srv.log due (List.range (raftMaxMembers + raftMaxObservers)) srv.state with
      | (none, messages) => some (srv, messages)
      | (some state, messages) => some (finishReplicate srv arg state, messages)

theorem hReplicateEntries_cases {srv srv' : Server} {k : Nat} {due : List Nat}
    {messages : List Message} (h : hReplicateEntries srv k due = some (srv', messages)) :
    ∃ arg, srv.replicating[k]? = some arg ∧
      ((srv' = { srv with replicating := srv.replicating.eraseIdx k } ∧ messages = []) ∨
        (srv.state.currentTerm = arg.term ∧ srv.state.role = .leader ∧
          messages = (sendEntries srv.log due (List.range (raftMaxMembers + raftMaxObservers))
            srv.state).2 ∧
          (srv' = { srv with replicating := srv.replicating.eraseIdx k } ∨
            ∃ state, (sendEntries srv.log due (List.range (raftMaxMembers + raftMaxObservers))
                srv.state).1 = some state ∧
              srv' = finishReplicate { srv with replicating := srv.replicating.eraseIdx k } arg
                state))) := by
  unfold hReplicateEntries at h
  cases hk : srv.replicating[k]? with
  | none => simp [hk] at h
  | some arg =>
    refine ⟨arg, rfl, ?_⟩
    simp only [hk] at h
    split at h
    · simp only [Option.some.injEq, Prod.mk.injEq] at h
      exact .inl ⟨h.1.symm, h.2.symm⟩
    · rename_i hleader
      obtain ⟨hterm, hrole⟩ : srv.state.currentTerm = arg.term ∧ srv.state.role = .leader := by
        simpa using hleader
      refine .inr ⟨hterm, hrole, ?_⟩
      split at h
      · rename_i sent hsend
        simp only [Option.some.injEq, Prod.mk.injEq] at h
        exact ⟨by rw [hsend, h.2], .inl h.1.symm⟩
      · rename_i state sent hsend
        simp only [Option.some.injEq, Prod.mk.injEq] at h
        exact ⟨by rw [hsend, h.2], .inr ⟨state, by rw [hsend], h.1.symm⟩⟩

end Cspot.Raft
