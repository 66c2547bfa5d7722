import Cspot.Raft.Replication

/-!
# The client handlers

`h_client_put` looks at the server state without a lock and appends the requests of clients
under the log lock, or passes them on to the leader it knows; `h_forward_put_result` reports
to the callbacks what has been committed; `h_config_change` starts a change of the
configuration.
-/

namespace Cspot.Raft

/-! ## Client puts -/

def paddingResult : ClientPutResult := {}

/-- Put the result of request `i` under its number.  The results never run ahead of the
requests: if they did, the loop that fills the gap would not end. -/
def putResult (srv : Server) (i : Nat) (result : ClientPutResult) : Server :=
  { srv with
    putResults := srv.putResults ++
      (List.replicate (i - 1 - srv.putResults.length) paddingResult ++ [result]) }

def clientEntry (state : ServerState) (request : ClientPutRequest) : LogEntry where
  term := state.currentTerm
  topicName := request.topicName
  data := request.data
  isConfig := .not
  isHandler := request.isHandler

def redirectedResult (state : ServerState) (request : ClientPutRequest) : ClientPutResult where
  source := state.woofName
  redirectedTarget := state.currentLeader
  extraWoof := request.extraWoof
  extraSeqno := request.extraSeqno

def appendedResult (state : ServerState) (request : ClientPutRequest) (index : Nat) :
    ClientPutResult where
  source := state.woofName
  index := index
  term := state.currentTerm
  extraWoof := request.extraWoof
  extraSeqno := request.extraSeqno

def appendPut (state : ServerState) (request : ClientPutRequest) (i : Nat) (srv : Server) :
    Server :=
  let log := srv.log.append (clientEntry state request)
  putResult { srv with log := log } i (appendedResult state request log.latest)

/-- The loop over `count` requests from number `i` on; none for the number of the last one done
when the handler exits. -/
def clientPutLoop (state : ServerState) :
    (count i : Nat) → Server → Server × List Message × Option Nat
  | 0, i, srv => (srv, [], some (i - 1))
  | count + 1, i, srv =>
    match wooFGet historySizeLong srv.putRequests i with
    | none => (srv, [], none)
    | some request =>
      if state.role ≠ .leader then
        -- there is an election right now, hold the request
        if state.currentLeader = state.woofName then (srv, [], some (i - 1))
        else
          let rest := clientPutLoop state count (i + 1)
            (putResult srv i (redirectedResult state request))
          (rest.1, .clientPut state.currentLeader request :: rest.2.1, rest.2.2)
      else clientPutLoop state count (i + 1) (appendPut state request i srv)

theorem appendPut_hasEntry (state : ServerState) (request : ClientPutRequest)
    {log : RingLog LogEntry} (hsound : log.Sound) :
    HasEntry (log.append (clientEntry state request))
      (log.append (clientEntry state request)).latest state.currentTerm := by
  rw [HasEntry, RingLog.latest_append, hsound.read_append, if_pos rfl, Option.map_some]
  rfl

theorem mem_putResult {srv : Server} {i : Nat} {own result : ClientPutResult}
    (h : result ∈ List.replicate (i - 1 - srv.putResults.length) paddingResult ++ [own])
    (hindex : result.index ≠ 0) : result = own := by
  rcases List.mem_append.1 h with hpadding | hown
  · rw [List.eq_of_mem_replicate hpadding] at hindex
    exact absurd rfl hindex
  · exact List.mem_singleton.1 hown

/-- The loop appends entries of the term that was read, if a leader was read at all, and puts
results; one with an index has its entry in a sound log. -/
theorem clientPutLoop_spec (state : ServerState) (count i : Nat) (srv : Server) :
    ∃ entries results, (clientPutLoop state count i srv).1 =
        { srv with
          log := srv.log.appendAll entries
          putResults := srv.putResults ++ results } ∧
      (state.role ≠ .leader → entries = []) ∧
      (∀ entry ∈ entries, entry.term = state.currentTerm ∧ entry.isConfig = .not) ∧
      (∀ result ∈ results, result.index ≠ 0 →
        state.role = .leader ∧ result.term = state.currentTerm ∧
          (srv.log.Sound →
            HasEntry (srv.log.appendAll entries) result.index result.term ∨
              result.index < (srv.log.appendAll entries).earliest)) ∧
      ∀ message ∈ (clientPutLoop state count i srv).2.1, ∃ request,
        message = .clientPut state.currentLeader request := by
  induction count generalizing i srv with
  | zero =>
    exact ⟨[], [], by simp [clientPutLoop], by simp, by simp, by simp, by simp [clientPutLoop]⟩
  | succ count ih =>
    rw [clientPutLoop]
    split
    · exact ⟨[], [], by simp, by simp, by simp, by simp, by simp⟩
    rename_i request _
    split
    · split
      · exact ⟨[], [], by simp, by simp, by simp, by simp, by simp⟩
      · obtain ⟨entries, results, heq, hnil, hentries, hresults, hmessages⟩ :=
          ih (i + 1) (putResult srv i (redirectedResult state request))
        refine ⟨entries, List.replicate (i - 1 - srv.putResults.length) paddingResult ++
          [redirectedResult state request] ++ results, ?_, hnil, hentries, ?_, ?_⟩
        · rw [heq, putResult, List.append_assoc]
        · intro result hresult hindex
          rcases List.mem_append.1 hresult with hnew | hrest
          · rw [mem_putResult hnew hindex] at hindex
            exact absurd rfl hindex
          · exact hresults result hrest hindex
        · intro message hmessage
          rcases List.mem_cons.1 hmessage with rfl | hmessage
          · exact ⟨request, rfl⟩
          · exact hmessages message hmessage
    · rename_i hrole
      obtain ⟨entries, results, heq, -, hentries, hresults, hmessages⟩ :=
        ih (i + 1) (appendPut state request i srv)
      refine ⟨clientEntry state request :: entries,
        List.replicate (i - 1 - srv.putResults.length) paddingResult ++
          [appendedResult state request (srv.log.append (clientEntry state request)).latest] ++
          results, ?_, fun h => absurd h hrole, ?_, ?_, hmessages⟩
      · rw [heq, appendPut, putResult, List.append_assoc]
        rfl
      · intro entry hentry
        rcases List.mem_cons.1 hentry with rfl | hentry
        · exact ⟨rfl, rfl⟩
        · exact hentries entry hentry
      · intro result hresult hindex
        rcases List.mem_append.1 hresult with hnew | hrest
        · rw [mem_putResult hnew hindex]
          exact ⟨by simpa using hrole, rfl, fun hsound =>
            (appendPut_hasEntry state request hsound).extends (hsound.append _) ⟨entries, rfl⟩⟩
        · obtain ⟨hleader, hterm, hentry⟩ := hresults result hrest hindex
          exact ⟨hleader, hterm, fun hsound => hentry (hsound.append _)⟩

/-- `h_client_put` up to the log lock. -/
def readClientPut (srv : Server) : Option Server :=
  match srv.clientPut with
  | .queued lastSeqno => some
      { srv with clientPut := .ready lastSeqno srv.state srv.putRequests.length }
  | _ => none

/-- `h_client_put` under the log lock. -/
def hClientPut (srv : Server) : Option (Server × List Message) :=
  match srv.clientPut with
  | .ready lastSeqno state latestRequest =>
    let done := clientPutLoop state (latestRequest - lastSeqno) (lastSeqno + 1) srv
    let phase : ClientPutPhase :=
      match done.2.2 with
      | none => .exited
      | some lastSeqno => .queued lastSeqno
    some ({ done.1 with clientPut := phase }, done.2.1)
  | _ => none

variable {srv srv' : Server}

theorem readClientPut_eq_some (h : readClientPut srv = some srv') :
    ∃ lastSeqno, srv.clientPut = .queued lastSeqno ∧
      srv' =
        { srv with clientPut := .ready lastSeqno srv.state srv.putRequests.length } := by
  unfold readClientPut at h
  split at h
  · rename_i lastSeqno hqueued
    exact ⟨lastSeqno, hqueued, (Option.some.inj h).symm⟩
  · simp at h

/-- The handler appends entries of the term it has read, if it has read that of a leader, and
passes requests on. -/
theorem hClientPut_cases {messages : List Message} (h : hClientPut srv = some (srv', messages)) :
    ∃ lastSeqno state latestRequest entries results phase,
      srv.clientPut = .ready lastSeqno state latestRequest ∧
      srv' =
        { srv with
          log := srv.log.appendAll entries
          putResults := srv.putResults ++ results
          clientPut := phase } ∧
      (∀ lastSeqno' state' latestRequest', phase ≠ .ready lastSeqno' state' latestRequest') ∧
      (state.role ≠ .leader → entries = []) ∧
      (∀ entry ∈ entries, entry.term = state.currentTerm ∧ entry.isConfig = .not) ∧
      ∀ message ∈ messages, ∃ request, message = .clientPut state.currentLeader request := by
  unfold hClientPut at h
  split at h
  · rename_i lastSeqno state latestRequest hready
    obtain ⟨entries, results, heq, hnil, hentries, -, hmessages⟩ :=
      clientPutLoop_spec state (latestRequest - lastSeqno) (lastSeqno + 1) srv
    obtain ⟨rfl, rfl⟩ := h
    refine ⟨lastSeqno, state, latestRequest, entries, results, _, hready, by rw [heq], ?_, hnil,
      hentries, hmessages⟩
    intro lastSeqno' state' latestRequest'
    split <;> simp
  · simp at h

/-! ## Callbacks -/

/-- The loop over `count` results from number `i` on, for a leader of `term` that has committed
up to `commitIndex`: the puts to callbacks, and the number of the last result done.  The put for
a request in `failed` fails, which is logged and nothing else. -/
def forwardLoop (srv : Server) (failed : List Nat) (term commitIndex : Nat) :
    (count i : Nat) → List Callback × Option Nat
  | 0, i => ([], some (i - 1))
  | count + 1, i =>
    match wooFGet historySizeLong srv.putRequests i, wooFGet historySizeLong srv.putResults i with
    | some request, some result =>
      if result.index = 0 ∨ request.callbackWoof = [] then
        forwardLoop srv failed term commitIndex count (i + 1)
      else if result.index ≤ commitIndex then
        let rest := forwardLoop srv failed term commitIndex count (i + 1)
        if result.term ≠ term ∨ i ∈ failed then rest
        else
          ({ request := i
             callbackWoof := request.callbackWoof
             callbackHandler := request.callbackHandler
             result := result } :: rest.1, rest.2)
      else ([], some (i - 1))
    | _, _ => ([], none)

/-- `h_forward_put_result` under the server lock. -/
def readForward (srv : Server) (k : Nat) : Option Server :=
  match srv.forwarding[k]? with
  | some ⟨arg, .queued⟩ =>
    if srv.state.currentTerm ≠ arg.term ∨ srv.state.role ≠ .leader then
      some { srv with forwarding := srv.forwarding.eraseIdx k }
    else some
      { srv with forwarding := srv.forwarding.set k ⟨arg, .ready srv.state.commitIndex⟩ }
  | _ => none

theorem readForward_cases {k : Nat} (h : readForward srv k = some srv') :
    ∃ forwarding, srv' = { srv with forwarding := forwarding } := by
  unfold readForward at h
  split at h
  · split at h
    all_goals exact ⟨_, (Option.some.inj h).symm⟩
  · simp at h

def hForwardPutResult (srv : Server) (k : Nat) (failed : List Nat) : Option Server :=
  match srv.forwarding[k]? with
  | some ⟨arg, .ready commitIndex⟩ =>
    let done := forwardLoop srv failed arg.term commitIndex
      (srv.putResults.length - arg.lastForwardedPutResult) (arg.lastForwardedPutResult + 1)
    let srv :=
      { srv with
        callbacks := srv.callbacks ++ done.1
        forwarding := srv.forwarding.eraseIdx k }
    match done.2 with
    | none => some srv
    | some lastForwardedPutResult =>
      let arg := { arg with lastForwardedPutResult }
      some
        { srv with
          forwardArg := some arg
          forwarding := srv.forwarding ++ [⟨arg, .queued⟩] }
  | _ => none

theorem hForwardPutResult_cases {k : Nat} {failed : List Nat}
    (h : hForwardPutResult srv k failed = some srv') :
    ∃ callbacks forwarding forwardArg, srv' =
      { srv with
        callbacks := callbacks
        forwarding := forwarding
        forwardArg := forwardArg } := by
  unfold hForwardPutResult at h
  split at h
  · dsimp only at h
    split at h
    all_goals exact ⟨_, _, _, (Option.some.inj h).symm⟩
  · simp at h

/-! ## Changes of the configuration -/

def configReply (srv : Server) (redirected success : Bool) : Server :=
  { srv with
    configResults := srv.configResults ++
      [{ redirected, success, currentLeader := srv.state.currentLeader }] }

/-- The slots of the observers, cleared where the joint configuration takes the observer in. -/
def clearedObservers (state : ServerState) (jointMemberWoofs : List Name) : List Name :=
  (state.memberWoofs.drop raftMaxMembers).zipIdx.map fun (woof, i) =>
    if i < state.observers ∧
        (memberId woof jointMemberWoofs).any (· < raftMaxMembers) = true then []
    else woof

/-- Start to use the joint configuration, whose entry has number `seq`. -/
def useJointConfig (state : ServerState) (jointMembers : Nat) (jointMemberWoofs : List Name)
    (seq : Nat) : ServerState :=
  let cleared := clearedObservers state jointMemberWoofs
  -- the observers that are left move to the front, in place
  let observers := cleared.filter (· ≠ [])
  { state with
    observers := observers.length
    members := jointMembers
    currentConfig := .joint
    lastConfigSeqno := seq
    memberWoofs := jointMemberWoofs.take raftMaxMembers ++ observers ++
      cleared.drop observers.length
    nextIndex := fun _ => seq + 1
    matchIndex := fun _ => 0 }

/-- Add an observer.  There are slots for two; the name of a third is copied over what stands
behind them, `current_config`, `last_config_seqno` and `commit_index` first. -/
def addObserver (srv : Server) (observerWoof : Name) : Server :=
  { srv with
    state :=
      { srv.state with
        memberWoofs :=
          srv.state.memberWoofs.set (raftMaxMembers + srv.state.observers) observerWoof
        observers := srv.state.observers + 1 }
    overrun := srv.overrun || decide (raftMaxObservers ≤ srv.state.observers) }

def hConfigChange (srv : Server) (arg : ConfigChangeArg) : Server :=
  if arg.observe = true then
    if (memberId arg.observerWoof srv.state.memberWoofs).isSome = true then
      configReply srv false true
    else configReply (addObserver srv arg.observerWoof) false true
  else if srv.state.role ≠ .leader then configReply srv true false
  else if srv.state.currentConfig ≠ .stable then configReply srv false false
  else
    match computeJointConfig srv.state.config arg.memberWoofs with
    | none => srv
    | some (jointMembers, jointMemberWoofs) =>
      let log := srv.log.append
        { term := srv.state.currentTerm
          isConfig := .joint
          data := encodeConfig (jointMemberWoofs.take jointMembers) ++
            encodeConfig arg.memberWoofs }
      configReply
        { srv with
          log := log
          state := useJointConfig srv.state jointMembers jointMemberWoofs log.latest } false true

end Cspot.Raft
