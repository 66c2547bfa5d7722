import Cspot.Lib.RingLog
import Cspot.Raft.Config

/-!
# A server

The WooFs of one server, and the handlers that have been started on it and have not finished.
The server state and the arguments of the two leader routines are WooFs whose latest element
is the only one read.  The log is kept with its slots, since it can be truncated; every other
WooF only grows and is the list of all its elements, of which the history is readable.
-/

namespace Cspot.Raft

inductive Role where
  | leader
  | follower
  | candidate
  | observer
  | shutdown
deriving Repr, DecidableEq

inductive ConfigStatus where
  | stable
  | joint
deriving Repr, DecidableEq

inductive ConfigEntry where
  | not
  | joint
  | new
deriving Repr, DecidableEq

structure LogEntry where
  term : Nat
  topicName : Name := []
  data : Bytes := []
  isConfig : ConfigEntry := .not
  isHandler : Bool := false
deriving Repr, DecidableEq

def LogEntry.zero : LogEntry where
  term := 0

structure ServerState where
  woofName : Name
  role : Role
  currentTerm : Nat
  votedFor : Name
  currentLeader : Name
  members : Nat
  observers : Nat
  memberWoofs : List Name
  currentConfig : ConfigStatus
  lastConfigSeqno : Nat
  commitIndex : Nat
  nextIndex : Nat → Nat
  matchIndex : Nat → Nat
  lastSentRequestSeq : Nat → Nat
  ackedRequestSeq : Nat → Nat
  lastCheckedCommittedEntry : Nat

/-- The names of the members, without the observers. -/
def ServerState.config (state : ServerState) : List Name := state.memberWoofs.take state.members

def ServerState.memberSlot (state : ServerState) (woofName : Name) : Option Nat :=
  match memberId woofName state.memberWoofs with
  | none => none
  | some m => if m < state.members then some m else none

/-! ## Requests and results -/

structure RequestVoteArg where
  term : Nat
  candidateWoof : Name
  candidateVotePoolSeqno : Nat
  lastLogIndex : Nat
  lastLogTerm : Nat
deriving Repr, DecidableEq

structure RequestVoteResult where
  term : Nat
  granted : Bool
  candidateVotePoolSeqno : Nat
  granter : Name := []
deriving Repr, DecidableEq

/-- The entries follow the argument in its WooF, which is chosen by their number. -/
structure AppendEntriesArg where
  term : Nat
  leaderWoof : Name
  prevLogIndex : Nat
  prevLogTerm : Nat
  leaderCommit : Nat
  ackSeq : Nat
  entries : List LogEntry
deriving Repr, DecidableEq

structure AppendEntriesResult where
  serverWoof : Name
  term : Nat
  success : Bool
  lastEntrySeq : Nat
  ackSeq : Nat := 0
deriving Repr, DecidableEq

structure ClientPutRequest where
  data : Bytes
  isHandler : Bool
  callbackWoof : Name
  callbackHandler : Name
  extraWoof : Name
  extraSeqno : Nat
  topicName : Name
deriving Repr, DecidableEq

structure ClientPutResult where
  source : Name := []
  redirectedTarget : Name := []
  index : Nat := 0
  term : Nat := 0
  extraWoof : Name := []
  extraSeqno : Nat := 0
deriving Repr, DecidableEq

structure ConfigChangeArg where
  memberWoofs : List Name
  observe : Bool
  observerWoof : Name
deriving Repr, DecidableEq

structure ConfigChangeResult where
  redirected : Bool
  success : Bool
  currentLeader : Name
deriving Repr, DecidableEq

structure ReplicateEntriesArg where
  term : Nat
  lastSeenResultSeqno : Nat
deriving Repr, DecidableEq

structure ForwardPutResultArg where
  term : Nat
  lastForwardedPutResult : Nat
deriving Repr, DecidableEq

/-- A put to a WooF of another server; `dest` is the name of the server. -/
inductive Message where
  | requestVote (dest : Name) (arg : RequestVoteArg)
  | voteResult (dest : Name) (result : RequestVoteResult)
  | appendEntries (dest : Name) (arg : AppendEntriesArg)
  | appendResult (dest : Name) (result : AppendEntriesResult)
  | clientPut (dest : Name) (request : ClientPutRequest)
deriving Repr, DecidableEq

/-! ## Handlers under way -/

/-- What is left of a timeout checker that has started an election: it reads the end of the
vote pool, the number of the last log entry and the entry, each without a lock, and then asks
the members for their votes. -/
inductive ElectionPhase where
  | pool
  | last (votePoolSeqno : Nat)
  | entry (votePoolSeqno latestLogEntry : Nat)
deriving Repr, DecidableEq

structure Election where
  term : Nat
  memberWoofs : List Name
  phase : ElectionPhase
deriving Repr, DecidableEq

/-- What is left of `h_append_entries` before it takes the log lock; it holds the server lock
and its own copy of the server state. -/
structure Appending where
  request : AppendEntriesArg
  state : ServerState

/-- Where the handler of client puts stands: at its start, or behind its reads of the server
state and of the number of the last request. -/
inductive ClientPutPhase where
  | queued (lastSeqno : Nat)
  | ready (lastSeqno : Nat) (state : ServerState) (latestRequest : Nat)
  | exited

/-- Where a forwarding handler stands: at its start, or behind its look at the server state,
of which it keeps the commit index. -/
inductive ForwardPhase where
  | queued
  | ready (commitIndex : Nat)
deriving Repr, DecidableEq

structure Forwarding where
  arg : ForwardPutResultArg
  phase : ForwardPhase
deriving Repr, DecidableEq

/-- A put to the callback of a client: the number of the request and the result. -/
structure Callback where
  request : Nat
  callbackWoof : Name
  callbackHandler : Name
  result : ClientPutResult
deriving Repr, DecidableEq

structure Server where
  state : ServerState
  -- the entries in the log woof, see `WooF.Keeps`
  log : RingLog LogEntry
  votePool : List RequestVoteResult := []
  appendResults : List AppendEntriesResult := []
  putRequests : List ClientPutRequest := []
  putResults : List ClientPutResult := []
  replicateArg : Option ReplicateEntriesArg := none
  forwardArg : Option ForwardPutResultArg := none
  configResults : List ConfigChangeResult := []
  /-- The turns of the two loops over committed entries, with the entry each one was about. -/
  applied : List (Nat × LogEntry) := []
  callbacks : List Callback := []
  elections : List Election := []
  counting : List (Nat × RequestVoteResult) := []
  appending : Option Appending := none
  replicating : List ReplicateEntriesArg := []
  forwarding : List Forwarding := []
  clientPut : ClientPutPhase := .queued 0
  /-- A handler has written past the end of an array; what it found there is not described. -/
  overrun : Bool := false

/-! ## Reading a WooF -/

def historySizeShort : Nat := 256

def historySizeLong : Nat := 32768

def historySizeExtraLong : Nat := 65536

theorem historySizeExtraLong_pos : 0 < historySizeExtraLong := by decide

/-- Read a WooF of which `woof` holds all elements ever put; number zero stands for the
latest. -/
def wooFGet {α : Type} (historySize : Nat) (woof : List α) (seqno : Nat) : Option α :=
  if seqno = 0 then woof.getLast?
  else if woof.length < seqno + historySize then woof[seqno - 1]? else none

variable {α : Type} {historySize seqno : Nat} {woof : List α}

theorem wooFGet_of_le (hpos : 0 < seqno) (hheld : woof.length < seqno + historySize) :
    wooFGet historySize woof seqno = woof[seqno - 1]? := by
  rw [wooFGet, if_neg (by omega), if_pos hheld]

theorem wooFGet_eq_some {a : α} (hpos : 0 < seqno) (h : wooFGet historySize woof seqno = some a) :
    woof[seqno - 1]? = some a := by
  rw [wooFGet, if_neg (by omega)] at h
  split at h
  · exact h
  · simp at h

theorem mem_of_wooFGet {a : α} (h : wooFGet historySize woof seqno = some a) : a ∈ woof := by
  unfold wooFGet at h
  split at h
  · exact List.mem_of_getLast? h
  · split at h
    · exact List.mem_of_getElem? h
    · simp at h

/-! ## Reading the log -/

def HasEntry (log : RingLog LogEntry) (index term : Nat) : Prop :=
  (log.read index).map (·.term) = some term

instance (log : RingLog LogEntry) (index term : Nat) : Decidable (HasEntry log index term) :=
  inferInstanceAs (Decidable (_ = _))

/-- A log as puts alone leave it. -/
structure SoundLog (log : RingLog LogEntry) : Prop extends log.Sound where
  size : log.size = historySizeExtraLong

section

variable {log log' : RingLog LogEntry} {index term : Nat}

theorem SoundLog.extends (h : SoundLog log) (hext : log.Extends log') : SoundLog log' :=
  ⟨h.toSound.extends hext, hext.size.trans h.size⟩

theorem SoundLog.truncate (h : SoundLog log) (hround : log.latest < log.size) (hpos : 0 < index)
    (hlt : index < log.latest) (hcut : log.truncate index = some log') :
    SoundLog log' ∧ log'.latest = index ∧ log.earliest ≤ log'.earliest ∧
      ∀ i, log'.read i = if i ≤ index then log.read i else none := by
  have hmod : 2 * log.size ≤ Word.modulus := by
    rw [h.size]
    decide
  obtain ⟨cut, hcut', hsound, hlatest, hsize, hread⟩ :=
    h.toSound.truncate hround hpos (Nat.le_of_lt hlt) hmod
  obtain rfl := Option.some.inj (hcut'.symm.trans hcut)
  refine ⟨⟨hsound, hsize.trans h.size⟩, hlatest, ?_, hread⟩
  unfold RingLog.earliest
  omega

theorem HasEntry.extends (hsound : log.Sound) (h : HasEntry log index term)
    (hext : log.Extends log') : HasEntry log' index term ∨ index < log'.earliest := by
  rw [HasEntry, Option.map_eq_some_iff] at h
  obtain ⟨entry, hread, hterm⟩ := h
  rcases hsound.read_extends hext hread with hread' | hgone
  · exact .inl (by rw [HasEntry, hread', Option.map_some, hterm])
  · exact .inr hgone

end

end Cspot.Raft
