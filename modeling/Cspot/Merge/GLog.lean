import Cspot.Merge.HostList
import Cspot.Merge.LogTail
import Cspot.Merge.Pending

/-!
# The global log

A global log merges the logs of several hosts.  An event goes into its ring when its cause
has been seen, and waits on the pending list until then.  The calls are made one at a time,
so the semaphores do not show.
-/

namespace Cspot.Merge

/-- `searches` counts the searches of the tree of causes. -/
structure GLog where
  log : Log
  hostList : HostList
  pending : Pending
  searches : Nat

def gLogCreate (size : Nat) : GLog where
  log := logCreate 0 size
  hostList := hostListCreate
  pending := pendingCreate (size * 5)
  searches := 0

/-- Which of the nodes with one key the `n`-th search of the tree of causes meets. -/
abbrev Shape := Nat → Nat

def isAnchor (ev : Event) : Bool := ev.host = ev.causeHost ∧ ev.seqNo = ev.causeSeqNo

def firstEvent (causeHost causeSeqNo : Nat) : Event :=
  { eventCreate .unknown causeHost with seqNo := causeSeqNo }

def GLog.findCause (shape : Shape) (gl : GLog) (host seqNo : Nat) : Option Nat :=
  pendingFindCause (shape gl.searches) gl.pending host seqNo

/-- The first pending event whose cause is not above what has been seen of its host. -/
def gLogPendingSatisfied (gl : GLog) : Option Nat :=
  (gl.pending.alive.find? fun node =>
    match gl.hostList.host (gl.pending.events node.2).causeHost with
    | none => false
    | some causeHost => (gl.pending.events node.2).causeSeqNo ≤ causeHost.maxSeen).map Prod.snd

/-! ## Submitting an event -/

def gLogCauseHost (gl : GLog) (event : Event) : Exec (Int × GLog) :=
  match hostListFind gl.hostList event.causeHost with
  | some _ => .ok (1, gl)
  | none => do
      let added ← hostListAdd gl.hostList event.causeHost
      if added.1 < 0 then return (-1, { gl with hostList := added.2 })
      else
        match hostListFind added.2 event.causeHost with
        | none => return (-1, { gl with hostList := added.2 })
        | some slot =>
          let log ← logAdd gl.log (firstEvent event.causeHost event.causeSeqNo)
          return (1, { gl with
            log := log
            hostList := added.2.setMaxSeen slot event.causeSeqNo })

def gLogNewHost (gl : GLog) (event : Event) : Exec (Int × GLog) := do
  let added ← hostListAdd gl.hostList event.host
  if added.1 < 0 then return (-1, { gl with hostList := added.2 })
  else
    match hostListFind added.2 event.host with
    | none => return (-1, { gl with hostList := added.2 })
    | some slot =>
      let log ← logAdd gl.log event
      return (1, { gl with log := log, hostList := added.2.setMaxSeen slot event.seqNo })

/-- A call is over, or the pending list is walked from an event on. -/
inductive Submitted
  | done (err : Int) (gl : GLog)
  | walk (gl : GLog) (thisEvent : Option Nat)

def gLogWait (gl : GLog) (event : Event) : Exec Submitted := do
  let added ← pendingAddEvent gl.pending event
  return .done added.1 { gl with pending := added.2 }

def gLogCommit (shape : Shape) (gl : GLog) (event : Event) (host : Nat) : Exec Submitted := do
  let log ← logAdd gl.log event
  let hostList :=
    if (gl.hostList.hash host).maxSeen < event.seqNo ∨ isAnchor event then
      gl.hostList.setMaxSeen host event.seqNo
    else gl.hostList
  let gl := { gl with log := log, hostList := hostList }
  return .walk { gl with searches := gl.searches + 1 }
    (gl.findCause shape event.host event.seqNo)

/-- Log the event unless its cause is above both what has been seen and the horizon. -/
def gLogCheckSeen (shape : Shape) (gl : GLog) (event : Event) (host : Nat) : Exec Submitted :=
  match gl.hostList.host event.causeHost with
  | none => .error .outOfBounds
  | some causeHost =>
    if causeHost.maxSeen < event.causeSeqNo ∧ causeHost.eventHorizon < event.causeSeqNo ∧
        ¬ isAnchor event then
      gLogWait gl event
    else gLogCommit shape gl event host

/-- The event of a known host waits for a pending cause; an anchor replaces one. -/
def gLogCheckPending (shape : Shape) (gl : GLog) (event : Event) (host : Nat) :
    Exec Submitted :=
  match pendingFindEvent gl.pending event.causeHost event.causeSeqNo with
  | none => gLogCheckSeen shape gl event host
  | some slot =>
    if isAnchor event then
      let removed := pendingRemoveEvent gl.pending (gl.pending.events slot)
      if removed.1 < 0 then .ok (.done (-1) { gl with pending := removed.2 })
      else gLogCheckSeen shape { gl with pending := removed.2 } event host
    else gLogWait gl event

def gLogKnownHost (shape : Shape) (gl : GLog) (event : Event) (host : Nat) : Exec Submitted :=
  if event.seqNo ≤ (gl.hostList.hash host).maxSeen then .ok (.done 1 gl)
  else gLogCheckPending shape gl event host

def gLogSubmit (shape : Shape) (gl : GLog) (event : Event) : Exec Submitted := do
  let met ← gLogCauseHost gl event
  if met.1 < 0 then return .done (-1) met.2
  else
    match hostListFind met.2.hostList event.host with
    | none => do
        let logged ← gLogNewHost met.2 event
        return .done logged.1 logged.2
    | some host => gLogKnownHost shape met.2 event host

/-! ## The walk -/

inductive Turn
  | stop (err : Int) (gl : GLog)
  | next (gl : GLog) (thisEvent : Option Nat)

/-- The turn for an event whose cause has a host the table does not know.  The host that is
added is that of the event of the call. -/
def gLogTurnNewHost (shape : Shape) (gl : GLog) (event : Event) (slot : Nat) : Exec Turn := do
  let thisEvent := gl.pending.events slot
  let added ← hostListAdd gl.hostList event.causeHost
  if added.1 < 0 then return .stop (-1) { gl with hostList := added.2 }
  else
    let log ← logAdd gl.log thisEvent
    let removed := pendingRemoveEvent gl.pending thisEvent
    let gl := { gl with log := log, hostList := added.2, pending := removed.2 }
    if removed.1 < 0 then return .stop (-1) gl
    else
      match hostListFind added.2 thisEvent.causeHost with
      | none => throw .outOfBounds
      | some causeHost =>
        let gl := { gl with hostList := added.2.setMaxSeen causeHost thisEvent.causeSeqNo }
        return .next { gl with searches := gl.searches + 1 }
          (gl.findCause shape thisEvent.host thisEvent.seqNo)

def gLogRelease (shape : Shape) (gl : GLog) (slot : Nat) : Exec Turn := do
  let thisEvent := gl.pending.events slot
  let log ← logAdd gl.log thisEvent
  let removed := pendingRemoveEvent gl.pending thisEvent
  let gl := { gl with log := log, pending := removed.2 }
  if removed.1 < 0 then return .stop (-1) gl
  else
    match hostListFind gl.hostList thisEvent.host with
    | none => throw .outOfBounds
    | some host =>
      let hostList :=
        if (gl.hostList.hash host).maxSeen < thisEvent.seqNo then
          gl.hostList.setMaxSeen host thisEvent.seqNo
        else gl.hostList
      let gl := { gl with hostList := hostList }
      return .next { gl with searches := gl.searches + 1 }
        ((gl.findCause shape thisEvent.host thisEvent.seqNo).or (gLogPendingSatisfied gl))

def gLogTurn (shape : Shape) (event : Event) (gl : GLog) (slot : Nat) : Exec Turn :=
  match gl.hostList.host (gl.pending.events slot).causeHost with
  | none => gLogTurnNewHost shape gl event slot
  | some causeHost =>
    if (gl.pending.events slot).causeSeqNo ≤ causeHost.maxSeen then gLogRelease shape gl slot
    else .ok (.stop 1 gl)

def gLogWalk (shape : Shape) (event : Event) :
    (fuel : Nat) → GLog → (thisEvent : Option Nat) → Exec (Int × GLog)
  | _, gl, none => .ok (1, gl)
  | 0, _, some _ => .error .blocked
  | fuel + 1, gl, some slot => do
      match ← gLogTurn shape event gl slot with
      | .stop err gl => return (err, gl)
      | .next gl thisEvent => gLogWalk shape event fuel gl thisEvent

/-- Every turn of the walk takes an event off the pending list. -/
def gLogEvent (shape : Shape) (gl : GLog) (event : Event) : Exec (Int × GLog) := do
  match ← gLogSubmit shape gl event with
  | .done err gl => return (err, gl)
  | .walk gl thisEvent => gLogWalk shape event gl.pending.alive.length gl thisEvent

/-! ## Fast forward and import -/

/-- The event whose cause is below the horizon, with the horizon for its cause. -/
def horizonEvent (ev : Event) (host : Host) : Event :=
  { eventCreate ev.type ev.host with
    seqNo := ev.seqNo
    causeHost := host.hostId
    causeSeqNo := host.eventHorizon }

def logResolveHorizon (shape : Shape) (gl : GLog) (event : Event) : Exec (Int × GLog) :=
  match gl.hostList.host event.causeHost with
  | none => .ok (1, gl)
  | some host =>
    match pendingFindEvent gl.pending event.host event.seqNo with
    | none => .ok (-1, gl)
    | some slot =>
      let thisEvent := gl.pending.events slot
      if thisEvent.causeSeqNo < host.eventHorizon then
        let removed := pendingRemoveEvent gl.pending thisEvent
        if removed.1 < 0 then .ok (-1, { gl with pending := removed.2 })
        else do
          let logged ← gLogEvent shape { gl with pending := removed.2 }
            (horizonEvent thisEvent host)
          return (if logged.1 < 0 then -1 else 1, logged.2)
      else .ok (1, gl)

def belowHorizon (gl : GLog) (remoteHost : Nat) : Option (Int × Nat) :=
  gl.pending.alive.find? fun node =>
    (gl.pending.events node.2).causeHost = (gl.hostList.hash remoteHost).hostId ∧
      (gl.pending.events node.2).causeSeqNo < (gl.hostList.hash remoteHost).eventHorizon

/-- Resolve pending events, each time from the first one on; `remoteHost` is a slot. -/
def fastForwardTurns (shape : Shape) (remoteHost : Nat) : (fuel : Nat) → GLog → Exec (Int × GLog)
  | 0, _ => .error .blocked
  | fuel + 1, gl =>
    match belowHorizon gl remoteHost with
    | none => .ok (1, gl)
    | some node => do
        let resolved ← logResolveHorizon shape gl (gl.pending.events node.2)
        if resolved.1 < 0 then return (-1, resolved.2)
        else fastForwardTurns shape remoteHost fuel resolved.2

def gLogFastForward (shape : Shape) (gl : GLog) (remoteHostId : Nat) : Exec (Int × GLog) :=
  match hostListFind gl.hostList remoteHostId with
  | none => .ok (1, gl)
  | some remoteHost =>
    if (gl.hostList.hash remoteHost).eventHorizon ≤ (gl.hostList.hash remoteHost).maxSeen then
      .ok (1, gl)
    else fastForwardTurns shape remoteHost (gl.pending.alive.length + 1) gl

/-- Submit the events of the tail from slot `curr` down. -/
def importTurns (shape : Shape) (lt : Log) (earliest : Nat) :
    (fuel : Nat) → GLog → (curr : Nat) → Exec (Int × GLog)
  | 0, _, _ => .error .blocked
  | fuel + 1, gl, curr =>
    match lt.events curr with
    | none => .error .outOfBounds
    | some ev =>
      if ev.seqNo < earliest then .ok (1, gl)
      else do
        let logged ← gLogEvent shape gl ev
        if logged.1 < 0 then return (0, logged.2)
        else if prevSlot lt.size curr = lt.tail then return (1, logged.2)
        else importTurns shape lt earliest fuel logged.2 (prevSlot lt.size curr)

/-- Raise the horizon of the host to the oldest event of the tail and fast forward. -/
def importHorizon (shape : Shape) (gl : GLog) (ll lt : Log) : Exec (Int × GLog) :=
  match hostListFind gl.hostList ll.hostId with
  | none => .ok (1, gl)
  | some host =>
    match lt.events lt.head with
    | none => .error .outOfBounds
    | some first =>
      let hostList :=
        if (gl.hostList.hash host).eventHorizon < first.seqNo then
          gl.hostList.setEventHorizon host first.seqNo
        else gl.hostList
      gLogFastForward shape { gl with hostList := hostList } ll.hostId

def GLog.earliest (gl : GLog) (hostId : Nat) : Nat :=
  match gl.hostList.host hostId with
  | none => 0
  | some host => host.maxSeen

def importLogTail (shape : Shape) (gl : GLog) (ll : Log) : Exec (Int × GLog) := do
  match ← logTail ll (gl.earliest ll.hostId) ll.size with
  | none => return (0, gl)
  | some lt =>
    if lt.head = lt.tail then return (0, gl)
    else
      let forwarded ← importHorizon shape gl ll lt
      if forwarded.1 < 0 then return (-1, forwarded.2)
      else importTurns shape lt (gl.earliest ll.hostId) lt.size forwarded.2 lt.head

end Cspot.Merge
