import Cspot.Lib.Bytes
import Cspot.Lib.Window

/-!
# Monitors

A monitor runs the handlers of its pool one at a time.  Whoever is to act next is a process
started by a put: an invoker, which looks for the next items of the pool, or a handler, which
starts the next invoker when it leaves the monitor.  The processes run interleaved, one
operation on a WooF at a time.
-/

namespace Cspot.Monitor

def historyLength : Nat := 1024

structure PoolItem where
  woofName : Bytes
  handler : Bytes
  seqNo : Nat
  monitorName : Bytes
  idempotent : Int
deriving Repr, DecidableEq

/-! ## The items clients put -/

def monitorPut (monitorName woofName handler : Bytes) (woofSeq : Nat) (idempotent : Int) :
    PoolItem :=
  ⟨woofName, handler, woofSeq, monitorName, idempotent⟩

/-- The item is never cleared, so its flag is whatever the stack held. -/
def monitorQueue (monitorName woofName handler : Bytes) (seqNo : Nat) (stack : Int) : PoolItem :=
  ⟨woofName, handler, seqNo, monitorName, stack⟩

/-- The names are those of the two URIs. -/
def monitorRemotePut (monitorName woofName handler : Bytes) (woofSeq : Nat) (idempotent : Int) :
    PoolItem :=
  monitorPut monitorName woofName handler woofSeq idempotent

def monitorRemoteQueue (monitorName woofName handler : Bytes) (seqNo : Nat) (idempotent : Int) :
    PoolItem :=
  monitorPut monitorName woofName handler seqNo idempotent

/-- What can be put to the pool of the monitor. -/
inductive Enqueues (monitorName : Bytes) : PoolItem → Prop
  | put (woofName handler : Bytes) (woofSeq : Nat) (idempotent : Int) :
      Enqueues monitorName (monitorPut monitorName woofName handler woofSeq idempotent)
  | queue (woofName handler : Bytes) (seqNo : Nat) (stack : Int) :
      Enqueues monitorName (monitorQueue monitorName woofName handler seqNo stack)
  | remotePut (woofName handler : Bytes) (woofSeq : Nat) (idempotent : Int) :
      Enqueues monitorName (monitorRemotePut monitorName woofName handler woofSeq idempotent)
  | remoteQueue (woofName handler : Bytes) (seqNo : Nat) (idempotent : Int) :
      Enqueues monitorName (monitorRemoteQueue monitorName woofName handler seqNo idempotent)

/-! ## Processes -/

/-- Where an invoker stands: before the first read, behind the read of the done count, in the
loop that fetches the items, in the loop that looks for the one to start, before the put of
the next invoker, or behind its last put. -/
inductive Invoker where
  | scheduled
  | counted (lastDone : Nat)
  | fetching (lastDone count : Nat) (items : List PoolItem)
  | choosing (lastDone : Nat) (items : List PoolItem) (i : Nat)
  | idle
  | returning
deriving Repr, DecidableEq

/-- Where a handler stands; `exiting` is between the two puts of `monitor_exit`. -/
inductive Handler where
  | scheduled
  | running
  | exiting
  | left
deriving Repr, DecidableEq

/-- A handler keeps the number its item has in the pool. -/
inductive Proc where
  | invoker (phase : Invoker)
  | handler (number : Nat) (item : PoolItem) (phase : Handler)
deriving Repr, DecidableEq

/-- The process has yet to pass the monitor on. -/
def Proc.holds : Proc → Bool
  | .invoker .returning => false
  | .handler _ _ .left => false
  | _ => true

/-- A monitor with everything that was ever put to its pool, and what became of the items:
the numbers in the order in which handlers started, and the numbers skipped with the length
of the pool at that time. -/
structure State where
  name : Bytes
  queued : List PoolItem
  done : Window Unit
  procs : List Proc
  started : List Nat
  skipped : List (Nat × Nat)

def State.pool (m : State) : Window PoolItem :=
  (Window.empty historyLength 1 (by decide) Nat.one_pos).appendAll m.queued

def monitorCreate (name : Bytes) : State where
  name := name
  queued := []
  done := Window.empty historyLength 1 (by decide) Nat.one_pos
  procs := [.invoker .scheduled]
  started := []
  skipped := []

/-- The inner loop over the items behind the `i`-th. -/
def skips (items : List PoolItem) (i : Nat) (item : PoolItem) : Bool :=
  item.idempotent ≠ 0 &&
    (items.drop (i + 1)).any fun later => later.handler = item.handler && later.idempotent ≠ 0

/-- One operation of an invoker: the monitor afterwards, and what the process has become,
behind the process it started, if any.  An invoker that cannot read an item exits. -/
def State.monitorInvoker (m : State) : Invoker → State × List Proc
  | .scheduled => (m, [.invoker (.counted m.done.latest)])
  | .counted lastDone =>
    if lastDone + 1 ≤ m.pool.latest then
      (m, [.invoker (.fetching lastDone (m.pool.latest - lastDone) [])])
    else (m, [.invoker .idle])
  | .fetching lastDone count items =>
    if items.length < count then
      match m.pool.read (lastDone + 1 + items.length) with
      | some item => (m, [.invoker (.fetching lastDone count (items ++ [item]))])
      | none => (m, [])
    else (m, [.invoker (.choosing lastDone items 0)])
  | .choosing lastDone items i =>
    match items[i]? with
    | none => (m, [.invoker .returning])
    | some item =>
      if skips items i item then
        ({ m with
            done := m.done.append ()
            skipped := m.skipped ++ [(lastDone + 1 + i, m.queued.length)] },
          [.invoker (.choosing lastDone items (i + 1))])
      else (m, [.handler (lastDone + 1 + i) item .scheduled, .invoker .returning])
  | .idle => (m, [.invoker .scheduled, .invoker .returning])
  | .returning => (m, [])

/-- One operation of a handler, as far as the monitor sees it.  `monitor_exit` puts to the
WooFs of the monitor its item names. -/
def State.runHandler (m : State) (number : Nat) (item : PoolItem) :
    Handler → State × List Proc
  | .scheduled =>
    ({ m with started := m.started ++ [number] }, [.handler number item .running])
  | .running =>
    (if item.monitorName = m.name then { m with done := m.done.append () } else m,
      [.handler number item .exiting])
  | .exiting =>
    (m, (if item.monitorName = m.name then [.invoker .scheduled] else []) ++
      [.handler number item .left])
  | .left => (m, [])

def State.advance (m : State) : Proc → State × List Proc
  | .invoker phase => m.monitorInvoker phase
  | .handler number item phase => m.runHandler number item phase

/-- A client puts an item, or one of the processes does its next operation. -/
inductive Step (m : State) : State → Prop
  | put (item : PoolItem) (hitem : Enqueues m.name item) :
      Step m { m with queued := m.queued ++ [item] }
  | run (before after : List Proc) (proc : Proc) (hprocs : m.procs = before ++ proc :: after) :
      Step m { (m.advance proc).1 with procs := before ++ (m.advance proc).2 ++ after }

/-- Fewer items are waiting than the pool holds. -/
def State.Outstanding (m : State) : Prop :=
  m.queued.length - m.done.latest < historyLength

instance (m : State) : Decidable m.Outstanding := inferInstanceAs (Decidable (_ < _))

/-- The states of the runs in which the pool never overflows. -/
inductive Reachable (name : Bytes) : State → Prop
  | created : Reachable name (monitorCreate name)
  | step {m m' : State} (hm : Reachable name m) (hstep : Step m m')
      (hout : m'.Outstanding) : Reachable name m'

end Cspot.Monitor
