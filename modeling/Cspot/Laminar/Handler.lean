import Cspot.Lib.Window
import Mathlib.Logic.Function.Basic

/-!
# The handler of subscription events

A node of a graph reads, for its current iteration, one operand from the output of every node
it subscribes to, and appends its result to its own output.  Handlers of one node run side by
side; they meet only in the pointer WooF that holds the iteration and a lock.  A step is one
operation on a WooF.
-/

namespace Cspot.Laminar

inductive Opcode where
  | operand | add | sub | mul | div | sqr | lt | gt | eq | abs | not | sel | filter | offset
  | knn | linreg
deriving Repr, DecidableEq

structure Operand (V : Type) where
  value : V
  seq : Nat
deriving Repr, DecidableEq

/-- An operand with its number in the output it was read from. -/
structure CachedOutput (V : Type) where
  op : Operand V
  seq : Nat
deriving Repr, DecidableEq

structure ExecutionIterationLock where
  iter : Nat
  lock : Bool
deriving Repr, DecidableEq

/-- What the handler needs to know of the values: the default, the test of `FILTER`, and the
conversion of the offset. -/
structure Values (V : Type) where
  zero : V
  truthy : V → Bool
  toUlong : V → Nat

/-- The nodes, and for every node those it subscribes to in the order of its ports.  These
WooFs are written before the first event and only read from then on. -/
structure Graph (N : Type) where
  opcode : N → Opcode
  subscriptions : N → List N

/-- Where a handler stands.  `consumerSeq` is the iteration it read at its start, `ops` the
operands of the ports it is done with; `outputWoof` is the variable of that name, which the
first port finds empty. -/
inductive Phase (V N : Type) where
  | start
  | port (consumerSeq : Nat) (ops : List (Operand V)) (outputWoof : Option N)
  | firstRead (consumerSeq : Nat) (ops : List (Operand V)) (outputWoof : Option N)
  | cachedRead (consumerSeq : Nat) (ops : List (Operand V)) (outputWoof : Option N)
  | source (consumerSeq : Nat) (ops : List (Operand V)) (idx : Nat) (src : N)
  | scan (consumerSeq : Nat) (ops : List (Operand V)) (src : N) (idx lastIdx : Nat)
  | cache (consumerSeq : Nat) (ops : List (Operand V)) (src : N) (op : Operand V) (idx : Nat)
  | fire (consumerSeq : Nat) (ops : List (Operand V))
  | lock (consumerSeq : Nat) (ops : List (Operand V)) (execIterLk : ExecutionIterationLock)
  | previous (consumerSeq : Nat) (ops : List (Operand V)) (execIterLk : ExecutionIterationLock)
      (lkSeq : Nat)
  | putBack (prev : ExecutionIterationLock)
  | test (consumerSeq : Nat) (ops : List (Operand V)) (execIterLk : ExecutionIterationLock)
  | write (consumerSeq : Nat) (ops : List (Operand V)) (execIterLk : ExecutionIterationLock)
      (lastSeq : Nat)
  | release (execIterLk : ExecutionIterationLock)
  | returned
deriving Repr, DecidableEq

structure Proc (V N : Type) where
  node : N
  eventSeq : Nat
  phase : Phase V N
deriving Repr, DecidableEq

/-- Everything that was ever put to the WooFs, the handlers, and the iterations for which the
handlers of a node appended a result. -/
structure State (V N : Type) where
  output : N → List (Operand V)
  pointer : N → List ExecutionIterationLock
  pos : N → Nat → List (CachedOutput V)
  procs : List (Proc V N)
  fired : N → List Nat

variable {V N : Type}

def woofSize : Nat := 3000

def woofGet {α : Type} (log : List α) (seqNo : Nat) : Option α :=
  let woof := (Window.empty woofSize 1 (by decide) Nat.one_pos).appendAll log
  if seqNo = 0 then woof.readLatest else woof.read seqNo

def woofLastSeq {α : Type} (log : List α) : Nat := log.length

/-- The iteration of the last result; an operand nothing was read into has iteration 1. -/
def State.lastResultSeq (s : State V N) (n : N) : Nat :=
  ((woofGet (s.output n) 0).map Operand.seq).getD 1

def nextPort (g : Graph N) (n : N) (consumerSeq : Nat) (ops : List (Operand V))
    (outputWoof : Option N) : Phase V N :=
  if ops.length < (g.subscriptions n).length then .port consumerSeq ops outputWoof
  else .fire consumerSeq ops

inductive Effect (V : Type) where
  | none
  | pos (port : Nat) (cached : CachedOutput V)
  | pointer (record : ExecutionIterationLock)
  | output (result : Operand V)

def afterCached (g : Graph N) (n : N) (consumerSeq : Nat) (ops : List (Operand V))
    (outputWoof : Option N) (last : CachedOutput V) : Phase V N :=
  if last.op.seq = consumerSeq then nextPort g n consumerSeq (ops ++ [last.op]) outputWoof
  else if consumerSeq < last.op.seq then .returned
  else
    match (g.subscriptions n)[ops.length]? with
    | none => .returned
    | some src => .source consumerSeq ops last.seq src

def afterScan (g : Graph N) (n : N) (consumerSeq : Nat) (ops : List (Operand V)) (src : N)
    (op : Operand V) : Phase V N :=
  if op.seq = consumerSeq then nextPort g n consumerSeq (ops ++ [op]) (some src) else .returned

/-- The result of an operation; its value is not looked at. -/
def performOperation (vals : Values V) (opcode : Opcode) (ops : List (Operand V))
    (consumerSeq : Nat) (value : V) : Operand V where
  value := value
  seq := match opcode, ops with
    | .offset, op :: _ => consumerSeq + vals.toUlong op.value
    | _, _ => consumerSeq

/-- `FILTER` writes its result only if its first operand says so. -/
def omits (vals : Values V) (opcode : Opcode) (ops : List (Operand V)) : Bool :=
  opcode = .filter && match ops with
    | op :: _ => !vals.truthy op.value
    | [] => true

/-- One operation of a handler of `n`: what it puts, the number of the event it goes on with,
and where it stands then.  A handler that finds the node locked only says so. -/
def subscriptionEventHandler (vals : Values V) (g : Graph N) (s : State V N) (value : V) (n : N)
    (eventSeq : Nat) : Phase V N → Effect V × Nat × Phase V N
  | .start =>
    match woofGet (s.pointer n) 0 with
    | none => (.none, eventSeq, .returned)
    | some execIterLk =>
      if execIterLk.iter < eventSeq then (.none, eventSeq, .returned)
      else (.none, eventSeq, nextPort g n execIterLk.iter [] none)
  | .port consumerSeq ops outputWoof =>
    if woofLastSeq (s.pos n ops.length) = 0 then
      (.none, eventSeq, .firstRead consumerSeq ops outputWoof)
    else (.none, eventSeq, .cachedRead consumerSeq ops outputWoof)
  | .firstRead consumerSeq ops outputWoof =>
    -- there is no WooF with the empty name, and its last number is not 0
    match outputWoof.map fun src => woofLastSeq (s.output src) with
    | some 0 => (.none, eventSeq, .returned)
    | _ => (.none, eventSeq,
        afterCached g n consumerSeq ops outputWoof ⟨⟨vals.zero, 0⟩, 0⟩)
  | .cachedRead consumerSeq ops outputWoof =>
    (.none, eventSeq, afterCached g n consumerSeq ops outputWoof
      ((woofGet (s.pos n ops.length) 0).getD ⟨⟨vals.zero, 0⟩, 0⟩))
  | .source consumerSeq ops idx src =>
    if woofLastSeq (s.output src) ≤ idx then (.none, eventSeq, .returned)
    else (.none, eventSeq, .scan consumerSeq ops src idx (woofLastSeq (s.output src)))
  | .scan consumerSeq ops src idx lastIdx =>
    match woofGet (s.output src) (idx + 1) with
    | none => (.none, eventSeq, .returned)
    | some op =>
      if op.seq < consumerSeq ∧ idx + 1 < lastIdx then
        (.none, eventSeq, .scan consumerSeq ops src (idx + 1) lastIdx)
      else if op.seq ≤ consumerSeq then
        (.none, eventSeq, .cache consumerSeq ops src op (idx + 1))
      else (.none, eventSeq, afterScan g n consumerSeq ops src op)
  | .cache consumerSeq ops src op idx =>
    (.pos ops.length ⟨op, idx⟩, eventSeq, afterScan g n consumerSeq ops src op)
  | .fire consumerSeq ops =>
    match woofGet (s.pointer n) 0 with
    | none => (.none, eventSeq, .returned)
    | some execIterLk =>
      if execIterLk.iter < eventSeq then (.none, eventSeq, .returned)
      else (.none, eventSeq, .lock consumerSeq ops execIterLk)
  | .lock consumerSeq ops execIterLk =>
    (.pointer ⟨execIterLk.iter, true⟩, eventSeq,
      .previous consumerSeq ops execIterLk (woofLastSeq (s.pointer n) + 1))
  | .previous consumerSeq ops execIterLk lkSeq =>
    let prev := (woofGet (s.pointer n) (lkSeq - 1)).getD ⟨1, false⟩
    if execIterLk.iter < prev.iter then (.none, eventSeq, .putBack prev)
    else (.none, eventSeq, .test consumerSeq ops execIterLk)
  | .putBack prev =>
    if prev.lock then (.pointer prev, eventSeq, .returned)
    else (.pointer prev, eventSeq + 1, .start)
  | .test consumerSeq ops execIterLk =>
    if g.opcode n ≠ .offset ∧ consumerSeq ≤ s.lastResultSeq n then (.none, eventSeq, .returned)
    else if omits vals (g.opcode n) ops then (.none, eventSeq, .release execIterLk)
    else (.none, eventSeq, .write consumerSeq ops execIterLk (s.lastResultSeq n))
  | .write consumerSeq ops execIterLk _ =>
    (.output (performOperation vals (g.opcode n) ops consumerSeq value), eventSeq,
      .release execIterLk)
  | .release execIterLk =>
    (.pointer ⟨execIterLk.iter + 1, false⟩, eventSeq + 1, .start)
  | .returned => (.none, eventSeq, .returned)

section Steps

variable [DecidableEq N]

def State.apply (s : State V N) (n : N) : Effect V → State V N
  | .none => s
  | .pos port cached =>
    { s with
      pos := Function.update s.pos n
        (Function.update (s.pos n) port (s.pos n port ++ [cached])) }
  | .pointer record =>
    { s with pointer := Function.update s.pointer n (s.pointer n ++ [record]) }
  | .output result =>
    { s with
      output := Function.update s.output n (s.output n ++ [result])
      fired := Function.update s.fired n (s.fired n ++ [result.seq]) }

def State.run (vals : Values V) (g : Graph N) (s : State V N) (i : Nat) (value : V) : State V N :=
  match s.procs[i]? with
  | none => s
  | some proc =>
    let (effect, eventSeq, phase) :=
      subscriptionEventHandler vals g s value proc.node proc.eventSeq proc.phase
    { s.apply proc.node effect with procs := s.procs.set i ⟨proc.node, eventSeq, phase⟩ }

end Steps

def setup (seeds : N → List (Operand V)) : State V N where
  output := seeds
  pointer := fun _ => [⟨1, false⟩]
  pos := fun _ _ => []
  procs := []
  fired := fun _ => []

/-- The states of the runs in which every operation meets a condition on the state before it
and the handler that is to go on.  An event starts a handler (operand nodes have no events), a
client puts an operand, or a handler goes on. -/
inductive Reachable [DecidableEq N] (vals : Values V) (g : Graph N) (seeds : N → List (Operand V))
    (Meets : State V N → Proc V N → Prop) : State V N → Prop
  | setup : Reachable vals g seeds Meets (setup seeds)
  | event {s : State V N} (hs : Reachable vals g seeds Meets s) (n : N) (eventSeq : Nat)
      (hn : g.opcode n ≠ .operand) :
      Reachable vals g seeds Meets { s with procs := s.procs ++ [⟨n, eventSeq, .start⟩] }
  | feed {s : State V N} (hs : Reachable vals g seeds Meets s) (n : N) (op : Operand V)
      (hn : g.opcode n = .operand) :
      Reachable vals g seeds Meets
        { s with output := Function.update s.output n (s.output n ++ [op]) }
  | run {s : State V N} (hs : Reachable vals g seeds Meets s) (i : Nat) (value : V)
      (hmeets : ∀ proc, s.procs[i]? = some proc → Meets s proc) :
      Reachable vals g seeds Meets (s.run vals g i value)

end Cspot.Laminar
