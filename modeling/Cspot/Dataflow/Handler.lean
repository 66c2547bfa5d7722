import Mathlib.Data.List.Basic

/-!
# The dataflow handler

A program is a log of records.  Every operand starts a handler that writes a claim to the log
and reads it backwards: the first of the two handlers of a node leaves a partial record, and
one of the two fires the node.  The handlers run interleaved, one operation on a WooF at a
time; the program is large enough to keep all its records.
-/

namespace Cspot.Dataflow

variable {V : Type}

inductive NodeState where
  | waiting
  | claim
  | done
deriving Repr, DecidableEq

structure Node (V : Type) where
  opcode : Int
  readyCount : Int
  value : V
  order : Int
  nodeNo : Int
  dstOpcode : Int
  dstNo : Int
  dstOrder : Int
  state : NodeState
deriving Repr, DecidableEq

structure Operand (V : Type) where
  value : V
  dstNo : Int
  order : Int
deriving Repr, DecidableEq

/-- Where a handler stands: before the put of its claim, in the scan backwards, before the put
of the partial record, in the scan for a claim that came in between, before the put that
retires the node, before the put of the result, or at its end. -/
inductive Phase (V : Type) where
  | claiming
  | scanning (cSeqno seqno : Nat)
  | making (cSeqno : Nat) (node : Node V)
  | future (cSeqno fSeqno : Nat) (node : Node V)
  | retiring (node : Node V) (result : V)
  | sending (node : Node V) (result : V)
  | returned
  | failed
deriving Repr, DecidableEq

structure Proc (V : Type) where
  operand : Operand V
  phase : Phase V
deriving Repr, DecidableEq

/-- The program, every handler that was started, and the results with the number of the node
each comes from. -/
structure State (V : Type) where
  prog : List (Node V)
  procs : List (Proc V)
  sent : List (Int × Operand V)

/-- Number 0 stands for the end of the log. -/
def State.get (s : State V) (seqno : Nat) : Option (Node V) :=
  if seqno = 0 then s.prog.getLast? else s.prog[seqno - 1]?

def claimNode (operand : Operand V) : Node V where
  opcode := 0
  readyCount := 0
  value := operand.value
  order := operand.order
  nodeNo := operand.dstNo
  dstOpcode := 0
  dstNo := 0
  dstOrder := 0
  state := .claim

def partialNode (node : Node V) (operand : Operand V) : Node V :=
  { node with readyCount := 1, value := operand.value, order := operand.order }

def doneNode (node : Node V) : Node V :=
  { node with readyCount := 2, state := .done }

def operate (dfOperation : Int → V → V → V) (opcode order : Int) (value other : V) : V :=
  if order = 1 then dfOperation opcode value other else dfOperation opcode other value

/-- The body of the scan for the node, once its record has been read. -/
def scanned (dfOperation : Int → V → V → V) (operand : Operand V) (cSeqno seqno : Nat)
    (node : Node V) : Phase V :=
  if node.nodeNo = operand.dstNo ∧ 2 ≤ node.readyCount then .failed
  else if node.nodeNo = operand.dstNo ∧ node.readyCount = 1 then
    .retiring node (operate dfOperation node.opcode node.order node.value operand.value)
  else if node.nodeNo = operand.dstNo ∧ node.state = .claim ∧ seqno < cSeqno then .returned
  else if node.nodeNo = operand.dstNo ∧ node.state ≠ .claim ∧ node.readyCount = 0 then
    .making cSeqno (partialNode node operand)
  else if seqno = 0 then .failed
  else .scanning cSeqno (seqno - 1)

def resultOperand (node : Node V) (result : V) : Operand V :=
  ⟨result, node.dstNo, node.dstOrder⟩

/-- One operation of a handler: the records it appends to the program, the results it puts,
and where it stands then. -/
def dfhandler (dfOperation : Int → V → V → V) (s : State V) (operand : Operand V) :
    Phase V → List (Node V) × List (Int × Operand V) × Phase V
  | .claiming =>
    ([claimNode operand], [], .scanning (s.prog.length + 1) s.prog.length)
  | .scanning cSeqno seqno =>
    match s.get seqno with
    | none => ([], [], .failed)
    | some node => ([], [], scanned dfOperation operand cSeqno seqno node)
  | .making cSeqno node => ([node], [], .future cSeqno s.prog.length node)
  | .future cSeqno fSeqno node =>
    if cSeqno < fSeqno then
      match s.get fSeqno with
      | none => ([], [], .failed)
      | some fnode =>
        if fnode.nodeNo = operand.dstNo ∧ fnode.state = .claim then
          ([], [], .retiring node
            (operate dfOperation node.opcode fnode.order fnode.value operand.value))
        else ([], [], .future cSeqno (fSeqno - 1) node)
    else ([], [], .returned)
  | .retiring node result => ([doneNode node], [], .sending (doneNode node) result)
  | .sending node result => ([], [(node.nodeNo, resultOperand node result)], .returned)
  | .returned => ([], [], .returned)
  | .failed => ([], [], .failed)

/-- A result for node 0 is a final one and starts no handler. -/
def launched (results : List (Int × Operand V)) : List (Proc V) :=
  (results.filter fun result => result.2.dstNo ≠ 0).map fun result => ⟨result.2, .claiming⟩

/-- An operand is put, or one of the handlers does its next operation. -/
inductive Step (dfOperation : Int → V → V → V) (s : State V) : State V → Prop
  | put (operand : Operand V) :
      Step dfOperation s { s with procs := s.procs ++ [⟨operand, .claiming⟩] }
  | run (before after : List (Proc V)) (proc : Proc V) (records : List (Node V))
      (results : List (Int × Operand V)) (phase : Phase V)
      (hprocs : s.procs = before ++ proc :: after)
      (hrun : dfhandler dfOperation s proc.operand proc.phase = (records, results, phase)) :
      Step dfOperation s {
        prog := s.prog ++ records
        procs := before ++ ⟨proc.operand, phase⟩ :: after ++ launched results
        sent := s.sent ++ results }

/-- A program before any operand: every node has a number of its own and waits. -/
structure Program (nodes : List (Node V)) : Prop where
  distinct : (nodes.map Node.nodeNo).Nodup
  waiting : ∀ node ∈ nodes, node.state = .waiting ∧ node.readyCount = 0

inductive Reachable (dfOperation : Int → V → V → V) (nodes : List (Node V)) : State V → Prop
  | start : Reachable dfOperation nodes ⟨nodes, [], []⟩
  | step {s s' : State V} (hs : Reachable dfOperation nodes s) (hstep : Step dfOperation s s') :
      Reachable dfOperation nodes s'

end Cspot.Dataflow
