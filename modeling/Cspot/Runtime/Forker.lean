import Mathlib.Data.List.Sort
import Mathlib.Order.Bounds.Basic
import Cspot.Runtime.Log

/-!
# The forker threads

An appender logs a TRIGGER event and posts `tail_wait`.  A forker waits there, takes the
mutex of the log and claims a trigger: the first one of a cache shared by all forkers, or,
when that is empty, what a walk backwards through the log finds.
-/

namespace Cspot

/-! ## Ordered trees -/

/-- A red-black tree by its list of nodes, which is in the order of the keys. -/
abbrev RB (α : Type) := List (Int × α)

def rbInsertI64 {α : Type} (tree : RB α) (key : Nat) (value : α) : RB α :=
  tree.orderedInsert (fun a b => a.1 ≤ b.1) (Word.toInt64 key, value)

def rbFindI64 {α : Type} (tree : RB α) (key : Nat) : Option (Int × α) :=
  tree.find? fun node => node.1 = Word.toInt64 key

theorem rbFindI64_eq_none {α : Type} {tree : RB α} {key : Nat}
    (h : ∀ node ∈ tree, node.1 ≠ Word.toInt64 key) : rbFindI64 tree key = none := by
  rw [rbFindI64, List.find?_eq_none]
  intro node hnode
  simpa using h node hnode

theorem rbInsertI64_first {α : Type} {tree : RB α} {key : Nat} {value : α}
    (h : ∀ node ∈ tree, Word.toInt64 key ≤ node.1) :
    rbInsertI64 tree key value = (Word.toInt64 key, value) :: tree := by
  cases tree with
  | nil => rfl
  | cons node tree =>
    rw [rbInsertI64, List.orderedInsert, if_pos (h node List.mem_cons_self)]

/-! ## The claim section -/

/-- What the walk has gathered: the causes of the firings it has met, the cache, and the slot
of the last trigger it took. -/
structure Scan where
  evList : RB Unit
  tCache : RB Nat
  earliest : Option Nat

def Scan.visit (log : Log) (curr : Nat) (scan : Scan) : Scan :=
  match log.events curr with
  | none => scan
  | some ev =>
    if ev.type = .triggerFiring then
      { scan with evList := rbInsertI64 scan.evList ev.causeSeqNo () }
    else if ev.type = .trigger then
      if (rbFindI64 scan.evList ev.seqNo).isSome then scan
      else { scan with
        earliest := some curr
        tCache := if (rbFindI64 scan.tCache ev.seqNo).isSome then scan.tCache
          else rbInsertI64 scan.tCache ev.seqNo curr }
    else scan

/-- `curr - 1`, with the test for having wrapped on the value as an `int`. -/
def stepBack (size curr : Nat) : Nat :=
  let curr := Word.sub curr 1
  if Word.toInt32 curr < 0 then Word.sub size 1 else curr

/-- The walk from `curr` to the tail or to the slot last checked; `none` when it has not
ended after `fuel` turns. -/
def scanBack (log : Log) : (fuel : Nat) → (curr : Nat) → Scan → Option Scan
  | 0, _, _ => none
  | fuel + 1, curr, scan =>
    if curr = log.tail then some scan
    else
      let scan := scan.visit log curr
      let curr := stepBack log.size curr
      if curr = log.lastChecked then some scan else scanBack log fuel curr scan

/-- The slot of the trigger to claim, and the cache without its first node. -/
def chooseTrigger (fuel : Nat) (log : Log) (tCache : RB Nat) : Option (Option Nat × RB Nat) :=
  match tCache with
  | (_, slot) :: rest => some (some slot, rest)
  | [] => (scanBack log fuel log.head ⟨[], [], none⟩).map fun scan =>
    (scan.earliest, scan.tCache.tail)

def firingEvent (nameId : Nat) (wooFNamespace : Bytes) (slot : Nat) : Event :=
  { eventSetCause (eventCreate .triggerFiring nameId) nameId slot with
    woofcNamespace := wooFNamespace }

/-- From the lock of the log to its release. -/
def claimTrigger (nameId : Nat) (wooFNamespace : Bytes) (log : Log) (earliest : Option Nat) :
    Exec Log := do
  let mutex ← semP log.mutex
  let locked := { log with mutex := mutex }
  match earliest with
  | none => return { locked with lastChecked := log.head, mutex := semV mutex }
  | some slot =>
    let (ls, logged) ← logEventNoLock locked (firingEvent nameId wooFNamespace slot)
    -- the process exits when the record has no number
    if ls = 0 then throw .exception
    return { logged with lastChecked := slot, mutex := semV logged.mutex }

/-- The claim section of a forker: the slot claimed, the log and the cache after it.  `none`
when the walk has not ended after `fuel` turns. -/
def wooFForkerClaim (nameId : Nat) (wooFNamespace : Bytes) (fuel : Nat) (log : Log)
    (tCache : RB Nat) : Option (Exec (Option Nat × Log × RB Nat)) :=
  (chooseTrigger fuel log tCache).map fun (earliest, rest) => do
    let after ← claimTrigger nameId wooFNamespace log earliest
    return (earliest, after, rest)

section ClaimTrigger

variable {log : Log} {nameId : Nat} {wooFNamespace : Bytes}

theorem Log.Numbered.claimTrigger_some (h : log.Numbered) (hmutex : log.mutex = 1)
    (hroom : log.seqNo + 1 < Word.modulus) (slot : Nat) :
    claimTrigger nameId wooFNamespace log (some slot) =
      .ok { log.record (firingEvent nameId wooFNamespace slot) with lastChecked := slot } := by
  have hlocked : Log.Numbered { log with mutex := 0 } :=
    ⟨h.size_pos, h.seqNo_pos, h.head_eq, h.tail_eq⟩
  have hlog := hlocked.logEventNoLock hroom (firingEvent nameId wooFNamespace slot)
  have hunlocked : semV 0 = log.mutex := by
    rw [hmutex]
    decide
  have hpos : log.seqNo ≠ 0 := Nat.ne_of_gt h.seqNo_pos
  simp [claimTrigger, hmutex, hlog, hpos, Log.record, hunlocked]

theorem claimTrigger_none (hmutex : log.mutex = 1) :
    claimTrigger nameId wooFNamespace log none = .ok { log with lastChecked := log.head } := by
  have hunlocked : semV 0 = log.mutex := by
    rw [hmutex]
    decide
  simp [claimTrigger, hmutex, hunlocked]

end ClaimTrigger

/-! ## Appenders and forkers -/

/-- The log with the threads around it: how many appenders have logged a TRIGGER they have not
posted, and how many forkers have come through `tail_wait` and not claimed yet.  The last two
fields only keep the record: the numbers of the triggers logged, and what every claim section
claimed. -/
structure Dispatch where
  log : Log
  tCache : RB Nat
  pending : Nat
  awake : Nat
  logged : List Nat
  claimed : List (Option Nat)

def Dispatch.start (hostId size : Nat) : Dispatch where
  log := logCreate hostId size
  tCache := []
  pending := 0
  awake := 0
  logged := []
  claimed := []

def Log.numberAt (log : Log) (slot : Nat) : Option Nat := (log.events slot).map Event.seqNo

def Dispatch.Unclaimed (d : Dispatch) (u : Nat) : Prop := u ∈ d.logged ∧ some u ∉ d.claimed

/-- No unclaimed trigger has been overwritten, nor anything after the slot last checked:
fewer than `size - 1` events were logged after the one, no more than `size` after the other. -/
structure Dispatch.InTime (d : Dispatch) : Prop where
  unclaimed : ∀ u, d.Unclaimed u → d.log.seqNo - 1 - u < d.log.size - 1
  checked : ∀ t, d.claimed.getLast? = some (some t) → d.log.seqNo - 1 - t ≤ d.log.size

section Steps

variable (nameId : Nat) (wooFNamespace : Bytes)

inductive Dispatch.Step : Dispatch → Dispatch → Prop
  | trigger {d : Dispatch} {ev : Event} {seqNo : Nat} {log : Log} (htype : ev.type = .trigger)
      (hlog : logEvent d.log ev = .ok (seqNo, log)) :
      Step d { d with log := log, pending := d.pending + 1, logged := d.logged ++ [seqNo] }
  | other {d : Dispatch} {ev : Event} {seqNo : Nat} {log : Log} (htype : ev.type ≠ .trigger)
      (hfiring : ev.type ≠ .triggerFiring) (hlog : logEvent d.log ev = .ok (seqNo, log)) :
      Step d { d with log := log }
  | post {d : Dispatch} (hpending : 0 < d.pending) :
      Step d { d with
        log := { d.log with tailWait := semV d.log.tailWait }
        pending := d.pending - 1 }
  | wait {d : Dispatch} {tailWait : Int} (hwait : semP d.log.tailWait = .ok tailWait) :
      Step d { d with log := { d.log with tailWait := tailWait }, awake := d.awake + 1 }
  | claim {d : Dispatch} {fuel : Nat} {slot : Option Nat} {log : Log} {tCache : RB Nat}
      (hawake : 0 < d.awake) (hintime : d.InTime)
      (hclaim : wooFForkerClaim nameId wooFNamespace fuel d.log d.tCache =
        some (.ok (slot, log, tCache))) :
      Step d { d with
        log := log
        tCache := tCache
        awake := d.awake - 1
        claimed := d.claimed ++ [slot.bind d.log.numberAt] }

/-- The states of the runs on a new log whose actions are all taken in states with `P`. -/
inductive Dispatch.Reachable (hostId size : Nat) (P : Dispatch → Prop) : Dispatch → Prop
  | start : Reachable hostId size P (Dispatch.start hostId size)
  | step {d d' : Dispatch} (hreach : Reachable hostId size P d) (hP : P d)
      (hstep : Dispatch.Step nameId wooFNamespace d d') : Reachable hostId size P d'

end Steps

end Cspot
