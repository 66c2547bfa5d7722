import Mathlib.Algebra.Group.Nat.Defs
import Mathlib.Data.List.Basic
import Mathlib.Data.List.Pairwise
import Mathlib.Tactic.Common

/-!
# Forwarding the elements of a woof

`senspot_forward` is the handler of a local woof.  It reads the latest record of the state
woof, puts the elements behind `last_local` up to its own into the forward woof, and appends a
record after each.  An element stands here for its local number; the two counters of a record
are 32 bits wide.
-/

namespace Cspot.Senspot

structure SensFwd where
  lastLocal : Nat
  lastRemote : Nat
deriving Repr, DecidableEq

def toUnsigned (n : Nat) : Nat := n % 2 ^ 32

/-- The records of the state woof and the elements of the forward woof, oldest first. -/
structure Forwarder where
  records : List SensFwd
  forwarded : List Nat
deriving Repr, DecidableEq

def Forwarder.initial : Forwarder := ⟨[⟨0, 0⟩], []⟩

def Forwarder.put (fwd : Forwarder) (element seqNo rSeqNo : Nat) : Forwarder where
  records := fwd.records ++ [⟨toUnsigned seqNo, toUnsigned rSeqNo⟩]
  forwarded := fwd.forwarded ++ [element]

/-- The number `WooFGet` reads: zero asks for the latest element. -/
def elementAt (latest seqNo : Nat) : Nat := if seqNo = 0 then latest else seqNo

/-- The loop over the missing elements: `puts k` is the answer to the `k`-th remote put, none
for a failed one.  Gives the number of puts made if it comes to its end. -/
def syncLoop (latest : Nat) (puts : Nat → Option Nat) :
    (missing k currSeqNo : Nat) → Forwarder → Forwarder × Option Nat
  | 0, k, _, fwd => (fwd, some k)
  | missing + 1, k, currSeqNo, fwd =>
    match puts k with
    | none => (fwd, none)
    | some rSeqNo =>
      syncLoop latest puts missing (k + 1) (currSeqNo + 1)
        (fwd.put (elementAt latest currSeqNo) currSeqNo rSeqNo)

def Forwarder.putOwn (fwd : Forwarder) (seqNo : Nat) (answer : Option Nat) : Forwarder :=
  match answer with
  | none => fwd
  | some rSeqNo => fwd.put seqNo seqNo rSeqNo

def finishSync (seqNo : Nat) (puts : Nat → Option Nat) : Forwarder × Option Nat → Forwarder
  | (fwd, none) => fwd
  | (fwd, some k) => fwd.putOwn seqNo (puts k)

/-- An execution that has found the forwarder idle. -/
def senspotForward (seqNo latest : Nat) (puts : Nat → Option Nat) (fwd : Forwarder) : Forwarder :=
  match fwd.records.getLast? with
  | none => fwd
  | some sfwd =>
    if sfwd.lastLocal = 0 then fwd.putOwn seqNo (puts 0)
    else
      let currSeqNo := toUnsigned (sfwd.lastLocal + 1)
      finishSync seqNo puts (syncLoop latest puts (seqNo - currSeqNo) 0 currSeqNo fwd)

/-- An execution of the handler for an element, which may have found the forwarder active. -/
structure Turn where
  seqNo : Nat
  latest : Nat
  idle : Bool
  puts : Nat → Option Nat

def Turn.run (turn : Turn) (fwd : Forwarder) : Forwarder :=
  if turn.idle then senspotForward turn.seqNo turn.latest turn.puts fwd else fwd

def runTurns (turns : List Turn) (fwd : Forwarder) : Forwarder :=
  turns.foldl (fun fwd turn => turn.run fwd) fwd

/-! ## Order -/

/-- The elements have been forwarded in order, and `last_local` has not decreased. -/
structure Forwarder.Ordered (fwd : Forwarder) : Prop where
  increasing : fwd.forwarded.Pairwise (· < ·)
  steady : (fwd.records.map SensFwd.lastLocal).Pairwise (· ≤ ·)

def Forwarder.Extends (fwd fwd' : Forwarder) : Prop :=
  fwd.forwarded <+: fwd'.forwarded ∧ fwd.records <+: fwd'.records

section Order

variable {fwd fwd' fwd'' : Forwarder}

theorem Forwarder.Extends.refl (fwd : Forwarder) : fwd.Extends fwd :=
  ⟨List.prefix_refl _, List.prefix_refl _⟩

theorem Forwarder.Extends.trans (h : fwd.Extends fwd') (h' : fwd'.Extends fwd'') :
    fwd.Extends fwd'' :=
  ⟨h.1.trans h'.1, h.2.trans h'.2⟩

theorem Forwarder.put_extends (fwd : Forwarder) (element seqNo rSeqNo : Nat) :
    fwd.Extends (fwd.put element seqNo rSeqNo) :=
  ⟨List.prefix_append _ _, List.prefix_append _ _⟩

theorem Forwarder.Ordered.of_extends (h : fwd'.Ordered) (hext : fwd.Extends fwd') : fwd.Ordered :=
  ⟨h.increasing.sublist hext.1.sublist, h.steady.sublist (hext.2.sublist.map _)⟩

theorem Forwarder.putOwn_extends (fwd : Forwarder) (seqNo : Nat) (answer : Option Nat) :
    fwd.Extends (fwd.putOwn seqNo answer) := by
  cases answer with
  | none => exact .refl fwd
  | some rSeqNo => exact fwd.put_extends _ _ _

theorem syncLoop_extends (latest : Nat) (puts : Nat → Option Nat) (missing k currSeqNo : Nat)
    (fwd : Forwarder) : fwd.Extends (syncLoop latest puts missing k currSeqNo fwd).1 := by
  induction missing generalizing k currSeqNo fwd with
  | zero => exact .refl fwd
  | succ missing ih =>
    rw [syncLoop]
    cases puts k with
    | none => exact .refl fwd
    | some rSeqNo => exact (fwd.put_extends _ _ _).trans (ih _ _ _)

theorem finishSync_extends (seqNo : Nat) (puts : Nat → Option Nat)
    (synced : Forwarder × Option Nat) : synced.1.Extends (finishSync seqNo puts synced) := by
  obtain ⟨fwd, made⟩ := synced
  cases made with
  | none => exact .refl fwd
  | some k => exact fwd.putOwn_extends _ _

theorem senspotForward_extends (seqNo latest : Nat) (puts : Nat → Option Nat) (fwd : Forwarder) :
    fwd.Extends (senspotForward seqNo latest puts fwd) := by
  rw [senspotForward]
  split
  · exact .refl fwd
  · split
    · exact fwd.putOwn_extends _ _
    · exact (syncLoop_extends _ _ _ _ _ fwd).trans (finishSync_extends _ _ _)

end Order

/-! ## One execution -/

/-- In order so far, with `last` the number of the last element and of the latest record. -/
structure Forwarder.Synced (fwd : Forwarder) (last : Nat) : Prop where
  ordered : fwd.Ordered
  small : last < 2 ^ 32
  latest : fwd.records.getLast?.map SensFwd.lastLocal = some last
  records_le : ∀ record ∈ fwd.records, record.lastLocal ≤ last
  forwarded_le : ∀ element ∈ fwd.forwarded, element ≤ last
  last_mem : last = 0 ∨ last ∈ fwd.forwarded

section Execution

variable {fwd : Forwarder} {last : Nat} {n seqNo : Nat}

theorem Forwarder.initial_synced : Forwarder.initial.Synced 0 where
  ordered := ⟨List.Pairwise.nil, List.pairwise_singleton _ _⟩
  small := by decide
  latest := rfl
  records_le := by simp [Forwarder.initial]
  forwarded_le := by simp [Forwarder.initial]
  last_mem := .inl rfl

theorem toUnsigned_of_lt (h : n < 2 ^ 32) : toUnsigned n = n := Nat.mod_eq_of_lt h

theorem Forwarder.Synced.put (h : fwd.Synced last) (hlt : last < n) (hn : n < 2 ^ 32)
    (rSeqNo : Nat) :
    (fwd.put n n rSeqNo).Synced n where
  ordered := by
    refine ⟨List.pairwise_append.2 ⟨h.ordered.increasing, List.pairwise_singleton _ _, ?_⟩, ?_⟩
    · intro element hmem other hother
      rw [List.mem_singleton.1 hother]
      exact Nat.lt_of_le_of_lt (h.forwarded_le element hmem) hlt
    · rw [Forwarder.put, List.map_append, List.map_singleton, toUnsigned_of_lt hn]
      refine List.pairwise_append.2 ⟨h.ordered.steady, List.pairwise_singleton _ _, ?_⟩
      intro number hmem other hother
      obtain ⟨record, hrecord, rfl⟩ := List.mem_map.1 hmem
      rw [List.mem_singleton.1 hother]
      exact Nat.le_of_lt (Nat.lt_of_le_of_lt (h.records_le record hrecord) hlt)
  small := hn
  latest := by simp [Forwarder.put, toUnsigned_of_lt hn]
  records_le := by
    intro record hmem
    rcases List.mem_append.1 hmem with hold | hnew
    · exact Nat.le_of_lt (Nat.lt_of_le_of_lt (h.records_le record hold) hlt)
    · rw [List.mem_singleton.1 hnew]
      exact Nat.le_of_eq (toUnsigned_of_lt hn)
  forwarded_le := by
    intro element hmem
    rcases List.mem_append.1 hmem with hold | hnew
    · exact Nat.le_of_lt (Nat.lt_of_le_of_lt (h.forwarded_le element hold) hlt)
    · exact Nat.le_of_eq (List.mem_singleton.1 hnew)
  last_mem := .inr (List.mem_append_right _ (List.mem_singleton_self n))

theorem Forwarder.Synced.putOwn (h : fwd.Synced last) (hlt : last < n) (hn : n < 2 ^ 32)
    (answer : Option Nat) : ∃ last', (fwd.putOwn n answer).Synced last' := by
  cases answer with
  | none => exact ⟨last, h⟩
  | some rSeqNo => exact ⟨n, h.put hlt hn rSeqNo⟩

theorem Forwarder.Synced.loop (latest : Nat) (puts : Nat → Option Nat) (missing k : Nat)
    (h : fwd.Synced last) (hlt : last + missing < 2 ^ 32) :
    ∃ last', (syncLoop latest puts missing k (last + 1) fwd).1.Synced last' ∧
      last' ≤ last + missing := by
  induction missing generalizing k last fwd with
  | zero => exact ⟨last, h, Nat.le_refl _⟩
  | succ missing ih =>
    rw [syncLoop]
    cases puts k with
    | none => exact ⟨last, h, Nat.le_add_right _ _⟩
    | some rSeqNo =>
      have helement : elementAt latest (last + 1) = last + 1 := if_neg (Nat.succ_ne_zero _)
      obtain ⟨last', hsynced, hle⟩ :=
        ih (k + 1) (h.put (Nat.lt_succ_self last) (by omega) rSeqNo) (by omega)
      exact ⟨last', hsynced, by omega⟩

theorem Forwarder.Synced.later (h : fwd.Synced last) (hlt : last < seqNo) (hseqNo : seqNo < 2 ^ 32)
    (latest : Nat) (puts : Nat → Option Nat) :
    ∃ last', (senspotForward seqNo latest puts fwd).Synced last' := by
  obtain ⟨sfwd, hsfwd, hlast⟩ := Option.map_eq_some_iff.1 h.latest
  simp only [senspotForward, hsfwd, hlast]
  split
  · exact h.putOwn hlt hseqNo _
  · have hcurr : toUnsigned (last + 1) = last + 1 := toUnsigned_of_lt (by omega)
    obtain ⟨last', hsynced, hle⟩ :=
      h.loop latest puts (seqNo - (last + 1)) 0 (by omega)
    rw [hcurr]
    generalize syncLoop latest puts (seqNo - (last + 1)) 0 (last + 1) fwd = synced at hsynced
    obtain ⟨fwd', made⟩ := synced
    cases made with
    | none => exact ⟨last', hsynced⟩
    | some k => exact hsynced.putOwn (by omega) hseqNo _

theorem Forwarder.Synced.not_ordered_put_element (h : fwd.Synced last) (hlast : last ≠ 0)
    {element : Nat} (hle : element ≤ last) (seqNo rSeqNo : Nat) :
    ¬ (fwd.put element seqNo rSeqNo).Ordered := by
  intro hordered
  have hlt := (List.pairwise_append.1 hordered.increasing).2.2 last
    (h.last_mem.resolve_left hlast) element (List.mem_singleton_self _)
  omega

theorem Forwarder.Synced.not_ordered_put_record (h : fwd.Synced last)
    (hlt : toUnsigned seqNo < last) (element rSeqNo : Nat) :
    ¬ (fwd.put element seqNo rSeqNo).Ordered := by
  intro hordered
  obtain ⟨sfwd, hsfwd, rfl⟩ := Option.map_eq_some_iff.1 h.latest
  have hsteady := hordered.steady
  rw [Forwarder.put, List.map_append] at hsteady
  have hle := (List.pairwise_append.1 hsteady).2.2 sfwd.lastLocal
    (List.mem_map_of_mem (List.mem_of_getLast? hsfwd)) _ (List.mem_singleton_self _)
  dsimp only at hle
  omega

theorem Forwarder.Synced.not_ordered_earlier (h : fwd.Synced last) (hle : seqNo ≤ last)
    (hpos : 0 < seqNo) (latest : Nat) {puts : Nat → Option Nat} {rSeqNo : Nat}
    (hput : puts 0 = some rSeqNo) :
    ¬ (senspotForward seqNo latest puts fwd).Ordered := by
  obtain ⟨sfwd, hsfwd, hlast⟩ := Option.map_eq_some_iff.1 h.latest
  have hzero : last ≠ 0 := by omega
  have hsmall := h.small
  simp only [senspotForward, hsfwd, hlast, if_neg hzero]
  by_cases hwrap : last + 1 = 2 ^ 32
  · -- the number after the last one is zero, and it is recorded
    have hcurr : toUnsigned (last + 1) = 0 := by
      rw [hwrap]
      rfl
    obtain ⟨missing, rfl⟩ := Nat.exists_eq_add_of_lt hpos
    rw [hcurr, Nat.sub_zero, Nat.zero_add, syncLoop, hput]
    intro hordered
    have hput : ¬ (fwd.put (elementAt latest 0) 0 rSeqNo).Ordered :=
      h.not_ordered_put_record (show toUnsigned 0 < last from Nat.pos_of_ne_zero hzero) _ _
    exact hput (hordered.of_extends
      ((syncLoop_extends _ _ _ _ _ _).trans (finishSync_extends _ _ _)))
  · have hcurr : toUnsigned (last + 1) = last + 1 := toUnsigned_of_lt (by omega)
    have hmissing : seqNo - (last + 1) = 0 := by omega
    rw [hcurr, hmissing]
    simp only [syncLoop, finishSync, hput, Forwarder.putOwn]
    exact h.not_ordered_put_element hzero hle seqNo rSeqNo

end Execution

/-! ## Whole runs -/

def Forwarder.lastLocal (fwd : Forwarder) : Nat :=
  (fwd.records.getLast?.map SensFwd.lastLocal).getD 0

/-- The execution is for a later element than the last one recorded, or has no effect. -/
def Turn.InOrder (turn : Turn) (fwd : Forwarder) : Prop :=
  turn.idle = true → fwd.lastLocal < turn.seqNo ∨ turn.puts 0 = none

def AllInOrder : List Turn → Forwarder → Prop
  | [], _ => True
  | turn :: turns, fwd => turn.InOrder fwd ∧ AllInOrder turns (turn.run fwd)

theorem runTurns_extends (turns : List Turn) (fwd : Forwarder) :
    fwd.Extends (runTurns turns fwd) := by
  induction turns generalizing fwd with
  | nil => exact .refl fwd
  | cons turn turns ih =>
    have hturn : fwd.Extends (turn.run fwd) := by
      rw [Turn.run]
      split
      · exact senspotForward_extends _ _ _ fwd
      · exact .refl fwd
    exact hturn.trans (ih (turn.run fwd))

variable {fwd : Forwarder} {last : Nat}

theorem senspotForward_of_none (h : fwd.Synced last) (seqNo latest : Nat) {puts : Nat → Option Nat}
    (hput : puts 0 = none) :
    senspotForward seqNo latest puts fwd = fwd := by
  obtain ⟨sfwd, hsfwd, -⟩ := Option.map_eq_some_iff.1 h.latest
  simp only [senspotForward, hsfwd]
  split
  · simp [hput, Forwarder.putOwn]
  · cases seqNo - toUnsigned (sfwd.lastLocal + 1) with
    | zero => simp [syncLoop, finishSync, hput, Forwarder.putOwn]
    | succ missing => simp [syncLoop, finishSync, hput]

theorem Forwarder.Synced.turn (h : fwd.Synced last) {turn : Turn} (hpos : 0 < turn.seqNo)
    (hsmall : turn.seqNo < 2 ^ 32) :
    (turn.InOrder fwd ∧ ∃ last', (turn.run fwd).Synced last') ∨
      (¬ turn.InOrder fwd ∧ ¬ (turn.run fwd).Ordered) := by
  have hlast : fwd.lastLocal = last := by rw [Forwarder.lastLocal, h.latest, Option.getD_some]
  rw [Turn.InOrder, Turn.run, hlast]
  cases turn.idle with
  | false => exact .inl ⟨by simp, last, h⟩
  | true =>
    simp only [if_true, forall_const]
    by_cases hlt : last < turn.seqNo
    · exact .inl ⟨.inl hlt, h.later hlt hsmall _ _⟩
    · cases hput : turn.puts 0 with
      | none =>
        refine .inl ⟨.inr rfl, last, ?_⟩
        rw [senspotForward_of_none h _ _ hput]
        exact h
      | some rSeqNo =>
        refine .inr ⟨by simp [hlt], ?_⟩
        exact h.not_ordered_earlier (by omega) hpos _ hput

theorem Forwarder.Synced.turns (h : fwd.Synced last) {turns : List Turn}
    (hturns : ∀ turn ∈ turns, 0 < turn.seqNo ∧ turn.seqNo < 2 ^ 32) :
    (runTurns turns fwd).Ordered ↔ AllInOrder turns fwd := by
  induction turns generalizing fwd last with
  | nil => exact iff_of_true h.ordered trivial
  | cons turn turns ih =>
    obtain ⟨⟨hpos, hsmall⟩, hrest⟩ := List.forall_mem_cons.1 hturns
    rcases h.turn hpos hsmall with ⟨hin, last', hsynced⟩ | ⟨hout, hunordered⟩
    · rw [AllInOrder, and_iff_right hin]
      exact ih hsynced hrest
    · refine iff_of_false (fun hordered => hunordered ?_) fun hall => hout hall.1
      exact hordered.of_extends (runTurns_extends turns (turn.run fwd))

/-- The elements are forwarded in order, without duplicates, and `last_local` never decreases,
exactly in the runs in which no execution is for an element not behind the last recorded one,
unless its first put fails. -/
theorem runTurns_ordered_iff {turns : List Turn}
    (hturns : ∀ turn ∈ turns, 0 < turn.seqNo ∧ turn.seqNo < 2 ^ 32) :
    (runTurns turns Forwarder.initial).Ordered ↔ AllInOrder turns Forwarder.initial :=
  Forwarder.initial_synced.turns hturns

section Runs

def successfulTurn (seqNo : Nat) : Turn := ⟨seqNo, 3, true, fun k => some (k + 1)⟩

/-- The handler of element 2 comes behind that of element 3, which has forwarded both, and finds
the forwarder active. -/
theorem runTurns_ordered_late :
    AllInOrder [successfulTurn 1, successfulTurn 3, { successfulTurn 2 with idle := false }]
        Forwarder.initial ∧
      (runTurns [successfulTurn 1, successfulTurn 3, { successfulTurn 2 with idle := false }]
        Forwarder.initial).forwarded = [1, 2, 3] ∧
      (runTurns [successfulTurn 1, successfulTurn 3, { successfulTurn 2 with idle := false }]
        Forwarder.initial).Ordered := by
  have hin : AllInOrder [successfulTurn 1, successfulTurn 3,
      { successfulTurn 2 with idle := false }] Forwarder.initial :=
    ⟨fun _ => .inl (by decide), fun _ => .inl (by decide), by simp [Turn.InOrder], trivial⟩
  exact ⟨hin, by decide, (runTurns_ordered_iff (by decide)).2 hin⟩

/-- The handlers of the first two elements in the other order. -/
theorem runTurns_out_of_order :
    (runTurns [successfulTurn 2, successfulTurn 1] Forwarder.initial).forwarded = [2, 1] ∧
      (runTurns [successfulTurn 2, successfulTurn 1] Forwarder.initial).records.map
        SensFwd.lastLocal = [0, 2, 1] ∧
      (runTurns [successfulTurn 2, successfulTurn 1, successfulTurn 3]
        Forwarder.initial).forwarded = [2, 1, 2, 3] := by
  decide

end Runs

end Cspot.Senspot
