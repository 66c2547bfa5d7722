import Cspot.Runtime.Log

/-!
# Live events of a log and its tail

The live events of a log are those in the slots behind its tail up to its head.  `LogTail`
copies the newest of them into a second log, newest first.
-/

namespace Cspot

def logFull (log : Log) : Exec Bool := do
  let next ← remU (Word.add log.head 1) log.size
  return next = log.tail

/-- The slot before, at the end of the array when the index has wrapped. -/
def prevSlot (size curr : Nat) : Nat :=
  let curr := Word.sub curr 1
  if size ≤ curr then Word.sub size 1 else curr

theorem prevSlot_mod {size s : Nat} (hcap : 0 < size) (hsize : size < Word.modulus) (hs : 0 < s) :
    prevSlot size (s % size) = (s - 1) % size := by
  have hlt := Nat.mod_lt s hcap
  have hdiv := Nat.div_add_mod s size
  by_cases hzero : s % size = 0
  · have hwrap : Word.sub 0 1 = Word.modulus - 1 := by decide
    have hprev : s - 1 = size - 1 + size * (s / size - 1) := by
      have hquot : 0 < s / size := by
        rcases Nat.eq_zero_or_pos (s / size) with hq | hq
        · simp only [hq, hzero, Nat.mul_zero] at hdiv
          omega
        · exact hq
      have hmul : size * (s / size) = size * (s / size - 1) + size := by
        rw [← Nat.mul_succ]
        congr 1
        omega
      omega
    rw [prevSlot, hzero, hwrap, if_pos (by omega), Word.sub_of_le hcap hsize, hprev,
      Nat.add_mul_mod_self_left, Nat.mod_eq_of_lt (by omega)]
  · have hprev : s - 1 = s % size - 1 + size * (s / size) := by omega
    rw [prevSlot, Word.sub_of_le (by omega) (by omega), if_neg (by omega), hprev,
      Nat.add_mul_mod_self_left, Nat.mod_eq_of_lt (show s % size - 1 < size by omega)]

/-- Copy events into `logTail` from slot `curr` backwards, `count` being copied already. -/
def logTailTurns (log : Log) (earliest maxSize : Nat) :
    (fuel : Nat) → (curr count : Nat) → (logTail : Log) → Exec Log
  | 0, _, _, _ => .error .blocked
  | fuel + 1, curr, count, logTail =>
    match log.events curr with
    | none => .error .outOfBounds
    | some ev =>
      if ev.seqNo < earliest then .ok logTail
      else do
        let logTail ← logAdd logTail ev
        if maxSize ≤ count + 1 ∨ prevSlot log.size curr = log.tail then return logTail
        else
          logTailTurns log earliest maxSize fuel (prevSlot log.size curr) (count + 1) logTail

/-- None for an empty log. -/
def logTail (log : Log) (earliest maxSize : Nat) : Exec (Option Log) :=
  if log.head = log.tail then .ok none
  else some <$> logTailTurns log earliest maxSize log.size log.head 0 (logCreate 0 maxSize)

/-- Head and tail are slots. -/
structure Log.Bounded (log : Log) : Prop where
  size_pos : 0 < log.size
  size_lt : log.size < Word.modulus
  head : log.head < log.size
  tail : log.tail < log.size

def Log.liveCount (log : Log) : Nat := (log.head + (log.size - log.tail)) % log.size

/-- The live events, oldest position first. -/
def Log.live (log : Log) : List Event :=
  (List.range log.liveCount).filterMap fun j => log.events ((log.tail + 1 + j) % log.size)

def Log.push (log : Log) (event : Event) : Log :=
  { log with
    head := (log.head + 1) % log.size
    events := Function.update log.events ((log.head + 1) % log.size) (some event) }

namespace Log.Bounded

variable {log : Log}

section

variable (h : log.Bounded)
include h

theorem logFull_eq : logFull log = .ok (decide ((log.head + 1) % log.size = log.tail)) := by
  have hhead := h.head
  have hlt := h.size_lt
  simp [logFull, remU_of_pos h.size_pos, Word.add_of_lt (show log.head + 1 < Word.modulus by omega)]

theorem liveCount_lt : log.liveCount < log.size := Nat.mod_lt _ h.size_pos

theorem tail_add_liveCount : (log.tail + log.liveCount) % log.size = log.head := by
  have htail := h.tail
  rw [Log.liveCount, Nat.add_mod_mod,
    show log.tail + (log.head + (log.size - log.tail)) = log.head + log.size by omega,
    Nat.add_mod_right, Nat.mod_eq_of_lt h.head]

theorem next_eq : (log.head + 1) % log.size = (log.tail + 1 + log.liveCount) % log.size := by
  rw [← h.tail_add_liveCount, Nat.mod_add_mod, Nat.add_right_comm]

theorem liveCount_add_one_lt (hroom : (log.head + 1) % log.size ≠ log.tail) :
    log.liveCount + 1 < log.size := by
  have hlt := h.liveCount_lt
  by_contra hge
  have heq : log.liveCount + 1 = log.size := by omega
  apply hroom
  rw [h.next_eq, Nat.add_assoc, Nat.add_comm 1, heq, Nat.add_mod_right, Nat.mod_eq_of_lt h.tail]

theorem room_of_liveCount (hroom : log.liveCount + 1 < log.size) :
    (log.head + 1) % log.size ≠ log.tail := by
  intro heq
  rw [h.next_eq] at heq
  exact Ring.mod_ne_of_window (show log.tail < log.tail + 1 + log.liveCount by omega)
    (show _ < log.tail + log.size by omega) ((Nat.mod_eq_of_lt h.tail).trans heq.symm)

theorem logAdd_of_room (hroom : (log.head + 1) % log.size ≠ log.tail) (event : Event) :
    logAdd log event = .ok (log.push event) := by
  have hhead := h.head
  have hlt := h.size_lt
  simp [logAdd, Log.push, remU_of_pos h.size_pos,
    Word.add_of_lt (show log.head + 1 < Word.modulus by omega), hroom]

theorem logAdd_of_full (hfull : (log.head + 1) % log.size = log.tail) (event : Event) :
    logAdd log event = .ok { log.push event with tail := (log.tail + 1) % log.size } := by
  have hhead := h.head
  have htail := h.tail
  have hlt := h.size_lt
  simp [logAdd, Log.push, remU_of_pos h.size_pos,
    Word.add_of_lt (show log.head + 1 < Word.modulus by omega),
    Word.add_of_lt (show log.tail + 1 < Word.modulus by omega), hfull]

theorem liveCount_push (hroom : (log.head + 1) % log.size ≠ log.tail) (event : Event) :
    (log.push event).liveCount = log.liveCount + 1 := by
  show ((log.head + 1) % log.size + (log.size - log.tail)) % log.size = _
  rw [Nat.mod_add_mod, Nat.add_right_comm, ← Nat.mod_add_mod, ← Log.liveCount,
    Nat.mod_eq_of_lt (h.liveCount_add_one_lt hroom)]

theorem live_push (hroom : (log.head + 1) % log.size ≠ log.tail) (event : Event) :
    (log.push event).live = log.live ++ [event] := by
  have hcount := h.liveCount_push hroom event
  have hold : (List.range log.liveCount).filterMap (fun j =>
      (log.push event).events ((log.tail + 1 + j) % log.size)) = log.live := by
    apply List.filterMap_congr
    intro j hj
    have hj' := List.mem_range.1 hj
    have hlt := h.liveCount_lt
    have hne : (log.tail + 1 + j) % log.size ≠ (log.head + 1) % log.size := by
      rw [h.next_eq]
      exact Ring.mod_ne_of_window (by omega) (by omega)
    exact Function.update_of_ne hne _ _
  have hnew : (log.push event).events ((log.tail + 1 + log.liveCount) % log.size) =
      some event := by
    rw [← h.next_eq]
    exact Function.update_self _ _ _
  rw [Log.live, hcount, List.range_succ, List.filterMap_append]
  show (List.range log.liveCount).filterMap (fun j =>
    (log.push event).events ((log.tail + 1 + j) % log.size)) ++ [log.liveCount].filterMap (fun j =>
      (log.push event).events ((log.tail + 1 + j) % log.size)) = _
  rw [hold, List.filterMap_cons, hnew, List.filterMap_nil]

theorem push (event : Event) : (log.push event).Bounded :=
  ⟨h.size_pos, h.size_lt, Nat.mod_lt _ h.size_pos, h.tail⟩

theorem logAdd_spec (event : Event) :
    ∃ log', logAdd log event = .ok log' ∧ log'.Bounded ∧
      (logFull log' = .ok false → logFull log = .ok false ∧ log'.live = log.live ++ [event]) := by
  by_cases hfull : (log.head + 1) % log.size = log.tail
  · have hbounded : Log.Bounded { log.push event with tail := (log.tail + 1) % log.size } :=
      ⟨h.size_pos, h.size_lt, Nat.mod_lt _ h.size_pos, Nat.mod_lt _ h.size_pos⟩
    refine ⟨_, h.logAdd_of_full hfull event, hbounded, ?_⟩
    intro hroom
    rw [hbounded.logFull_eq] at hroom
    simp [Log.push, hfull] at hroom
  · refine ⟨_, h.logAdd_of_room hfull event, h.push event, ?_⟩
    intro _
    refine ⟨?_, h.live_push hfull event⟩
    rw [h.logFull_eq, decide_eq_false hfull]

end

end Log.Bounded

theorem logCreate_bounded (hostId : Nat) {size : Nat} (hsize : 0 < size)
    (hlt : size < Word.modulus) : (logCreate hostId size).Bounded :=
  ⟨hsize, hlt, hsize, hsize⟩

@[simp] theorem logCreate_live (hostId size : Nat) : (logCreate hostId size).live = [] := by
  simp [Log.live, Log.liveCount, logCreate]

end Cspot
