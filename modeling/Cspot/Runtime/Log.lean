import Cspot.Lib.Bytes
import Cspot.Lib.Ring
import Cspot.Lib.Word

/-!
# Semaphores, events and the namespace log

The shared-memory primitives below a WooF.  A call that cannot return to its caller
ends in a `Stop`: a thread that waits on a semaphore nobody will post, a trap, an
access outside the memory it was given, a failed assertion or an exception nobody
catches.
-/

namespace Cspot

inductive Stop
  | blocked
  | divideByZero
  | outOfBounds
  | doubleFree
  | assertion
  | exception
deriving Repr, DecidableEq

abbrev Exec := Except Stop

variable {α β : Type} {n : Nat} {value : Int}

@[simp] theorem Exec.ok_bind (a : α) (f : α → Exec β) : ((Except.ok a : Exec α) >>= f) = f a := rfl

@[simp] theorem Exec.error_bind (e : Stop) (f : α → Exec β) :
    ((Except.error e : Exec α) >>= f) = .error e := rfl

@[simp] theorem Exec.pure_eq (a : α) : (pure a : Exec α) = .ok a := rfl

@[simp] theorem Exec.throw_eq (e : Stop) : (throw e : Exec α) = .error e := rfl

theorem Exec.bind_eq_ok {x : Exec α} {f : α → Exec β} {b : β} :
    (x >>= f) = .ok b ↔ ∃ a, x = .ok a ∧ f a = .ok b := by
  cases x with
  | error e => simp
  | ok a => simp

def remU (a b : Nat) : Exec Nat :=
  match Word.rem a b with
  | some r => .ok r
  | none => .error .divideByZero

@[simp] theorem remU_of_pos {a b : Nat} (hb : 0 < b) : remU a b = .ok (a % b) := by
  simp [remU, hb]

/-- `memcpy` of `n` bytes out of the memory a caller's pointer gives access to. -/
def memcpy (src : Bytes) (n : Nat) : Exec Bytes :=
  if n ≤ src.length then .ok (src.take n) else .error .outOfBounds

@[simp] theorem memcpy_of_length {src : Bytes} (h : src.length = n) : memcpy src n = .ok src := by
  simp [memcpy, ← h]

/-! ## Counting semaphores -/

def intMax : Int := 2 ^ 31 - 1

/-- A negative initial count is refused and the word keeps its value. -/
def initSem (value count : Int) : Int := if count < 0 then value else count

def semP (value : Int) : Exec Int :=
  if 0 < value then .ok (value - 1) else .error .blocked

/-- A post at the top of the range is undone. -/
def semV (value : Int) : Int := if value = intMax then value else value + 1

@[simp] theorem semP_of_pos (h : 0 < value) : semP value = .ok (value - 1) := by
  simp [semP, h]

@[simp] theorem semP_of_nonpos (h : value ≤ 0) : semP value = .error .blocked := by
  simp [semP, h]

theorem semP_eq_ok {result : Int} : semP value = .ok result ↔ 0 < value ∧ result = value - 1 := by
  unfold semP
  split <;> simp_all [eq_comm]

theorem semV_sub_one (h : value ≤ intMax) : semV (value - 1) = value := by
  have hne : value - 1 ≠ intMax := by omega
  simp [semV, hne]

/-! ## Events -/

inductive EventState
  | unknown
  | func
  | trigger
  | triggerFiring
  | fired
  | append
  | read
  | latestSeqno
deriving Repr, DecidableEq

structure Event where
  type : EventState
  host : Nat
  seqNo : Nat
  causeHost : Nat
  causeSeqNo : Nat
  woofcSeqNo : Nat
  woofcNdx : Nat
  woofcElementSize : Nat
  woofcHistorySize : Nat
  woofcName : Bytes
  woofcHandler : Bytes
  woofcNamespace : Bytes
  ino : Nat
deriving Repr, DecidableEq

def eventCreate (type : EventState) (host : Nat) : Event where
  type := type
  host := host
  seqNo := 0
  causeHost := 0
  causeSeqNo := 0
  woofcSeqNo := 0
  woofcNdx := 0
  woofcElementSize := 0
  woofcHistorySize := 0
  woofcName := []
  woofcHandler := []
  woofcNamespace := []
  ino := 0

def eventSetCause (ev : Event) (causeHost causeSeqNo : Nat) : Event :=
  { ev with causeHost := causeHost, causeSeqNo := causeSeqNo }

/-! ## The namespace log -/

/-- A slot that no event was copied to since `LogCreate` is `none`. -/
structure Log where
  mutex : Int
  tailWait : Int
  hostId : Nat
  seqNo : Nat
  size : Nat
  head : Nat
  tail : Nat
  lastChecked : Nat
  events : Nat → Option Event

def logCreate (hostId size : Nat) : Log where
  mutex := initSem 0 1
  tailWait := initSem 0 0
  hostId := hostId
  seqNo := 1
  size := size
  head := 0
  tail := 0
  lastChecked := Word.allOnes
  events := fun _ => none

def logAdd (log : Log) (event : Event) : Exec Log := do
  let next ← remU (Word.add log.head 1) log.size
  let tail ←
    if next = log.tail then remU (Word.add log.tail 1) log.size else pure log.tail
  return { log with
    tail := tail
    events := Function.update log.events next (some event)
    head := next }

/-- Number the event and add it; the number is the result. -/
def logEvent (log : Log) (event : Event) : Exec (Nat × Log) := do
  let mutex ← semP log.mutex
  let seqNo := log.seqNo
  let added ← logAdd { log with mutex := mutex, seqNo := Word.add seqNo 1 }
    { event with seqNo := seqNo }
  return (seqNo, { added with mutex := semV added.mutex })

/-- The same for a caller that holds the mutex. -/
def logEventNoLock (log : Log) (event : Event) : Exec (Nat × Log) := do
  let seqNo := log.seqNo
  let added ← logAdd { log with seqNo := Word.add seqNo 1 } { event with seqNo := seqNo }
  return (seqNo, added)

/-- The log can take `n` more events: it is not locked, has slots, and its counter
does not come back to zero, the value callers read as a failure. -/
structure Log.Accepts (log : Log) (n : Nat) : Prop where
  mutex : log.mutex = 1
  size : 0 < log.size
  seqNo_pos : 0 < log.seqNo
  seqNo_room : log.seqNo + n < Word.modulus

theorem Log.Accepts.mono {log : Log} {m : Nat} (h : log.Accepts n) (hle : m ≤ n) :
    log.Accepts m := by
  have hroom := h.seqNo_room
  exact ⟨h.mutex, h.size, h.seqNo_pos, by omega⟩

theorem logAdd_ok (log : Log) (event : Event) (hsize : 0 < log.size) :
    ∃ added, logAdd log event = .ok added ∧ added.mutex = log.mutex ∧
      added.size = log.size ∧ added.seqNo = log.seqNo ∧ added.tailWait = log.tailWait := by
  simp only [logAdd, remU_of_pos hsize, Exec.ok_bind, Exec.pure_eq]
  split
  · exact ⟨_, rfl, rfl, rfl, rfl, rfl⟩
  · exact ⟨_, rfl, rfl, rfl, rfl, rfl⟩

theorem logEvent_ok {log : Log} (event : Event) (h : log.Accepts (n + 1)) :
    ∃ log', logEvent log event = .ok (log.seqNo, log') ∧ log'.Accepts n := by
  obtain ⟨hmutex, hsize, hpos, hroom⟩ := h
  obtain ⟨added, hadd, hmutex', hsize', hseq', -⟩ :=
    logAdd_ok { log with mutex := 0, seqNo := Word.add log.seqNo 1 }
      { event with seqNo := log.seqNo } hsize
  have hseq : Word.add log.seqNo 1 = log.seqNo + 1 := Word.add_of_lt (by omega)
  refine ⟨{ added with mutex := semV added.mutex }, ?_, ⟨?_, ?_, ?_, ?_⟩⟩
  · simp [logEvent, hmutex, hadd]
  · simp [hmutex', semV, intMax]
  · simpa [hsize'] using hsize
  · simp [hseq', hseq]
  · simp only [hseq', hseq]
    omega

/-! ## The events by their numbers

A log that has only been added to since it was created has the event numbered `s` in slot
`s % size`, as long as it has not been overwritten. -/

/-- Head and tail are where the number of the next event says. -/
structure Log.Numbered (log : Log) : Prop where
  size_pos : 0 < log.size
  seqNo_pos : 0 < log.seqNo
  head_eq : log.head = (log.seqNo - 1) % log.size
  tail_eq : log.tail = (log.seqNo - log.size) % log.size

/-- Every event still in its slot is as described. -/
def Log.Holds (log : Log) (Describes : Nat → Event → Prop) : Prop :=
  ∀ s, 0 < s → s < log.seqNo → log.seqNo ≤ s + log.size →
    ∃ ev, log.events (s % log.size) = some ev ∧ ev.seqNo = s ∧ Describes s ev

def Log.record (log : Log) (event : Event) : Log :=
  { log with
    seqNo := log.seqNo + 1
    head := log.seqNo % log.size
    tail := (log.seqNo + 1 - log.size) % log.size
    events := Function.update log.events (log.seqNo % log.size)
      (some { event with seqNo := log.seqNo }) }

theorem logCreate_numbered (hostId : Nat) {size : Nat} (hsize : 0 < size) :
    (logCreate hostId size).Numbered where
  size_pos := hsize
  seqNo_pos := Nat.one_pos
  head_eq := (Nat.zero_mod size).symm
  tail_eq := by
    have hzero : 1 - size = 0 := by omega
    simp [logCreate, hzero]

section Numbered

variable {log : Log}

theorem Log.Numbered.record (h : log.Numbered) (event : Event) : (log.record event).Numbered where
  size_pos := h.size_pos
  seqNo_pos := Nat.succ_pos _
  head_eq := rfl
  tail_eq := rfl

theorem Log.Numbered.tail_next (h : log.Numbered) :
    (if log.seqNo % log.size = log.tail then (log.tail + 1) % log.size else log.tail) =
      (log.seqNo + 1 - log.size) % log.size := by
  have hpos := h.seqNo_pos
  rcases Nat.lt_or_ge log.seqNo log.size with hlt | hge
  · -- not yet wrapped: the tail stays at zero
    have hzero : log.seqNo - log.size = 0 := by omega
    have hzero' : log.seqNo + 1 - log.size = 0 := by omega
    have hne : log.seqNo % log.size ≠ log.tail := by
      rw [h.tail_eq, hzero, Nat.zero_mod, Nat.mod_eq_of_lt hlt]
      omega
    rw [if_neg hne, h.tail_eq, hzero, hzero']
  · have htail : log.tail = log.seqNo % log.size := by
      rw [h.tail_eq, ← Nat.mod_eq_sub_mod hge]
    rw [if_pos htail.symm, htail, Nat.mod_add_mod, Nat.mod_eq_sub_mod (by omega)]

theorem Log.Numbered.logAdd (h : log.Numbered) (hroom : log.seqNo + 1 < Word.modulus)
    (event : Event) :
    Cspot.logAdd { log with seqNo := Word.add log.seqNo 1 } { event with seqNo := log.seqNo } =
      .ok (log.record event) := by
  have hsize := h.size_pos
  have hpos := h.seqNo_pos
  have hhead : log.head ≤ log.seqNo - 1 := h.head_eq ▸ Nat.mod_le _ _
  have htail : log.tail ≤ log.seqNo := by
    have hle : (log.seqNo - log.size) % log.size ≤ log.seqNo - log.size := Nat.mod_le _ _
    rw [h.tail_eq]
    omega
  have hnext : (log.head + 1) % log.size = log.seqNo % log.size := by
    rw [h.head_eq, Nat.mod_add_mod, Nat.sub_add_cancel hpos]
  have hmoved := h.tail_next
  simp only [Cspot.logAdd, Log.record, remU_of_pos hsize, Word.add_of_lt (show log.head + 1 <
    Word.modulus by omega), Word.add_of_lt hroom, Word.add_of_lt (show log.tail + 1 < Word.modulus
    by omega), Exec.ok_bind, Exec.pure_eq, hnext]
  split
  · rename_i heq
    rw [if_pos heq] at hmoved
    simp [hmoved]
  · rename_i hne
    rw [if_neg hne] at hmoved
    simp [hmoved]

theorem Log.Numbered.logEvent (h : log.Numbered) (hmutex : log.mutex = 1)
    (hroom : log.seqNo + 1 < Word.modulus) (event : Event) :
    Cspot.logEvent log event = .ok (log.seqNo, log.record event) := by
  have hlocked : Log.Numbered { log with mutex := 0 } :=
    ⟨h.size_pos, h.seqNo_pos, h.head_eq, h.tail_eq⟩
  have hadd := hlocked.logAdd hroom event
  have hunlocked : semV 0 = log.mutex := by
    rw [hmutex]
    decide
  simp [Cspot.logEvent, hmutex, hadd, Log.record, hunlocked]

theorem Log.Numbered.logEventNoLock (h : log.Numbered) (hroom : log.seqNo + 1 < Word.modulus)
    (event : Event) : Cspot.logEventNoLock log event = .ok (log.seqNo, log.record event) := by
  simp [Cspot.logEventNoLock, h.logAdd hroom event]

theorem Log.Holds.record {Describes Describes' : Nat → Event → Prop} (h : log.Holds Describes)
    (event : Event) (hold : ∀ s < log.seqNo, ∀ ev, Describes s ev → Describes' s ev)
    (hnew : Describes' log.seqNo { event with seqNo := log.seqNo }) :
    (log.record event).Holds Describes' := by
  intro s hpos hlt hheld
  simp only [Log.record] at hlt hheld ⊢
  rcases Nat.lt_or_eq_of_le (Nat.le_of_lt_succ hlt) with hlt | rfl
  · obtain ⟨ev, hev, hseq, hdesc⟩ := h s hpos hlt (by omega)
    have hne : s % log.size ≠ log.seqNo % log.size :=
      Ring.mod_ne_of_window hlt (by omega)
    exact ⟨ev, by rw [Function.update_of_ne hne, hev], hseq, hold s hlt ev hdesc⟩
  · exact ⟨_, Function.update_self .., rfl, hnew⟩

end Numbered

end Cspot
