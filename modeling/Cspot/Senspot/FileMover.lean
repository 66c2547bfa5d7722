import Cspot.Lib.Bytes
import Mathlib.Logic.Function.Basic

/-!
# The file mover

`SendFileMover` cuts a file into blocks of what an element of the woof holds behind a `SENSMV`
header, and puts them last block first.  The first record put carries the EOF flag; every later
one carries the number that record got, and the record of block 0 carries the START flag.
`senspot-file-recv` looks for a START record from the newest record down, and from there writes
out the blocks until it comes to the EOF record.
-/

namespace Cspot.Senspot

/-! ## Records -/

/-- `sizeof(SENSMV)`: ten words of four bytes. -/
def sizeofSensMv : Nat := 40

/-- An element of the woof: the header's fields that are read, and the bytes behind it. -/
structure SensMv where
  start : Bool
  eof : Bool
  version : Nat
  dedupSeqno : Nat
  woofEnd : Nat
  payloadSize : Nat
  fileSize : Nat
  payload : Bytes
deriving Repr, DecidableEq

/-- The version of the newest START record.  The record of number `n` stands at `n - 1`. -/
def lastFileVersion (woof : List SensMv) : Option Nat :=
  (woof.reverse.find? SensMv.start).map SensMv.version

/-! ## Sending -/

/-- What `SendFileMover` keeps from one turn of its loop to the next: the header it puts again
and again, and the block it puts next. -/
structure SendState where
  version : Nat
  start : Bool
  eof : Bool
  woofEnd : Nat
  dedupSeqno : Nat
  blocksToWrite : Int
deriving Repr, DecidableEq

inductive Sending
  | idle
  | sending (s : SendState)
  | sent (s : SendState)
  | exited
deriving Repr, DecidableEq

/-- The version of a new file.  `(unsigned int) -1` stands for no version. -/
def nextVersion (woof : List SensMv) : Nat :=
  match lastFileVersion woof with
  | none => 1
  | some version => if version % 2 ^ 32 = 2 ^ 32 - 1 then 1 else (version + 1) % 2 ^ 32

def sendBegin (fpayload : Nat) (file : Bytes) (woof : List SensMv) : Sending :=
  let blocks := file.length / fpayload
  let last := file.length % fpayload
  if blocks = 0 ∧ last = 0 then .exited
  else .sending
    { version := nextVersion woof
      start := false
      eof := true
      woofEnd := 0
      dedupSeqno := if last = 0 then blocks else blocks + 1
      blocksToWrite := if last = 0 then (blocks : Int) - 1 else blocks }

/-- What `read` gives at a multiple of the payload's size. -/
def readBlock (fpayload : Nat) (file : Bytes) (block : Nat) : Bytes :=
  (file.drop (block * fpayload)).take fpayload

def SendState.record (s : SendState) (fpayload : Nat) (file : Bytes) : SensMv :=
  let block := readBlock fpayload file s.blocksToWrite.toNat
  { start := s.start || decide (s.blocksToWrite = 0)
    eof := s.eof
    version := s.version
    dedupSeqno := s.dedupSeqno
    woofEnd := s.woofEnd
    payloadSize := block.length
    fileSize := file.length
    payload := block ++ List.replicate (fpayload - block.length) 0 }

/-- The header behind a put that got the number `seqno`. -/
def SendState.afterPut (s : SendState) (seqno : Nat) : SendState :=
  { s with
    start := if s.eof then false else s.start || decide (s.blocksToWrite = 0)
    eof := false
    woofEnd := if s.eof then seqno % 2 ^ 32 else s.woofEnd
    dedupSeqno := s.dedupSeqno - 1
    blocksToWrite := s.blocksToWrite - 1 }

/-- The sanity checks at the end of a turn, and the test of the loop. -/
def SendState.check (s : SendState) : Sending :=
  if s.dedupSeqno = 1 ∧ s.blocksToWrite = 0 then .sending { s with start := true }
  else if s.dedupSeqno = 1 ∧ 0 < s.blocksToWrite then .exited
  else if 1 < s.dedupSeqno ∧ s.blocksToWrite = 0 then .exited
  else if 0 ≤ s.blocksToWrite then .sending s
  else .sent s

/-- The tests of what was read, for which the program exits before the put. -/
def SendState.readFails (s : SendState) (fpayload : Nat) (file : Bytes) : Bool :=
  let bytesRead := (readBlock fpayload file s.blocksToWrite.toNat).length
  bytesRead == 0 || (bytesRead != fpayload && bytesRead != file.length % fpayload)

/-! ## Several senders -/

/-- A file that is not empty, with a size an `int` holds. -/
structure MovedFile where
  bytes : Bytes
  ne_nil : bytes ≠ []
  small : bytes.length < 2 ^ 31

structure MoverState (ι : Type) where
  woof : List SensMv
  sender : ι → Sending

section Senders

variable {ι : Type} [DecidableEq ι]

def initialMover (ι : Type) (woof : List SensMv) : MoverState ι where
  woof := woof
  sender _ := .idle

/-- One sender goes on: to its loop, or by one put. -/
def MoverState.advance (elSize : Nat) (files : ι → MovedFile) (st : MoverState ι) (i : ι) :
    MoverState ι :=
  let fpayload := elSize - sizeofSensMv
  let file := (files i).bytes
  match st.sender i with
  | .idle => { st with sender := Function.update st.sender i (sendBegin fpayload file st.woof) }
  | .sending s =>
    if s.readFails fpayload file then
      { st with sender := Function.update st.sender i .exited }
    else
      { woof := st.woof ++ [s.record fpayload file]
        sender := Function.update st.sender i (s.afterPut (st.woof.length + 1)).check }
  | .sent _ | .exited => st

def MoverState.run (elSize : Nat) (files : ι → MovedFile) (st : MoverState ι)
    (schedule : List ι) : MoverState ι :=
  schedule.foldl (MoverState.advance elSize files) st

end Senders

/-! ## Receiving -/

def isStartRecord (version minor seqno : Nat) (sm : SensMv) : Bool :=
  sm.start &&
    if minor = 0 then sm.version == version
    else (sm.version == version && minor == sm.woofEnd) ||
      (sm.version == version && sm.start && sm.eof && sm.woofEnd == 0 && minor == seqno)

/-- The scan for the START record, from `seqno` down.  A read of number 0 gives the newest
record, for which the test of the end number fails, or the next read does. -/
def findStart (woof : List SensMv) (version minor : Nat) : Nat → Option (Nat × SensMv)
  | 0 => none
  | n + 1 => do
    let sm ← woof[n]?
    if isStartRecord version minor (n + 1) sm then some (n + 1, sm)
    else findStart woof version minor n

/-- The main loop, as the bytes it writes. -/
def recvLoop (woof : List SensMv) (version endSeqno : Nat) : Nat → Nat → Option Bytes
  | 0, _ => some []
  | n + 1, nextDedup =>
    if n + 1 < endSeqno then some []
    else do
      let sm ← woof[n]?
      if sm.version ≠ version ∨ (sm.woofEnd ≠ endSeqno ∧ n + 1 ≠ endSeqno) then
        recvLoop woof version endSeqno n nextDedup
      else
        let written := if nextDedup = sm.dedupSeqno then sm.payload.take sm.payloadSize else []
        if sm.eof then some written
        else
          let rest ← recvLoop woof version endSeqno n (nextDedup + 1)
          some (written ++ rest)

/-- `senspot-file-recv`: the bytes of the file it makes, or `none` where it exits with an
error.  The START record is read a second time before the main loop, with the same result. -/
def fileRecv (woof : List SensMv) (version minor startBlock : Nat) : Option Bytes := do
  let version ← if version = 0 then lastFileVersion woof else some version
  let seqno := if startBlock = 0 then woof.length else startBlock
  let (startSeqno, sm) ← findStart woof version minor seqno
  let endSeqno := if sm.start && sm.eof then startSeqno else sm.woofEnd
  if endSeqno < 1 ∨ startSeqno < endSeqno then none
  else do
    let last ← woof[endSeqno - 1]?
    if last.eof then recvLoop woof version endSeqno startSeqno 1 else none

/-! ## The blocks of a file -/

def blockCount (fpayload : Nat) (file : Bytes) : Nat :=
  if file.length % fpayload = 0 then file.length / fpayload else file.length / fpayload + 1

section Blocks

variable {fpayload : Nat} {file : Bytes} {b : Nat}

theorem length_le_blockCount_mul (hpay : 0 < fpayload) (file : Bytes) :
    file.length ≤ blockCount fpayload file * fpayload := by
  have hdiv := Nat.div_add_mod' file.length fpayload
  unfold blockCount
  by_cases hlast : file.length % fpayload = 0
  · rw [if_pos hlast]
    omega
  · have hmod := Nat.mod_lt file.length hpay
    rw [if_neg hlast, Nat.add_one_mul]
    omega

theorem mul_lt_length (hpay : 0 < fpayload) (hb : b < blockCount fpayload file) :
    b * fpayload < file.length := by
  have hdiv := Nat.div_add_mod' file.length fpayload
  unfold blockCount at hb
  by_cases hlast : file.length % fpayload = 0
  · rw [if_pos hlast] at hb
    calc b * fpayload < file.length / fpayload * fpayload := Nat.mul_lt_mul_of_pos_right hb hpay
      _ ≤ file.length := Nat.div_mul_le_self _ _
  · rw [if_neg hlast] at hb
    have hle : b * fpayload ≤ file.length / fpayload * fpayload :=
      Nat.mul_le_mul_right _ (Nat.le_of_lt_succ hb)
    omega

theorem blockCount_pos (hpay : 0 < fpayload) (hfile : file ≠ []) :
    0 < blockCount fpayload file := by
  have hle := length_le_blockCount_mul hpay file
  have hlen := List.length_pos_iff.2 hfile
  by_contra hzero
  have hcount : blockCount fpayload file = 0 := by omega
  rw [hcount] at hle
  omega

@[simp] theorem readBlock_length (fpayload : Nat) (file : Bytes) (b : Nat) :
    (readBlock fpayload file b).length = min fpayload (file.length - b * fpayload) := by
  simp [readBlock]

theorem readBlock_full_or_last (hpay : 0 < fpayload) (hb : b < blockCount fpayload file) :
    (readBlock fpayload file b).length = fpayload ∨
      (readBlock fpayload file b).length = file.length % fpayload := by
  have hdiv := Nat.div_add_mod' file.length fpayload
  rw [readBlock_length]
  rcases Nat.lt_or_ge b (file.length / fpayload) with hlt | hge
  · have hle : (b + 1) * fpayload ≤ file.length / fpayload * fpayload :=
      Nat.mul_le_mul_right _ hlt
    rw [Nat.add_one_mul] at hle
    omega
  · -- the block behind the full ones, which is there only if some bytes are left
    have hbe : b = file.length / fpayload := by
      unfold blockCount at hb
      split at hb <;> omega
    subst hbe
    omega

theorem flatMap_readBlock (fpayload : Nat) (file : Bytes) (b : Nat) :
    (List.range b).flatMap (readBlock fpayload file) = file.take (b * fpayload) := by
  induction b with
  | zero => simp
  | succ b ih =>
    rw [List.range_succ, List.flatMap_append, ih, Nat.add_one_mul, List.take_add]
    simp [readBlock]

theorem flatMap_blocks (hpay : 0 < fpayload) (file : Bytes) :
    (List.range (blockCount fpayload file)).flatMap (readBlock fpayload file) = file := by
  rw [flatMap_readBlock]
  exact List.take_of_length_le (length_le_blockCount_mul hpay file)

def blockRecord (fpayload : Nat) (file : Bytes) (version endSeqno b : Nat) : SensMv :=
  let block := readBlock fpayload file b
  { start := decide (b = 0)
    eof := decide (b + 1 = blockCount fpayload file)
    version := version
    dedupSeqno := b + 1
    woofEnd := if b + 1 = blockCount fpayload file then 0 else endSeqno
    payloadSize := block.length
    fileSize := file.length
    payload := block ++ List.replicate (fpayload - block.length) 0 }

theorem blockRecord_written (fpayload : Nat) (file : Bytes) (version endSeqno b : Nat) :
    (blockRecord fpayload file version endSeqno b).payload.take
        (blockRecord fpayload file version endSeqno b).payloadSize =
      readBlock fpayload file b :=
  List.take_left

def laterRecords (fpayload : Nat) (file : Bytes) (version endSeqno k : Nat) : List SensMv :=
  (List.range k).map fun j =>
    blockRecord fpayload file version endSeqno (blockCount fpayload file - 2 - j)

theorem laterRecords_succ (fpayload : Nat) (file : Bytes) (version endSeqno k : Nat) :
    laterRecords fpayload file version endSeqno (k + 1) =
      laterRecords fpayload file version endSeqno k ++
        [blockRecord fpayload file version endSeqno (blockCount fpayload file - 2 - k)] := by
  simp [laterRecords, List.range_succ]

theorem laterRecords_eq_nil_iff {version endSeqno k : Nat} :
    laterRecords fpayload file version endSeqno k = [] ↔ k = 0 := by
  simp [laterRecords]

end Blocks

/-! ## What the receiver meets -/

/-- The records behind number `endSeqno`, up to number `n`, that carry that number. -/
def carrying (woof : List SensMv) (endSeqno n : Nat) : List SensMv :=
  ((woof.take n).drop endSeqno).filter fun sm => decide (sm.woofEnd = endSeqno)

@[simp] theorem carrying_self (woof : List SensMv) (endSeqno : Nat) :
    carrying woof endSeqno endSeqno = [] := by
  have hdrop : (woof.take endSeqno).drop endSeqno = [] :=
    List.drop_eq_nil_of_le (List.length_take_le _ _)
  simp [carrying, hdrop]

theorem carrying_succ {woof : List SensMv} {endSeqno n : Nat} {sm : SensMv}
    (hn : endSeqno ≤ n) (hget : woof[n]? = some sm) :
    carrying woof endSeqno (n + 1) =
      carrying woof endSeqno n ++ if sm.woofEnd = endSeqno then [sm] else [] := by
  have hlen : (woof.take n).length = n := by
    have hlt := (List.getElem?_eq_some_iff.1 hget).1
    simp
    omega
  unfold carrying
  rw [List.take_add_one, hget, List.drop_append_of_le_length (by omega), List.filter_append]
  by_cases hown : sm.woofEnd = endSeqno <;> simp [hown]

/-- A file in the woof, up to its record of number `k` behind the EOF record. -/
structure Transferred (fpayload : Nat) (file : Bytes) (woof : List SensMv)
    (version endSeqno k n : Nat) : Prop where
  pos : 0 < endSeqno
  le : endSeqno ≤ n
  bound : n ≤ woof.length
  count : k < blockCount fpayload file
  eofRecord : woof[endSeqno - 1]? =
    some (blockRecord fpayload file version endSeqno (blockCount fpayload file - 1))
  later : carrying woof endSeqno n = laterRecords fpayload file version endSeqno k

section Receiver

variable {fpayload : Nat} {file : Bytes} {woof : List SensMv} {version endSeqno k n : Nat}

theorem Transferred.below (ht : Transferred fpayload file woof version endSeqno k (n + 1))
    (hn : endSeqno ≤ n) :
    (∃ sm, woof[n]? = some sm ∧ sm.woofEnd ≠ endSeqno ∧
        Transferred fpayload file woof version endSeqno k n) ∨
      ∃ k', k = k' + 1 ∧
        woof[n]? = some (blockRecord fpayload file version endSeqno
          (blockCount fpayload file - 2 - k')) ∧
        Transferred fpayload file woof version endSeqno k' n := by
  have hlt : n < woof.length := ht.bound
  have hget : woof[n]? = some woof[n] := List.getElem?_eq_getElem hlt
  have hlater := (carrying_succ hn hget).symm.trans ht.later
  by_cases hown : (woof[n]).woofEnd = endSeqno
  · right
    rw [if_pos hown] at hlater
    cases k with
    | zero => simp [laterRecords] at hlater
    | succ k' =>
      rw [laterRecords_succ] at hlater
      have hsplit := List.append_inj' hlater rfl
      have hsm : woof[n] = _ := List.singleton_inj.1 hsplit.2
      refine ⟨k', rfl, ?_, ht.pos, hn, hlt.le, Nat.lt_of_succ_lt ht.count, ht.eofRecord, hsplit.1⟩
      rw [hget, hsm]
  · left
    rw [if_neg hown, List.append_nil] at hlater
    exact ⟨woof[n], hget, hown, ht.pos, hn, hlt.le, ht.count, ht.eofRecord, hlater⟩

/-- From a place with `k` records of the file between it and the EOF record, the loop writes
the blocks of those records and the last one. -/
theorem recvLoop_transferred (ht : Transferred fpayload file woof version endSeqno k n) :
    recvLoop woof version endSeqno n (blockCount fpayload file - k) =
      some ((List.range' (blockCount fpayload file - 1 - k) (k + 1)).flatMap
        (readBlock fpayload file)) := by
  have hcount := ht.count
  induction n generalizing k with
  | zero => exact absurd ht.le (Nat.not_le.2 ht.pos)
  | succ n ih =>
    rw [recvLoop, if_neg (Nat.not_lt.2 ht.le)]
    rcases Nat.lt_or_eq_of_le ht.le with hlt | heq
    · obtain ⟨sm, hget, hother, ht'⟩ | ⟨k', rfl, hget, ht'⟩ := ht.below (Nat.le_of_lt_succ hlt)
      · have hskip : sm.version ≠ version ∨ sm.woofEnd ≠ endSeqno ∧ n + 1 ≠ endSeqno :=
          .inr ⟨hother, Nat.ne_of_gt hlt⟩
        simp only [hget, Option.bind_eq_bind, Option.bind_some, if_pos hskip]
        exact ih ht' hcount
      · -- a block of the file that is not the last one
        have hrest := ih ht' ht'.count
        have hnext : blockCount fpayload file - (k' + 1) + 1 = blockCount fpayload file - k' := by
          omega
        have hlast : blockCount fpayload file - 2 - k' + 1 ≠ blockCount fpayload file := by omega
        have hdedup : blockCount fpayload file - (k' + 1) =
            blockCount fpayload file - 2 - k' + 1 := by omega
        have hhere : blockCount fpayload file - 1 - (k' + 1) =
            blockCount fpayload file - 2 - k' := by omega
        have hbehind : blockCount fpayload file - 2 - k' + 1 =
            blockCount fpayload file - 1 - k' := by omega
        have hrange : List.range' (blockCount fpayload file - 1 - (k' + 1)) (k' + 1 + 1) =
            (blockCount fpayload file - 2 - k') ::
              List.range' (blockCount fpayload file - 1 - k') (k' + 1) := by
          rw [List.range'_succ, hhere, hbehind]
        simp only [hget, Option.bind_eq_bind, Option.bind_some, blockRecord_written]
        rw [hnext, hrest, hrange]
        simp [blockRecord, hlast, hdedup]
    · -- the EOF record
      have hget := ht.eofRecord
      have hk : k = 0 := by
        have hlater := ht.later
        rw [← heq, carrying_self] at hlater
        exact laterRecords_eq_nil_iff.1 hlater.symm
      have hdedup : blockCount fpayload file - 1 + 1 = blockCount fpayload file := by omega
      rw [heq, Nat.add_sub_cancel] at hget
      subst hk
      simp only [hget, Option.bind_eq_bind, Option.bind_some, blockRecord_written]
      simp [blockRecord, hdedup, heq]

theorem findStart_transferred
    (ht : Transferred fpayload file woof version endSeqno (blockCount fpayload file - 1) n) :
    ∃ m, findStart woof version endSeqno n =
        some (m, blockRecord fpayload file version endSeqno 0) ∧
      Transferred fpayload file woof version endSeqno (blockCount fpayload file - 1) m ∧
      (blockCount fpayload file = 1 → m = endSeqno) := by
  have hpos := ht.pos
  have hcount := ht.count
  induction n with
  | zero => exact absurd ht.le (Nat.not_le.2 ht.pos)
  | succ n ih =>
    rw [findStart]
    rcases Nat.lt_or_eq_of_le ht.le with hlt | heq
    · obtain ⟨sm, hget, hother, ht'⟩ | ⟨k', hk, hget, ht'⟩ := ht.below (Nat.le_of_lt_succ hlt)
      · have hno : isStartRecord version endSeqno (n + 1) sm = false := by
          simp [isStartRecord, hpos.ne', Ne.symm hother, hlt.ne]
        simp only [hget, Option.bind_eq_bind, Option.bind_some, hno]
        exact ih ht'
      · have hzero : blockCount fpayload file - 2 - k' = 0 := by omega
        have hmore : ¬ 0 + 1 = blockCount fpayload file := by omega
        rw [hzero] at hget
        have hyes : isStartRecord version endSeqno (n + 1)
            (blockRecord fpayload file version endSeqno 0) = true := by
          simp [isStartRecord, blockRecord, hpos.ne', hmore]
        refine ⟨n + 1, ?_, ht, fun hone => absurd hone.symm hmore⟩
        simp [hget, hyes]
    · -- no record carries the number: the file has one block
      have hone : blockCount fpayload file = 1 := by
        have hlater := ht.later
        rw [← heq, carrying_self] at hlater
        have hzero := laterRecords_eq_nil_iff.1 hlater.symm
        omega
      have hget := ht.eofRecord
      rw [heq, Nat.add_sub_cancel, ← heq, hone] at hget
      have hyes : isStartRecord version endSeqno (n + 1)
          (blockRecord fpayload file version endSeqno 0) = true := by
        simp [isStartRecord, blockRecord, hone, heq]
      refine ⟨n + 1, ?_, ht, fun _ => heq.symm⟩
      simp [hget, hyes]

theorem fileRecv_transferred (hpay : 0 < fpayload) (hversion : version ≠ 0)
    (ht : Transferred fpayload file woof version endSeqno (blockCount fpayload file - 1)
      woof.length) :
    fileRecv woof version endSeqno 0 = some file := by
  obtain ⟨m, hfind, hm, hone⟩ := findStart_transferred ht
  have hcount := ht.count
  have hend : (if (blockRecord fpayload file version endSeqno 0).start &&
      (blockRecord fpayload file version endSeqno 0).eof then m
      else (blockRecord fpayload file version endSeqno 0).woofEnd) = endSeqno := by
    by_cases hsingle : blockCount fpayload file = 1
    · simp [blockRecord, hsingle, hone hsingle]
    · have hmore : ¬ 0 + 1 = blockCount fpayload file := fun h => hsingle h.symm
      simp [blockRecord, hmore]
  have hin : ¬ (endSeqno < 1 ∨ m < endSeqno) := by
    have hpos := hm.pos
    have hle := hm.le
    omega
  have hloop := recvLoop_transferred hm
  have hfirst : blockCount fpayload file - (blockCount fpayload file - 1) = 1 := by omega
  have hall : List.range' (blockCount fpayload file - 1 - (blockCount fpayload file - 1))
      (blockCount fpayload file - 1 + 1) = List.range (blockCount fpayload file) := by
    rw [List.range_eq_range', Nat.sub_self, Nat.sub_add_cancel (by omega)]
  rw [hfirst, hall, flatMap_blocks hpay] at hloop
  unfold fileRecv
  simp only [if_neg hversion, if_true, hfind, Option.bind_eq_bind, Option.bind_some, hend,
    if_neg hin, hm.eofRecord, hloop]
  simp [blockRecord, Nat.sub_add_cancel (Nat.pos_of_ne_zero (Nat.ne_of_gt (by omega :
    0 < blockCount fpayload file)))]

end Receiver

/-! ## Appending to the woof -/

section Appending

variable {fpayload : Nat} {file : Bytes} {woof : List SensMv} {version endSeqno k : Nat}
  {sm : SensMv}

theorem carrying_append (hle : endSeqno ≤ woof.length) :
    carrying (woof ++ [sm]) endSeqno (woof.length + 1) =
      carrying woof endSeqno woof.length ++ if sm.woofEnd = endSeqno then [sm] else [] := by
  have hget : (woof ++ [sm])[woof.length]? = some sm := List.getElem?_concat_length
  rw [carrying_succ hle hget]
  simp [carrying]

section

variable (ht : Transferred fpayload file woof version endSeqno k woof.length)
include ht

theorem Transferred.eofRecord_append (sm : SensMv) :
    (woof ++ [sm])[endSeqno - 1]? =
      some (blockRecord fpayload file version endSeqno (blockCount fpayload file - 1)) := by
  have hpos := ht.pos
  have hle := ht.le
  rw [List.getElem?_append_left (by omega), ht.eofRecord]

theorem Transferred.append_other (hother : sm.woofEnd ≠ endSeqno) :
    Transferred fpayload file (woof ++ [sm]) version endSeqno k (woof ++ [sm]).length where
  pos := ht.pos
  le := by
    rw [List.length_append]
    exact Nat.le_add_right_of_le ht.le
  bound := Nat.le_refl _
  count := ht.count
  eofRecord := ht.eofRecord_append sm
  later := by
    rw [List.length_append, List.length_singleton, carrying_append ht.le, if_neg hother,
      List.append_nil, ht.later]

theorem Transferred.append_next (hmore : k + 1 < blockCount fpayload file)
    (hsm : sm = blockRecord fpayload file version endSeqno (blockCount fpayload file - 2 - k)) :
    Transferred fpayload file (woof ++ [sm]) version endSeqno (k + 1) (woof ++ [sm]).length where
  pos := ht.pos
  le := by
    rw [List.length_append]
    exact Nat.le_add_right_of_le ht.le
  bound := Nat.le_refl _
  count := hmore
  eofRecord := ht.eofRecord_append sm
  later := by
    have hnot : blockCount fpayload file - 2 - k + 1 ≠ blockCount fpayload file := by omega
    have hown : sm.woofEnd = endSeqno := by
      rw [hsm]
      simp [blockRecord, hnot]
    rw [List.length_append, List.length_singleton, carrying_append ht.le, if_pos hown, ht.later,
      laterRecords_succ, hsm]

end

theorem Transferred.append_eof (hcount : 0 < blockCount fpayload file)
    (hend : endSeqno = woof.length + 1)
    (hsm : sm = blockRecord fpayload file version endSeqno (blockCount fpayload file - 1)) :
    Transferred fpayload file (woof ++ [sm]) version endSeqno 0 (woof ++ [sm]).length where
  pos := by omega
  le := by simp [hend]
  bound := Nat.le_refl _
  count := hcount
  eofRecord := by
    rw [hend, Nat.add_sub_cancel, List.getElem?_concat_length, hsm, hend]
  later := by
    rw [List.length_append, List.length_singleton, ← hend, carrying_self]
    rfl

end Appending

/-! ## One sender's loop -/

/-- The header of a sender that has put `k` records. -/
structure SendState.Progress (s : SendState) (fpayload : Nat) (file : Bytes)
    (woof : List SensMv) (k : Nat) : Prop where
  count : k ≤ blockCount fpayload file
  dedup : s.dedupSeqno + k = blockCount fpayload file
  blocks : s.blocksToWrite = (blockCount fpayload file : Int) - 1 - k
  start : k < blockCount fpayload file →
    s.start = decide (k ≠ 0 ∧ k + 1 = blockCount fpayload file)
  eof : s.eof = decide (k = 0)
  version : s.version ≠ 0
  fresh : k = 0 → s.woofEnd = 0
  put : ∀ j, k = j + 1 →
    Transferred fpayload file woof s.version s.woofEnd j woof.length

theorem nextVersion_ne_zero (woof : List SensMv) : nextVersion woof ≠ 0 := by
  unfold nextVersion
  cases lastFileVersion woof with
  | none => exact Nat.one_ne_zero
  | some version =>
    dsimp only
    split <;> omega

section Loop

variable {fpayload : Nat} {file : Bytes} {woof : List SensMv} {s : SendState} {k : Nat}

theorem sendBegin_progress (hpay : 0 < fpayload) (hfile : file ≠ []) (woof : List SensMv) :
    ∃ s, sendBegin fpayload file woof = .sending s ∧ s.Progress fpayload file woof 0 := by
  have hpos := blockCount_pos hpay hfile
  have hsome : ¬ (file.length / fpayload = 0 ∧ file.length % fpayload = 0) := by
    unfold blockCount at hpos
    split at hpos <;> omega
  refine ⟨_, if_neg hsome, ⟨Nat.zero_le _, ?_, ?_, ?_, rfl, nextVersion_ne_zero woof,
    fun _ => rfl, fun j hj => absurd hj.symm (Nat.succ_ne_zero j)⟩⟩
  · simp [blockCount]
  · dsimp only [blockCount]
    split <;> simp
  · simp

section

variable (hp : s.Progress fpayload file woof k)
include hp

theorem SendState.Progress.toNat_blocks (hk : k < blockCount fpayload file) :
    s.blocksToWrite.toNat = blockCount fpayload file - 1 - k := by
  have hblocks := hp.blocks
  omega

theorem SendState.Progress.readFails_eq_false (hpay : 0 < fpayload)
    (hk : k < blockCount fpayload file) :
    s.readFails fpayload file = false := by
  have hb : blockCount fpayload file - 1 - k < blockCount fpayload file := by omega
  have hlt := mul_lt_length hpay hb
  have hpass := readBlock_full_or_last hpay hb
  have hpos : (readBlock fpayload file (blockCount fpayload file - 1 - k)).length ≠ 0 := by
    rw [readBlock_length]
    omega
  unfold SendState.readFails
  rw [hp.toNat_blocks hk]
  rcases hpass with hfull | hlast
  · simp [hfull, hpay.ne']
  · rw [hlast] at hpos
    simp [hlast, hpos]

theorem SendState.Progress.record_eq (hk : k < blockCount fpayload file) :
    s.record fpayload file =
      blockRecord fpayload file s.version s.woofEnd (blockCount fpayload file - 1 - k) := by
  have hblocks := hp.blocks
  have hdedup : s.dedupSeqno = blockCount fpayload file - 1 - k + 1 := by
    have hsum := hp.dedup
    omega
  have hstart : (s.start || decide (s.blocksToWrite = 0)) =
      decide (blockCount fpayload file - 1 - k = 0) := by
    rw [hp.start hk, Bool.eq_iff_iff]
    simp
    omega
  have heof : s.eof = decide (blockCount fpayload file - 1 - k + 1 = blockCount fpayload file) := by
    rw [hp.eof]
    exact decide_eq_decide.2 (by omega)
  have hend : s.woofEnd =
      if blockCount fpayload file - 1 - k + 1 = blockCount fpayload file then 0 else s.woofEnd := by
    split
    · exact hp.fresh (by omega)
    · rfl
  simp only [SendState.record, blockRecord, hp.toNat_blocks hk, SensMv.mk.injEq, true_and, and_true]
  exact ⟨hstart, heof, hdedup, hend⟩

theorem SendState.Progress.check_afterPut (hk : k < blockCount fpayload file) (seqno : Nat) :
    ∃ s', (s.afterPut seqno).check =
        (if k + 1 < blockCount fpayload file then .sending s' else .sent s') ∧
      s'.version = s.version ∧
      s'.woofEnd = (if k = 0 then seqno % 2 ^ 32 else s.woofEnd) ∧
      s'.dedupSeqno + (k + 1) = blockCount fpayload file ∧
      s'.blocksToWrite = (blockCount fpayload file : Int) - 1 - (k + 1 : Nat) ∧
      s'.eof = false ∧
      (k + 1 < blockCount fpayload file →
        s'.start = decide (k + 1 ≠ 0 ∧ k + 1 + 1 = blockCount fpayload file)) := by
  have hblocks := hp.blocks
  have hdedup := hp.dedup
  have heof := hp.eof
  have hwoofEnd : (s.afterPut seqno).woofEnd = if k = 0 then seqno % 2 ^ 32 else s.woofEnd := by
    simp [SendState.afterPut, heof]
  have hblocks' : (s.afterPut seqno).blocksToWrite =
      (blockCount fpayload file : Int) - 1 - (k + 1 : Nat) := by
    simp only [SendState.afterPut]
    omega
  have hdedup' : (s.afterPut seqno).dedupSeqno + (k + 1) = blockCount fpayload file := by
    simp only [SendState.afterPut]
    omega
  by_cases hnext : k + 1 + 1 = blockCount fpayload file
  · -- the next record is the START record
    have hcheck : (s.afterPut seqno).check = .sending { s.afterPut seqno with start := true } :=
      if_pos ⟨by omega, by omega⟩
    refine ⟨{ s.afterPut seqno with start := true }, ?_, rfl, hwoofEnd, hdedup', hblocks', rfl, ?_⟩
    · rw [hcheck, if_pos (by omega)]
    · intro _
      simp [hnext]
  · refine ⟨s.afterPut seqno, ?_, rfl, hwoofEnd, hdedup', hblocks', rfl, ?_⟩
    · unfold SendState.check
      rw [if_neg (by omega), if_neg (by omega), if_neg (by omega)]
      by_cases hmore : k + 1 < blockCount fpayload file
      · rw [if_pos hmore, if_pos (by omega)]
      · rw [if_neg hmore, if_neg (by omega)]
    · intro hmore
      have hstart := hp.start hk
      have hzero : s.blocksToWrite ≠ 0 := by omega
      simp [SendState.afterPut, heof, hstart, hzero, hnext]
      omega

theorem SendState.Progress.step (hk : k < blockCount fpayload file)
    (hsmall : woof.length + 1 < 2 ^ 32) :
    ∃ s', (s.afterPut (woof.length + 1)).check =
        (if k + 1 < blockCount fpayload file then .sending s' else .sent s') ∧
      s'.woofEnd = (if k = 0 then woof.length + 1 else s.woofEnd) ∧
      s'.Progress fpayload file (woof ++ [s.record fpayload file]) (k + 1) := by
  obtain ⟨s', hcheck, hversion, hend, hdedup, hblocks, heof, hstart⟩ :=
    hp.check_afterPut hk (woof.length + 1)
  rw [Nat.mod_eq_of_lt hsmall] at hend
  have hrecord := hp.record_eq hk
  refine ⟨s', hcheck, hend, hk, hdedup, hblocks, hstart, ?_, ?_, ?_, ?_⟩
  · rw [heof]
    simp
  · rw [hversion]
    exact hp.version
  · intro hzero
    exact absurd hzero (Nat.succ_ne_zero k)
  · intro j hj
    obtain rfl : k = j := Nat.succ.inj hj
    cases k with
    | zero =>
      rw [hversion]
      refine Transferred.append_eof hk hend ?_
      rw [hrecord, hend]
      simp [blockRecord, Nat.sub_add_cancel hk]
    | succ j =>
      rw [hversion, hend]
      have hb : blockCount fpayload file - 1 - (j + 1) = blockCount fpayload file - 2 - j := by
        omega
      rw [hb] at hrecord
      exact (hp.put j rfl).append_next hk hrecord

theorem SendState.Progress.append_other {sm : SensMv}
    (hother : s.woofEnd ≠ 0 → sm.woofEnd ≠ s.woofEnd) :
    s.Progress fpayload file (woof ++ [sm]) k :=
  { hp with
    put := fun j hj => (hp.put j hj).append_other (hother (hp.put j hj).pos.ne') }

end

end Loop

/-! ## Every interleaving -/

def Sending.state : Sending → Option SendState
  | .sending s | .sent s => some s
  | .idle | .exited => none

section Interleaving

variable {ι : Type} [DecidableEq ι] {elSize : Nat} {files : ι → MovedFile} {woof : List SensMv}
  {sender : Sending} {file : MovedFile} {n : Nat} {s : SendState}

/-- Where a sender stands that has had `n` turns: the first one takes it to its loop. -/
structure Standing (elSize : Nat) (file : MovedFile) (woof : List SensMv) (sender : Sending)
    (n : Nat) : Prop where
  idle : n = 0 → sender = .idle
  going : ∀ k, n = k + 1 → ∃ s : SendState,
    sender = (if k < blockCount (elSize - sizeofSensMv) file.bytes then .sending s else .sent s) ∧
      s.Progress (elSize - sizeofSensMv) file.bytes woof
        (min k (blockCount (elSize - sizeofSensMv) file.bytes))

/-- What holds after the turns of a schedule.  Two senders never have one EOF record. -/
structure MoverState.Inv (elSize : Nat) (files : ι → MovedFile) (schedule : List ι)
    (st : MoverState ι) : Prop where
  standing : ∀ i, Standing elSize (files i) st.woof (st.sender i) (schedule.count i)
  distinct : ∀ i j s t, (st.sender i).state = some s → (st.sender j).state = some t →
    s.woofEnd = t.woofEnd → s.woofEnd ≠ 0 → i = j

theorem initialMover_inv (elSize : Nat) (files : ι → MovedFile) (woof : List SensMv) :
    (initialMover ι woof).Inv elSize files [] where
  standing _ := ⟨fun _ => rfl, fun k hk => absurd hk (Nat.succ_ne_zero k).symm⟩
  distinct _ _ _ _ hs := nomatch hs

theorem MoverState.Inv.turn {st : MoverState ι} {schedule : List ι}
    (hinv : st.Inv elSize files schedule) {i : ι}
    (hself : Standing elSize (files i) woof sender (schedule.count i + 1))
    (hothers : ∀ j, j ≠ i →
      Standing elSize (files j) woof (st.sender j) (schedule.count j))
    (hdistinct : ∀ j, j ≠ i → ∀ s t, sender.state = some s → (st.sender j).state = some t →
      s.woofEnd = t.woofEnd → s.woofEnd = 0) :
    MoverState.Inv elSize files (schedule ++ [i])
      { woof := woof, sender := Function.update st.sender i sender } where
  standing j := by
    by_cases hj : j = i
    · subst hj
      simpa using hself
    · have hcount : (schedule ++ [i]).count j = schedule.count j := by
        simp [Ne.symm hj]
      rw [hcount]
      simpa [Function.update_of_ne hj] using hothers j hj
  distinct j l s t hs ht heq hne := by
    dsimp only at hs ht
    by_cases hj : j = i
    · by_cases hl : l = i
      · rw [hj, hl]
      · subst hj
        rw [Function.update_self] at hs
        rw [Function.update_of_ne hl] at ht
        exact absurd (hdistinct l hl s t hs ht heq) hne
    · rw [Function.update_of_ne hj] at hs
      by_cases hl : l = i
      · subst hl
        rw [Function.update_self] at ht
        exact absurd (heq.trans (hdistinct j hj t s ht hs heq.symm)) hne
      · rw [Function.update_of_ne hl] at ht
        exact hinv.distinct j l s t hs ht heq hne

theorem Standing.progress (hst : Standing elSize file woof sender n) (hs : sender.state = some s) :
    ∃ k, s.Progress (elSize - sizeofSensMv) file.bytes woof k := by
  cases n with
  | zero =>
    rw [hst.idle rfl] at hs
    cases hs
  | succ k =>
    obtain ⟨t, hsender, hp⟩ := hst.going k rfl
    have hst : sender.state = some t := by
      rw [hsender]
      split <;> rfl
    obtain rfl : t = s := Option.some.inj (hst.symm.trans hs)
    exact ⟨_, hp⟩

theorem SendState.Progress.woofEnd_le {fpayload : Nat} {file : Bytes} {k : Nat}
    (hp : s.Progress fpayload file woof k) :
    s.woofEnd ≤ woof.length := by
  cases k with
  | zero =>
    rw [hp.fresh rfl]
    exact Nat.zero_le _
  | succ j => exact (hp.put j rfl).le

theorem Standing.append_other (hst : Standing elSize file woof sender n) {sm : SensMv}
    (hother : ∀ s, sender.state = some s → s.woofEnd ≠ 0 → sm.woofEnd ≠ s.woofEnd) :
    Standing elSize file (woof ++ [sm]) sender n where
  idle := hst.idle
  going k hk := by
    obtain ⟨s, hsender, hp⟩ := hst.going k hk
    refine ⟨s, hsender, hp.append_other (hother s ?_)⟩
    rw [hsender]
    split <;> rfl

section Turns

variable {st : MoverState ι} {schedule : List ι} {i : ι} {k : Nat}

theorem MoverState.Inv.advance_begin (hsize : sizeofSensMv < elSize)
    (hinv : st.Inv elSize files schedule) (hcount : schedule.count i = 0) :
    (st.advance elSize files i).Inv elSize files (schedule ++ [i]) := by
  have hpay : 0 < elSize - sizeofSensMv := Nat.sub_pos_of_lt hsize
  have hpos := blockCount_pos hpay (files i).ne_nil
  obtain ⟨s, hbegin, hp⟩ := sendBegin_progress hpay (files i).ne_nil st.woof
  unfold MoverState.advance
  simp only [(hinv.standing i).idle hcount, hbegin]
  refine hinv.turn ?_ (fun j _ => hinv.standing j) ?_
  · rw [hcount]
    refine ⟨fun hzero => absurd hzero (Nat.succ_ne_zero 0), fun k hk => ?_⟩
    obtain rfl : k = 0 := (Nat.succ.inj hk).symm
    refine ⟨s, (if_pos hpos).symm, ?_⟩
    exact hp
  · intro j _ t u ht _ _
    obtain rfl : s = t := Option.some.inj ht
    exact hp.fresh rfl

theorem MoverState.Inv.advance_put (hsize : sizeofSensMv < elSize)
    (hinv : st.Inv elSize files schedule) (hcount : schedule.count i = k + 1)
    (hk : k < blockCount (elSize - sizeofSensMv) (files i).bytes)
    (hsmall : (st.advance elSize files i).woof.length < 2 ^ 31) :
    (st.advance elSize files i).Inv elSize files (schedule ++ [i]) := by
  have hpay : 0 < elSize - sizeofSensMv := Nat.sub_pos_of_lt hsize
  obtain ⟨s, hsender, hp⟩ := (hinv.standing i).going k hcount
  rw [if_pos hk] at hsender
  rw [Nat.min_eq_left hk.le] at hp
  have hstate : (st.sender i).state = some s := by
    rw [hsender]
    rfl
  unfold MoverState.advance at hsmall ⊢
  simp only [hsender, hp.readFails_eq_false hpay hk] at hsmall ⊢
  have hlen : st.woof.length + 1 < 2 ^ 32 := by
    simp at hsmall
    omega
  obtain ⟨s', hcheck, hend, hp'⟩ := hp.step hk hlen
  refine hinv.turn ?_ ?_ ?_
  · rw [hcount]
    refine ⟨fun hzero => absurd hzero (Nat.succ_ne_zero _), fun l hl => ?_⟩
    obtain rfl : l = k + 1 := (Nat.succ.inj hl).symm
    refine ⟨s', hcheck, ?_⟩
    rw [Nat.min_eq_left hk]
    exact hp'
  · intro j hj
    refine (hinv.standing j).append_other fun t ht hne heq => ?_
    have hsame : s.woofEnd = t.woofEnd := heq
    exact hj (hinv.distinct j i t s ht hstate hsame.symm hne)
  · -- the number of a new EOF record is above those of all others
    intro j hj t u ht hu heq
    have hstate' : (s.afterPut (st.woof.length + 1)).check.state = some s' := by
      rw [hcheck]
      split <;> rfl
    obtain rfl : s' = t := Option.some.inj (hstate'.symm.trans ht)
    obtain ⟨_, hu'⟩ := (hinv.standing j).progress hu
    have hule := hu'.woofEnd_le
    by_cases hzero : k = 0
    · rw [if_pos hzero] at hend
      omega
    · rw [if_neg hzero] at hend
      by_contra hne
      exact hj (hinv.distinct i j s u hstate hu (hend.symm.trans heq) (hend ▸ hne)).symm

theorem MoverState.Inv.advance_sent (hinv : st.Inv elSize files schedule)
    (hcount : schedule.count i = k + 1)
    (hk : ¬ k < blockCount (elSize - sizeofSensMv) (files i).bytes) :
    (st.advance elSize files i).Inv elSize files (schedule ++ [i]) := by
  obtain ⟨s, hsender, hp⟩ := (hinv.standing i).going k hcount
  rw [if_neg hk] at hsender
  have hsame : st.advance elSize files i =
      { woof := st.woof, sender := Function.update st.sender i (st.sender i) } := by
    rw [Function.update_eq_self]
    simp [MoverState.advance, hsender]
  rw [hsame]
  refine hinv.turn ?_ (fun j _ => hinv.standing j) ?_
  · rw [hcount]
    refine ⟨fun hzero => absurd hzero (Nat.succ_ne_zero _), fun l hl => ?_⟩
    obtain rfl : l = k + 1 := (Nat.succ.inj hl).symm
    refine ⟨s, ?_, ?_⟩
    · rw [if_neg (by omega), hsender]
    · rw [Nat.min_eq_right (by omega)] at hp ⊢
      exact hp
  · intro j hj t u ht hu heq
    by_contra hne
    exact hj (hinv.distinct i j t u ht hu heq hne).symm

theorem MoverState.Inv.advance (hsize : sizeofSensMv < elSize)
    (hinv : st.Inv elSize files schedule)
    (hsmall : (st.advance elSize files i).woof.length < 2 ^ 31) :
    (st.advance elSize files i).Inv elSize files (schedule ++ [i]) := by
  cases hcount : schedule.count i with
  | zero => exact hinv.advance_begin hsize hcount
  | succ k =>
    by_cases hk : k < blockCount (elSize - sizeofSensMv) (files i).bytes
    · exact hinv.advance_put hsize hcount hk hsmall
    · exact hinv.advance_sent hcount hk

theorem MoverState.length_le_advance (elSize : Nat) (files : ι → MovedFile)
    (st : MoverState ι) (i : ι) : st.woof.length ≤ (st.advance elSize files i).woof.length := by
  unfold MoverState.advance
  cases st.sender i with
  | sending s =>
    dsimp only
    split <;> simp
  | idle | sent _ | exited => exact Nat.le_refl _

theorem MoverState.run_inv (hsize : sizeofSensMv < elSize) (woof : List SensMv)
    (schedule : List ι)
    (hsmall : ((initialMover ι woof).run elSize files schedule).woof.length < 2 ^ 31) :
    ((initialMover ι woof).run elSize files schedule).Inv elSize files schedule := by
  induction schedule using List.reverseRecOn with
  | nil => exact initialMover_inv elSize files woof
  | append_singleton schedule i ih =>
    have hrun : (initialMover ι woof).run elSize files (schedule ++ [i]) =
        ((initialMover ι woof).run elSize files schedule).advance elSize files i := by
      simp [MoverState.run]
    rw [hrun] at hsmall ⊢
    have hle := MoverState.length_le_advance elSize files
      ((initialMover ι woof).run elSize files schedule) i
    exact (ih (Nat.lt_of_le_of_lt hle hsmall)).advance hsize hsmall

end Turns

end Interleaving

def twoFiles (large : Bool) : MovedFile :=
  if large then ⟨[1, 2, 3], by decide, by decide⟩ else ⟨[9], by decide, by decide⟩

end Cspot.Senspot
