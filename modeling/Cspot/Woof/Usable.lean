import Cspot.Woof.Reading

/-!
# Remainders by the history size

Every index into the slots is a remainder by the history size.  A woof without slots never
gets as far: no place can be taken for an append, and no number is in range for a read.
-/

namespace Cspot

/-! ## Computations without a remainder by zero -/

def Exec.NoZeroRem {α : Type} (x : Exec α) : Prop := x ≠ .error .divideByZero

namespace Exec.NoZeroRem

variable {α : Type}

theorem ok (a : α) : Exec.NoZeroRem (.ok a) := nofun

theorem bind {β : Type} {x : Exec α} {f : α → Exec β} (hx : x.NoZeroRem)
    (hf : ∀ a, x = .ok a → (f a).NoZeroRem) : (x >>= f).NoZeroRem := by
  cases x with
  | error s => exact fun h => hx (by simpa using h)
  | ok a => simpa using hf a rfl

theorem semP (value : Int) : (Cspot.semP value).NoZeroRem := by
  unfold Cspot.semP
  split <;> nofun

theorem memcpy (src : Bytes) (n : Nat) : (Cspot.memcpy src n).NoZeroRem := by
  unfold Cspot.memcpy
  split <;> nofun

theorem remU {b : Nat} (hb : 0 < b) (a : Nat) : (Cspot.remU a b).NoZeroRem := by
  rw [remU_of_pos hb]
  exact ok _

end Exec.NoZeroRem

section Slots

variable {wf : WooF} {element : Bytes}

theorem advanceTailWrapping_noZeroRem (h : 0 < wf.historySize) (next : Nat) :
    (advanceTailWrapping wf next).NoZeroRem := by
  unfold advanceTailWrapping advanceTail
  split
  · exact .remU h _
  · split
    · exact .remU h _
    · exact .ok _

theorem wooFPlaceElement_noZeroRem (h : 0 < wf.historySize) :
    (wooFPlaceElement advanceTailWrapping wf element).NoZeroRem := by
  refine .bind (.semP _) fun tailWait _ => ?_
  refine .bind (.semP _) fun mutex _ => ?_
  refine .bind (.remU h _) fun next _ => ?_
  refine .bind (.memcpy _ _) fun copied _ => ?_
  exact .bind (advanceTailWrapping_noZeroRem h next) fun tail _ => .ok _

theorem logEvent_noZeroRem {log : Log} (h : 0 < log.size) (event : Event) :
    (logEvent log event).NoZeroRem := by
  refine .bind (.semP _) fun mutex _ => ?_
  obtain ⟨added, hadded, -⟩ := logAdd_ok
    { log with mutex := mutex, seqNo := Word.add log.seqNo 1 } { event with seqNo := log.seqNo } h
  dsimp only
  rw [hadded]
  exact .ok _

theorem wooFAppendWithCause_noZeroRem (h : 0 < wf.historySize) {g : Globals}
    (hlog : 0 < g.nameLog.size) (handName : Option Bytes) (causeHost causeSeqNo : Nat) :
    (wooFAppendWithCause g wf handName element causeHost causeSeqNo).NoZeroRem := by
  refine .bind (wooFPlaceElement_noZeroRem h) fun placed _ => ?_
  cases handName with
  | none => exact .ok _
  | some handler =>
    refine .bind (logEvent_noZeroRem hlog _) fun logged _ => ?_
    dsimp only
    split <;> nofun

theorem wooFReadNdx_noZeroRem (h : 0 < wf.historySize) (seqNo : Nat) :
    (wooFReadNdx wf seqNo).NoZeroRem := by
  obtain ⟨ndx, hndx⟩ := exists_wooFReadNdx h seqNo
  rw [hndx]
  exact .ok _

theorem wooFReadWithCause_noZeroRem {seqNo : Nat}
    (h : ∀ mutex, (wooFReadNdx { wf with mutex := mutex } seqNo).NoZeroRem) :
    (wooFReadWithCause wf seqNo).NoZeroRem := by
  refine .bind (.semP _) fun mutex _ => ?_
  refine .bind (h mutex) fun ndx _ => ?_
  cases ndx <;> exact .ok _

end Slots

/-! ## Woofs without slots -/

/-- Nothing was ever appended, and nothing can be. -/
structure WooF.Vacant (wf : WooF) : Prop where
  size : wf.historySize = 0
  tailWait : wf.tailWait ≤ 0
  head : wf.head = 0
  tail : wf.tail = Word.allOnes
  seqNo_pos : 0 < wf.seqNo
  seqNo_lt : wf.seqNo < Word.modulus

namespace WooF.Vacant

variable {wf : WooF}

theorem with_mutex (h : wf.Vacant) (mutex : Int) : { wf with mutex := mutex }.Vacant :=
  ⟨h.size, h.tailWait, h.head, h.tail, h.seqNo_pos, h.seqNo_lt⟩

theorem wooFReadNdx_eq (h : wf.Vacant) (seqNo : Nat) : wooFReadNdx wf seqNo = .ok none := by
  have hpos := h.seqNo_pos
  have hlt := h.seqNo_lt
  have hyoungest : Word.sub wf.seqNo 1 = wf.seqNo - 1 := Word.sub_of_le hpos hlt
  have holdest : wooFGetEarliest wf = wf.seqNo := by
    have hlatest : Word.sub (wf.seqNo - 1) 0 = wf.seqNo - 1 :=
      Word.sub_of_le (Nat.zero_le _) (by omega)
    rw [wooFGetEarliest, hyoungest, if_neg (not_not_intro h.tail), h.head, hlatest,
      Word.add_of_lt (by omega)]
    omega
  unfold wooFReadNdx
  rw [hyoungest, holdest]
  split
  · rfl
  · have hout (s : Nat) : s < wf.seqNo ∨ s > wf.seqNo - 1 := by omega
    exact if_pos (hout _)

theorem wooFSetSeqno (h : wf.Vacant) {newSeqno : Nat} (hnew : newSeqno < Word.modulus) :
    (Cspot.wooFSetSeqno wf newSeqno).2.Vacant := by
  have hpos := h.seqNo_pos
  unfold Cspot.wooFSetSeqno
  split
  · rename_i hle
    exact ⟨h.size, h.tailWait, h.head, h.tail, Nat.lt_of_lt_of_le hpos hle, hnew⟩
  · exact h

end WooF.Vacant

/-! ## Runs -/

/-- The woof after any calls on it, `n` of them appends.  Whoever runs the handler of an
append may post `tail_wait`. -/
inductive WooF.Reached (start : WooF) : WooF → Nat → Prop
  | start : Reached start start 0
  | appendWithCause {wf wf' : WooF} {n s : Nat} {g g' : Globals} {handName : Option Bytes}
      {element : Bytes} {causeHost causeSeqNo : Nat} :
      Reached start wf n →
      wooFAppendWithCause g wf handName element causeHost causeSeqNo = .ok (s, g', wf') →
      Reached start wf' (n + 1)
  | append {wf wf' : WooF} {n s : Nat} {g g' : Globals} {handName : Option Bytes}
      {element : Bytes} :
      Reached start wf n → wooFAppend g wf handName element = .ok (s, g', wf') →
      Reached start wf' (n + 1)
  | handlerDone {wf : WooF} {n : Nat} :
      Reached start wf (n + 1) → Reached start wf.releasePlace (n + 1)
  | read {wf wf' : WooF} {n seqNo : Nat} {element : Option Bytes} :
      Reached start wf n → wooFReadWithCause wf seqNo = .ok (element, wf') → Reached start wf' n
  | readTail {wf wf' : WooF} {n : Nat} {elementCount count : Int} {elements : List Bytes} :
      Reached start wf n → wooFReadTail wf elementCount = .ok (count, elements, wf') →
      Reached start wf' n
  | truncate {wf wf' : WooF} {n seqNo : Nat} {result : Int} :
      Reached start wf n → wooFTruncate wf seqNo = .ok (result, wf') → Reached start wf' n
  | setSeqno {wf : WooF} {n newSeqno : Nat} :
      Reached start wf n → newSeqno < Word.modulus →
      Reached start (wooFSetSeqno wf newSeqno).2 n

/-- There are slots, or there never was an append. -/
def WooF.Sound (wf : WooF) (n : Nat) : Prop := 0 < wf.historySize ∨ wf.Vacant ∧ n = 0

section Steps

variable {wf wf' : WooF} {element : Bytes} {g g' : Globals} {handName : Option Bytes}
  {s seqNo n : Nat}

theorem wooFPlaceElement_size {advance : WooF → Nat → Exec Nat} {ndx : Nat}
    (h : wooFPlaceElement advance wf element = .ok (ndx, wf')) :
    0 < wf.tailWait ∧ wf'.historySize = wf.historySize := by
  obtain ⟨tailWait, hwait, h⟩ := Exec.bind_eq_ok.1 h
  obtain ⟨mutex, -, h⟩ := Exec.bind_eq_ok.1 h
  obtain ⟨next, -, h⟩ := Exec.bind_eq_ok.1 h
  obtain ⟨copied, -, h⟩ := Exec.bind_eq_ok.1 h
  obtain ⟨tail, -, h⟩ := Exec.bind_eq_ok.1 h
  cases h
  exact ⟨(semP_eq_ok.1 hwait).1, rfl⟩

theorem wooFAppendWithCause_size {causeHost causeSeqNo : Nat}
    (h : wooFAppendWithCause g wf handName element causeHost causeSeqNo = .ok (s, g', wf')) :
    0 < wf.tailWait ∧ wf'.historySize = wf.historySize := by
  obtain ⟨-, ndx, placed, hplaced, rfl⟩ := wooFAppendWithCause_eq_ok h
  obtain ⟨hwait, hsize⟩ := wooFPlaceElement_size hplaced
  exact ⟨hwait, hsize⟩

theorem wooFAppend_size (h : wooFAppend g wf handName element = .ok (s, g', wf')) :
    0 < wf.tailWait ∧ wf'.historySize = wf.historySize := by
  obtain ⟨⟨ndx, placed⟩, hplaced, h⟩ := Exec.bind_eq_ok.1 h
  have hsize := wooFPlaceElement_size hplaced
  cases handName with
  | none =>
    cases h
    exact hsize
  | some handler =>
    obtain ⟨⟨ls, nameLog⟩, -, h⟩ := Exec.bind_eq_ok.1 h
    by_cases hls : ls = 0
    · simp only [hls, if_true] at h
      cases h
      exact hsize
    · simp only [hls, if_false] at h
      cases h
      exact hsize

theorem wooFTruncate_size {result : Int} (h : wooFTruncate wf seqNo = .ok (result, wf')) :
    0 < wf.tailWait ∧ wf'.historySize = wf.historySize := by
  obtain ⟨tailWait, hwait, h⟩ := Exec.bind_eq_ok.1 h
  obtain ⟨mutex, -, h⟩ := Exec.bind_eq_ok.1 h
  refine ⟨(semP_eq_ok.1 hwait).1, ?_⟩
  split at h
  · cases h
    rfl
  · obtain ⟨earliestSeqno, -, h⟩ := Exec.bind_eq_ok.1 h
    split at h
    · cases h
      rfl
    · obtain ⟨truncHead, -, h⟩ := Exec.bind_eq_ok.1 h
      cases h
      rfl

theorem wooFReadWithCause_mutex {result : Option Bytes}
    (h : wooFReadWithCause wf seqNo = .ok (result, wf')) :
    ∃ mutex, wf' = { wf with mutex := mutex } := by
  obtain ⟨mutex, -, h⟩ := Exec.bind_eq_ok.1 h
  obtain ⟨ndx, -, h⟩ := Exec.bind_eq_ok.1 h
  cases ndx with
  | none | some ndx =>
    cases h
    exact ⟨_, rfl⟩

theorem wooFReadTail_mutex {elementCount count : Int} {elements : List Bytes}
    (h : wooFReadTail wf elementCount = .ok (count, elements, wf')) :
    ∃ mutex, wf' = { wf with mutex := mutex } := by
  obtain ⟨mutex, -, h⟩ := Exec.bind_eq_ok.1 h
  cases h
  exact ⟨_, rfl⟩

theorem WooF.Sound.of_size {m : Nat} (h : wf.Sound n)
    (hsize : 0 < wf.tailWait ∧ wf'.historySize = wf.historySize) : wf'.Sound m := by
  rcases h with hpos | ⟨hvacant, -⟩
  · exact Or.inl (hsize.2 ▸ hpos)
  · exact absurd hsize.1 (Int.not_lt.2 hvacant.tailWait)

theorem WooF.Sound.with_mutex (h : wf.Sound n) (mutex : Int) :
    { wf with mutex := mutex }.Sound n := by
  rcases h with hpos | ⟨hvacant, hn⟩
  · exact Or.inl hpos
  · exact Or.inr ⟨hvacant.with_mutex mutex, hn⟩

theorem WooF.Sound.wooFSetSeqno {newSeqno : Nat} (h : wf.Sound n) (hnew : newSeqno < Word.modulus) :
    (Cspot.wooFSetSeqno wf newSeqno).2.Sound n := by
  rcases h with hpos | ⟨hvacant, hn⟩
  · refine Or.inl ?_
    unfold Cspot.wooFSetSeqno
    split <;> exact hpos
  · exact Or.inr ⟨hvacant.wooFSetSeqno hnew, hn⟩

end Steps

variable {wf : WooF} {n : Nat}

/-- Run lemma: a woof without slots stays without an append. -/
theorem WooF.Reached.sound {start : WooF} (h : start.Reached wf n) (hstart : start.Sound 0) :
    wf.Sound n := by
  induction h with
  | start => exact hstart
  | appendWithCause _ hcall ih => exact ih.of_size (wooFAppendWithCause_size hcall)
  | append _ hcall ih => exact ih.of_size (wooFAppend_size hcall)
  | handlerDone _ ih =>
    rcases ih with hpos | ⟨-, hn⟩
    · exact Or.inl hpos
    · cases hn
  | read _ hcall ih =>
    obtain ⟨mutex, rfl⟩ := wooFReadWithCause_mutex hcall
    exact ih.with_mutex mutex
  | readTail _ hcall ih =>
    obtain ⟨mutex, rfl⟩ := wooFReadTail_mutex hcall
    exact ih.with_mutex mutex
  | truncate _ hcall ih => exact ih.of_size (wooFTruncate_size hcall)
  | setSeqno _ hnew ih => exact ih.wooFSetSeqno hnew

/-- Neither an append nor a read divides by zero, as long as the name log has slots. -/
structure WooF.NoZeroRemainder (wf : WooF) : Prop where
  append : ∀ (g : Globals) handName element causeHost causeSeqNo, 0 < g.nameLog.size →
    (wooFAppendWithCause g wf handName element causeHost causeSeqNo).NoZeroRem
  read : ∀ seqNo, (wooFReadWithCause wf seqNo).NoZeroRem

theorem WooF.Sound.noZeroRemainder (h : wf.Sound n) : wf.NoZeroRemainder := by
  rcases h with hpos | ⟨hvacant, -⟩
  · refine ⟨fun g handName element causeHost causeSeqNo hlog => ?_, fun seqNo => ?_⟩
    · exact wooFAppendWithCause_noZeroRem hpos hlog handName causeHost causeSeqNo
    · exact wooFReadWithCause_noZeroRem fun mutex => wooFReadNdx_noZeroRem hpos seqNo
  · refine ⟨fun g handName element causeHost causeSeqNo _ => ?_, fun seqNo => ?_⟩
    · rw [wooFAppendWithCause_blocked hvacant.tailWait]
      nofun
    · refine wooFReadWithCause_noZeroRem fun mutex => ?_
      rw [(hvacant.with_mutex mutex).wooFReadNdx_eq]
      exact .ok _

/-! ## New woofs -/

theorem wooFCreate_sound (name : Bytes) (es h ino : Nat) : (wooFCreate name es h ino).Sound 0 := by
  rcases Nat.eq_zero_or_pos h with rfl | hpos
  · have hwait : initSem 0 (Word.toInt32 0) ≤ 0 := by decide
    have hnext : 1 < Word.modulus := by decide
    exact Or.inr ⟨⟨rfl, hwait, rfl, rfl, Nat.one_pos, hnext⟩, rfl⟩
  · exact Or.inl hpos

theorem wooFCreate_tailWait_lt (name : Bytes) (es h ino : Nat) :
    (wooFCreate name es h ino).tailWait < 2 ^ 31 := by
  have hle := Word.toInt32_le h
  change initSem 0 (Word.toInt32 h) < 2 ^ 31
  unfold initSem
  split <;> omega

theorem wooFCreate_tailWait_of_lt {h : Nat} (hlt : h < 2 ^ 31) (name : Bytes) (es ino : Nat) :
    (wooFCreate name es h ino).tailWait = h := by
  change initSem 0 (Word.toInt32 h) = h
  rw [Word.toInt32_of_lt hlt]
  exact if_neg (by omega)

end Cspot
