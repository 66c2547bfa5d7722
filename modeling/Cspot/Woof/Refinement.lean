import Cspot.Lib.Window
import Cspot.Woof.Basic

/-!
# A WooF is a sliding window

`Shows` relates the shared record to the window a reader sees.  Both shapes of the
ring are covered by one statement about places: before the first wrap slot zero is
unused and the tail is all ones, afterwards the tail is the oldest slot.
-/

namespace Cspot

/-- Largest history size considered here: the slots of a larger WooF would not fit
in the address space, whatever their element size. -/
def historyLimit : Nat := 2 ^ 61

theorem historySize_lt_of_space {elementSize historySize : Nat}
    (h : wooFSpace elementSize historySize < Word.modulus) : historySize < historyLimit := by
  have hmul : (historySize + 1) * 8 ≤ (historySize + 1) * (elementSize + 8) :=
    Nat.mul_le_mul_left _ (by omega)
  simp only [wooFSpace, sizeofElid, sizeofWooFShared, Word.modulus] at h
  simp only [historyLimit]
  omega

structure WooF.Shows (wf : WooF) (W : Window Bytes) : Prop where
  cap : wf.historySize = W.cap
  cap_lt : W.cap < historyLimit
  next : wf.seqNo = W.next
  next_lt : W.next < Word.modulus
  head_lt : wf.head < W.cap
  head_unwrapped : W.held.length < W.cap → wf.head = W.held.length
  tail : wf.tail =
    if W.held.length < W.cap then Word.allOnes else Ring.next W.cap wf.head
  slots : Ring.Stores (fun i => (wf.slots i).element) W.cap wf.head W.held

/-- The part of `Shows` a reader depends on: where the code looks for each number, and
that the entry is there. -/
structure WooF.Reads (wf : WooF) (W : Window Bytes) : Prop where
  slots : Ring.Stores (fun i => (wf.slots i).element) W.cap wf.head W.held
  ndx : ∀ s, 0 < s → wooFReadNdx wf s =
    .ok (if W.earliest ≤ s ∧ s < W.next
      then some (Ring.place W.cap wf.head W.held.length (s - W.earliest)) else none)
  ndx_zero : wooFReadNdx wf 0 = if W.held = [] then .ok none else wooFReadNdx wf W.latest

/-! ## Reading -/

section Read

variable {wf : WooF} {W : Window Bytes} {s : Nat}

section

variable (h : wf.Shows W)
include h

theorem WooF.Shows.tail_ne_of_full (hfull : W.held.length = W.cap) : wf.tail ≠ Word.allOnes := by
  have hlt := Ring.next_lt W.cap_pos wf.head
  have hcap := h.cap_lt
  rw [h.tail, if_neg (by omega)]
  simp only [historyLimit, Word.allOnes, Word.modulus] at *
  omega

theorem WooF.Shows.wooFLatestSeqno_eq : wooFLatestSeqno wf = W.latest := by
  have hpos := W.numbered
  rw [wooFLatestSeqno, h.next, Word.sub_of_le (by omega) h.next_lt, Window.latest]

theorem WooF.Shows.wooFGetEarliest_eq : wooFGetEarliest wf = W.earliest := by
  have hpos := W.numbered
  have hnext := h.next_lt
  have hlatest : Word.sub wf.seqNo 1 = W.next - 1 := by
    rw [h.next, Word.sub_of_le (by omega) h.next_lt]
  unfold wooFGetEarliest
  rcases Nat.lt_or_eq_of_le W.fits with hlt | hfull
  · have htail : wf.tail = Word.allOnes := by rw [h.tail, if_pos hlt]
    rw [if_neg (by simpa using htail), h.head_unwrapped hlt,
      Word.add_sub_of_le (by omega) (by omega) (by omega), Window.earliest]
    omega
  · rw [if_pos (h.tail_ne_of_full hfull), h.cap,
      Word.add_sub_of_le (by omega) (by omega) (by omega), Window.earliest]
    omega

theorem WooF.Shows.forward_eq_place {j : Nat} (hj : j < W.held.length) :
    Word.add (if wf.tail = Word.allOnes then Word.add 1 wf.historySize else wf.tail) j %
      wf.historySize = Ring.place W.cap wf.head W.held.length j := by
  have hcap := h.cap_lt
  have hlimit : 4 * historyLimit < Word.modulus := by decide
  rcases Nat.lt_or_eq_of_le W.fits with hlt | hfull
  · have htail : wf.tail = Word.allOnes := by rw [h.tail, if_pos hlt]
    have hvalid : Word.add 1 W.cap = 1 + W.cap := Word.add_of_lt (by omega)
    rw [if_pos htail, h.cap, hvalid, Word.add_of_lt (by omega), Ring.place,
      h.head_unwrapped hlt]
    congr 1
    omega
  · have hnext := Ring.next_lt W.cap_pos wf.head
    rw [if_neg (h.tail_ne_of_full hfull), h.tail, if_neg (by omega), h.cap,
      Word.add_of_lt (by omega), Ring.next, Nat.mod_add_mod, Ring.place, hfull]
    congr 1
    omega

theorem WooF.Shows.wooFReadNdx_eq (hs : 0 < s) :
    wooFReadNdx wf s =
      .ok (if W.earliest ≤ s ∧ s < W.next
        then some (Ring.place W.cap wf.head W.held.length (s - W.earliest)) else none) := by
  have hne : s ≠ 0 := by omega
  have hsize : 0 < wf.historySize := by rw [h.cap]; exact W.cap_pos
  have hnext := h.next_lt
  have hyoung : Word.sub wf.seqNo 1 = W.next - 1 := h.wooFLatestSeqno_eq
  simp only [wooFReadNdx, hne, false_and, if_false, h.wooFGetEarliest_eq, hyoung, Exec.pure_eq,
    remU_of_pos hsize, Exec.ok_bind]
  by_cases hin : W.earliest ≤ s ∧ s < W.next
  · rw [if_neg (by omega), if_pos hin, Word.sub_of_le hin.1 (by omega),
      h.forward_eq_place (W.sub_earliest_lt hin.1 hin.2)]
  · rw [if_pos (by omega), if_neg hin]

theorem WooF.Shows.wooFReadNdx_zero :
    wooFReadNdx wf 0 = if W.held = [] then .ok none else wooFReadNdx wf W.latest := by
  have hpos := W.numbered
  have hyoung : Word.sub wf.seqNo 1 = W.latest := h.wooFLatestSeqno_eq
  by_cases hnil : W.held = []
  · have hlen : W.held.length = 0 := by simp [hnil]
    have hold : W.latest < W.earliest := by
      simp only [Window.latest, Window.earliest]
      omega
    simp [wooFReadNdx, h.wooFGetEarliest_eq, hyoung, hnil, hold]
  · have hlen : 0 < W.held.length := List.length_pos_iff.mpr hnil
    have hlatest : W.latest ≠ 0 := by
      simp only [Window.latest]
      omega
    have hseq : ¬ wf.seqNo ≤ 1 := by
      rw [h.next]
      omega
    simp [wooFReadNdx, hyoung, hnil, hlatest, hseq]

theorem WooF.Shows.reads : wf.Reads W :=
  ⟨h.slots, fun _ hs => h.wooFReadNdx_eq hs, h.wooFReadNdx_zero⟩

end

theorem WooF.release_mutex (hmutex : wf.mutex = 1) : { wf with mutex := semV 0 } = wf := by
  have hone : semV 0 = 1 := by decide
  rw [hone, ← hmutex]

theorem WooF.wooFReadNdx_mutex (wf : WooF) (mutex : Int) (s : Nat) :
    wooFReadNdx { wf with mutex := mutex } s = wooFReadNdx wf s := rfl

theorem WooF.Reads.wooFReadWithCause_eq (h : wf.Reads W) (hmutex : wf.mutex = 1) (hs : 0 < s) :
    wooFReadWithCause wf s = .ok (W.read s, wf) := by
  simp only [wooFReadWithCause, hmutex, semP_of_pos Int.one_pos, Int.sub_self, Exec.ok_bind,
    WooF.wooFReadNdx_mutex, h.ndx s hs]
  by_cases hin : W.earliest ≤ s ∧ s < W.next
  · obtain ⟨e, hentry, hread⟩ := W.exists_read hin.1 hin.2
    simp [if_pos hin, WooF.release_mutex hmutex, h.slots _ _ hentry, hread]
  · simp [if_neg hin, WooF.release_mutex hmutex, W.read_eq_none hin]

theorem WooF.Reads.wooFReadWithCause_zero (h : wf.Reads W) (hmutex : wf.mutex = 1) :
    wooFReadWithCause wf 0 = .ok (W.readLatest, wf) := by
  have hzero := h.ndx_zero
  by_cases hnil : W.held = []
  · rw [if_pos hnil] at hzero
    simp [wooFReadWithCause, hmutex, WooF.wooFReadNdx_mutex, hzero,
      WooF.release_mutex hmutex, Window.readLatest, hnil]
  · rw [if_neg hnil] at hzero
    have hsame : wooFReadWithCause wf 0 = wooFReadWithCause wf W.latest := by
      simp [wooFReadWithCause, hmutex, WooF.wooFReadNdx_mutex, hzero]
    rw [hsame, h.wooFReadWithCause_eq hmutex (W.latest_pos hnil), W.read_latest hnil]

theorem WooF.Reads.ndx_lt (h : wf.Reads W) {ndx : Nat} (hread : wooFReadNdx wf s = .ok (some ndx)) :
    ndx < W.cap := by
  have hnonzero : ∀ t, 0 < t → wooFReadNdx wf t = .ok (some ndx) → ndx < W.cap := by
    intro t ht hread
    rw [h.ndx t ht] at hread
    split at hread
    · simp only [Except.ok.injEq, Option.some.injEq] at hread
      exact hread ▸ Ring.place_lt W.cap_pos _ _ _
    · simp at hread
  rcases Nat.eq_zero_or_pos s with rfl | hs
  · rw [h.ndx_zero] at hread
    split at hread
    · simp at hread
    · rename_i hne
      exact hnonzero _ (W.latest_pos hne) hread
  · exact hnonzero s hs hread

end Read

/-! ## Appending -/

/-- No call is in progress, an append would not wait, and the record has slots. -/
structure WooF.Unlocked (wf : WooF) : Prop where
  mutex : wf.mutex = 1
  wait_pos : 0 < wf.tailWait
  wait_le : wf.tailWait ≤ intMax
  size_pos : 0 < wf.historySize

/-- The record after an append that moved the tail to `tail`, without its passage
through the semaphores. -/
def WooF.pushed (wf : WooF) (element : Bytes) (tail : Nat) : WooF :=
  let next := Word.add wf.head 1 % wf.historySize
  { wf with
    slots := Function.update wf.slots next ⟨element, wf.seqNo⟩
    head := next
    tail := tail
    seqNo := Word.add wf.seqNo 1 }

def WooF.wrappedTail (wf : WooF) : Nat :=
  let next := Word.add wf.head 1 % wf.historySize
  if next = 0 ∧ wf.tail = Word.allOnes then 1 % wf.historySize
  else if next = wf.tail then Word.add wf.tail 1 % wf.historySize
  else wf.tail

/-- What is known of the record once an element has been placed. -/
structure WooF.Placed (wf : WooF) (element : Bytes) (wf' : WooF) : Prop where
  fits : wf.elementSize ≤ element.length
  seqNo : wf'.seqNo = Word.add wf.seqNo 1
  elementSize : wf'.elementSize = wf.elementSize
  slot : wf'.slots wf'.head = ⟨element.take wf.elementSize, wf.seqNo⟩

theorem WooF.Placed.seqNo_ne {wf wf' : WooF} {element : Bytes} (h : wf.Placed element wf') :
    wf'.seqNo ≠ wf.seqNo := by
  intro hsame
  have hseq := h.seqNo
  unfold Word.add Word.modulus at hseq
  omega

section Append

variable {wf : WooF} {W : Window Bytes} {g : Globals} {element : Bytes}
  {advance : WooF → Nat → Exec Nat}

theorem WooF.Unlocked.pushed (h : wf.Unlocked) (element : Bytes) (tail : Nat) :
    (wf.pushed element tail).Unlocked := ⟨h.mutex, h.wait_pos, h.wait_le, h.size_pos⟩

theorem WooF.pushed_elements (wf : WooF) (element : Bytes) (tail : Nat) :
    (fun i => ((wf.pushed element tail).slots i).element) =
      Function.update (fun i => (wf.slots i).element)
        (Word.add wf.head 1 % wf.historySize) element := by
  funext i
  by_cases hi : i = Word.add wf.head 1 % wf.historySize <;> simp [WooF.pushed, hi]

theorem advanceTailWrapping_ok (h : 0 < wf.historySize) :
    advanceTailWrapping wf (Word.add wf.head 1 % wf.historySize) = .ok wf.wrappedTail := by
  simp only [advanceTailWrapping, advanceTail, remU_of_pos h, WooF.wrappedTail, Exec.pure_eq]
  split <;> [rfl; split <;> rfl]

theorem wooFPlaceElement_ok {tail : Nat} (h : wf.Unlocked) (helem : element.length = wf.elementSize)
    (htail : advance wf (Word.add wf.head 1 % wf.historySize) = .ok tail) :
    wooFPlaceElement advance wf element =
      .ok (Word.add wf.head 1 % wf.historySize,
        { wf.pushed element tail with tailWait := wf.tailWait - 1 }) := by
  have hmutex : semV 0 = 1 := by decide
  simp [wooFPlaceElement, semP_of_pos h.wait_pos, h.mutex, wooFAppendNdx,
    remU_of_pos h.size_pos, memcpy_of_length helem, htail, hmutex, WooF.pushed]

theorem WooF.Unlocked.releasePlace_pushed (h : wf.Unlocked) (element : Bytes) (tail : Nat) :
    WooF.releasePlace { wf.pushed element tail with tailWait := wf.tailWait - 1 } =
      wf.pushed element tail := by
  simp [WooF.releasePlace, WooF.pushed, semV_sub_one h.wait_le]

theorem wooFAppendWithCause_none (h : wf.Unlocked) (helem : element.length = wf.elementSize)
    (causeHost causeSeqNo : Nat) :
    wooFAppendWithCause g wf none element causeHost causeSeqNo =
      .ok (wf.seqNo, g, wf.pushed element wf.wrappedTail) := by
  have hplace := wooFPlaceElement_ok h helem (advanceTailWrapping_ok h.size_pos)
  simp [wooFAppendWithCause, hplace, h.releasePlace_pushed]

/-- An append pushes the element and returns the number it had before.  A trigger is
logged for a handler, and the counting semaphore is posted in both cases. -/
theorem wooFAppendWithCause_ok {n : Nat} (h : wf.Unlocked)
    (helem : element.length = wf.elementSize) (hlog : g.nameLog.Accepts (n + 1))
    (handName : Option Bytes) (causeHost causeSeqNo : Nat) :
    ∃ g', wooFAppendWithCause g wf handName element causeHost causeSeqNo =
      .ok (wf.seqNo, g', wf.pushed element wf.wrappedTail) ∧ g'.nameLog.Accepts n := by
  cases handName with
  | none => exact ⟨g, wooFAppendWithCause_none h helem _ _, hlog.mono (by omega)⟩
  | some handler =>
    obtain ⟨log', hlog', haccepts⟩ := logEvent_ok (triggerEvent g
      { wf.pushed element wf.wrappedTail with tailWait := wf.tailWait - 1 } handler
      (Word.add wf.head 1 % wf.historySize) wf.seqNo causeHost causeSeqNo) hlog
    have hls : g.nameLog.seqNo ≠ 0 := by have := hlog.seqNo_pos; omega
    have hplace := wooFPlaceElement_ok h helem (advanceTailWrapping_ok h.size_pos)
    refine ⟨g.wakeForker log', ?_, haccepts.1, haccepts.2, haccepts.3, haccepts.4⟩
    simp [wooFAppendWithCause, hplace, hlog', if_neg hls, h.releasePlace_pushed]

theorem wooFPlaceElement_placed {wf' : WooF} {ndx : Nat}
    (h : wooFPlaceElement advance wf element = .ok (ndx, wf')) : wf.Placed element wf' := by
  obtain ⟨tailWait, -, h⟩ := Exec.bind_eq_ok.1 h
  obtain ⟨mutex, -, h⟩ := Exec.bind_eq_ok.1 h
  obtain ⟨next, -, h⟩ := Exec.bind_eq_ok.1 h
  obtain ⟨copied, hcopied, h⟩ := Exec.bind_eq_ok.1 h
  obtain ⟨tail, -, h⟩ := Exec.bind_eq_ok.1 h
  unfold memcpy at hcopied
  split at hcopied
  · rename_i hfits
    cases hcopied
    cases h
    exact ⟨hfits, rfl, rfl, Function.update_self _ _ _⟩
  · cases hcopied

section

variable {g' : Globals} {wf' : WooF} {handName : Option Bytes} {causeHost causeSeqNo n : Nat}
  (h : wooFAppendWithCause g wf handName element causeHost causeSeqNo = .ok (n, g', wf'))
include h

theorem wooFAppendWithCause_eq_ok :
    n = wf.seqNo ∧ ∃ ndx placed, wooFPlaceElement advanceTailWrapping wf element =
      .ok (ndx, placed) ∧ wf' = placed.releasePlace := by
  obtain ⟨⟨ndx, placed⟩, hplaced, h⟩ := Exec.bind_eq_ok.1 h
  cases handName with
  | none =>
    cases h
    exact ⟨rfl, ndx, placed, hplaced, rfl⟩
  | some handler =>
    obtain ⟨⟨ls, nameLog⟩, -, h⟩ := Exec.bind_eq_ok.1 h
    by_cases hls : ls = 0
    · simp [hls] at h
    · simp only [hls, if_false] at h
      cases h
      exact ⟨rfl, ndx, placed, hplaced, rfl⟩

theorem wooFAppendWithCause_placed : n = wf.seqNo ∧ wf.Placed element wf' := by
  obtain ⟨hn, ndx, placed, hplaced, rfl⟩ := wooFAppendWithCause_eq_ok h
  have hp := wooFPlaceElement_placed hplaced
  exact ⟨hn, hp.1, hp.2, hp.3, hp.4⟩

end

theorem wooFAppendWithCause_blocked (h : wf.tailWait ≤ 0) (handName : Option Bytes)
    (causeHost causeSeqNo : Nat) :
    wooFAppendWithCause g wf handName element causeHost causeSeqNo = .error .blocked := by
  simp [wooFAppendWithCause, wooFPlaceElement, semP_of_nonpos h]

theorem WooF.Shows.next_eq (h : wf.Shows W) :
    Word.add wf.head 1 % wf.historySize = Ring.next W.cap wf.head := by
  have hhead := h.head_lt
  have hcap := h.cap_lt
  have hlimit : historyLimit < Word.modulus := by decide
  rw [Word.add_of_lt (by omega), h.cap, Ring.next]

theorem WooF.Shows.wrappedTail_eq (h : wf.Shows W) :
    wf.wrappedTail =
      if W.held.length + 1 < W.cap then Word.allOnes
      else Ring.next W.cap (Ring.next W.cap wf.head) := by
  have hlimit : historyLimit + 1 < Word.modulus := by decide
  have hcap := h.cap_lt
  have hnext := Ring.next_lt W.cap_pos wf.head
  simp only [WooF.wrappedTail, h.next_eq]
  rcases Nat.lt_or_eq_of_le W.fits with hlt | hfull
  · have htail : wf.tail = Word.allOnes := by rw [h.tail, if_pos hlt]
    have hne : Ring.next W.cap wf.head ≠ Word.allOnes := by
      simp only [Word.allOnes]
      omega
    rw [htail]
    by_cases hroom : W.held.length + 1 < W.cap
    · -- the slot written is not slot zero, so nothing wraps
      have hval : Ring.next W.cap wf.head = W.held.length + 1 := by
        rw [Ring.next, h.head_unwrapped hlt, Nat.mod_eq_of_lt hroom]
      rw [if_neg (by omega), if_neg hne, if_pos hroom]
    · -- the last free slot is slot zero
      have hval : Ring.next W.cap wf.head = 0 := by
        have hsum : W.held.length + 1 = W.cap := by omega
        rw [Ring.next, h.head_unwrapped hlt, hsum, Nat.mod_self]
      rw [hval, if_pos ⟨rfl, rfl⟩, if_neg hroom, h.cap, Ring.next]
  · have hne := h.tail_ne_of_full hfull
    have htail : wf.tail = Ring.next W.cap wf.head := by rw [h.tail, if_neg (by omega)]
    rw [if_neg (by simp [hne]), if_pos htail.symm, if_neg (by omega), htail, h.cap,
      Word.add_of_lt (by omega)]
    rfl

theorem WooF.Shows.pushed (h : wf.Shows W) (hnext : W.next + 1 < Word.modulus) (element : Bytes) :
    (wf.pushed element wf.wrappedTail).Shows (W.append element) := by
  have hlen := W.append_held_length element
  refine ⟨h.cap, h.cap_lt, ?_, hnext, ?_, ?_, ?_, ?_⟩
  · simp [WooF.pushed, h.next, Word.add_of_lt hnext]
  · simpa [WooF.pushed, h.next_eq] using Ring.next_lt W.cap_pos wf.head
  · intro hlt
    rw [Window.append_cap] at hlt
    have hroom : W.held.length + 1 < W.cap := by omega
    change Word.add wf.head 1 % wf.historySize = _
    rw [h.next_eq, Ring.next, h.head_unwrapped (by omega), Nat.mod_eq_of_lt hroom, hlen]
    omega
  · simp only [WooF.pushed, h.wrappedTail_eq, Window.append_cap, h.next_eq, hlen]
    congr 1
    simp only [eq_iff_iff]
    omega
  · have hhead : (wf.pushed element wf.wrappedTail).head = Ring.next W.cap wf.head := h.next_eq
    rw [WooF.pushed_elements, h.next_eq, hhead, Window.append_cap]
    rcases Nat.lt_or_eq_of_le W.fits with hlt | hfull
    · rw [W.append_held_of_lt element hlt]
      exact h.slots.push_of_lt hlt element
    · rw [W.append_held_of_full element hfull]
      exact h.slots.push_full hfull W.cap_pos element

end Append

end Cspot
