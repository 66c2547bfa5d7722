import Cspot.Lib.RingLog
import Cspot.Woof.Truncate

/-!
# A WooF keeps a numbered log

Handlers that read entries by number, append to the end and cut the end off see a WooF as a
`RingLog`, whatever its elements encode.  Here the operations on the shared record are those of
the log.  Unlike a window the log covers a WooF that has been emptied: its tail is zero, and most
of what is appended next cannot be read back until the ring is full.
-/

namespace Cspot

variable {α : Type*} {decode : Bytes → α}

/-- The record holds the log, one entry an element.  Before the first round is over the head
counts the entries. -/
structure WooF.Keeps (wf : WooF) (decode : Bytes → α) (r : RingLog α) : Prop where
  size : wf.historySize = r.size
  size_lt : r.size < historyLimit
  slots : (fun i => decode (wf.slots i).element) = r.slots
  head : wf.head = r.head
  head_lt : r.head < r.size
  head_unwrapped : r.tail = none → r.head = r.latest
  tail : wf.tail = r.tail.getD Word.allOnes
  tail_lt : ∀ t, r.tail = some t → t < r.size
  seqNo : wf.seqNo = r.latest + 1
  seqNo_lt : r.latest + 1 < Word.modulus

theorem wooFCreate_keeps {h : Nat} (hh : 0 < h) (hcap : h < historyLimit) (name : Bytes)
    (es ino : Nat) (decode : Bytes → α) :
    (wooFCreate name es h ino).Keeps decode
      (RingLog.empty h (decode (List.replicate es 0)) hh) where
  size := rfl
  size_lt := hcap
  slots := rfl
  head := rfl
  head_lt := hh
  head_unwrapped _ := rfl
  tail := rfl
  tail_lt := by
    intro t ht
    cases ht
  seqNo := rfl
  seqNo_lt := show 1 < Word.modulus by decide

namespace WooF.Keeps

variable {wf : WooF} {r : RingLog α} {s t : Nat}

section

variable (h : wf.Keeps decode r)
include h

theorem four_mul_size_lt : 4 * r.size < Word.modulus := by
  have hsize := h.size_lt
  unfold historyLimit at hsize
  unfold Word.modulus
  omega

theorem wooFLatestSeqno_eq : wooFLatestSeqno wf = r.latest := by
  have hlt := h.seqNo_lt
  rw [wooFLatestSeqno, h.seqNo, Word.sub_of_le (by omega) (by omega), Nat.add_sub_cancel]

theorem tail_of_none (htail : r.tail = none) : wf.tail = Word.allOnes := by
  rw [h.tail, htail, Option.getD_none]

theorem tail_of_some (htail : r.tail = some t) : wf.tail = t ∧ t < r.size ∧ t ≠ Word.allOnes := by
  have ht := h.tail_lt t htail
  have hbound := h.four_mul_size_lt
  refine ⟨by rw [h.tail, htail, Option.getD_some], ht, ?_⟩
  unfold Word.allOnes
  omega

/-! ## Reading -/

theorem wooFGetEarliest_of_none (htail : r.tail = none) : wooFGetEarliest wf = 1 := by
  have hlatest := h.wooFLatestSeqno_eq
  have hlt := h.seqNo_lt
  unfold wooFLatestSeqno at hlatest
  have hnone : Word.sub r.latest r.latest = 0 := by
    rw [Word.sub_of_le (Nat.le_refl _) (by omega), Nat.sub_self]
  simp only [wooFGetEarliest, hlatest, h.head, h.head_unwrapped htail, h.tail_of_none htail,
    ne_eq, not_true, if_false, hnone]
  rfl

/-- In a log shorter than the ring the oldest number comes out above all numbers of the log. -/
theorem wooFGetEarliest_of_some (htail : r.tail = some t) :
    wooFGetEarliest wf =
      if r.latest + 1 < r.size then r.latest + 1 + Word.modulus - r.size
      else r.latest + 1 - r.size := by
  have hlatest := h.wooFLatestSeqno_eq
  have hlt := h.seqNo_lt
  have hbound := h.four_mul_size_lt
  obtain ⟨hvalue, -, hne⟩ := h.tail_of_some htail
  unfold wooFLatestSeqno at hlatest
  simp only [wooFGetEarliest, hlatest, hvalue, hne, ne_eq, not_false_eq_true, if_true, h.size]
  split
  · have hwrap : r.latest + (Word.modulus - r.size) + 1 = r.latest + 1 + Word.modulus - r.size := by
      omega
    rw [Word.add, Word.sub, Nat.mod_eq_of_lt (by omega : r.size < Word.modulus), Nat.mod_add_mod,
      hwrap, Nat.mod_eq_of_lt (by omega)]
  · exact Word.add_sub_of_le (by omega) (by omega) (by omega)

theorem wooFReadNdx_eq (s : Nat) :
    wooFReadNdx wf s = .ok (r.ndx (if s = 0 then r.latest else s)) := by
  have hlatest := h.wooFLatestSeqno_eq
  have hlt := h.seqNo_lt
  have hbound := h.four_mul_size_lt
  have hhead := h.head_lt
  unfold wooFLatestSeqno at hlatest
  by_cases hend : s = 0 ∧ r.latest = 0
  · have hempty : s = 0 ∧ wf.seqNo ≤ 1 := by rw [h.seqNo]; omega
    simp only [wooFReadNdx, if_pos hempty, Exec.pure_eq, RingLog.ndx, if_pos hend.1]
    rw [if_pos (.inl hend.2)]
  have hsome : ¬ (s = 0 ∧ wf.seqNo ≤ 1) := by rw [h.seqNo]; omega
  simp only [wooFReadNdx, if_neg hsome, hlatest, h.size, remU_of_pos r.size_pos]
  generalize hn : (if s = 0 then r.latest else s) = n
  have hpos : 0 < n := by
    subst hn
    split <;> omega
  unfold RingLog.ndx
  by_cases hout : r.latest < n
  · rw [if_pos (.inr hout), if_pos (.inr hout)]
    rfl
  rw [if_neg (by omega : ¬ (n = 0 ∨ r.latest < n))]
  cases htail : r.tail with
  | none =>
    have hfull := h.head_unwrapped htail
    have hcell : Word.add (Word.add 1 r.size) (Word.sub n 1) =
        1 + r.size + (n + r.head - (r.latest + 1)) := by
      rw [Word.sub_of_le hpos (by omega), Word.add_of_lt (by omega : 1 + r.size < Word.modulus),
        Word.add_of_lt (by omega)]
      omega
    rw [h.wooFGetEarliest_of_none htail, if_neg (by omega), h.tail_of_none htail, if_pos rfl, hcell]
    dsimp only
    rw [if_neg (by omega)]
    rfl
  | some t =>
    obtain ⟨hvalue, ht, hne⟩ := h.tail_of_some htail
    rw [h.wooFGetEarliest_of_some htail, hvalue, if_neg hne]
    dsimp only
    by_cases hshort : r.latest + 1 < r.size
    · rw [if_pos hshort, if_pos (by omega), if_pos (.inl hshort)]
      rfl
    rw [if_neg hshort]
    by_cases hgone : n + r.size ≤ r.latest
    · rw [if_pos (by omega), if_pos (.inr hgone)]
      rfl
    · have hcell : Word.add t (Word.sub n (r.latest + 1 - r.size)) =
          t + (n + r.size - (r.latest + 1)) := by
        rw [Word.sub_of_le (by omega) (by omega), Word.add_of_lt (by omega)]
        omega
      rw [if_neg (by omega), if_neg (by omega), hcell]
      rfl

/-- A read gives the bytes of the entry the log has under the number. -/
theorem wooFReadWithCause_eq (hmutex : wf.mutex = 1) (s : Nat) :
    ∃ found, wooFReadWithCause wf s = .ok (found, wf) ∧ found.map decode = r.get s := by
  have hndx := h.wooFReadNdx_eq s
  have hmutex' : semP wf.mutex = .ok 0 := by rw [hmutex, semP_of_pos (by decide)]; rfl
  refine ⟨(r.ndx (if s = 0 then r.latest else s)).map fun i => (wf.slots i).element, ?_, ?_⟩
  · simp only [wooFReadWithCause, hmutex', Exec.ok_bind, WooF.wooFReadNdx_mutex, hndx]
    cases r.ndx (if s = 0 then r.latest else s) <;>
      simp only [Option.map_none, Option.map_some, Exec.pure_eq, WooF.release_mutex hmutex]
  · rw [RingLog.get, RingLog.read, ← h.slots, Option.map_map]
    rfl

/-! ## Appending -/

theorem pushed (hroom : r.latest + 2 < Word.modulus) (element : Bytes) :
    (wf.pushed element wf.wrappedTail).Keeps decode (r.append (decode element)) := by
  have hbound := h.four_mul_size_lt
  have hhead := h.head_lt
  have hnext : Word.add wf.head 1 % wf.historySize = Ring.next r.size r.head := by
    rw [h.head, h.size, Word.add_of_lt (by omega), Ring.next]
  have hnext_lt := Ring.next_lt r.size_pos r.head
  refine ⟨h.size, h.size_lt, ?_, hnext, hnext_lt, ?_, ?_, ?_, ?_, hroom⟩
  · funext i
    have hslot := congrArg decode (congrFun (wf.pushed_elements element wf.wrappedTail) i)
    rw [hslot, hnext]
    simp only [RingLog.append, Function.update_apply, ← h.slots]
    split <;> rfl
  · intro htail
    cases hold : r.tail with
    | none =>
      by_cases hzero : Ring.next r.size r.head = 0
      · simp [RingLog.append, hold, hzero] at htail
      · have hroom' : r.head + 1 < r.size := by
          by_contra hlast
          have hlast : r.head + 1 = r.size := by omega
          exact hzero (by rw [Ring.next, hlast, Nat.mod_self])
        show Ring.next r.size r.head = r.latest + 1
        rw [Ring.next, Nat.mod_eq_of_lt hroom', h.head_unwrapped hold]
    | some t => simp [RingLog.append, hold] at htail
  · show wf.wrappedTail = (r.append (decode element)).tail.getD Word.allOnes
    simp only [WooF.wrappedTail, hnext, RingLog.append]
    cases hold : r.tail with
    | none =>
      have hne : Ring.next r.size r.head ≠ Word.allOnes := by
        unfold Word.allOnes
        omega
      simp only [h.tail_of_none hold, and_true, if_neg hne, h.size]
      split <;> rfl
    | some t =>
      obtain ⟨hvalue, ht, hne⟩ := h.tail_of_some hold
      simp only [hvalue, hne, and_false, if_false, Option.getD_some, h.size]
      rw [Word.add_of_lt (by omega), Ring.next]
      rfl
  · intro t ht
    simp only [RingLog.append] at ht ⊢
    split at ht
    · split at ht
      · exact Option.some.inj ht ▸ Nat.mod_lt _ r.size_pos
      · cases ht
    · rename_i old hold
      obtain rfl := Option.some.inj ht
      split
      · exact Ring.next_lt r.size_pos old
      · exact h.tail_lt old hold
  · simp only [WooF.pushed, h.seqNo, RingLog.latest_append]
    exact Word.add_of_lt (by omega)

/-! ## Cutting back -/

theorem lowest_eq : Word.add wf.tail 1 % wf.historySize = r.lowest := by
  have hbound := h.four_mul_size_lt
  unfold RingLog.lowest
  cases htail : r.tail with
  | none => rw [h.tail_of_none htail, Word.add_allOnes_one, Nat.zero_mod]
  | some t =>
    obtain ⟨hvalue, ht, -⟩ := h.tail_of_some htail
    rw [hvalue, h.size, Word.add_of_lt (by omega)]
    rfl

theorem cutAt_head (hle : s ≤ r.latest) :
    (wf.cutAt s).head = Word.sub (r.head + r.size) (r.latest - s) % r.size := by
  have hbound := h.four_mul_size_lt
  have hhead := h.head_lt
  have hlt := h.seqNo_lt
  simp only [WooF.cutAt, h.wooFLatestSeqno_eq, h.head, h.size]
  rw [Word.add_of_lt (by omega), Word.sub_of_le hle (by omega)]

/-- A cut at a number of the log, or at zero, is the cut of the log, refused where that is. -/
theorem wooFTruncate_keeps (hopen : wf.Unlocked) (hle : s ≤ r.latest) :
    match r.truncate s with
    | none => wooFTruncate wf s = .ok (-1, wf)
    | some r' => ∃ wf', wooFTruncate wf s = .ok (1, wf') ∧ wf'.Unlocked ∧
        wf'.elementSize = wf.elementSize ∧ wf'.Keeps decode r' := by
  have hlt := h.seqNo_lt
  have hlowest := h.lowest_eq
  unfold RingLog.truncate
  by_cases hzero : s = 0
  · subst hzero
    refine ⟨_, wooFTruncate_zero hopen,
      ⟨hopen.mutex, hopen.wait_pos, hopen.wait_le, hopen.size_pos⟩, rfl, h.size, h.size_lt,
      h.slots, rfl, r.size_pos, ?_, rfl, ?_, rfl, show 1 < Word.modulus by decide⟩
    · intro htail
      cases htail
    · intro t ht
      exact Option.some.inj ht ▸ r.size_pos
  rw [if_neg hzero]
  by_cases hlow : s < r.lowest
  · rw [if_pos hlow]
    exact wooFTruncate_refused hopen hzero (hlowest ▸ hlow)
  · rw [if_neg hlow]
    refine ⟨_, wooFTruncate_cut hopen hzero (hlowest ▸ hlow), hopen.cutAt s, rfl, h.size,
      h.size_lt, h.slots, h.cutAt_head hle, Nat.mod_lt _ r.size_pos, ?_, h.tail, h.tail_lt, ?_, ?_⟩
    · intro htail
      have hfull := h.head_unwrapped htail
      have hhead := h.head_lt
      have hbound := h.four_mul_size_lt
      have hkept : r.head + r.size - (r.latest - s) = s + r.size := by omega
      dsimp only
      rw [Word.sub_of_le (by omega) (by omega), hkept, Nat.add_mod_right,
        Nat.mod_eq_of_lt (by omega)]
    · exact Word.add_of_lt (by omega)
    · show s + 1 < Word.modulus
      omega

end

end WooF.Keeps

/-! ## Histories -/

/-- What a handler does to a woof it keeps a log in. -/
inductive LogCall
  | append (element : Bytes)
  | truncate (seqNo : Nat)
deriving Repr, DecidableEq

namespace LogCall

def run (g : Globals) (wf : WooF) : LogCall → Exec WooF
  | append element => do
    let (_, _, wf) ← wooFAppendWithCause g wf none element 0 0
    return wf
  | truncate seqNo => do
    let (_, wf) ← wooFTruncate wf seqNo
    return wf

def apply (decode : Bytes → α) (r : RingLog α) : LogCall → RingLog α
  | append element => r.append (decode element)
  | truncate seqNo => (r.truncate seqNo).getD r

/-- Elements have the size of the woof, the numbers do not wrap, and cuts are within the log. -/
def Fits (elementSize : Nat) (r : RingLog α) : LogCall → Prop
  | append element => element.length = elementSize ∧ r.latest + 2 < Word.modulus
  | truncate seqNo => seqNo ≤ r.latest

def AllFit (elementSize : Nat) (decode : Bytes → α) : RingLog α → List LogCall → Prop
  | _, [] => True
  | r, call :: calls =>
    call.Fits elementSize r ∧ AllFit elementSize decode (call.apply decode r) calls

end LogCall

theorem WooF.Keeps.run {wf : WooF} {r : RingLog α} (h : wf.Keeps decode r) (hopen : wf.Unlocked)
    (g : Globals) {call : LogCall} (hfits : call.Fits wf.elementSize r) :
    ∃ wf', call.run g wf = .ok wf' ∧ wf'.Unlocked ∧ wf'.elementSize = wf.elementSize ∧
      wf'.Keeps decode (call.apply decode r) := by
  cases call with
  | append element =>
    refine ⟨_, ?_, hopen.pushed element wf.wrappedTail, rfl, h.pushed hfits.2 element⟩
    rw [LogCall.run, wooFAppendWithCause_none hopen hfits.1]
    rfl
  | truncate seqNo =>
    have hcut := h.wooFTruncate_keeps hopen hfits
    rw [LogCall.apply]
    cases htruncate : r.truncate seqNo with
    | none =>
      rw [htruncate] at hcut
      exact ⟨wf, by rw [LogCall.run, hcut]; rfl, hopen, rfl, h⟩
    | some r' =>
      rw [htruncate] at hcut
      obtain ⟨wf', hcut, hopen', hsize, h'⟩ := hcut
      exact ⟨wf', by rw [LogCall.run, hcut]; rfl, hopen', hsize, h'⟩

/-- After any calls the record holds what the calls make of the log. -/
theorem WooF.Keeps.runAll {wf : WooF} {r : RingLog α} (h : wf.Keeps decode r)
    (hopen : wf.Unlocked) (g : Globals) {calls : List LogCall}
    (hfit : LogCall.AllFit wf.elementSize decode r calls) :
    ∃ wf', calls.foldlM (LogCall.run g) wf = .ok wf' ∧
      wf'.Keeps decode (calls.foldl (LogCall.apply decode) r) := by
  induction calls generalizing wf r with
  | nil => exact ⟨wf, rfl, h⟩
  | cons call calls ih =>
    obtain ⟨wf₁, hrun, hopen₁, hsize, h₁⟩ := h.run hopen g hfit.1
    obtain ⟨wf', hruns, h'⟩ := ih h₁ hopen₁ (hsize ▸ hfit.2)
    exact ⟨wf', by rw [List.foldlM_cons, hrun]; exact hruns, h'⟩

theorem wooFCreate_runAll {h : Nat} (hh : 0 < h) (hcap : h < historyLimit)
    (hpos : 0 < Word.toInt32 h) (name : Bytes) (es ino : Nat) (g : Globals) {calls : List LogCall}
    (hfit : LogCall.AllFit es decode (RingLog.empty h (decode (List.replicate es 0)) hh) calls) :
    ∃ wf, calls.foldlM (LogCall.run g) (wooFCreate name es h ino) = .ok wf ∧
      wf.Keeps decode (calls.foldl (LogCall.apply decode)
        (RingLog.empty h (decode (List.replicate es 0)) hh)) :=
  (wooFCreate_keeps hh hcap name es ino decode).runAll (wooFCreate_unlocked name es ino hpos hh) g
    hfit

end Cspot
