import Cspot.Woof.Refinement

/-!
# Reading a woof at rest

With no call in progress a read is a function of the record.  What a range request has to
give is the longest run of numbers that can be read.
-/

namespace Cspot

/-- No call is in progress, there is a slot, and the mapped size was computed without a
wrap. -/
structure WooF.AtRest (wf : WooF) : Prop where
  mutex : wf.mutex = 1
  size_pos : 0 < wf.historySize
  mapped : wooFSpace wf.elementSize wf.historySize < Word.modulus
  length_element : ∀ ndx, (wf.slots ndx).element.length = wf.elementSize

def WooF.elementAt (wf : WooF) (seqNo : Nat) : Option Bytes :=
  match wooFReadNdx wf seqNo with
  | .ok (some ndx) => some (wf.slots ndx).element
  | _ => none

theorem exists_wooFReadNdx {wf : WooF} (h : 0 < wf.historySize) (seqNo : Nat) :
    ∃ ndx, wooFReadNdx wf seqNo = .ok ndx := by
  simp only [wooFReadNdx, remU_of_pos h]
  by_cases hzero : seqNo = 0 ∧ wf.seqNo ≤ 1
  · exact ⟨none, by rw [if_pos hzero]; rfl⟩
  rw [if_neg hzero]
  generalize (if seqNo = 0 then Word.sub wf.seqNo 1 else seqNo) = lSeqNo
  by_cases hout : lSeqNo < wooFGetEarliest wf ∨ lSeqNo > Word.sub wf.seqNo 1
  · exact ⟨none, by rw [if_pos hout]; rfl⟩
  · rw [if_neg hout]
    exact ⟨_, rfl⟩

namespace WooF.AtRest

variable {wf : WooF}

theorem elementSize_lt (h : wf.AtRest) : wf.elementSize < 2 ^ 63 := by
  have hspace := h.mapped
  have hmul : 2 * (wf.elementSize + sizeofElid) ≤
      (wf.historySize + 1) * (wf.elementSize + sizeofElid) :=
    Nat.mul_le_mul_right _ (by have := h.size_pos; omega)
  unfold wooFSpace Word.modulus at hspace
  omega

theorem wooFReadWithCause_eq (h : wf.AtRest) (seqNo : Nat) :
    wooFReadWithCause wf seqNo = .ok (wf.elementAt seqNo, wf) := by
  obtain ⟨ndx, hndx⟩ := exists_wooFReadNdx h.size_pos seqNo
  simp only [wooFReadWithCause, h.mutex, semP_of_pos Int.one_pos, Int.sub_self, Exec.ok_bind,
    WooF.wooFReadNdx_mutex, hndx, elementAt]
  cases ndx <;> simp [WooF.release_mutex h.mutex]

theorem length_of_elementAt (h : wf.AtRest) {seqNo : Nat} {element : Bytes}
    (hread : wf.elementAt seqNo = some element) : element.length = wf.elementSize := by
  unfold elementAt at hread
  split at hread
  · cases hread
    exact h.length_element _
  · cases hread

end WooF.AtRest

/-! ## Runs -/

/-- The entries from `first` on, as many as there are of `count`. -/
structure IsRun {α : Type} (read : Nat → Option α) (first count : Nat) (run : List α) :
    Prop where
  length_le : run.length ≤ count
  getElem? : ∀ i, i < run.length → read (first + i) = run[i]?
  maximal : run.length < count → read (first + run.length) = none

namespace IsRun

variable {α : Type} {read : Nat → Option α} {first count : Nat} {run : List α}

theorem take (h : IsRun read first count run) {k : Nat} (hk : k ≤ count) :
    IsRun read first k (run.take k) := by
  refine ⟨List.length_take_le _ _, ?_, ?_⟩
  · intro i hi
    rw [List.length_take] at hi
    rw [h.getElem? i (by omega), List.getElem?_take_of_lt (by omega)]
  · intro hlt
    rw [List.length_take] at hlt ⊢
    rw [Nat.min_eq_right (by omega)]
    exact h.maximal (by omega)

theorem eq_nil (h : IsRun read first 0 run) : run = [] :=
  List.eq_nil_of_length_eq_zero (Nat.le_zero.1 h.length_le)

theorem succ_cases (h : IsRun read first (count + 1) run) :
    run = [] ∧ read first = none ∨
      ∃ x rest, run = x :: rest ∧ read first = some x ∧ IsRun read (first + 1) count rest := by
  cases run with
  | nil => exact Or.inl ⟨rfl, h.maximal (Nat.succ_pos _)⟩
  | cons x rest =>
    have hlen := h.length_le
    rw [List.length_cons] at hlen
    refine Or.inr ⟨x, rest, rfl, h.getElem? 0 (Nat.succ_pos _), by omega, ?_, ?_⟩
    · intro i hi
      rw [Nat.add_assoc, Nat.add_comm 1, h.getElem? (i + 1) (by simpa using hi),
        List.getElem?_cons_succ]
    · intro hlt
      rw [Nat.add_assoc, Nat.add_comm 1]
      exact h.maximal (by simpa using hlt)

theorem mem (h : IsRun read first count run) {x : α} (hx : x ∈ run) :
    ∃ n, read n = some x := by
  obtain ⟨i, hi, rfl⟩ := List.getElem_of_mem hx
  exact ⟨first + i, by rw [h.getElem? i hi, List.getElem?_eq_getElem hi]⟩

end IsRun

end Cspot
