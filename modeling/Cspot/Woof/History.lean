import Cspot.Woof.Refinement

/-!
# Histories of appends

Runs of `WooFAppendWithCause` from a new, possibly renumbered WooF.  Every element
gets the next number, and it can be read under that number until as many later
elements as the WooF has slots have been appended.
-/

namespace Cspot

structure AppendCall where
  handName : Option Bytes
  element : Bytes
  causeHost : Nat
  causeSeqNo : Nat
deriving Repr, DecidableEq

def callAll {γ ρ : Type} (call : Globals → WooF → γ → Exec (ρ × Globals × WooF))
    (g : Globals) (wf : WooF) : List γ → Exec (List ρ × Globals × WooF)
  | [] => .ok ([], g, wf)
  | c :: calls => do
      let (s, g, wf) ← call g wf c
      let (ss, g, wf) ← callAll call g wf calls
      return (s :: ss, g, wf)

def AppendCall.withCause (g : Globals) (wf : WooF) (c : AppendCall) :
    Exec (Nat × Globals × WooF) :=
  wooFAppendWithCause g wf c.handName c.element c.causeHost c.causeSeqNo

def appendAll : Globals → WooF → List AppendCall → Exec (List Nat × Globals × WooF) :=
  callAll AppendCall.withCause

variable {g : Globals} {h n es : Nat}

/-- Run lemma: a history of appends is the same history of the window. -/
theorem appendAll_shows {wf : WooF} {W : Window Bytes} (calls : List AppendCall)
    (hshows : wf.Shows W) (hopen : wf.Unlocked)
    (helems : ∀ c ∈ calls, c.element.length = wf.elementSize)
    (hnext : W.next + calls.length < Word.modulus) (hlog : g.nameLog.Accepts calls.length) :
    ∃ g' wf', appendAll g wf calls = .ok (List.range' W.next calls.length, g', wf') ∧
      wf'.Shows (W.appendAll (calls.map AppendCall.element)) ∧ wf'.Unlocked ∧
      wf'.head = (wf.head + calls.length) % W.cap := by
  induction calls generalizing g wf W with
  | nil => exact ⟨g, wf, rfl, hshows, hopen, (Nat.mod_eq_of_lt hshows.head_lt).symm⟩
  | cons c calls ih =>
    simp only [List.length_cons] at hnext hlog
    obtain ⟨g₁, hstep, hlog₁⟩ := wooFAppendWithCause_ok hopen (helems c (by simp)) hlog
      c.handName c.causeHost c.causeSeqNo
    obtain ⟨g', wf', hrun, hshows', hopen', hhead⟩ :=
      ih (hshows.pushed (by omega) c.element) (hopen.pushed c.element wf.wrappedTail)
        (fun d hd => helems d (by simp [hd])) (by rw [Window.append_next]; omega) hlog₁
    refine ⟨g', wf', ?_, hshows', hopen', ?_⟩
    · unfold appendAll at hrun ⊢
      simp [callAll, AppendCall.withCause, hstep, hrun, hshows.next, List.range'_succ]
    · have hpushed : (wf.pushed c.element wf.wrappedTail).head = Ring.next W.cap wf.head :=
        hshows.next_eq
      rw [hhead, hpushed, Ring.next, Window.append_cap, Nat.mod_add_mod, List.length_cons]
      congr 1
      omega

/-! ## New WooFs -/

theorem wooFCreate_unlocked (name : Bytes) (es ino : Nat) (hpos : 0 < Word.toInt32 h)
    (hsize : 0 < h) : (wooFCreate name es h ino).Unlocked := by
  have hwait : (wooFCreate name es h ino).tailWait = Word.toInt32 h := by
    simp [wooFCreate, initSem, Int.not_lt.mpr (Int.le_of_lt hpos)]
  exact ⟨rfl, by rw [hwait]; exact hpos, by rw [hwait]; exact Word.toInt32_le h, hsize⟩

theorem wooFCreate_tailWait_of_nonpos (name : Bytes) (es ino : Nat) (hnonpos : Word.toInt32 h ≤ 0) :
    (wooFCreate name es h ino).tailWait = 0 := by
  simp only [wooFCreate, initSem]
  split
  · rfl
  · omega

theorem wooFSetSeqno_create (hn : 0 < n) (name : Bytes) (es h ino : Nat) :
    (wooFSetSeqno (wooFCreate name es h ino) n).2 =
      { wooFCreate name es h ino with seqNo := n } := by
  have hle : (wooFCreate name es h ino).seqNo ≤ n := hn
  rw [wooFSetSeqno, if_pos hle]

theorem wooFSetSeqno_create_shows (hh : 0 < h) (hn : 0 < n) (hcap : h < historyLimit)
    (hmod : n < Word.modulus) (name : Bytes) (es ino : Nat) :
    (wooFSetSeqno (wooFCreate name es h ino) n).2.Shows (Window.empty h n hh hn) := by
  rw [wooFSetSeqno_create hn]
  refine ⟨rfl, hcap, rfl, hmod, hh, fun _ => rfl, ?_, ?_⟩
  · simp [Window.empty, hh, wooFCreate]
  · intro j e he
    simp [Window.empty] at he

theorem wooFCreate_shows (hh : 0 < h) (hcap : h < historyLimit) (name : Bytes) (es ino : Nat) :
    (wooFCreate name es h ino).Shows (Window.empty h 1 hh Nat.one_pos) := by
  have hshows := wooFSetSeqno_create_shows hh Nat.one_pos hcap (by decide) name es ino
  rwa [wooFSetSeqno_create Nat.one_pos] at hshows

theorem appendAll_create_shows {ino : Nat} {name : Bytes} {g' : Globals} {wf' : WooF}
    {calls : List AppendCall} {numbers : List Nat} (hh : 0 < h) (hcap : h < historyLimit)
    (hroom : 1 + calls.length < Word.modulus) (hlog : g.nameLog.Accepts calls.length)
    (helems : ∀ c ∈ calls, c.element.length = es)
    (hrun : appendAll g (wooFCreate name es h ino) calls = .ok (numbers, g', wf')) :
    wf'.Shows ((Window.empty h 1 hh Nat.one_pos).appendAll (calls.map AppendCall.element)) ∧
      wf'.mutex = 1 ∧ wf'.head = calls.length % h := by
  have hstart := wooFCreate_shows hh hcap name es ino
  by_cases hpos : 0 < Word.toInt32 h
  · obtain ⟨g₁, wf₁, hrun₁, hshows, hopen, hhead⟩ := appendAll_shows calls hstart
      (wooFCreate_unlocked name es ino hpos hh) helems hroom hlog
    rw [hrun] at hrun₁
    obtain ⟨-, -, rfl⟩ := hrun₁
    have hzero : (wooFCreate name es h ino).head = 0 := rfl
    rw [hzero, Nat.zero_add] at hhead
    exact ⟨hshows, hopen.mutex, hhead⟩
  · have hwait := wooFCreate_tailWait_of_nonpos name es ino (Int.not_lt.mp hpos)
    cases calls with
    | nil =>
      obtain ⟨-, -, rfl⟩ := hrun
      exact ⟨hstart, rfl, (Nat.zero_mod h).symm⟩
    | cons c calls =>
      simp [appendAll, callAll, AppendCall.withCause,
        wooFAppendWithCause_blocked (Int.le_of_eq hwait)] at hrun

/-- What a WooF with these sizes promises to every history of appends that starts at
any number: the numbers returned, what each later read gives, the limits reported,
the slots used, and that reading changes nothing. -/
def LogRefinement (es h : Nat) : Prop :=
  ∀ (name : Bytes) (ino n : Nat) (g : Globals) (calls : List AppendCall),
    1 ≤ n → n + calls.length < Word.modulus → g.nameLog.Accepts calls.length →
    (∀ c ∈ calls, c.element.length = es) →
    ∃ g' wf', appendAll g (wooFSetSeqno (wooFCreate name es h ino) n).2 calls =
        .ok (List.range' n calls.length, g', wf') ∧
      (∀ s, 1 ≤ s → wooFReadWithCause wf' s =
        .ok (if max n (n + calls.length - h) ≤ s ∧ s ≤ n + calls.length - 1
          then (calls.map AppendCall.element)[s - n]? else none, wf')) ∧
      wooFReadWithCause wf' 0 = .ok ((calls.map AppendCall.element).getLast?, wf') ∧
      (1 ≤ calls.length → wooFGetEarliest wf' = max n (n + calls.length - h) ∧
        wooFLatestSeqno wf' = n + calls.length - 1) ∧
      (∃ ndx < h, wooFAppendNdx wf' = .ok ndx) ∧
      ∀ s ndx, wooFReadNdx wf' s = .ok (some ndx) → ndx < h

theorem logRefinement_of_toInt32_pos (hh : 1 ≤ h) (hspace : wooFSpace es h < Word.modulus)
    (hpos : 0 < Word.toInt32 h) :
    LogRefinement es h := by
  intro name ino n g calls hn hroom hlog helems
  have hcap := historySize_lt_of_space hspace
  have hstart := wooFSetSeqno_create_shows hh hn hcap (by omega) name es ino
  have hopen : (wooFSetSeqno (wooFCreate name es h ino) n).2.Unlocked := by
    obtain ⟨hmutex, hwait, hle, hsize⟩ := wooFCreate_unlocked name es ino hpos hh
    rw [wooFSetSeqno_create hn]
    exact ⟨hmutex, hwait, hle, hsize⟩
  obtain ⟨g', wf', hrun, hshows, hopen', -⟩ := appendAll_shows calls hstart hopen
    (by rw [wooFSetSeqno_create hn]; exact helems) hroom hlog
  have hcap' : (Window.appendAll (Window.empty h n hh hn) (calls.map AppendCall.element)).cap = h :=
    Window.appendAll_cap _ _
  refine ⟨g', wf', hrun, ?_, ?_, ?_, ?_, ?_⟩
  · intro s hs
    rw [hshows.reads.wooFReadWithCause_eq hopen'.mutex hs, Window.read_appendAll_empty,
      List.length_map]
    by_cases hlow : max n (n + calls.length - h) ≤ s
    · rw [if_pos hlow]
      by_cases hhigh : s ≤ n + calls.length - 1
      · rw [if_pos ⟨hlow, hhigh⟩]
      · rw [if_neg (by omega), List.getElem?_eq_none (by simp; omega)]
    · rw [if_neg hlow, if_neg (by omega)]
  · rw [hshows.reads.wooFReadWithCause_zero hopen'.mutex, Window.readLatest_appendAll_empty]
  · intro _
    rw [hshows.wooFGetEarliest_eq, hshows.wooFLatestSeqno_eq, Window.earliest_appendAll_empty,
      Window.latest, Window.appendAll_next, List.length_map]
    exact ⟨rfl, rfl⟩
  · refine ⟨Word.add wf'.head 1 % wf'.historySize, ?_, ?_⟩
    · rw [hshows.next_eq, hcap']
      exact Ring.next_lt hh _
    · rw [wooFAppendNdx, remU_of_pos hopen'.size_pos]
  · intro s ndx hread
    have := hshows.reads.ndx_lt hread
    omega

theorem not_logRefinement_of_toInt32_nonpos (hnonpos : Word.toInt32 h ≤ 0) :
    ¬ LogRefinement es h := by
  intro hrefines
  let call : AppendCall := ⟨none, List.replicate es 0, 0, 0⟩
  have hlog : (logCreate 0 2).Accepts 1 := ⟨by decide, by decide, by decide, by decide⟩
  obtain ⟨g', wf', hrun, -⟩ := hrefines [] 0 1 ⟨0, [], 0, logCreate 0 2⟩ [call]
    (Nat.le_refl 1) (show 1 + 1 < Word.modulus by decide) hlog (by simp [call])
  have hwait : (wooFSetSeqno (wooFCreate [] es h 0) 1).2.tailWait ≤ 0 := by
    exact Int.le_of_eq (wooFCreate_tailWait_of_nonpos [] es 0 hnonpos)
  simp [appendAll, callAll, AppendCall.withCause, wooFAppendWithCause_blocked hwait] at hrun

/-- For every size that can be mapped, the refinement holds exactly when the history
size is still positive as an `int`. -/
theorem logRefinement_iff (es h : Nat) (hh : 1 ≤ h) (hspace : wooFSpace es h < Word.modulus) :
    LogRefinement es h ↔ 0 < Word.toInt32 h := by
  constructor
  · intro hrefines
    by_contra hnonpos
    exact not_logRefinement_of_toInt32_nonpos (Int.not_lt.mp hnonpos) hrefines
  · exact logRefinement_of_toInt32_pos hh hspace

theorem logRefinement_iff_four :
    wooFSpace 8 4 < Word.modulus ∧ (LogRefinement 8 4 ↔ 0 < Word.toInt32 4) :=
  ⟨by decide, logRefinement_iff 8 4 (by decide) (by decide)⟩

/-- A WooF of `2 ^ 32` one-byte elements can be mapped, and its first append waits
forever. -/
theorem append_blocks_at_two_pow_32 :
    1 ≤ 2 ^ 32 ∧ wooFSpace 1 (2 ^ 32) < Word.modulus ∧
      wooFAppendWithCause ⟨0, [], 0, logCreate 0 2⟩ (wooFCreate [] 1 (2 ^ 32) 0) none [7] 0 0 =
        .error .blocked ∧ ¬ LogRefinement 1 (2 ^ 32) := by
  have hnonpos : Word.toInt32 (2 ^ 32) ≤ 0 := by decide
  have hwait := wooFCreate_tailWait_of_nonpos [] 1 0 hnonpos
  exact ⟨by decide, by decide, wooFAppendWithCause_blocked (Int.le_of_eq hwait) _ _ _,
    not_logRefinement_of_toInt32_nonpos hnonpos⟩

end Cspot
