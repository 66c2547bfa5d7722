import Cspot.Woof.History

/-!
# Truncation

What `WooFTruncate` does to the window.  It is exact while the WooF has not wrapped
and for the latest number, and a WooF of at most two slots survives being emptied.
Elsewhere the tail it leaves behind no longer matches the head, or a number it should
refuse is accepted; histories that avoid those calls are histories of the window.
-/

namespace Cspot

/-- A WooF of at most two slots that was emptied and is not full again.  Its tail is
zero although it has not wrapped, which the reads happen to survive. -/
structure WooF.ShowsReset (wf : WooF) (W : Window Bytes) : Prop where
  cap : wf.historySize = W.cap
  small : W.cap ≤ 2
  next : wf.seqNo = W.next
  fresh : W.next = W.held.length + 1
  room : W.held.length < W.cap
  head : wf.head = W.held.length
  tail : wf.tail = 0
  slots : Ring.Stores (fun i => (wf.slots i).element) W.cap wf.head W.held

def WooF.Tracks (wf : WooF) (W : Window Bytes) : Prop := wf.Shows W ∨ wf.ShowsReset W

def WooF.cutAt (wf : WooF) (s : Nat) : WooF :=
  { wf with
    head := Word.sub (Word.add wf.head wf.historySize) (Word.sub (wooFLatestSeqno wf) s) %
      wf.historySize
    seqNo := Word.add s 1 }

section Reset

variable {wf : WooF} {W : Window Bytes}

theorem WooF.ShowsReset.wooFLatestSeqno_eq (h : wf.ShowsReset W) :
    wooFLatestSeqno wf = W.latest := by
  have hsmall := h.small
  have hroom := h.room
  have hfresh := h.fresh
  have hmod : 2 < Word.modulus := by decide
  rw [wooFLatestSeqno, h.next, Word.sub_of_le (by omega) (by omega), Window.latest]

theorem WooF.ShowsReset.eq_of_readable (h : wf.ShowsReset W) {s : Nat}
    (hlow : W.earliest ≤ s) (hnext : s < W.next) :
    s = 1 ∧ W.cap = 2 ∧ W.held.length = 1 ∧ W.latest = 1 := by
  have hfresh := h.fresh
  have hroom := h.room
  have hsmall := h.small
  unfold Window.earliest at hlow
  unfold Window.latest
  omega

/-- With one of two slots filled the oldest number comes out as zero, one too low, and
the index counted from slot zero is right. -/
theorem WooF.ShowsReset.wooFReadNdx_eq (h : wf.ShowsReset W) {s : Nat} (hs : 0 < s) :
    wooFReadNdx wf s =
      .ok (if W.earliest ≤ s ∧ s < W.next
        then some (Ring.place W.cap wf.head W.held.length (s - W.earliest)) else none) := by
  have hfresh := h.fresh
  have hyoung : Word.sub wf.seqNo 1 = W.latest := h.wooFLatestSeqno_eq
  have hne : s ≠ 0 := by omega
  have hearliest : W.earliest = 1 := by
    simp only [Window.earliest]
    omega
  simp only [wooFReadNdx, hne, false_and, if_false, hyoung, h.tail, Exec.pure_eq, hearliest]
  by_cases hin : s < W.next
  · obtain ⟨hs1, hcap, hlen, hlatest⟩ := h.eq_of_readable (by omega) hin
    have hold : wooFGetEarliest wf = 0 := by
      simp only [wooFGetEarliest, hyoung, hlatest, h.tail, h.cap, hcap, h.head, hlen]
      decide
    simp only [hs1, hold, hlatest, h.cap, hcap, h.head, hlen, h.fresh]
    decide
  · have hlatest : W.latest < s := by
      simp only [Window.latest]
      omega
    rw [if_pos (.inr hlatest), if_neg (by omega)]

theorem WooF.ShowsReset.reads (h : wf.ShowsReset W) : wf.Reads W := by
  refine ⟨h.slots, fun _ hs => h.wooFReadNdx_eq hs, ?_⟩
  have hyoung : Word.sub wf.seqNo 1 = W.latest := h.wooFLatestSeqno_eq
  have hfresh := h.fresh
  by_cases hnil : W.held = []
  · have hseq : wf.seqNo ≤ 1 := by
      rw [h.next, hfresh, hnil]
      decide
    simp [wooFReadNdx, hnil, hseq]
  · have hlen := List.length_pos_iff.mpr hnil
    have hlatest := Nat.ne_of_gt (W.latest_pos hnil)
    have hseq : ¬ wf.seqNo ≤ 1 := by
      rw [h.next]
      omega
    simp [wooFReadNdx, hyoung, hnil, hlatest, hseq]

theorem WooF.ShowsReset.pushed (h : wf.ShowsReset W) (element : Bytes) :
    (wf.pushed element wf.wrappedTail).Tracks (W.append element) := by
  have hsmall := h.small
  have hroom := h.room
  have hmod : 4 < Word.modulus := by decide
  have hlimit : 4 < historyLimit := by decide
  have hnext : Word.add wf.head 1 % wf.historySize = Ring.next W.cap wf.head := by
    have hhead := h.head
    rw [Word.add_of_lt (by omega), h.cap, Ring.next]
  have hheld := W.append_held_of_lt element hroom
  have hlength : (W.append element).held.length = W.held.length + 1 := by
    rw [hheld, List.length_append, List.length_singleton]
  have hfresh := h.fresh
  have hseq : (wf.pushed element wf.wrappedTail).seqNo = (W.append element).next := by
    simp only [WooF.pushed, h.next, Window.append_next]
    exact Word.add_of_lt (by omega)
  have hhead : (wf.pushed element wf.wrappedTail).head = Ring.next W.cap wf.head := hnext
  have hslots : Ring.Stores (fun i => ((wf.pushed element wf.wrappedTail).slots i).element)
      (W.append element).cap (wf.pushed element wf.wrappedTail).head (W.append element).held := by
    rw [WooF.pushed_elements, hnext, hhead, hheld]
    exact h.slots.push_of_lt hroom element
  have hzero : (0 : Nat) ≠ Word.allOnes := by decide
  by_cases hfull : W.held.length + 1 = W.cap
  · have hwritten : Ring.next W.cap wf.head = 0 := by
      rw [Ring.next, h.head, hfull, Nat.mod_self]
    have htail : wf.wrappedTail = Ring.next W.cap 0 := by
      simp only [WooF.wrappedTail, hnext, hwritten, h.tail, hzero, and_false, if_false, if_true]
      rw [h.cap]
      rfl
    refine .inl ⟨h.cap, ?_, hseq, ?_, ?_, ?_, ?_, hslots⟩
    · show W.cap < historyLimit
      omega
    · rw [Window.append_next]
      omega
    · rw [hhead]
      exact Ring.next_lt W.cap_pos wf.head
    · intro hlt
      rw [hlength, Window.append_cap] at hlt
      omega
    · rw [hlength, Window.append_cap, hhead, hwritten, if_neg (by omega)]
      exact htail
  · have hwritten : Ring.next W.cap wf.head = W.held.length + 1 := by
      rw [Ring.next, h.head, Nat.mod_eq_of_lt (by omega)]
    refine .inr ⟨h.cap, hsmall, hseq, ?_, ?_, ?_, ?_, hslots⟩
    · rw [hlength, Window.append_next, hfresh]
    · rw [hlength, Window.append_cap]
      omega
    · rw [hhead, hwritten, hlength]
    · show wf.wrappedTail = 0
      simp [WooF.wrappedTail, hnext, hwritten, h.tail]

end Reset

/-! ## One truncation -/

section Truncate

variable {wf : WooF} {W : Window Bytes} {s : Nat}

private theorem wooFTruncate_unlock (h : wf.Unlocked) (head tail seqNo : Nat) :
    ({ wf with
        head := head
        tail := tail
        seqNo := seqNo
        mutex := semV (wf.mutex - 1)
        tailWait := semV (wf.tailWait - 1) } : WooF) =
      { wf with head := head, tail := tail, seqNo := seqNo } := by
  have hmutex : semV (wf.mutex - 1) = wf.mutex := by rw [h.mutex]; decide
  rw [hmutex, semV_sub_one h.wait_le]

theorem wooFTruncate_zero (h : wf.Unlocked) :
    wooFTruncate wf 0 = .ok (1, { wf with head := 0, tail := 0, seqNo := 1 }) := by
  have hmutex : 0 < wf.mutex := by rw [h.mutex]; decide
  simp [wooFTruncate, semP_of_pos h.wait_pos, semP_of_pos hmutex, wooFTruncate_unlock h]

theorem wooFTruncate_refused (h : wf.Unlocked) (hs : s ≠ 0)
    (hlow : s < Word.add wf.tail 1 % wf.historySize) : wooFTruncate wf s = .ok (-1, wf) := by
  have hmutex : 0 < wf.mutex := by rw [h.mutex]; decide
  have hunlock := wooFTruncate_unlock h wf.head wf.tail wf.seqNo
  simp [wooFTruncate, semP_of_pos h.wait_pos, semP_of_pos hmutex, if_neg hs, remU_of_pos h.size_pos,
    if_pos hlow, hunlock]

theorem wooFTruncate_cut (h : wf.Unlocked) (hs : s ≠ 0)
    (hlow : ¬ s < Word.add wf.tail 1 % wf.historySize) :
    wooFTruncate wf s = .ok (1, wf.cutAt s) := by
  have hmutex : 0 < wf.mutex := by rw [h.mutex]; decide
  simp [wooFTruncate, semP_of_pos h.wait_pos, semP_of_pos hmutex, if_neg hs, remU_of_pos h.size_pos,
    if_neg hlow, wooFTruncate_unlock h, WooF.cutAt, wooFLatestSeqno]

theorem WooF.Unlocked.cutAt (h : wf.Unlocked) (s : Nat) : (wf.cutAt s).Unlocked :=
  ⟨h.mutex, h.wait_pos, h.wait_le, h.size_pos⟩

theorem WooF.Tracks.cap (h : wf.Tracks W) : wf.historySize = W.cap := h.elim (·.cap) (·.cap)

theorem WooF.Tracks.emptied (h : wf.Tracks W) (hsmall : W.cap ≤ 2) :
    WooF.ShowsReset { wf with head := 0, tail := 0, seqNo := 1 }
      (Window.empty W.cap 1 W.cap_pos Nat.one_pos) := by
  refine ⟨h.cap, hsmall, rfl, rfl, W.cap_pos, rfl, rfl, ?_⟩
  intro j e he
  simp [Window.empty] at he

theorem WooF.Shows.cutAt_head (h : wf.Shows W) (hlt : W.held.length < W.cap)
    (hlow : W.earliest ≤ s) (hs : s < W.next) :
    (wf.cutAt s).head = (W.truncate s).held.length := by
  have hnum := W.numbered
  have hnext := h.next_lt
  have hcap := h.cap_lt
  have hlimit : 4 * historyLimit < Word.modulus := by decide
  have hstay := W.truncate_held_length hs
  simp only [WooF.cutAt]
  rw [h.wooFLatestSeqno_eq, h.cap, h.head_unwrapped hlt, Word.add_of_lt (by omega)]
  unfold Window.latest Window.earliest at *
  have hcut : Word.sub (W.next - 1) s = W.next - 1 - s := Word.sub_of_le (by omega) (by omega)
  rw [hcut, Word.sub_of_le (by omega) (by omega), hstay]
  have hsum : W.held.length + W.cap - (W.next - 1 - s) =
      s + 1 - (W.next - W.held.length) + W.cap := by omega
  rw [hsum, Nat.add_mod_right, Nat.mod_eq_of_lt (by omega)]

theorem WooF.Shows.cutAt_unwrapped (h : wf.Shows W) (hlt : W.held.length < W.cap)
    (hlow : W.earliest ≤ s) (hs : s < W.next) : (wf.cutAt s).Shows (W.truncate s) := by
  have hnext := h.next_lt
  have hstay := W.truncate_held_length hs
  have hroom : (W.truncate s).held.length < W.cap := by
    unfold Window.earliest at *
    omega
  have hhead := h.cutAt_head hlt hlow hs
  refine ⟨h.cap, h.cap_lt, Word.add_of_lt (by omega), ?_, ?_, fun _ => hhead, ?_, ?_⟩
  · rw [Window.truncate_next]
    omega
  · rw [hhead]
    exact hroom
  · show wf.tail = _
    rw [h.tail, if_pos hlt, Window.truncate_cap, if_pos hroom]
  · intro j e he
    -- entry j sits in slot j + 1 before and after the cut
    rw [Window.truncate_held, List.getElem?_take] at he
    split at he
    · have hcell := h.slots j e he
      rw [h.head_unwrapped hlt, Ring.place_unwrapped W.fits] at hcell
      rw [hhead, Window.truncate_cap, Ring.place_unwrapped (Nat.le_of_lt hroom)]
      exact hcell
    · cases he

theorem WooF.cutAt_latest (hhead : wf.head < wf.historySize)
    (hsize : wf.historySize < historyLimit) (hpos : 0 < wf.seqNo)
    (hmod : wf.seqNo < Word.modulus) : wf.cutAt (wooFLatestSeqno wf) = wf := by
  have hlimit : 4 * historyLimit < Word.modulus := by decide
  have hlatest : wooFLatestSeqno wf = wf.seqNo - 1 := Word.sub_of_le hpos hmod
  have hsame : Word.sub (Word.add wf.head wf.historySize)
      (Word.sub (wooFLatestSeqno wf) (wooFLatestSeqno wf)) % wf.historySize = wf.head := by
    rw [Word.sub_of_le (Nat.le_refl _) (by omega), Nat.sub_self, Word.add_of_lt (by omega),
      Word.sub_of_le (Nat.zero_le _) (by omega), Nat.sub_zero, Nat.add_mod_right,
      Nat.mod_eq_of_lt hhead]
  have hseq : Word.add (wooFLatestSeqno wf) 1 = wf.seqNo := by
    rw [hlatest, Word.add_of_lt (by omega), Nat.sub_add_cancel hpos]
  rw [WooF.cutAt, hsame, hseq]

theorem WooF.Shows.not_refused (h : wf.Shows W)
    (hcut : W.held.length < W.cap ∨ s = W.latest) :
    ¬ s < Word.add wf.tail 1 % wf.historySize := by
  rcases Nat.lt_or_eq_of_le W.fits with hlt | hfull
  · rw [h.tail, if_pos hlt, Word.add_allOnes_one, Nat.zero_mod]
    omega
  · have hnum := W.numbered
    have hindex : Word.add wf.tail 1 % wf.historySize < W.cap := by
      rw [h.cap]
      exact Nat.mod_lt _ W.cap_pos
    have hs : s = W.latest := by omega
    unfold Window.latest at hs
    omega

theorem WooF.Tracks.wooFLatestSeqno_eq (h : wf.Tracks W) : wooFLatestSeqno wf = W.latest :=
  h.elim (·.wooFLatestSeqno_eq) (·.wooFLatestSeqno_eq)

theorem WooF.Tracks.reads (h : wf.Tracks W) : wf.Reads W := h.elim (·.reads) (·.reads)

theorem WooF.Shows.cutAt (h : wf.Shows W) (hlow : W.earliest ≤ s) (hnext : s < W.next)
    (hcut : W.held.length < W.cap ∨ s = W.latest) : (wf.cutAt s).Shows (W.truncate s) := by
  have hsize := h.cap
  have hseq := h.next
  have hseq_lt := h.next_lt
  rcases hcut with hlt | rfl
  · exact h.cutAt_unwrapped hlt hlow hnext
  · rw [W.truncate_latest, ← h.wooFLatestSeqno_eq, WooF.cutAt_latest
      (by rw [hsize]; exact h.head_lt) (by rw [hsize]; exact h.cap_lt) (by omega) (by omega)]
    exact h

theorem WooF.ShowsReset.not_refused (h : wf.ShowsReset W) (hlow : W.earliest ≤ s)
    (hnext : s < W.next) : ¬ s < Word.add wf.tail 1 % wf.historySize := by
  obtain ⟨rfl, hcap, -, -⟩ := h.eq_of_readable hlow hnext
  rw [h.tail, h.cap, hcap]
  decide

theorem WooF.ShowsReset.cutAt (h : wf.ShowsReset W) (hlow : W.earliest ≤ s)
    (hnext : s < W.next) : (wf.cutAt s).ShowsReset (W.truncate s) := by
  obtain ⟨rfl, hcap, -, hlatest⟩ := h.eq_of_readable hlow hnext
  have hlimit : 2 < historyLimit ∧ 2 < Word.modulus := by decide
  have hfresh := h.fresh
  have hroom := h.room
  have hsize := h.cap
  have hhead := h.head
  have hseq := h.next
  rw [← hlatest, W.truncate_latest, ← h.wooFLatestSeqno_eq,
    WooF.cutAt_latest (by omega) (by omega) (by omega) (by omega)]
  exact h

/-- A WooF cut at a number that is still readable, in the two cases the code gets
right. -/
theorem WooF.Tracks.cut (h : wf.Tracks W) (hopen : wf.Unlocked) (hlow : W.earliest ≤ s)
    (hhigh : s ≤ W.latest) (hcut : W.held.length < W.cap ∨ s = W.latest) :
    wooFTruncate wf s = .ok (1, wf.cutAt s) ∧ (wf.cutAt s).Tracks (W.truncate s) := by
  have hnum := W.numbered
  have hs : s ≠ 0 := by
    unfold Window.earliest at hlow
    omega
  have hnext : s < W.next := by
    unfold Window.latest at hhigh
    omega
  rcases h with hshows | hreset
  · exact ⟨wooFTruncate_cut hopen hs (hshows.not_refused hcut),
      .inl (hshows.cutAt hlow hnext hcut)⟩
  · exact ⟨wooFTruncate_cut hopen hs (hreset.not_refused hlow hnext),
      .inr (hreset.cutAt hlow hnext)⟩

end Truncate

/-! ## Histories with truncations -/

/-- The calls a truncation is exact on, given the window before it: emptying a WooF of
at most two slots, cutting at a readable number that is the latest or before the first
wrap, and a number below the readable ones that the index comparison refuses. -/
def TruncateSafe (wf : WooF) (W : Window Bytes) (s : Nat) : Prop :=
  (s = 0 ∧ W.cap ≤ 2) ∨
    (W.earliest ≤ s ∧ s ≤ W.latest ∧ (W.held.length < W.cap ∨ s = W.latest)) ∨
    (s ≠ 0 ∧ s < W.earliest ∧ s < Word.add wf.tail 1 % wf.historySize)

instance (wf : WooF) (W : Window Bytes) (s : Nat) : Decidable (TruncateSafe wf W s) :=
  inferInstanceAs (Decidable (_ ∨ _))

/-- What a truncation should do to the window, and its result. -/
def specTruncate (W : Window Bytes) (s : Nat) : Int × Window Bytes :=
  if s = 0 then (1, Window.empty W.cap 1 W.cap_pos Nat.one_pos)
  else if W.earliest ≤ s ∧ s ≤ W.latest then (1, W.truncate s)
  else (-1, W)

variable {wf : WooF} {W : Window Bytes}

theorem WooF.Tracks.truncate {s : Nat} (h : wf.Tracks W) (hopen : wf.Unlocked)
    (hsafe : TruncateSafe wf W s) :
    ∃ wf', wooFTruncate wf s = .ok ((specTruncate W s).1, wf') ∧
      wf'.Tracks (specTruncate W s).2 ∧ wf'.Unlocked ∧ wf'.elementSize = wf.elementSize := by
  rcases hsafe with ⟨rfl, hsmall⟩ | ⟨hlow, hhigh, hcut⟩ | ⟨hs, hbelow, hrefused⟩
  · exact ⟨_, wooFTruncate_zero hopen, .inr (h.emptied hsmall),
      ⟨hopen.mutex, hopen.wait_pos, hopen.wait_le, hopen.size_pos⟩, rfl⟩
  · have hs : s ≠ 0 := by
      have hnum := W.numbered
      unfold Window.earliest at hlow
      omega
    obtain ⟨hcall, htracks⟩ := h.cut hopen hlow hhigh hcut
    rw [specTruncate, if_neg hs, if_pos ⟨hlow, hhigh⟩]
    exact ⟨_, hcall, htracks, hopen.cutAt s, rfl⟩
  · rw [specTruncate, if_neg hs, if_neg (by omega)]
    exact ⟨wf, wooFTruncate_refused hopen hs hrefused, h, hopen, rfl⟩

inductive LogOp
  | append (call : AppendCall)
  | truncate (seqNo : Nat)
deriving Repr, DecidableEq

def LogOp.run (g : Globals) (wf : WooF) : LogOp → Exec (Int × Globals × WooF)
  | .append c => do
      let (s, g, wf) ← c.withCause g wf
      return ((s : Int), g, wf)
  | .truncate s => do
      let (result, wf) ← wooFTruncate wf s
      return (result, g, wf)

def LogOp.spec (W : Window Bytes) : LogOp → Int × Window Bytes
  | .append c => ((W.next : Int), W.append c.element)
  | .truncate s => specTruncate W s

def runOps : Globals → WooF → List LogOp → Exec (List Int × Globals × WooF) :=
  callAll fun g wf op => op.run g wf

def specOps (W : Window Bytes) : List LogOp → List Int × Window Bytes
  | [] => ([], W)
  | op :: ops => ((op.spec W).1 :: (specOps (op.spec W).2 ops).1, (specOps (op.spec W).2 ops).2)

def LogOp.Safe (wf : WooF) (W : Window Bytes) : LogOp → Prop
  | .append _ => True
  | .truncate s => TruncateSafe wf W s

instance (wf : WooF) (W : Window Bytes) : (op : LogOp) → Decidable (op.Safe wf W)
  | .append _ => inferInstanceAs (Decidable True)
  | .truncate s => inferInstanceAs (Decidable (TruncateSafe wf W s))

def TruncationsSafe (g : Globals) (wf : WooF) (W : Window Bytes) : List LogOp → Prop
  | [] => True
  | op :: ops => op.Safe wf W ∧
      match op.run g wf with
      | .ok (_, g', wf') => TruncationsSafe g' wf' (op.spec W).2 ops
      | .error _ => True

/-- Step lemma: one operation does to the record what it should do to the window. -/
theorem WooF.Tracks.step {g : Globals} {op : LogOp} {n : Nat} (h : wf.Tracks W)
    (hopen : wf.Unlocked) (hnext : W.next + 1 < Word.modulus) (hlog : g.nameLog.Accepts (n + 1))
    (helem : ∀ c, op = .append c → c.element.length = wf.elementSize) (hsafe : op.Safe wf W) :
    ∃ g' wf', op.run g wf = .ok ((op.spec W).1, g', wf') ∧ wf'.Tracks (op.spec W).2 ∧
      wf'.Unlocked ∧ wf'.elementSize = wf.elementSize ∧ g'.nameLog.Accepts n ∧
      (op.spec W).2.next ≤ W.next + 1 := by
  cases op with
  | append c =>
    obtain ⟨g', hcall, hlog'⟩ := wooFAppendWithCause_ok hopen (helem c rfl) hlog
      c.handName c.causeHost c.causeSeqNo
    have hseq : wf.seqNo = W.next := h.elim (·.next) (·.next)
    refine ⟨g', wf.pushed c.element wf.wrappedTail, ?_, ?_, hopen.pushed _ _, rfl, hlog',
      Nat.le_refl _⟩
    · simp [LogOp.run, AppendCall.withCause, hcall, hseq, LogOp.spec]
    · rcases h with hshows | hreset
      · exact .inl (hshows.pushed hnext c.element)
      · exact hreset.pushed c.element
  | truncate s =>
    obtain ⟨wf', hcall, htracks, hopen', hsize⟩ := h.truncate hopen hsafe
    refine ⟨g, wf', ?_, htracks, hopen', hsize, hlog.mono (by omega), ?_⟩
    · simp [LogOp.run, hcall, LogOp.spec]
    · simp only [LogOp.spec, specTruncate]
      split
      · simp only [Window.empty]
        omega
      · split
        · rename_i hin
          unfold Window.latest at hin
          rw [Window.truncate_next]
          omega
        · exact Nat.le_succ _

/-- Run lemma: a history whose truncations are safe is a history of the window. -/
theorem runOps_tracks {g : Globals} (ops : List LogOp) (h : wf.Tracks W) (hopen : wf.Unlocked)
    (hnext : W.next + ops.length < Word.modulus) (hlog : g.nameLog.Accepts ops.length)
    (helems : ∀ c, LogOp.append c ∈ ops → c.element.length = wf.elementSize)
    (hsafe : TruncationsSafe g wf W ops) :
    ∃ g' wf', runOps g wf ops = .ok ((specOps W ops).1, g', wf') ∧
      wf'.Tracks (specOps W ops).2 ∧ wf'.Unlocked := by
  induction ops generalizing g wf W with
  | nil => exact ⟨g, wf, rfl, h, hopen⟩
  | cons op ops ih =>
    simp only [List.length_cons] at hnext hlog
    obtain ⟨g₁, wf₁, hstep, h₁, hopen₁, hsize, hlog₁, hle⟩ := h.step hopen (by omega) hlog
      (fun c hc => helems c (by simp [hc])) hsafe.1
    have hrest := hsafe.2
    rw [hstep] at hrest
    obtain ⟨g', wf', hrun, htracks, hopen'⟩ := ih h₁ hopen₁ (by omega) hlog₁
      (fun c hc => by rw [hsize]; exact helems c (by simp [hc])) hrest
    refine ⟨g', wf', ?_, htracks, hopen'⟩
    unfold runOps at hrun ⊢
    simp [callAll, hstep, hrun, specOps]

/-- Every history of appends and safe truncations of a new WooF returns what the window
returns and reads what the window reads; emptying is a return to the new window.  In
the record it reaches, with `e` to `l` readable, a further safe truncation at a number
between them keeps exactly the elements up to that number, and outside them it is
refused without a change. -/
theorem truncate_history_refines (name : Bytes) (es h ino : Nat) (hh : 1 ≤ h)
    (hspace : wooFSpace es h < Word.modulus) (husable : 0 < Word.toInt32 h) (g : Globals)
    (ops : List LogOp) (hroom : 1 + ops.length < Word.modulus)
    (hlog : g.nameLog.Accepts ops.length)
    (helems : ∀ c, LogOp.append c ∈ ops → c.element.length = es)
    (hsafe : TruncationsSafe g (wooFCreate name es h ino) (Window.empty h 1 hh Nat.one_pos) ops) :
    let spec := specOps (Window.empty h 1 hh Nat.one_pos) ops
    ∃ g' wf', runOps g (wooFCreate name es h ino) ops = .ok (spec.1, g', wf') ∧
      (∀ t, 1 ≤ t → wooFReadWithCause wf' t = .ok (spec.2.read t, wf')) ∧
      wooFReadWithCause wf' 0 = .ok (spec.2.readLatest, wf') ∧
      wooFLatestSeqno wf' = spec.2.latest ∧
      ∀ s, TruncateSafe wf' spec.2 s →
        (spec.2.earliest ≤ s ∧ s ≤ spec.2.latest →
          ∃ wf'', wooFTruncate wf' s = .ok (1, wf'') ∧ wooFLatestSeqno wf'' = s ∧
            ∀ t, 1 ≤ t → wooFReadWithCause wf'' t =
              .ok (if spec.2.earliest ≤ t ∧ t ≤ s then spec.2.read t else none, wf'')) ∧
        (s ≠ 0 → s < spec.2.earliest ∨ spec.2.latest < s →
          wooFTruncate wf' s = .ok (-1, wf')) := by
  intro spec
  have hcap := historySize_lt_of_space hspace
  obtain ⟨g', wf', hrun, htracks, hopen⟩ := runOps_tracks ops
    (.inl (wooFCreate_shows hh hcap name es ino)) (wooFCreate_unlocked name es ino husable hh)
    hroom hlog helems hsafe
  have hreads := htracks.reads
  refine ⟨g', wf', hrun, fun t ht => hreads.wooFReadWithCause_eq hopen.mutex ht,
    hreads.wooFReadWithCause_zero hopen.mutex, htracks.wooFLatestSeqno_eq, ?_⟩
  intro s hs
  have hnum := spec.2.numbered
  refine ⟨?_, ?_⟩
  · rintro ⟨hlow, hhigh⟩
    have hpos : s ≠ 0 := by
      unfold Window.earliest at hlow
      omega
    have hnext : s < spec.2.next := by
      unfold Window.latest at hhigh
      omega
    obtain ⟨wf'', hcall, htracks', hopen', -⟩ := htracks.truncate hopen hs
    rw [specTruncate, if_neg hpos, if_pos ⟨hlow, hhigh⟩] at hcall htracks'
    refine ⟨wf'', hcall, htracks'.wooFLatestSeqno_eq, ?_⟩
    intro t ht
    rw [htracks'.reads.wooFReadWithCause_eq hopen'.mutex ht, spec.2.read_truncate hlow hnext]
  · intro hpos hout
    rcases hs with ⟨hzero, -⟩ | ⟨hlow, hhigh, -⟩ | ⟨-, -, hrefused⟩
    · exact absurd hzero hpos
    · omega
    · exact wooFTruncate_refused hopen hpos hrefused

theorem truncate_history_refines_four :
    ∃ g' wf', runOps ⟨0, [], 0, logCreate 0 2⟩ (wooFCreate [] 1 4 0)
        [.append ⟨none, [7], 0, 0⟩, .append ⟨none, [8], 0, 0⟩, .truncate 1] =
          .ok ([1, 2, 1], g', wf') ∧
      wooFReadWithCause wf' 1 = .ok (some [7], wf') ∧
      wooFReadWithCause wf' 2 = .ok (none, wf') := by
  obtain ⟨g', wf', hrun, hread, -⟩ := truncate_history_refines [] 1 4 0 (by decide) (by decide)
    (by decide) ⟨0, [], 0, logCreate 0 2⟩
    [.append ⟨none, [7], 0, 0⟩, .append ⟨none, [8], 0, 0⟩, .truncate 1] (by decide)
    ⟨by decide, by decide, by decide, by decide⟩ (by simp)
    (show _ ∧ _ from ⟨trivial, show _ ∧ _ from ⟨trivial, show _ ∧ _ from ⟨by decide, trivial⟩⟩⟩)
  exact ⟨g', wf', hrun, hread 1 (by decide), hread 2 (by decide)⟩

/-- Three histories that leave the window: a number above the latest one is accepted; a
wrapped WooF cut below its latest number shows another element; an emptied WooF of
three slots does not show the element appended next. -/
theorem wooFTruncate_diverges :
    (runOps ⟨0, [], 0, logCreate 0 2⟩ (wooFCreate [] 1 4 0)
        [.append ⟨none, [7], 0, 0⟩, .truncate 5]).map (fun r => (r.1, r.2.2.seqNo)) =
      .ok ([1, 1], 6) ∧
    (runOps ⟨0, [], 0, logCreate 0 2⟩ (wooFCreate [] 1 3 0)
        [.append ⟨none, [1], 0, 0⟩, .append ⟨none, [2], 0, 0⟩, .append ⟨none, [3], 0, 0⟩,
          .append ⟨none, [4], 0, 0⟩, .truncate 3] >>= fun r =>
        (wooFReadWithCause r.2.2 3).map fun read => (r.1, read.1)) =
      .ok ([1, 2, 3, 4, 1], some [4]) ∧
    (runOps ⟨0, [], 0, logCreate 0 2⟩ (wooFCreate [] 1 3 0)
        [.append ⟨none, [7], 0, 0⟩, .truncate 0, .append ⟨none, [9], 0, 0⟩] >>= fun r =>
        (wooFReadWithCause r.2.2 1).map fun read => (r.1, read.1)) =
      .ok ([1, 1, 1], none) :=
  ⟨rfl, rfl, rfl⟩

end Cspot
