import Cspot.Woof.History

/-!
# The two append entry points

`WooFAppend` and `WooFAppendWithCause` are compared after the call and after the
handler it triggers has run.  They part in two ways: only the second notices the
first wrap, and only the second gives the place back when a handler was named.
-/

namespace Cspot

/-- User code: what it leaves of the WooF it was started for, its number and element. -/
abbrev Handler := WooF → Nat → Bytes → WooF

/-- `main` of the shepherd, from the opened WooF on.  A slot that was reused since the
append is not handed to the handler. -/
def shepherdMain (handler : Handler) (wf : WooF) (ndx seqNo : Nat) : WooF :=
  let farg := (wf.slots ndx).element
  if (wf.slots ndx).seqNo ≠ seqNo then wf else handler wf seqNo farg

def runTriggered (handler : Handler) (g : Globals) (wf : WooF) : WooF :=
  match g.nameLog.events g.nameLog.head with
  | some ev => shepherdMain handler wf ev.woofcNdx ev.woofcSeqNo
  | none => wf

/-- What a call leaves behind once its handler, if it named one, has finished. -/
structure AppendOutcome where
  returned : Nat
  head : Nat
  tail : Nat
  seqNo : Nat
  slots : Nat → Slot
  tailWait : Int

def appendOutcome (handler : Handler) (handName : Option Bytes) :
    Nat × Globals × WooF → AppendOutcome
  | (returned, g, wf) =>
    let wf := match handName with
      | none => wf
      | some _ => runTriggered handler g wf
    ⟨returned, wf.head, wf.tail, wf.seqNo, wf.slots, wf.tailWait⟩

/-- The two entry points agree for equal cause arguments, whatever the handler does. -/
def AppendsAgree (g : Globals) (wf : WooF) (handName : Option Bytes) (element : Bytes) : Prop :=
  ∀ handler : Handler,
    (wooFAppend g wf handName element).map (appendOutcome handler handName) =
      (wooFAppendWithCause g wf handName element g.nameId g.myLogSeqNo).map
        (appendOutcome handler handName)

/-- Both wait forever, or no handler is named and the call is not the first wrap. -/
def PlainAppendSafe (wf : WooF) (handName : Option Bytes) : Prop :=
  wf.tailWait ≤ 0 ∨
    handName = none ∧ ¬ (Word.add wf.head 1 % wf.historySize = 0 ∧ wf.tail = Word.allOnes)

instance (wf : WooF) (handName : Option Bytes) : Decidable (PlainAppendSafe wf handName) :=
  inferInstanceAs (Decidable (_ ∨ _))

def WooF.plainTail (wf : WooF) : Nat :=
  if Word.add wf.head 1 % wf.historySize = wf.tail then Word.add wf.tail 1 % wf.historySize
  else wf.tail

section Steps

variable {wf : WooF} {g : Globals} {element : Bytes}

theorem advanceTail_ok (h : 0 < wf.historySize) :
    advanceTail wf (Word.add wf.head 1 % wf.historySize) = .ok wf.plainTail := by
  simp only [advanceTail, remU_of_pos h, WooF.plainTail, Exec.pure_eq]
  split <;> rfl

theorem wooFAppend_blocked (h : wf.tailWait ≤ 0) (handName : Option Bytes) :
    wooFAppend g wf handName element = .error .blocked := by
  simp [wooFAppend, wooFPlaceElement, semP_of_nonpos h]

theorem wooFAppend_none (h : wf.Unlocked) (helem : element.length = wf.elementSize) :
    wooFAppend g wf none element = .ok (wf.seqNo, g, wf.pushed element wf.plainTail) := by
  have hplace := wooFPlaceElement_ok h helem (advanceTail_ok h.size_pos)
  simp [wooFAppend, hplace, h.releasePlace_pushed]

theorem wooFAppend_some {n : Nat} (h : wf.Unlocked) (helem : element.length = wf.elementSize)
    (hlog : g.nameLog.Accepts (n + 1)) (handler : Bytes) :
    ∃ g', wooFAppend g wf (some handler) element =
      .ok (wf.seqNo, g',
        { wf.pushed element wf.plainTail with tailWait := wf.tailWait - 1 }) := by
  have hplace := wooFPlaceElement_ok h helem (advanceTail_ok h.size_pos)
  obtain ⟨log', hlog', -⟩ := logEvent_ok (triggerEvent g
    { wf.pushed element wf.plainTail with tailWait := wf.tailWait - 1 } handler
    (Word.add wf.head 1 % wf.historySize) wf.seqNo g.nameId g.myLogSeqNo) hlog
  have hls : g.nameLog.seqNo ≠ 0 := by have := hlog.seqNo_pos; omega
  refine ⟨g.wakeForker log', ?_⟩
  simp [wooFAppend, hplace, hlog', if_neg hls]

/-- The two tail updates differ exactly at the first wrap. -/
theorem WooF.plainTail_eq_wrappedTail_iff (hsize : 0 < wf.historySize)
    (hlimit : wf.historySize < Word.allOnes) :
    wf.plainTail = wf.wrappedTail ↔
      ¬ (Word.add wf.head 1 % wf.historySize = 0 ∧ wf.tail = Word.allOnes) := by
  unfold WooF.plainTail WooF.wrappedTail
  by_cases hwrap : Word.add wf.head 1 % wf.historySize = 0 ∧ wf.tail = Word.allOnes
  · obtain ⟨hzero, htail⟩ := hwrap
    have hne : (0 : Nat) ≠ Word.allOnes := by decide
    have hlt := Nat.mod_lt 1 hsize
    simp only [hzero, htail, if_neg hne, and_self, if_true, not_true_eq_false, iff_false]
    omega
  · simp [hwrap]

theorem runTriggered_idle (g : Globals) (wf : WooF) :
    runTriggered (fun wf _ _ => wf) g wf = wf := by
  unfold runTriggered shepherdMain
  split <;> simp

theorem appendsAgree_iff_of_idle (hmutex : wf.mutex = 1) (hwait : wf.tailWait ≤ intMax)
    (hsize : 0 < wf.historySize) (hlimit : wf.historySize < Word.allOnes)
    (helem : element.length = wf.elementSize) (hlog : g.nameLog.Accepts 1)
    (handName : Option Bytes) :
    AppendsAgree g wf handName element ↔ PlainAppendSafe wf handName := by
  by_cases hblocked : wf.tailWait ≤ 0
  · have hsafe : PlainAppendSafe wf handName := .inl hblocked
    refine ⟨fun _ => hsafe, fun _ handler => ?_⟩
    rw [wooFAppend_blocked hblocked, wooFAppendWithCause_blocked hblocked]
  have hopen : wf.Unlocked := ⟨hmutex, Int.not_le.mp hblocked, hwait, hsize⟩
  obtain ⟨g₂, hcause, -⟩ :=
    wooFAppendWithCause_ok hopen helem hlog handName g.nameId g.myLogSeqNo
  cases handName with
  | none =>
    have htails := wf.plainTail_eq_wrappedTail_iff hsize hlimit
    simp only [AppendsAgree, PlainAppendSafe, wooFAppend_none hopen helem, hcause, hblocked,
      false_or, true_and, ← htails]
    constructor
    · intro hagree
      have := hagree (fun wf _ _ => wf)
      simp only [Except.map, appendOutcome, Except.ok.injEq, AppendOutcome.mk.injEq] at this
      exact this.2.2.1
    · intro heq handler
      rw [heq]
      rfl
  | some name =>
    obtain ⟨g₁, hplain⟩ := wooFAppend_some hopen helem hlog name
    simp only [PlainAppendSafe, hblocked, reduceCtorEq, false_and, or_false, iff_false]
    intro hagree
    -- an idle handler leaves the missing post visible
    have := hagree (fun wf _ _ => wf)
    rw [hplain, hcause] at this
    simp only [Except.map, appendOutcome, runTriggered_idle, Except.ok.injEq,
      AppendOutcome.mk.injEq, WooF.pushed] at this
    omega

end Steps

/-! ## Mixed histories -/

/-- Records reached from a new WooF by any mix of the two entry points, with any
globals at each call. -/
inductive AppendReachable (name : Bytes) (es h ino : Nat) : WooF → Prop
  | create : AppendReachable name es h ino (wooFCreate name es h ino)
  | append {wf wf' : WooF} {g g' : Globals} {handName : Option Bytes} {element : Bytes} {s : Nat} :
      AppendReachable name es h ino wf →
      wooFAppend g wf handName element = .ok (s, g', wf') → AppendReachable name es h ino wf'
  | appendWithCause {wf wf' : WooF} {g g' : Globals} {handName : Option Bytes} {element : Bytes}
      {s causeHost causeSeqNo : Nat} :
      AppendReachable name es h ino wf →
      wooFAppendWithCause g wf handName element causeHost causeSeqNo = .ok (s, g', wf') →
      AppendReachable name es h ino wf'

/-- What every record keeps between calls. -/
structure WooF.Idle (wf : WooF) (es h : Nat) : Prop where
  mutex : wf.mutex = 1
  wait_le : wf.tailWait ≤ intMax
  historySize : wf.historySize = h
  elementSize : wf.elementSize = es

variable {wf : WooF} {element : Bytes} {es h : Nat} {g : Globals} {wf' : WooF} {g' : Globals}
  {handName : Option Bytes} {s ino : Nat} {name : Bytes}

theorem wooFPlaceElement_idle {advance : WooF → Nat → Exec Nat} {placed : WooF} {ndx : Nat}
    (hidle : wf.Idle es h) (hplace : wooFPlaceElement advance wf element = .ok (ndx, placed)) :
    placed.Idle es h ∧ placed.releasePlace.Idle es h := by
  simp only [wooFPlaceElement, Exec.bind_eq_ok, semP_eq_ok, Exec.pure_eq, Except.ok.injEq,
    Prod.mk.injEq] at hplace
  obtain ⟨_, ⟨-, rfl⟩, _, ⟨-, rfl⟩, next, -, copied, -, tail, -, -, rfl⟩ := hplace
  have hwait := hidle.wait_le
  have hmutex : semV (wf.mutex - 1) = 1 := by rw [hidle.mutex]; decide
  refine ⟨⟨hmutex, ?_, hidle.historySize, hidle.elementSize⟩,
    ⟨hmutex, ?_, hidle.historySize, hidle.elementSize⟩⟩
  · show wf.tailWait - 1 ≤ intMax
    omega
  · show semV (wf.tailWait - 1) ≤ intMax
    rw [semV_sub_one hwait]
    exact hwait

theorem wooFAppend_idle (hidle : wf.Idle es h)
    (hcall : wooFAppend g wf handName element = .ok (s, g', wf')) :
    wf'.Idle es h := by
  simp only [wooFAppend, Exec.bind_eq_ok] at hcall
  obtain ⟨⟨ndx, placed⟩, hplace, hcall⟩ := hcall
  obtain ⟨hplaced, hreleased⟩ := wooFPlaceElement_idle hidle hplace
  cases handName with
  | none =>
    simp only [Exec.pure_eq, Except.ok.injEq, Prod.mk.injEq] at hcall
    exact hcall.2.2 ▸ hreleased
  | some name =>
    simp only [Exec.bind_eq_ok] at hcall
    obtain ⟨⟨ls, log⟩, -, hcall⟩ := hcall
    split at hcall
    all_goals
      simp only [Exec.pure_eq, Except.ok.injEq, Prod.mk.injEq] at hcall
      exact hcall.2.2 ▸ hplaced

theorem wooFAppendWithCause_idle {causeHost causeSeqNo : Nat} (hidle : wf.Idle es h)
    (hcall : wooFAppendWithCause g wf handName element causeHost causeSeqNo = .ok (s, g', wf')) :
    wf'.Idle es h := by
  obtain ⟨-, ndx, placed, hplace, rfl⟩ := wooFAppendWithCause_eq_ok hcall
  exact (wooFPlaceElement_idle hidle hplace).2

theorem wooFCreate_idle (name : Bytes) (es h ino : Nat) : (wooFCreate name es h ino).Idle es h := by
  refine ⟨rfl, ?_, rfl, rfl⟩
  have hle := Word.toInt32_le h
  have hmax : (0 : Int) ≤ intMax := by decide
  simp only [wooFCreate, initSem]
  split
  · exact hmax
  · exact hle

theorem AppendReachable.idle (hreach : AppendReachable name es h ino wf) : wf.Idle es h := by
  induction hreach with
  | create => exact wooFCreate_idle name es h ino
  | append _ hcall ih => exact wooFAppend_idle ih hcall
  | appendWithCause _ hcall ih => exact wooFAppendWithCause_idle ih hcall

inductive EntryPoint
  | append
  | appendWithCause
deriving Repr, DecidableEq

structure MixedCall extends AppendCall where
  entry : EntryPoint
deriving Repr, DecidableEq

def MixedCall.run (g : Globals) (wf : WooF) (c : MixedCall) : Exec (Nat × Globals × WooF) :=
  match c.entry with
  | .append => wooFAppend g wf c.handName c.element
  | .appendWithCause => c.toAppendCall.withCause g wf

def mixedAll : Globals → WooF → List MixedCall → Exec (List Nat × Globals × WooF) :=
  callAll MixedCall.run

/-- Every call of the older entry point is safe in the record it finds. -/
def PlainAppendsSafe : Globals → WooF → List MixedCall → Prop
  | _, _, [] => True
  | g, wf, c :: calls =>
    (c.entry = .append → PlainAppendSafe wf c.handName) ∧
      ∀ s g' wf', c.run g wf = .ok (s, g', wf') → PlainAppendsSafe g' wf' calls

theorem MixedCall.run_eq_withCause {c : MixedCall} (hopen : wf.Unlocked)
    (hlimit : wf.historySize < Word.allOnes) (helem : c.element.length = wf.elementSize)
    (hsafe : c.entry = .append → PlainAppendSafe wf c.handName) :
    c.run g wf = c.toAppendCall.withCause g wf := by
  cases hentry : c.entry with
  | appendWithCause => rw [MixedCall.run, hentry]
  | append =>
    obtain hblocked | ⟨hnone, hnowrap⟩ := hsafe hentry
    · exact absurd hopen.wait_pos (Int.not_lt.mpr hblocked)
    have htails := (wf.plainTail_eq_wrappedTail_iff hopen.size_pos hlimit).mpr hnowrap
    rw [MixedCall.run, hentry, AppendCall.withCause]
    simp only [hnone, wooFAppend_none hopen helem]
    rw [wooFAppendWithCause_none hopen helem, htails]

/-- Run lemma: a safe mixed history is the history of the newer entry point. -/
theorem mixedAll_eq_appendAll (calls : List MixedCall) (hopen : wf.Unlocked)
    (hlimit : wf.historySize < Word.allOnes)
    (helems : ∀ c ∈ calls, c.element.length = wf.elementSize)
    (hlog : g.nameLog.Accepts calls.length) (hsafe : PlainAppendsSafe g wf calls) :
    mixedAll g wf calls = appendAll g wf (calls.map MixedCall.toAppendCall) := by
  induction calls generalizing g wf with
  | nil => rfl
  | cons c calls ih =>
    have helem := helems c (by simp)
    obtain ⟨g₁, hstep, hlog₁⟩ := wooFAppendWithCause_ok hopen helem hlog
      c.handName c.causeHost c.causeSeqNo
    have hrun := MixedCall.run_eq_withCause (g := g) hopen hlimit helem hsafe.1
    rw [AppendCall.withCause, hstep] at hrun
    have htail := ih (hopen.pushed c.element wf.wrappedTail) hlimit
      (fun d hd => helems d (by simp [hd])) hlog₁ (hsafe.2 _ _ _ hrun)
    unfold mixedAll appendAll at htail ⊢
    simp [callAll, hrun, AppendCall.withCause, hstep, htail]

theorem MixedCall.run_blocked (h : wf.tailWait ≤ 0) (g : Globals) (c : MixedCall) :
    c.run g wf = .error .blocked := by
  cases hentry : c.entry with
  | append => rw [MixedCall.run, hentry, wooFAppend_blocked h]
  | appendWithCause =>
    rw [MixedCall.run, hentry, AppendCall.withCause, wooFAppendWithCause_blocked h]

theorem mixedAll_blocked (h : wf.tailWait ≤ 0) (g : Globals) (calls : List MixedCall) :
    calls = [] ∨ mixedAll g wf calls = .error .blocked := by
  cases calls with
  | nil => exact .inl rfl
  | cons c calls => exact .inr (by simp [mixedAll, callAll, MixedCall.run_blocked h])

theorem mixedAll_create_reads {calls : List MixedCall} (hh : 1 ≤ h)
    (hspace : wooFSpace es h < Word.modulus) (hpos : 0 < Word.toInt32 h)
    (hroom : 1 + calls.length < Word.modulus) (hlog : g.nameLog.Accepts calls.length)
    (helems : ∀ c ∈ calls, c.element.length = es)
    (hsafe : PlainAppendsSafe g (wooFCreate name es h ino) calls) :
    ∃ g' wf', mixedAll g (wooFCreate name es h ino) calls =
        .ok (List.range' 1 calls.length, g', wf') ∧
      ∀ s, 1 ≤ s → wooFReadWithCause wf' s =
        .ok (if max 1 (1 + calls.length - h) ≤ s ∧ s ≤ calls.length
          then (calls.map fun c => c.element)[s - 1]? else none, wf') := by
  have hcap := historySize_lt_of_space hspace
  have hlimit : historyLimit < Word.allOnes := by decide
  have hopen := wooFCreate_unlocked name es ino hpos hh
  have hsame : (wooFSetSeqno (wooFCreate name es h ino) 1).2 = wooFCreate name es h ino :=
    wooFSetSeqno_create Nat.one_pos name es h ino
  obtain ⟨g', wf', hrun, hread, -⟩ := logRefinement_of_toInt32_pos hh hspace hpos name ino 1 g
    (calls.map MixedCall.toAppendCall) (Nat.le_refl 1) (by simpa using hroom)
    (by simpa using hlog) (by simpa using helems)
  rw [hsame, ← mixedAll_eq_appendAll calls hopen (show h < _ by omega) helems hlog hsafe] at hrun
  refine ⟨g', wf', by simpa using hrun, ?_⟩
  intro s hs
  have helements : (calls.map MixedCall.toAppendCall).map AppendCall.element =
      calls.map fun c => c.element := by simp
  rw [hread s hs, helements, List.length_map, Nat.add_sub_cancel_left]

/-- In every record a mix of the entry points can reach they agree exactly on the safe
calls.  A history whose older calls are all safe keeps each element readable until `h`
later appends; on a WooF whose counting semaphore was lost at creation nothing is ever
appended. -/
theorem appends_agree_iff_safe (name : Bytes) (es h ino : Nat) (hh : 1 ≤ h)
    (hspace : wooFSpace es h < Word.modulus) :
    (∀ (wf : WooF) (g : Globals) (handName : Option Bytes) (element : Bytes),
      AppendReachable name es h ino wf → g.nameLog.Accepts 1 → element.length = es →
      (AppendsAgree g wf handName element ↔ PlainAppendSafe wf handName)) ∧
    ∀ (g : Globals) (calls : List MixedCall), 1 + calls.length < Word.modulus →
      g.nameLog.Accepts calls.length → (∀ c ∈ calls, c.element.length = es) →
      PlainAppendsSafe g (wooFCreate name es h ino) calls →
      if 0 < Word.toInt32 h then
        ∃ g' wf', mixedAll g (wooFCreate name es h ino) calls =
            .ok (List.range' 1 calls.length, g', wf') ∧
          ∀ s, 1 ≤ s → wooFReadWithCause wf' s =
            .ok (if max 1 (1 + calls.length - h) ≤ s ∧ s ≤ calls.length
              then (calls.map fun c => c.element)[s - 1]? else none, wf')
      else calls = [] ∨ mixedAll g (wooFCreate name es h ino) calls = .error .blocked := by
  have hcap := historySize_lt_of_space hspace
  have hlimit : historyLimit < Word.allOnes := by decide
  refine ⟨?_, ?_⟩
  · intro wf g handName element hreach hlog helem
    obtain ⟨hmutex, hwait, hhist, hes⟩ := hreach.idle
    exact appendsAgree_iff_of_idle hmutex hwait (by omega) (by omega) (by omega) hlog handName
  · intro g calls hroom hlog helems hsafe
    split
    · rename_i hpos
      exact mixedAll_create_reads hh hspace hpos hroom hlog helems hsafe
    · rename_i hnonpos
      have hwait := wooFCreate_tailWait_of_nonpos name es ino (Int.not_lt.mp hnonpos)
      exact mixedAll_blocked (Int.le_of_eq hwait) g calls

theorem appends_agree_iff_safe_four :
    wooFSpace 1 4 < Word.modulus ∧
      (AppendsAgree ⟨0, [], 0, logCreate 0 2⟩ (wooFCreate [] 1 4 0) none [7] ↔
        PlainAppendSafe (wooFCreate [] 1 4 0) none) :=
  ⟨by decide, (appends_agree_iff_safe [] 1 4 0 (by decide) (by decide)).1 _ _ none [7] .create
    ⟨by decide, by decide, by decide, by decide⟩ rfl⟩

/-- On a WooF with two slots: an append that names a handler keeps its place for good,
and two appends without one leave a WooF in which nothing can be read. -/
theorem wooFAppend_diverges_at_two :
    (wooFAppend ⟨0, [], 0, logCreate 0 2⟩ (wooFCreate [] 1 2 0) (some [104]) [7]).map
        (fun r => r.2.2.tailWait) = .ok 1 ∧
      (wooFAppendWithCause ⟨0, [], 0, logCreate 0 2⟩ (wooFCreate [] 1 2 0) (some [104]) [7] 0 0).map
        (fun r => r.2.2.tailWait) = .ok 2 ∧
      ¬ AppendsAgree ⟨0, [], 0, logCreate 0 2⟩ (wooFCreate [] 1 2 0) (some [104]) [7] ∧
      (mixedAll ⟨0, [], 0, logCreate 0 2⟩ (wooFCreate [] 1 2 0)
          [⟨⟨none, [7], 0, 0⟩, .append⟩, ⟨⟨none, [8], 0, 0⟩, .append⟩] >>= fun r =>
        (wooFReadWithCause r.2.2 2).map fun read => (r.1, read.1)) = .ok ([1, 2], none) := by
  refine ⟨rfl, rfl, ?_, rfl⟩
  have hiff := appendsAgree_iff_of_idle (g := ⟨0, [], 0, logCreate 0 2⟩)
    (show (wooFCreate [] 1 2 0).mutex = 1 from rfl) (by decide) (by decide) (by decide)
    (show [(7 : UInt8)].length = _ from rfl)
    ⟨by decide, by decide, by decide, by decide⟩ (some [104])
  rw [hiff]
  decide

end Cspot
