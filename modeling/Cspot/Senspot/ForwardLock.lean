import Cspot.Lib.Window
import Mathlib.Logic.Function.Basic

/-!
# The lock of the forwarder

An execution of `senspot_forward` appends an active record to the `.FWDSTATE` woof and reads
the record before its own.  If that one is idle it goes on to forward, and appends an idle
record at its end; otherwise it returns.  `senspot-forward-init` makes the woof with room for
two records and puts an idle one.
-/

namespace Cspot.Senspot

inductive FwdState
  | active
  | idle
deriving Repr, DecidableEq

structure SyncRecord where
  seqNo : Nat
  state : FwdState
deriving Repr, DecidableEq

def stateSize : Nat := 2

/-- Where an execution stands: before its first put, behind it with the number it got, between
a successful test and the last put, or at its end. -/
inductive Phase
  | start
  | testing (sSeqNo : Nat)
  | forwarding
  | done
deriving Repr, DecidableEq

structure LockState (ι : Type) where
  sync : Window SyncRecord
  phase : ι → Phase

section Lock

variable {ι : Type} {st : LockState ι}

def initialLock (ι : Type) : LockState ι where
  sync := (Window.empty stateSize 1 (by decide) Nat.one_pos).append ⟨0, .idle⟩
  phase _ := .start

/-- What the test of the record before the own one leads to. -/
def testPrevious (record : Option SyncRecord) : Phase :=
  match record with
  | none => .done
  | some record => if record.state = .idle then .forwarding else .done

/-! ## Who has the idle record -/

def LockState.latestState (st : LockState ι) : Option FwdState :=
  st.sync.readLatest.map SyncRecord.state

def LockState.previousState (st : LockState ι) : Option FwdState :=
  (st.sync.read (st.sync.latest - 1)).map SyncRecord.state

def LockState.Pending (st : LockState ι) (i : ι) : Prop :=
  st.phase i = .testing st.sync.latest ∧ st.previousState = some .idle

def LockState.Owns (st : LockState ι) (i : ι) : Prop :=
  st.phase i = .forwarding ∨ st.Pending i

structure LockState.Inv (st : LockState ι) : Prop where
  cap : st.sync.cap = stateSize
  held : st.sync.held ≠ []
  number : ∀ i sSeqNo, st.phase i = .testing sSeqNo → 2 ≤ sSeqNo ∧ sSeqNo ≤ st.sync.latest
  one : ∀ i j, st.Owns i → st.Owns j → i = j
  free : st.latestState = some .idle → ∀ i, ¬ st.Owns i

/-- The idle record is the latest one, or somebody has it. -/
def LockState.Live (st : LockState ι) : Prop := st.latestState = some .idle ∨ ∃ i, st.Owns i

/-- A put between the put and the test of an execution that would have found the idle record. -/
def LockState.Interrupts (st : LockState ι) (i : ι) : Prop :=
  st.phase i = .start ∧ ∃ j, st.Pending j

def LockState.Quiescent (st : LockState ι) : Prop :=
  ∀ i, st.phase i = .start ∨ st.phase i = .done

/-! ## The records before and behind an append -/

section Records

variable {st : LockState ι}

theorem latestState_append (st : LockState ι) (record : SyncRecord) (phase : ι → Phase) :
    (LockState.mk (st.sync.append record) phase).latestState = some record.state := by
  rw [LockState.latestState, Window.readLatest_append, Option.map_some]

theorem LockState.Inv.previousState_append (hinv : st.Inv) (record : SyncRecord)
    (phase : ι → Phase) :
    (LockState.mk (st.sync.append record) phase).previousState = st.latestState := by
  have hcap : 2 ≤ st.sync.cap := Nat.le_of_eq hinv.cap.symm
  rw [LockState.previousState, Window.latest_append, Nat.add_sub_cancel,
    Window.read_append_latest _ _ hcap hinv.held, LockState.latestState]

theorem LockState.Inv.next_eq (hinv : st.Inv) : st.sync.next = st.sync.latest + 1 := by
  have hpos := st.sync.latest_pos hinv.held
  rw [Window.latest] at hpos ⊢
  omega

/-- The test finds the idle record exactly if the own record is still the latest and the one
before it idle. -/
theorem LockState.Inv.testPrevious_eq (hinv : st.Inv) {i : ι} {sSeqNo : Nat}
    (hphase : st.phase i = .testing sSeqNo) :
    (testPrevious (st.sync.get (sSeqNo - 1)) = .forwarding ∧ st.Pending i) ∨
      (testPrevious (st.sync.get (sSeqNo - 1)) = .done ∧ ¬ st.Pending i) := by
  obtain ⟨htwo, hle⟩ := hinv.number i sSeqNo hphase
  have hget : st.sync.get (sSeqNo - 1) = st.sync.read (sSeqNo - 1) := if_neg (by omega)
  by_cases hlatest : sSeqNo = st.sync.latest
  · subst hlatest
    rw [hget, LockState.Pending, LockState.previousState]
    cases st.sync.read (st.sync.latest - 1) with
    | none => exact .inr ⟨rfl, by simp⟩
    | some record =>
      by_cases hidle : record.state = .idle
      · exact .inl ⟨if_pos hidle, hphase, by simp [hidle]⟩
      · exact .inr ⟨if_neg hidle, by simp [hidle]⟩
  · -- there is room for two records, so the one before is gone
    have hgone : st.sync.read (sSeqNo - 1) = none := by
      apply Window.read_eq_none
      have hfits := st.sync.fits
      have hcap : st.sync.cap = 2 := hinv.cap
      have hnext := hinv.next_eq
      rw [Window.earliest]
      omega
    refine .inr ⟨by rw [hget, hgone]; rfl, fun hpending => hlatest ?_⟩
    exact Phase.testing.inj (hphase.symm.trans hpending.1)

end Records

theorem initialLock_inv : (initialLock ι).Inv where
  cap := rfl
  held := Window.append_held_ne_nil _ _
  number := by
    intro i n hi
    cases hi
  one := by
    rintro i j (hi | ⟨hi, -⟩) -
    · cases hi
    · cases hi
  free := by
    rintro - i (hi | ⟨hi, -⟩)
    · cases hi
    · cases hi

theorem LockState.Quiescent.live_iff (h : st.Quiescent) :
    st.Live ↔ st.latestState = some .idle := by
  refine or_iff_left ?_
  rintro ⟨i, hi | ⟨hi, -⟩⟩
  · rcases h i with hstart | hdone
    · cases hstart.symm.trans hi
    · cases hdone.symm.trans hi
  · rcases h i with hstart | hdone
    · cases hstart.symm.trans hi
    · cases hdone.symm.trans hi

/-! ## One call -/

variable [DecidableEq ι] {seqNo : ι → Nat} {schedule : List ι} {st' : LockState ι}

/-- The next call of an execution on the woof, none when it has come to its end. -/
def LockState.advance (seqNo : ι → Nat) (st : LockState ι) (i : ι) : Option (LockState ι) :=
  match st.phase i with
  | .start => some
      { sync := st.sync.append ⟨seqNo i, .active⟩
        phase := Function.update st.phase i (.testing st.sync.next) }
  | .testing sSeqNo => some
      { st with
        phase := Function.update st.phase i (testPrevious (st.sync.get (sSeqNo - 1))) }
  | .forwarding => some
      { sync := st.sync.append ⟨seqNo i, .idle⟩
        phase := Function.update st.phase i .done }
  | .done => none

def LockState.run (seqNo : ι → Nat) (schedule : List ι) (st : LockState ι) :
    Option (LockState ι) :=
  schedule.foldlM (LockState.advance seqNo) st

/-- No call of the schedule interrupts another execution. -/
def Undisturbed (seqNo : ι → Nat) : List ι → LockState ι → Prop
  | [], _ => True
  | i :: schedule, st => ¬ st.Interrupts i ∧
      ∀ st', st.advance seqNo i = some st' → Undisturbed seqNo schedule st'

section Step

variable {seqNo : ι → Nat} {st st' : LockState ι} {i : ι}

theorem LockState.advance_cases (hinv : st.Inv) (h : st.advance seqNo i = some st') :
    (st.phase i = .start ∧ st'.sync = st.sync.append ⟨seqNo i, .active⟩ ∧
      st'.phase = Function.update st.phase i (.testing st'.sync.latest) ∧
      st'.latestState = some .active ∧ st'.previousState = st.latestState) ∨
    (∃ sSeqNo, st.phase i = .testing sSeqNo ∧ st'.sync = st.sync ∧
      ((st'.phase = Function.update st.phase i .forwarding ∧ st.Pending i) ∨
        (st'.phase = Function.update st.phase i .done ∧ ¬ st.Pending i))) ∨
    (st.phase i = .forwarding ∧ st'.sync = st.sync.append ⟨seqNo i, .idle⟩ ∧
      st'.phase = Function.update st.phase i .done ∧ st'.latestState = some .idle) := by
  rw [LockState.advance] at h
  cases hphase : st.phase i with
  | start =>
    simp only [hphase] at h
    cases h
    refine .inl ⟨rfl, rfl, ?_, latestState_append st _ _, hinv.previousState_append _ _⟩
    rw [Window.latest_append, hinv.next_eq]
  | testing sSeqNo =>
    simp only [hphase] at h
    cases h
    refine .inr (.inl ⟨sSeqNo, rfl, rfl, ?_⟩)
    rcases hinv.testPrevious_eq hphase with ⟨htest, hpending⟩ | ⟨htest, hpending⟩
    · exact .inl ⟨by rw [htest], hpending⟩
    · exact .inr ⟨by rw [htest], hpending⟩
  | forwarding =>
    simp only [hphase] at h
    cases h
    exact .inr (.inr ⟨rfl, rfl, rfl, latestState_append st _ _⟩)
  | done => simp [hphase] at h

theorem LockState.owns_of_start (hinv : st.Inv)
    (hsync : st'.sync = st.sync.append ⟨seqNo i, .active⟩)
    (hphase : st'.phase = Function.update st.phase i (.testing st'.sync.latest))
    (hprevious : st'.previousState = st.latestState) (j : ι) :
    st'.Owns j ↔ (j ≠ i ∧ st.phase j = .forwarding) ∨ (j = i ∧ st.latestState = some .idle) := by
  by_cases hj : j = i
  · subst hj
    simp [LockState.Owns, LockState.Pending, hphase, hprevious]
  · have hlater : st.phase j ≠ .testing st'.sync.latest := by
      intro htesting
      have hle := (hinv.number j _ htesting).2
      rw [hsync, Window.latest_append] at hle
      omega
    simp [LockState.Owns, LockState.Pending, hphase, hj, hlater]

theorem LockState.owns_of_test {sSeqNo : Nat} (hstart : st.phase i = .testing sSeqNo)
    (hsync : st'.sync = st.sync)
    (hphase : (st'.phase = Function.update st.phase i .forwarding ∧ st.Pending i) ∨
      (st'.phase = Function.update st.phase i .done ∧ ¬ st.Pending i)) (j : ι) :
    st'.Owns j ↔ st.Owns j := by
  have hprevious : st'.previousState = st.previousState := by
    rw [LockState.previousState, hsync, LockState.previousState]
  by_cases hj : j = i
  · subst hj
    rcases hphase with ⟨hphase, hpending⟩ | ⟨hphase, hpending⟩
    · exact iff_of_true (.inl (by rw [hphase, Function.update_self])) (.inr hpending)
    · refine iff_of_false ?_ ?_
      · simp [LockState.Owns, LockState.Pending, hphase]
      · rintro (hforwarding | hpending')
        · rw [hstart] at hforwarding
          cases hforwarding
        · exact hpending hpending'
  · have hother : st'.phase j = st.phase j := by
      rcases hphase with ⟨hphase, -⟩ | ⟨hphase, -⟩
      · rw [hphase, Function.update_of_ne hj]
      · rw [hphase, Function.update_of_ne hj]
    rw [LockState.Owns, LockState.Pending, hother, hsync, hprevious, LockState.Owns,
      LockState.Pending]

theorem LockState.not_owns_of_release (hinv : st.Inv) (hstart : st.phase i = .forwarding)
    (hsync : st'.sync = st.sync.append ⟨seqNo i, .idle⟩)
    (hphase : st'.phase = Function.update st.phase i .done) (j : ι) : ¬ st'.Owns j := by
  by_cases hj : j = i
  · subst hj
    simp [LockState.Owns, LockState.Pending, hphase]
  · rintro (hforwarding | ⟨htesting, -⟩)
    · rw [hphase, Function.update_of_ne hj] at hforwarding
      exact hj (hinv.one j i (.inl hforwarding) (.inl hstart))
    · rw [hphase, Function.update_of_ne hj] at htesting
      have hle := (hinv.number j _ htesting).2
      rw [hsync, Window.latest_append] at hle
      omega

section

variable (hinv : st.Inv) (h : st.advance seqNo i = some st') {j : ι} {n : Nat}
include hinv h

theorem LockState.Inv.sync_advance :
    st'.sync.cap = stateSize ∧ st'.sync.held ≠ [] ∧ st.sync.latest ≤ st'.sync.latest := by
  have hput (record : SyncRecord) (hsync : st'.sync = st.sync.append record) :
      st'.sync.cap = stateSize ∧ st'.sync.held ≠ [] ∧ st.sync.latest ≤ st'.sync.latest := by
    rw [hsync, Window.latest_append]
    exact ⟨hinv.cap, Window.append_held_ne_nil _ _, Nat.le_succ _⟩
  rcases LockState.advance_cases hinv h with ⟨-, hsync, -⟩ | ⟨sSeqNo, -, hsync, -⟩ |
      ⟨-, hsync, -⟩
  · exact hput _ hsync
  · rw [hsync]
    exact ⟨hinv.cap, hinv.held, Nat.le_refl _⟩
  · exact hput _ hsync

theorem LockState.Inv.testing_advance (hj : st'.phase j = .testing n) :
    st.phase j = .testing n ∨ (n = st'.sync.latest ∧ n = st.sync.latest + 1) := by
  by_cases hji : j = i
  · subst hji
    rcases LockState.advance_cases hinv h with ⟨-, hsync, hphase, -⟩ |
        ⟨sSeqNo, -, -, ⟨hphase, -⟩ | ⟨hphase, -⟩⟩ | ⟨-, -, hphase, -⟩
    · rw [hphase, Function.update_self] at hj
      cases hj
      exact .inr ⟨rfl, by rw [hsync, Window.latest_append]⟩
    all_goals
      rw [hphase, Function.update_self] at hj
      cases hj
  · rcases LockState.advance_cases hinv h with ⟨-, hsync, hphase, -⟩ |
        ⟨sSeqNo, -, -, ⟨hphase, -⟩ | ⟨hphase, -⟩⟩ | ⟨-, -, hphase, -⟩
    all_goals
      rw [hphase, Function.update_of_ne hji] at hj
      exact .inl hj

theorem LockState.Inv.number_advance (hj : st'.phase j = .testing n) :
    2 ≤ n ∧ n ≤ st'.sync.latest := by
  have hpos := st.sync.latest_pos hinv.held
  have hle := (hinv.sync_advance h).2.2
  rcases hinv.testing_advance h hj with hbefore | ⟨hlatest, hnew⟩
  · have := hinv.number j n hbefore
    omega
  · omega

theorem LockState.Inv.advance : st'.Inv := by
  obtain ⟨hcap, hheld, -⟩ := hinv.sync_advance h
  refine ⟨hcap, hheld, fun j n hj => hinv.number_advance h hj, ?_, ?_⟩
  · rcases LockState.advance_cases hinv h with ⟨-, hsync, hphase, -, hprevious⟩ |
        ⟨sSeqNo, hstart, hsync, hphase⟩ | ⟨hstart, hsync, hphase, -⟩
    · have howns := LockState.owns_of_start hinv hsync hphase hprevious
      intro j k hj hk
      rcases (howns j).1 hj with ⟨-, hj⟩ | ⟨rfl, hidle⟩
      · rcases (howns k).1 hk with ⟨-, hk⟩ | ⟨rfl, hidle⟩
        · exact hinv.one j k (.inl hj) (.inl hk)
        · exact absurd (.inl hj) (hinv.free hidle j)
      · rcases (howns k).1 hk with ⟨-, hk⟩ | ⟨rfl, -⟩
        · exact absurd (.inl hk) (hinv.free hidle k)
        · rfl
    · have howns := LockState.owns_of_test hstart hsync hphase
      exact fun j k hj hk => hinv.one j k ((howns j).1 hj) ((howns k).1 hk)
    · exact fun j _ hj => absurd hj (LockState.not_owns_of_release hinv hstart hsync hphase j)
  · rcases LockState.advance_cases hinv h with ⟨-, -, -, hlatest, -⟩ |
        ⟨sSeqNo, hstart, hsync, hphase⟩ | ⟨hstart, hsync, hphase, -⟩
    · intro hidle
      rw [hlatest] at hidle
      cases hidle
    · intro hidle j hj
      rw [LockState.latestState, hsync] at hidle
      exact hinv.free hidle j ((LockState.owns_of_test hstart hsync hphase j).1 hj)
    · exact fun _ => LockState.not_owns_of_release hinv hstart hsync hphase

theorem LockState.Inv.live_advance_iff : st'.Live ↔ st.Live ∧ ¬ st.Interrupts i := by
  rcases LockState.advance_cases hinv h with ⟨hstart, hsync, hphase, hlatest, hprevious⟩ |
      ⟨sSeqNo, hstart, hsync, hphase⟩ | ⟨hstart, hsync, hphase, hlatest⟩
  · have howns := LockState.owns_of_start hinv hsync hphase hprevious
    by_cases hidle : st.latestState = some .idle
    · refine iff_of_true (.inr ⟨i, (howns i).2 (.inr ⟨rfl, hidle⟩)⟩) ⟨.inl hidle, ?_⟩
      rintro ⟨-, j, hj⟩
      exact hinv.free hidle j (.inr hj)
    · constructor
      · rintro (hidle' | ⟨j, hj⟩)
        · rw [hlatest] at hidle'
          cases hidle'
        · rcases (howns j).1 hj with ⟨-, hj⟩ | ⟨-, hidle'⟩
          · refine ⟨.inr ⟨j, .inl hj⟩, ?_⟩
            rintro ⟨-, k, hk⟩
            rw [hinv.one k j (.inr hk) (.inl hj)] at hk
            cases hj.symm.trans hk.1
          · exact absurd hidle' hidle
      · rintro ⟨hlive, hcalm⟩
        obtain ⟨j, hj⟩ := hlive.resolve_left hidle
        rcases hj with hj | hj
        · refine .inr ⟨j, (howns j).2 (.inl ⟨?_, hj⟩)⟩
          rintro rfl
          cases hstart.symm.trans hj
        · exact absurd ⟨hstart, j, hj⟩ hcalm
  · have hcalm : ¬ st.Interrupts i := fun hstop => by cases hstart.symm.trans hstop.1
    have howns := LockState.owns_of_test hstart hsync hphase
    have hlatest : st'.latestState = st.latestState := by
      rw [LockState.latestState, hsync, LockState.latestState]
    rw [LockState.Live, hlatest, exists_congr howns]
    exact (and_iff_left hcalm).symm
  · have hcalm : ¬ st.Interrupts i := fun hstop => by cases hstart.symm.trans hstop.1
    exact iff_of_true (.inl hlatest) ⟨.inr ⟨i, .inl hstart⟩, hcalm⟩

end

end Step

/-! ## Whole runs -/

theorem LockState.run_cons {i : ι} :
    st.run seqNo (i :: schedule) = some st' ↔
      ∃ next, st.advance seqNo i = some next ∧ next.run seqNo schedule = some st' := by
  simp [LockState.run, Option.bind_eq_some_iff]

/-- Along a run the invariant holds, and the idle record is lost by the first interruption. -/
theorem LockState.Inv.run (hinv : st.Inv) (h : st.run seqNo schedule = some st') :
    st'.Inv ∧ (st'.Live ↔ st.Live ∧ Undisturbed seqNo schedule st) := by
  induction schedule generalizing st with
  | nil =>
    cases h
    exact ⟨hinv, by simp [Undisturbed]⟩
  | cons i schedule ih =>
    obtain ⟨next, hnext, h⟩ := LockState.run_cons.1 h
    obtain ⟨hinv', hlive⟩ := ih (hinv.advance hnext) h
    refine ⟨hinv', ?_⟩
    rw [hlive, hinv.live_advance_iff hnext, Undisturbed, and_assoc]
    simp [hnext]

end Lock

/-- In every state of every run no two executions forward at the same time, and when none is in
progress the latest record is idle exactly if no put of the run came between the put and the
test of an execution that would have found the idle record. -/
theorem forwardLock_run {ι : Type} [DecidableEq ι] (seqNo : ι → Nat) {schedule : List ι}
    {st : LockState ι} (hrun : (initialLock ι).run seqNo schedule = some st) :
    (∀ i j, st.phase i = .forwarding → st.phase j = .forwarding → i = j) ∧
      (st.Quiescent → (st.latestState = some .idle ↔
        Undisturbed seqNo schedule (initialLock ι))) := by
  obtain ⟨hinv, hlive⟩ := initialLock_inv.run hrun
  refine ⟨fun i j hi hj => hinv.one i j (.inl hi) (.inl hj), fun hquiescent => ?_⟩
  have hfirst : (initialLock ι).Live := .inl rfl
  rw [← hquiescent.live_iff, hlive]
  exact and_iff_right hfirst

section Runs

def twoHandlers : Bool → Nat
  | false => 1
  | true => 2

theorem forwardLock_run_in_turn :
    ∃ st, (initialLock Bool).run twoHandlers [false, false, false, true, true, true] = some st ∧
      st.latestState = some .idle ∧
      Undisturbed twoHandlers [false, false, false, true, true, true] (initialLock Bool) := by
  have hplay : ((initialLock Bool).run twoHandlers [false, false, false, true, true, true]).map
      (fun st => (st.phase false, st.phase true, st.latestState)) =
        some (.done, .done, some .idle) := by
    decide
  obtain ⟨st, hrun, heq⟩ := Option.map_eq_some_iff.1 hplay
  simp only [Prod.mk.injEq] at heq
  obtain ⟨hfirst, hsecond, hlatest⟩ := heq
  have hquiescent : st.Quiescent := Bool.forall_bool.2 ⟨.inr hfirst, .inr hsecond⟩
  exact ⟨st, hrun, hlatest, ((forwardLock_run _ hrun).2 hquiescent).1 hlatest⟩

/-- Two executions put before either tests: the first finds its record gone, the second an
active one, and the forwarder stays active with nobody in it. -/
theorem forwardLock_stuck :
    ((initialLock Bool).run twoHandlers [false, true, false, true]).map
      (fun st => (st.phase false, st.phase true, st.latestState)) =
        some (.done, .done, some .active) := by
  decide

end Runs

end Cspot.Senspot
