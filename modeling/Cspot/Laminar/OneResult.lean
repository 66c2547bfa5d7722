import Cspot.Laminar.Handler
import Mathlib.Data.List.Nodup

/-!
# One result for every iteration

The lock record is put and read back, but a handler that finds the node locked goes on all
the same.  A node gives one result for every iteration as long as no other handler of the node
puts to the pointer or to the output between a handler's look at it and its own put.
-/

namespace Cspot.Laminar

variable {V N : Type} {α : Type} {seqNo : Nat} {s : State Int Nat}

/-- No handler appended twice for one iteration, and the iteration never goes back. -/
structure OneResult (s : State V N) (n : N) : Prop where
  results : (s.fired n).Nodup
  pointer : (s.pointer n).Pairwise fun before after => before.iter ≤ after.iter

/-- A handler that is about to put finds the last record as it read or left it. -/
def Undisturbed (s : State V N) (proc : Proc V N) : Prop :=
  match proc.phase with
  | .lock _ _ execIterLk => (s.pointer proc.node).getLast? = some execIterLk
  | .write _ _ _ lastSeq => s.lastResultSeq proc.node = lastSeq
  | .release execIterLk => (s.pointer proc.node).getLast? = some ⟨execIterLk.iter, true⟩
  | _ => True

/-! ## Reading -/

theorem woofGet_zero (log : List α) : woofGet log 0 = log.getLast? :=
  Window.readLatest_appendAll_empty _ _ _ _ log

theorem woofGet_of_pos (log : List α) (h : 0 < seqNo) :
    woofGet log seqNo = log[seqNo - 1]? ∨ woofGet log seqNo = none := by
  rw [woofGet, if_neg (Nat.ne_of_gt h), Window.read_appendAll_empty]
  split
  · exact .inl rfl
  · exact .inr rfl

theorem mem_of_woofGet {log : List α} {a : α} (h : woofGet log seqNo = some a) : a ∈ log := by
  rcases Nat.eq_zero_or_pos seqNo with rfl | hpos
  · rw [woofGet_zero] at h
    exact List.mem_of_getLast? h
  · rcases woofGet_of_pos log hpos with heq | heq
    · exact List.mem_of_getElem? (heq ▸ h)
    · rw [heq] at h
      cases h

theorem lastResultSeq_eq {s : State V N} {n : N} {o : Operand V}
    (h : (s.output n).getLast? = some o) : s.lastResultSeq n = o.seq := by
  rw [State.lastResultSeq, woofGet_zero, h]
  rfl

/-! ## The invariant -/

structure NodeOk (g : Graph N) (s : State V N) (n : N) : Prop where
  pointer : (s.pointer n).Pairwise fun before after => before.iter ≤ after.iter
  iter_pos : ∀ record ∈ s.pointer n, 1 ≤ record.iter
  fired : (s.fired n).Pairwise (· < ·)
  last : ∀ k ∈ s.fired n, ∃ o, (s.output n).getLast? = some o ∧ k ≤ o.seq
  operand : g.opcode n = .operand → s.fired n = []

def PhaseOk (s : State V N) (n : N) : Phase V N → Prop
  | .previous _ _ execIterLk lkSeq =>
    1 < lkSeq ∧ 1 ≤ execIterLk.iter ∧ (s.pointer n)[lkSeq - 2]? = some execIterLk
  | .putBack _ => False
  | .write consumerSeq _ _ lastSeq => lastSeq < consumerSeq
  | _ => True

structure Idle (g : Graph N) (s : State V N) (n : N) : Prop where
  pointer : ∀ record ∈ s.pointer n, record.iter = 1
  fired : s.fired n = []
  output : g.opcode n ≠ .operand → s.output n = []

/-- A handler of such a node gets no further than the test of the last result. -/
def IdlePhase : Phase V N → Prop
  | .start => True
  | .port consumerSeq _ _ => consumerSeq = 1
  | .firstRead consumerSeq _ _ => consumerSeq = 1
  | .cachedRead consumerSeq _ _ => consumerSeq = 1
  | .source consumerSeq _ _ _ => consumerSeq = 1
  | .scan consumerSeq _ _ _ _ => consumerSeq = 1
  | .cache consumerSeq _ _ _ _ => consumerSeq = 1
  | .fire consumerSeq _ => consumerSeq = 1
  | .lock consumerSeq _ execIterLk => consumerSeq = 1 ∧ execIterLk.iter = 1
  | .previous consumerSeq _ execIterLk _ => consumerSeq = 1 ∧ execIterLk.iter = 1
  | .test consumerSeq _ _ => consumerSeq = 1
  | .returned => True
  | _ => False

/-- The nodes whose output was put to before the first event, and the others. -/
structure Inv (g : Graph N) (seeds : N → List (Operand V)) (s : State V N) : Prop where
  operand : ∀ proc ∈ s.procs, g.opcode proc.node ≠ .operand
  procs : ∀ proc ∈ s.procs, g.opcode proc.node ≠ .offset →
    (seeds proc.node ≠ [] → PhaseOk s proc.node proc.phase) ∧
      (seeds proc.node = [] → IdlePhase proc.phase)
  nodes : ∀ n, g.opcode n ≠ .offset →
    (seeds n ≠ [] → NodeOk g s n) ∧ (seeds n = [] → Idle g s n)

section Steps

variable {vals : Values V} {g : Graph N} {s s' : State V N} {n : N} {value : V} {eventSeq : Nat}
  {phase : Phase V N} {ops : List (Operand V)} {phase' : Phase V N} {effect : Effect V}
  {eventSeq' : Nat} {outputWoof : Option N}

theorem phaseOk_nextPort (consumerSeq : Nat) (ops : List (Operand V)) (outputWoof : Option N) :
    PhaseOk s n (nextPort g n consumerSeq ops outputWoof) := by
  unfold nextPort
  split <;> trivial

theorem phaseOk_afterCached (consumerSeq : Nat) (ops : List (Operand V)) (outputWoof : Option N)
    (last : CachedOutput V) : PhaseOk s n (afterCached g n consumerSeq ops outputWoof last) := by
  unfold afterCached
  split
  · exact phaseOk_nextPort _ _ _
  · split
    · trivial
    · split <;> trivial

theorem phaseOk_afterScan (consumerSeq : Nat) (ops : List (Operand V)) (src : N)
    (op : Operand V) : PhaseOk s n (afterScan g n consumerSeq ops src op) := by
  unfold afterScan
  split
  · exact phaseOk_nextPort _ _ _
  · trivial

theorem PhaseOk.mono (h : PhaseOk s n phase) (hpointer : s.pointer n <+: s'.pointer n) :
    PhaseOk s' n phase := by
  cases phase with
  | previous consumerSeq ops execIterLk lkSeq =>
    obtain ⟨hlk, hiter, hget⟩ := h
    obtain ⟨more, hmore⟩ := hpointer
    refine ⟨hlk, hiter, ?_⟩
    rw [← hmore, List.getElem?_append_left (List.getElem?_eq_some_iff.1 hget).1]
    exact hget
  | _ => exact h

theorem NodeOk.congr (h : NodeOk g s n) (hpointer : s'.pointer n = s.pointer n)
    (houtput : s'.output n = s.output n) (hfired : s'.fired n = s.fired n) : NodeOk g s' n := by
  refine ⟨?_, ?_, ?_, ?_, ?_⟩
  · rw [hpointer]
    exact h.pointer
  · rw [hpointer]
    exact h.iter_pos
  · rw [hfired]
    exact h.fired
  · rw [hfired, houtput]
    exact h.last
  · rw [hfired]
    exact h.operand

theorem NodeOk.putPointer [DecidableEq N] (h : NodeOk g s n) {last record : ExecutionIterationLock}
    (hlast : (s.pointer n).getLast? = some last) (hle : last.iter ≤ record.iter) :
    NodeOk g (s.apply n (.pointer record)) n := by
  have hpointer : (s.apply n (.pointer record)).pointer n = s.pointer n ++ [record] := by
    simp [State.apply]
  have hbelow : ∀ r ∈ s.pointer n, r.iter ≤ last.iter := by
    obtain ⟨init, hinit⟩ := List.getLast?_eq_some_iff.1 hlast
    have hsorted := h.pointer
    rw [hinit, List.pairwise_append] at hsorted
    intro r hr
    rw [hinit, List.mem_append, List.mem_singleton] at hr
    rcases hr with hr | rfl
    · exact hsorted.2.2 r hr last (List.mem_singleton_self _)
    · exact Nat.le_refl _
  refine ⟨?_, ?_, h.fired, h.last, h.operand⟩
  · rw [hpointer, List.pairwise_append]
    refine ⟨h.pointer, List.pairwise_singleton _ _, ?_⟩
    intro r hr r' hr'
    rw [List.mem_singleton.1 hr']
    exact Nat.le_trans (hbelow r hr) hle
  · rw [hpointer]
    intro r hr
    rcases List.mem_append.1 hr with hr | hr
    · exact h.iter_pos r hr
    · rw [List.mem_singleton.1 hr]
      exact Nat.le_trans (h.iter_pos last (List.mem_of_getLast? hlast)) hle

theorem NodeOk.putOutput [DecidableEq N] (h : NodeOk g s n) {result : Operand V}
    (hoperand : g.opcode n ≠ .operand) (hlt : s.lastResultSeq n < result.seq) :
    NodeOk g (s.apply n (.output result)) n := by
  have hfired : (s.apply n (.output result)).fired n = s.fired n ++ [result.seq] := by
    simp [State.apply]
  have houtput : (s.apply n (.output result)).output n = s.output n ++ [result] := by
    simp [State.apply]
  have hbelow : ∀ k ∈ s.fired n, k < result.seq := by
    intro k hk
    obtain ⟨o, ho, hle⟩ := h.last k hk
    rw [lastResultSeq_eq ho] at hlt
    omega
  refine ⟨h.pointer, h.iter_pos, ?_, ?_, fun hop => absurd hop hoperand⟩
  · rw [hfired, List.pairwise_append]
    refine ⟨h.fired, List.pairwise_singleton _ _, ?_⟩
    intro k hk k' hk'
    rw [List.mem_singleton.1 hk']
    exact hbelow k hk
  · rw [hfired, houtput]
    intro k hk
    refine ⟨result, List.getLast?_concat .., ?_⟩
    rcases List.mem_append.1 hk with hk | hk
    · exact Nat.le_of_lt (hbelow k hk)
    · exact Nat.le_of_eq (List.mem_singleton.1 hk)

theorem NodeOk.handler [DecidableEq N] (h : NodeOk g s n) (hoperand : g.opcode n ≠ .operand)
    (hoffset : g.opcode n ≠ .offset) (hphase : PhaseOk s n phase)
    (hund : Undisturbed s ⟨n, eventSeq, phase⟩)
    (hrun : subscriptionEventHandler vals g s value n eventSeq phase =
      (effect, eventSeq', phase')) :
    NodeOk g (s.apply n effect) n ∧ PhaseOk (s.apply n effect) n phase' := by
  cases phase with
  | start =>
    rw [subscriptionEventHandler] at hrun
    split at hrun
    · cases hrun
      exact ⟨h, trivial⟩
    · split at hrun <;> cases hrun
      · exact ⟨h, trivial⟩
      · exact ⟨h, phaseOk_nextPort _ _ _⟩
  | port consumerSeq ops outputWoof =>
    rw [subscriptionEventHandler] at hrun
    split at hrun <;> cases hrun <;> exact ⟨h, trivial⟩
  | firstRead consumerSeq ops outputWoof =>
    rw [subscriptionEventHandler] at hrun
    split at hrun <;> cases hrun
    · exact ⟨h, trivial⟩
    · exact ⟨h, phaseOk_afterCached _ _ _ _⟩
  | cachedRead consumerSeq ops outputWoof =>
    cases hrun
    exact ⟨h, phaseOk_afterCached _ _ _ _⟩
  | source consumerSeq ops idx src =>
    rw [subscriptionEventHandler] at hrun
    split at hrun <;> cases hrun <;> exact ⟨h, trivial⟩
  | scan consumerSeq ops src idx lastIdx =>
    rw [subscriptionEventHandler] at hrun
    split at hrun
    · cases hrun
      exact ⟨h, trivial⟩
    · split at hrun
      · cases hrun
        exact ⟨h, trivial⟩
      · split at hrun <;> cases hrun
        · exact ⟨h, trivial⟩
        · exact ⟨h, phaseOk_afterScan _ _ _ _⟩
  | cache consumerSeq ops src op idx =>
    cases hrun
    exact ⟨h.congr rfl rfl rfl, phaseOk_afterScan _ _ _ _⟩
  | fire consumerSeq ops =>
    rw [subscriptionEventHandler] at hrun
    split at hrun
    · cases hrun
      exact ⟨h, trivial⟩
    · split at hrun <;> cases hrun <;> exact ⟨h, trivial⟩
  | lock consumerSeq ops execIterLk =>
    have hlast : (s.pointer n).getLast? = some execIterLk := hund
    have hget := hlast
    rw [List.getLast?_eq_getElem?] at hget
    have hlt := (List.getElem?_eq_some_iff.1 hget).1
    cases hrun
    refine ⟨h.putPointer hlast (Nat.le_refl _), ?_, h.iter_pos _ (List.mem_of_getLast? hlast), ?_⟩
    · rw [woofLastSeq]
      omega
    · have hpointer : (s.apply n (.pointer ⟨execIterLk.iter, true⟩)).pointer n =
          s.pointer n ++ [⟨execIterLk.iter, true⟩] := by
        simp [State.apply]
      rw [hpointer, woofLastSeq, show (s.pointer n).length + 1 - 2 = (s.pointer n).length - 1 by
        omega, List.getElem?_append_left hlt]
      exact hget
  | previous consumerSeq ops execIterLk lkSeq =>
    obtain ⟨hlk, hiter, hget⟩ := hphase
    rw [subscriptionEventHandler] at hrun
    have hprev : ¬ execIterLk.iter <
        ((woofGet (s.pointer n) (lkSeq - 1)).getD ⟨1, false⟩).iter := by
      rcases woofGet_of_pos (s.pointer n) (show 0 < lkSeq - 1 by omega) with hread | hread
      · rw [hread, show lkSeq - 1 - 1 = lkSeq - 2 by omega, hget]
        exact Nat.lt_irrefl _
      · rw [hread]
        exact Nat.not_lt.2 hiter
    rw [if_neg hprev] at hrun
    cases hrun
    exact ⟨h, trivial⟩
  | putBack prev => exact hphase.elim
  | test consumerSeq ops execIterLk =>
    rw [subscriptionEventHandler] at hrun
    split at hrun
    · cases hrun
      exact ⟨h, trivial⟩
    · rename_i htest
      split at hrun <;> cases hrun
      · exact ⟨h, trivial⟩
      · refine ⟨h, Nat.lt_of_not_le fun hle => htest ⟨hoffset, hle⟩⟩
  | write consumerSeq ops execIterLk lastSeq =>
    have hlast : s.lastResultSeq n = lastSeq := hund
    have hlt : lastSeq < consumerSeq := hphase
    have hseq : (performOperation vals (g.opcode n) ops consumerSeq value).seq =
        consumerSeq := by
      unfold performOperation
      split
      · rename_i heq
        exact absurd heq hoffset
      · rfl
    cases hrun
    exact ⟨h.putOutput hoperand (by omega), trivial⟩
  | release execIterLk =>
    cases hrun
    exact ⟨h.putPointer hund (Nat.le_succ _), trivial⟩
  | returned =>
    cases hrun
    exact ⟨h, trivial⟩

theorem idlePhase_nextPort : IdlePhase (nextPort g n 1 ops outputWoof) := by
  unfold nextPort
  split <;> rfl

theorem idlePhase_afterCached {last : CachedOutput V} :
    IdlePhase (afterCached g n 1 ops outputWoof last) := by
  unfold afterCached
  split
  · exact idlePhase_nextPort
  · split
    · trivial
    · split <;> trivial

theorem idlePhase_afterScan {src : N} {op : Operand V} :
    IdlePhase (afterScan g n 1 ops src op) := by
  unfold afterScan
  split
  · exact idlePhase_nextPort
  · trivial

theorem Idle.congr (h : Idle g s n) (hpointer : s'.pointer n = s.pointer n)
    (houtput : s'.output n = s.output n) (hfired : s'.fired n = s.fired n) : Idle g s' n := by
  refine ⟨?_, ?_, ?_⟩
  · rw [hpointer]
    exact h.pointer
  · rw [hfired]
    exact h.fired
  · rw [houtput]
    exact h.output

/-- On a node whose output is empty the test finds iteration 1 in an operand nothing was read
into, and takes the first iteration for done. -/
theorem Idle.handler [DecidableEq N] (h : Idle g s n) (hoperand : g.opcode n ≠ .operand)
    (hoffset : g.opcode n ≠ .offset) (hphase : IdlePhase phase)
    (hrun : subscriptionEventHandler vals g s value n eventSeq phase =
      (effect, eventSeq', phase')) :
    Idle g (s.apply n effect) n ∧ IdlePhase phase' := by
  cases phase with
  | start =>
    rw [subscriptionEventHandler] at hrun
    split at hrun
    · cases hrun
      exact ⟨h, trivial⟩
    · rename_i hget
      rw [h.pointer _ (mem_of_woofGet hget)] at hrun
      split at hrun <;> cases hrun
      · exact ⟨h, trivial⟩
      · exact ⟨h, idlePhase_nextPort⟩
  | port consumerSeq ops outputWoof =>
    rw [subscriptionEventHandler] at hrun
    split at hrun <;> cases hrun <;> exact ⟨h, hphase⟩
  | firstRead consumerSeq ops outputWoof =>
    obtain rfl : consumerSeq = 1 := hphase
    rw [subscriptionEventHandler] at hrun
    split at hrun <;> cases hrun
    · exact ⟨h, trivial⟩
    · exact ⟨h, idlePhase_afterCached⟩
  | cachedRead consumerSeq ops outputWoof =>
    obtain rfl : consumerSeq = 1 := hphase
    cases hrun
    exact ⟨h, idlePhase_afterCached⟩
  | source consumerSeq ops idx src =>
    rw [subscriptionEventHandler] at hrun
    split at hrun <;> cases hrun
    · exact ⟨h, trivial⟩
    · exact ⟨h, hphase⟩
  | scan consumerSeq ops src idx lastIdx =>
    obtain rfl : consumerSeq = 1 := hphase
    rw [subscriptionEventHandler] at hrun
    split at hrun
    · cases hrun
      exact ⟨h, trivial⟩
    · split at hrun
      · cases hrun
        exact ⟨h, rfl⟩
      · split at hrun <;> cases hrun
        · exact ⟨h, rfl⟩
        · exact ⟨h, idlePhase_afterScan⟩
  | cache consumerSeq ops src op idx =>
    obtain rfl : consumerSeq = 1 := hphase
    cases hrun
    exact ⟨h.congr rfl rfl rfl, idlePhase_afterScan⟩
  | fire consumerSeq ops =>
    rw [subscriptionEventHandler] at hrun
    split at hrun
    · cases hrun
      exact ⟨h, trivial⟩
    · rename_i hget
      split at hrun <;> cases hrun
      · exact ⟨h, trivial⟩
      · exact ⟨h, hphase, h.pointer _ (mem_of_woofGet hget)⟩
  | lock consumerSeq ops execIterLk =>
    obtain ⟨hseq, hiter⟩ := hphase
    cases hrun
    refine ⟨⟨?_, h.fired, h.output⟩, hseq, hiter⟩
    intro record hrecord
    have hpointer : (s.apply n (.pointer ⟨execIterLk.iter, true⟩)).pointer n =
        s.pointer n ++ [⟨execIterLk.iter, true⟩] := by
      simp [State.apply]
    rw [hpointer, List.mem_append, List.mem_singleton] at hrecord
    rcases hrecord with hrecord | rfl
    · exact h.pointer record hrecord
    · exact hiter
  | previous consumerSeq ops execIterLk lkSeq =>
    obtain ⟨hseq, hiter⟩ := hphase
    have hprev : ((woofGet (s.pointer n) (lkSeq - 1)).getD ⟨1, false⟩).iter = 1 := by
      cases hget : woofGet (s.pointer n) (lkSeq - 1) with
      | none => rfl
      | some record => exact h.pointer record (mem_of_woofGet hget)
    rw [subscriptionEventHandler, if_neg (by omega)] at hrun
    cases hrun
    exact ⟨h, hseq⟩
  | test consumerSeq ops execIterLk =>
    have hseq : consumerSeq = 1 := hphase
    have hlast : s.lastResultSeq n = 1 := by
      rw [State.lastResultSeq, h.output hoperand, woofGet_zero]
      rfl
    rw [subscriptionEventHandler, if_pos ⟨hoffset, by omega⟩] at hrun
    cases hrun
    exact ⟨h, trivial⟩
  | returned =>
    cases hrun
    exact ⟨h, trivial⟩
  | _ => exact hphase.elim

theorem setup_inv (seeds : N → List (Operand V)) : Inv g seeds (setup seeds) := by
  refine ⟨by simp [setup], by simp [setup], ?_⟩
  intro n _
  refine ⟨fun _ => ⟨List.pairwise_singleton _ _, by simp [setup], .nil, by simp [setup],
    fun _ => rfl⟩, fun hseeds => ⟨by simp [setup], rfl, fun _ => hseeds⟩⟩

variable [DecidableEq N] {seeds : N → List (Operand V)}

theorem apply_of_ne (s : State V N) (effect : Effect V) {m : N} (h : m ≠ n) :
    (s.apply n effect).pointer m = s.pointer m ∧ (s.apply n effect).output m = s.output m ∧
      (s.apply n effect).fired m = s.fired m := by
  cases effect <;> simp [State.apply, h]

theorem apply_pointer_grows (effect : Effect V) (m : N) :
    s.pointer m <+: (s.apply n effect).pointer m := by
  by_cases hm : m = n
  · subst hm
    cases effect <;> simp [State.apply]
  · exact ⟨[], by rw [List.append_nil, (apply_of_ne s effect hm).1]⟩

/-- The condition on the operations of a run: handlers of an ordinary node whose output was
put to before are not disturbed. -/
def Careful (g : Graph N) (seeds : N → List (Operand V)) (s : State V N) (proc : Proc V N) :
    Prop :=
  g.opcode proc.node ≠ .offset → seeds proc.node ≠ [] → Undisturbed s proc

theorem Inv.run (h : Inv g seeds s) (i : Nat) (value : V)
    (hmeets : ∀ proc, s.procs[i]? = some proc → Careful g seeds s proc) :
    Inv g seeds (s.run vals g i value) := by
  unfold State.run
  split
  · exact h
  · rename_i proc hproc
    have hmem := List.mem_of_getElem? hproc
    have hoperand := h.operand proc hmem
    obtain ⟨effect, eventSeq, phase, hrun⟩ : ∃ effect eventSeq phase,
        subscriptionEventHandler vals g s value proc.node proc.eventSeq proc.phase =
          (effect, eventSeq, phase) := ⟨_, _, _, rfl⟩
    rw [hrun]
    -- the handler itself, if its node is an ordinary one
    have hseeded (hoffset : g.opcode proc.node ≠ .offset) (hseeds : seeds proc.node ≠ []) :=
      ((h.nodes proc.node hoffset).1 hseeds).handler hoperand hoffset
        ((h.procs proc hmem hoffset).1 hseeds) (hmeets proc hproc hoffset hseeds) hrun
    have hidle (hoffset : g.opcode proc.node ≠ .offset) (hseeds : seeds proc.node = []) :=
      ((h.nodes proc.node hoffset).2 hseeds).handler hoperand hoffset
        ((h.procs proc hmem hoffset).2 hseeds) hrun
    refine ⟨?_, ?_, ?_⟩
    · intro p hp
      rcases List.mem_or_eq_of_mem_set hp with hp | rfl
      · exact h.operand p hp
      · exact hoperand
    · intro p hp hoffset
      rcases List.mem_or_eq_of_mem_set hp with hp | rfl
      · obtain ⟨hok, hidle⟩ := h.procs p hp hoffset
        exact ⟨fun hseeds => (hok hseeds).mono (apply_pointer_grows effect p.node), hidle⟩
      · exact ⟨fun hseeds => (hseeded hoffset hseeds).2.mono (List.prefix_refl _),
          fun hseeds => (hidle hoffset hseeds).2⟩
    · intro n hn
      by_cases hsame : n = proc.node
      · subst hsame
        exact ⟨fun hseeds => (hseeded hn hseeds).1.congr rfl rfl rfl,
          fun hseeds => (hidle hn hseeds).1.congr rfl rfl rfl⟩
      · obtain ⟨hpointer, houtput, hfired⟩ := apply_of_ne s effect hsame
        obtain ⟨hok, hidle⟩ := h.nodes n hn
        exact ⟨fun hseeds => (hok hseeds).congr hpointer houtput hfired,
          fun hseeds => (hidle hseeds).congr hpointer houtput hfired⟩

theorem Inv.feed (h : Inv g seeds s) (op : Operand V) (hn : g.opcode n = .operand) :
    Inv g seeds { s with output := Function.update s.output n (s.output n ++ [op]) } := by
  refine ⟨h.operand, ?_, ?_⟩
  · intro proc hproc hoffset
    obtain ⟨hok, hidle⟩ := h.procs proc hproc hoffset
    exact ⟨fun hseeds => (hok hseeds).mono (List.prefix_refl _), hidle⟩
  · intro m hm
    obtain ⟨hok, hidle⟩ := h.nodes m hm
    by_cases hsame : m = n
    · subst hsame
      refine ⟨fun hseeds => ?_, fun hseeds => ⟨(hidle hseeds).pointer, (hidle hseeds).fired,
        fun hop => absurd hn hop⟩⟩
      have hnode := hok hseeds
      exact ⟨hnode.pointer, hnode.iter_pos, hnode.fired, by simp [hnode.operand hn],
        hnode.operand⟩
    · have houtput := Function.update_of_ne hsame (s.output n ++ [op]) s.output
      exact ⟨fun hseeds => (hok hseeds).congr rfl houtput rfl,
        fun hseeds => (hidle hseeds).congr rfl houtput rfl⟩

theorem Reachable.inv (h : Reachable vals g seeds (Careful g seeds) s) : Inv g seeds s := by
  induction h with
  | setup => exact setup_inv seeds
  | event hs n eventSeq hn ih =>
    refine ⟨?_, ?_, ?_⟩
    · intro proc hproc
      rcases List.mem_append.1 hproc with hproc | hproc
      · exact ih.operand proc hproc
      · rw [List.mem_singleton.1 hproc]
        exact hn
    · intro proc hproc hoffset
      rcases List.mem_append.1 hproc with hproc | hproc
      · obtain ⟨hok, hidle⟩ := ih.procs proc hproc hoffset
        exact ⟨fun hseeds => (hok hseeds).mono (List.prefix_refl _), hidle⟩
      · rw [List.mem_singleton.1 hproc]
        exact ⟨fun _ => trivial, fun _ => trivial⟩
    · intro m hm
      obtain ⟨hok, hidle⟩ := ih.nodes m hm
      exact ⟨fun hseeds => (hok hseeds).congr rfl rfl rfl,
        fun hseeds => (hidle hseeds).congr rfl rfl rfl⟩
  | feed hs n op hn ih => exact ih.feed op hn
  | run hs i value hmeets ih => exact ih.run i value hmeets

/-- In every run in which no handler of an ordinary node is disturbed between a look and the
put that rests on it; nodes whose output starts empty need no such care, since they never
fire. -/
theorem reachable_oneResult {seeds : N → List (Operand V)}
    (h : Reachable vals g seeds (Careful g seeds) s) :
    ∀ n, g.opcode n ≠ .offset → OneResult s n := by
  intro n hn
  obtain ⟨hok, hidle⟩ := h.inv.nodes n hn
  by_cases hseeds : seeds n = []
  · have hnode := hidle hseeds
    refine ⟨by rw [hnode.fired]; exact .nil, ?_⟩
    apply List.pairwise_of_forall_mem_list
    intro before hbefore after hafter
    exact Nat.le_of_eq ((hnode.pointer before hbefore).trans (hnode.pointer after hafter).symm)
  · have hnode := hok hseeds
    exact ⟨hnode.fired.imp Nat.ne_of_lt, hnode.pointer⟩

end Steps

/-! ## Two handlers of one node -/

def intValues : Values Int := ⟨0, fun v => v ≠ 0, Int.toNat⟩

def oneSum : Graph Nat where
  opcode := fun n => if n = 1 then .operand else .add
  subscriptions := fun n => if n = 1 then [] else [1]

def oneSumSeeds (n : Nat) : List (Operand Int) := if n = 2 then [⟨0, 0⟩] else []

def play (s : State Int Nat) (order : List Nat) : State Int Nat :=
  order.foldl (fun s i => s.run intValues oneSum i 5) s

theorem play_reachable (h : Reachable intValues oneSum oneSumSeeds (fun _ _ => True) s)
    (order : List Nat) :
    Reachable intValues oneSum oneSumSeeds (fun _ _ => True) (play s order) := by
  induction order generalizing s with
  | nil => exact h
  | cons i order ih => exact ih (h.run i 5 fun _ _ => trivial)

def twoEvents : State Int Nat :=
  { setup oneSumSeeds with
    output := Function.update oneSumSeeds 1 [⟨5, 1⟩]
    procs := [⟨2, 1, .start⟩, ⟨2, 1, .start⟩] }

theorem twoEvents_reachable (Meets : State Int Nat → Proc Int Nat → Prop) :
    Reachable intValues oneSum oneSumSeeds Meets twoEvents :=
  ((Reachable.setup.feed 1 ⟨5, 1⟩ rfl).event 2 1 (by decide)).event 2 1 (by decide)

def Undisturbing (s : State Int Nat) : List Nat → Prop
  | [] => True
  | i :: order => (∀ proc ∈ s.procs[i]?, Undisturbed s proc) ∧
      Undisturbing (s.run intValues oneSum i 5) order

theorem play_careful {order : List Nat}
    (h : Reachable intValues oneSum oneSumSeeds (Careful oneSum oneSumSeeds) s)
    (horder : Undisturbing s order) :
    Reachable intValues oneSum oneSumSeeds (Careful oneSum oneSumSeeds) (play s order) := by
  induction order generalizing s with
  | nil => exact h
  | cons i order ih => exact ih (h.run i 5 fun proc hproc _ _ => horder.1 proc hproc) horder.2

/-- The first handler alone, up to its next iteration. -/
theorem reachable_oneResult_sum :
    ∃ s, Reachable intValues oneSum oneSumSeeds (Careful oneSum oneSumSeeds) s ∧
      s.fired 2 = [1] ∧ ∀ n, oneSum.opcode n ≠ .offset → OneResult s n := by
  have hstart := twoEvents_reachable (Careful oneSum oneSumSeeds)
  have horder : Undisturbing twoEvents (List.replicate 12 0) := by
    refine ⟨?_, ?_, ?_, ?_, ?_, ?_, ?_, ?_, ?_, ?_, ?_, ?_, trivial⟩ <;>
      (intro proc hproc; cases hproc; trivial)
  have hreach := play_careful hstart horder
  exact ⟨_, hreach, by decide, reachable_oneResult hreach⟩

/-- Both handlers pass the test of the last result before either has written; and a handler
that puts its lock record late takes the iteration back from 2 to 1. -/
theorem handlers_write_twice :
    (∃ s, Reachable intValues oneSum oneSumSeeds (fun _ _ => True) s ∧ s.fired 2 = [1, 1] ∧
        ¬ OneResult s 2) ∧
      ∃ s, Reachable intValues oneSum oneSumSeeds (fun _ _ => True) s ∧
        (s.pointer 2).map ExecutionIterationLock.iter = [1, 1, 2, 1] ∧ ¬ OneResult s 2 := by
  have hstart := twoEvents_reachable fun _ _ => True
  have htwice : (play twoEvents (.replicate 10 0 ++ .replicate 7 1 ++ [0, 1])).fired 2 =
      [1, 1] := by
    decide
  have hback : ((play twoEvents (.replicate 6 0 ++ .replicate 4 1 ++ .replicate 6 0 ++ [1])).pointer
      2).map ExecutionIterationLock.iter = [1, 1, 2, 1] := by
    decide
  refine ⟨⟨_, play_reachable hstart _, htwice, ?_⟩, ⟨_, play_reachable hstart _, hback, ?_⟩⟩
  · intro h
    have hnodup := h.results
    rw [htwice] at hnodup
    exact absurd hnodup (by decide)
  · intro h
    have hsorted := List.pairwise_map.2 h.pointer
    rw [hback] at hsorted
    exact absurd hsorted (by decide)

end Cspot.Laminar
