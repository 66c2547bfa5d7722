import Cspot.Lib.Window
import Cspot.Raft.Server

/-!
# The lock between the handlers of a server

A lock is a pair of WooFs.  A process puts to the first and waits until the latest number of the
second is the number it got; it lets the next one in by a put to the second.  The second WooF is
created with one element in it, for whoever comes first.
-/

namespace Cspot.Raft

inductive LockPhase
  | idle
  /-- In the loop of `raft_lock`, with the number of its put. -/
  | waiting (seq : Nat)
  | holding (seq : Nat)
deriving Repr, DecidableEq

/-- The two WooFs, where every process stands, and what has happened so far: the puts to the first
WooF with their numbers, and the calls of `raft_lock` that have returned success. -/
structure Lock (ι : Type) where
  lockWoof : Window Unit
  unlockWoof : Window Unit
  phase : ι → LockPhase
  issued : List (ι × Nat)
  acquired : List (ι × Nat)

def emptyLockWoof : Window Unit := Window.empty historySizeShort 1 (by decide) Nat.one_pos

def raftInitLock (ι : Type) : Lock ι where
  lockWoof := emptyLockWoof
  unlockWoof := emptyLockWoof.append ()
  phase := fun _ => .idle
  issued := []
  acquired := []

/-- One operation of a process on a WooF: the put of `raft_lock`, one turn of its loop, the put of
`raft_unlock`.  An operation that is not valid leaves the WooF as it is and returns -1. -/
inductive LockStep (ι : Type)
  | lock (i : ι) (valid : Bool)
  | spin (i : ι) (valid : Bool)
  | unlock (i : ι) (valid : Bool)
deriving Repr

def Lock.Holds {ι : Type} (l : Lock ι) (i : ι) : Prop := ∃ seq, l.phase i = .holding seq

section Steps

variable {ι : Type} [DecidableEq ι]

/-- A process that does not wait may call `raft_lock`, one that holds the lock `raft_unlock`. -/
def Lock.step (l : Lock ι) : LockStep ι → Option (Lock ι)
  | .lock i valid =>
    match l.phase i with
    | .idle =>
      if valid then
        some { l with
          lockWoof := l.lockWoof.append ()
          phase := Function.update l.phase i (.waiting l.lockWoof.next)
          issued := l.issued ++ [(i, l.lockWoof.next)] }
      else some l
    | _ => none
  | .spin i valid =>
    match l.phase i with
    | .waiting seq =>
      if valid ∧ l.unlockWoof.latest = seq then
        some { l with
          phase := Function.update l.phase i (.holding seq)
          acquired := l.acquired ++ [(i, seq)] }
      else some l
    | _ => none
  | .unlock i valid =>
    match l.phase i with
    | .holding _ =>
      some { l with
        unlockWoof := if valid then l.unlockWoof.append () else l.unlockWoof
        phase := Function.update l.phase i .idle }
    | _ => none

def Lock.run (l : Lock ι) : List (LockStep ι) → Option (Lock ι)
  | [] => some l
  | step :: steps => (l.step step).bind fun l => l.run steps

end Steps

/-! ## Who is served -/

section Inv

variable {ι : Type} {l : Lock ι} {i j : ι}

/-- The puts are numbered from one on and served in their order; at most the one that was served
last has yet to call `raft_unlock`. -/
structure Lock.Inv (l : Lock ι) : Prop where
  next : l.lockWoof.next = l.issued.length + 1
  numbered : l.issued.map Prod.snd = List.range' 1 l.issued.length
  served : l.acquired <+: l.issued
  latest : l.acquired.length ≤ l.unlockWoof.latest ∧
    l.unlockWoof.latest ≤ l.acquired.length + 1
  waiting : ∀ i seq, l.phase i = .waiting seq → l.acquired.length < seq ∧ (i, seq) ∈ l.issued
  holding : ∀ i seq, l.phase i = .holding seq →
    seq = l.acquired.length ∧ l.unlockWoof.latest = seq ∧ (i, seq) ∈ l.issued

theorem raftInitLock_inv (ι : Type) : (raftInitLock ι).Inv where
  next := rfl
  numbered := rfl
  served := List.prefix_rfl
  latest := ⟨Nat.zero_le 1, Nat.le_refl 1⟩
  waiting _ _ h := by cases h
  holding _ _ h := by cases h

theorem Lock.Inv.eq_of_mem (h : l.Inv) {seq : Nat} (hi : (i, seq) ∈ l.issued)
    (hj : (j, seq) ∈ l.issued) : i = j := by
  have hnodup : (l.issued.map Prod.snd).Nodup := by
    rw [h.numbered]
    exact List.nodup_range'
  exact congrArg Prod.fst (List.inj_on_of_nodup_map hnodup hi hj rfl)

theorem Lock.Inv.eq_of_holds (h : l.Inv) (hi : l.Holds i) (hj : l.Holds j) : i = j := by
  obtain ⟨seq, hi⟩ := hi
  obtain ⟨seq', hj⟩ := hj
  obtain ⟨hseq, -, hi⟩ := h.holding i seq hi
  obtain ⟨hseq', -, hj⟩ := h.holding j seq' hj
  rw [hseq] at hi
  rw [hseq'] at hj
  exact h.eq_of_mem hi hj

theorem Lock.Inv.served_concat (h : l.Inv) (hmem : (i, l.acquired.length + 1) ∈ l.issued) :
    l.acquired ++ [(i, l.acquired.length + 1)] <+: l.issued := by
  obtain ⟨later, hissued⟩ := h.served
  have hnumbers := h.numbered
  cases later with
  | nil =>
    rw [List.append_nil] at hissued
    have hseq : l.acquired.length + 1 ∈ l.issued.map Prod.snd := List.mem_map_of_mem hmem
    rw [hnumbers, List.mem_range'_1, ← hissued] at hseq
    omega
  | cons first later =>
    have hfirst : l.issued[l.acquired.length]? = some first := by
      rw [← hissued]
      simp
    have hsecond : (l.issued.map Prod.snd)[l.acquired.length]? = some first.2 := by
      rw [List.getElem?_map, hfirst]
      rfl
    rw [hnumbers, List.getElem?_range' (by rw [← hissued]; simp)] at hsecond
    have hseq : first.2 = l.acquired.length + 1 := by
      have heq := Option.some.inj hsecond
      omega
    have hin : (first.1, l.acquired.length + 1) ∈ l.issued := by
      rw [← hseq]
      exact List.mem_of_getElem? hfirst
    have heq : first = (i, l.acquired.length + 1) := Prod.ext (h.eq_of_mem hin hmem) hseq
    refine ⟨later, ?_⟩
    rw [← heq, List.append_assoc]
    exact hissued

end Inv

/-! ## Runs -/

section Runs

variable {ι : Type} [DecidableEq ι] {l l' : Lock ι} {i : ι}

theorem update_phase_cases {phase : ι → LockPhase} {new old : LockPhase} {j : ι}
    (h : Function.update phase i new j = old) : j = i ∧ new = old ∨ j ≠ i ∧ phase j = old := by
  by_cases hji : j = i
  · rw [hji, Function.update_self] at h
    exact .inl ⟨hji, h⟩
  · rw [Function.update_of_ne hji] at h
    exact .inr ⟨hji, h⟩

theorem Lock.step_cases {step : LockStep ι} (h : l.step step = some l') :
    l' = l ∨
      (∃ i, l.phase i = .idle ∧ l' = { l with
        lockWoof := l.lockWoof.append ()
        phase := Function.update l.phase i (.waiting l.lockWoof.next)
        issued := l.issued ++ [(i, l.lockWoof.next)] }) ∨
      (∃ i, l.phase i = .waiting l.unlockWoof.latest ∧ l' = { l with
        phase := Function.update l.phase i (.holding l.unlockWoof.latest)
        acquired := l.acquired ++ [(i, l.unlockWoof.latest)] }) ∨
      ∃ i seq woof, l.phase i = .holding seq ∧
        (woof = l.unlockWoof ∨ woof = l.unlockWoof.append ()) ∧
        l' = { l with unlockWoof := woof, phase := Function.update l.phase i .idle } := by
  cases step with
  | lock i valid =>
    cases hphase : l.phase i with
    | idle =>
      cases valid with
      | false => exact .inl (by simpa [Lock.step, hphase] using h.symm)
      | true =>
        exact .inr (.inl ⟨i, hphase, by simpa [Lock.step, hphase] using h.symm⟩)
    | waiting seq => simp [Lock.step, hphase] at h
    | holding seq => simp [Lock.step, hphase] at h
  | spin i valid =>
    cases hphase : l.phase i with
    | idle => simp [Lock.step, hphase] at h
    | waiting seq =>
      simp only [Lock.step, hphase] at h
      by_cases hturn : valid = true ∧ l.unlockWoof.latest = seq
      · rw [if_pos hturn, Option.some.injEq] at h
        rw [← hturn.2] at h hphase
        exact .inr (.inr (.inl ⟨i, hphase, h.symm⟩))
      · rw [if_neg hturn, Option.some.injEq] at h
        exact .inl h.symm
    | holding seq => simp [Lock.step, hphase] at h
  | unlock i valid =>
    cases hphase : l.phase i with
    | idle => simp [Lock.step, hphase] at h
    | waiting seq => simp [Lock.step, hphase] at h
    | holding seq =>
      simp only [Lock.step, hphase, Option.some.injEq] at h
      refine .inr (.inr (.inr ⟨i, seq, _, hphase, ?_, h.symm⟩))
      cases valid with
      | false => exact .inl rfl
      | true => exact .inr rfl

theorem Lock.Inv.lock (h : l.Inv) (i : ι) :
    Lock.Inv { l with
      lockWoof := l.lockWoof.append ()
      phase := Function.update l.phase i (.waiting l.lockWoof.next)
      issued := l.issued ++ [(i, l.lockWoof.next)] } where
  next := by simp [h.next]
  numbered := by
    rw [List.map_append, h.numbered, h.next, List.length_append, List.length_singleton,
      List.range'_concat]
    simp [Nat.add_comm]
  served := h.served.trans (List.prefix_append _ _)
  latest := h.latest
  waiting j seq hj := by
    have hlen := h.served.length_le
    have hnext := h.next
    rcases update_phase_cases hj with ⟨rfl, hnew⟩ | ⟨-, hj⟩
    · cases hnew
      show l.acquired.length < l.lockWoof.next ∧
        (j, l.lockWoof.next) ∈ l.issued ++ [(j, l.lockWoof.next)]
      exact ⟨by omega, by simp⟩
    · obtain ⟨hlt, hmem⟩ := h.waiting j seq hj
      exact ⟨hlt, List.mem_append_left _ hmem⟩
  holding j seq hj := by
    rcases update_phase_cases hj with ⟨-, hnew⟩ | ⟨-, hj⟩
    · cases hnew
    · obtain ⟨hseq, hlatest, hmem⟩ := h.holding j seq hj
      exact ⟨hseq, hlatest, List.mem_append_left _ hmem⟩

theorem Lock.Inv.spin (h : l.Inv) (hi : l.phase i = .waiting l.unlockWoof.latest) :
    Lock.Inv { l with
      phase := Function.update l.phase i (.holding l.unlockWoof.latest)
      acquired := l.acquired ++ [(i, l.unlockWoof.latest)] } := by
  obtain ⟨hlt, hmem⟩ := h.waiting i _ hi
  have hlatest : l.unlockWoof.latest = l.acquired.length + 1 := by
    have hle := h.latest.2
    omega
  have hlength : (l.acquired ++ [(i, l.unlockWoof.latest)]).length = l.acquired.length + 1 := by
    simp
  refine ⟨h.next, h.numbered, ?_, ?_, ?_, ?_⟩
  · rw [hlatest] at hmem ⊢
    exact h.served_concat hmem
  · rw [hlength]
    show _ ≤ l.unlockWoof.latest ∧ l.unlockWoof.latest ≤ _
    omega
  · intro j seq hj
    rcases update_phase_cases hj with ⟨-, hnew⟩ | ⟨hji, hj⟩
    · cases hnew
    obtain ⟨hafter, hmem'⟩ := h.waiting j seq hj
    -- another process waits for another number
    have hne : seq ≠ l.acquired.length + 1 := by
      intro heq
      rw [heq, ← hlatest] at hmem'
      exact hji (h.eq_of_mem hmem' hmem)
    rw [hlength]
    exact ⟨by omega, hmem'⟩
  · intro j seq hj
    rcases update_phase_cases hj with ⟨rfl, hnew⟩ | ⟨-, hj⟩
    · cases hnew
      rw [hlength]
      exact ⟨hlatest, rfl, hmem⟩
    · -- whoever held the lock would be the last that was served
      obtain ⟨hseq, hheld, -⟩ := h.holding j seq hj
      omega

theorem Lock.Inv.unlock (h : l.Inv) {seq : Nat} (hi : l.phase i = .holding seq)
    {woof : Window Unit} (hwoof : woof = l.unlockWoof ∨ woof = l.unlockWoof.append ()) :
    Lock.Inv { l with unlockWoof := woof, phase := Function.update l.phase i .idle } := by
  obtain ⟨hseq, hlatest, -⟩ := h.holding i seq hi
  have hlatest' : l.acquired.length ≤ woof.latest ∧ woof.latest ≤ l.acquired.length + 1 := by
    rcases hwoof with rfl | rfl
    · exact h.latest
    · rw [Window.latest_append]
      omega
  refine ⟨h.next, h.numbered, h.served, hlatest', ?_, ?_⟩
  · intro j seq' hj
    rcases update_phase_cases hj with ⟨-, hnew⟩ | ⟨-, hj⟩
    · cases hnew
    · exact h.waiting j seq' hj
  · intro j seq' hj
    rcases update_phase_cases hj with ⟨-, hnew⟩ | ⟨hji, hj⟩
    · cases hnew
    · exact absurd (h.eq_of_holds ⟨seq', hj⟩ ⟨seq, hi⟩) hji

theorem Lock.Inv.step (h : l.Inv) {step : LockStep ι} (hstep : l.step step = some l') :
    l'.Inv := by
  rcases Lock.step_cases hstep with
    rfl | ⟨i, -, rfl⟩ | ⟨i, hi, rfl⟩ | ⟨i, seq, woof, hi, hwoof, rfl⟩
  · exact h
  · exact h.lock i
  · exact h.spin hi
  · exact h.unlock hi hwoof

theorem Lock.Inv.run (h : l.Inv) {steps : List (LockStep ι)} (hrun : l.run steps = some l') :
    l'.Inv := by
  induction steps generalizing l with
  | nil =>
    cases hrun
    exact h
  | cons step steps ih =>
    obtain ⟨next, hstep, hrest⟩ := Option.bind_eq_some_iff.1 hrun
    exact ih (h.step hstep) hrest

/-- However the processes run interleaved, at most one of them holds the lock, and they get it in
the order of their puts to the first WooF, which numbers them from one on. -/
theorem raftLock_exclusive {steps : List (LockStep ι)}
    (hrun : (raftInitLock ι).run steps = some l) :
    (∀ i j, l.Holds i → l.Holds j → i = j) ∧ l.acquired <+: l.issued ∧
      l.issued.map Prod.snd = List.range' 1 l.issued.length := by
  have h := (raftInitLock_inv ι).run hrun
  exact ⟨fun i j hi hj => h.eq_of_holds hi hj, h.served, h.numbered⟩

end Runs

/-- Two processes, of which the second has put first. -/
theorem raftLock_exclusive_pair :
    ∃ l, (raftInitLock Bool).run [.lock true true, .lock false true, .spin false true,
        .spin true true, .unlock true true, .spin false true] = some l ∧
      l.Holds false ∧ l.acquired = [(true, 1), (false, 2)] ∧
      ((∀ i j, l.Holds i → l.Holds j → i = j) ∧ l.acquired <+: l.issued ∧
        l.issued.map Prod.snd = List.range' 1 l.issued.length) := by
  have hrun : ∃ l, (raftInitLock Bool).run [.lock true true, .lock false true, .spin false true,
      .spin true true, .unlock true true, .spin false true] = some l ∧
      l.phase false = .holding 2 ∧ l.acquired = [(true, 1), (false, 2)] :=
    ⟨_, rfl, rfl, rfl⟩
  obtain ⟨l, hrun, hphase, hacquired⟩ := hrun
  exact ⟨l, hrun, ⟨2, hphase⟩, hacquired, raftLock_exclusive hrun⟩

end Cspot.Raft
