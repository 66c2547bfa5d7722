import Cspot.Dataflow.Handler

/-!
# How long the handlers run

A handler writes at most three records, and each of its two scans goes down the log as it was
when the scan began.  With a bound on the handlers there is one on the records, and with both
every operation brings the end of the run nearer, in whatever order the handlers take turns.
-/

namespace Cspot.Dataflow

variable {V : Type}

def recordsLeft : Phase V → Nat
  | .claiming => 3
  | .scanning _ _ => 2
  | .making _ _ => 2
  | .future _ _ _ => 1
  | .retiring _ _ => 1
  | .sending _ _ => 0
  | .returned => 0
  | .failed => 0

/-- The operations a handler may still need while the log has at most `bound` records. -/
def turnsLeft (bound : Nat) : Phase V → Nat
  | .claiming => 2 * bound + 6
  | .scanning _ seqno => bound + seqno + 5
  | .making _ _ => bound + 4
  | .future _ fSeqno _ => fSeqno + 3
  | .retiring _ _ => 2
  | .sending _ _ => 1
  | .returned => 0
  | .failed => 0

section Handler

variable {dfOperation : Int → V → V → V} {operand : Operand V} {s : State V} {bound : Nat}

theorem scanned_recordsLeft (cSeqno seqno : Nat) (node : Node V) :
    recordsLeft (scanned dfOperation operand cSeqno seqno node) ≤ 2 := by
  unfold scanned
  split_ifs <;> simp [recordsLeft]

theorem scanned_turnsLeft (cSeqno seqno : Nat) (node : Node V) :
    turnsLeft bound (scanned dfOperation operand cSeqno seqno node) < bound + seqno + 5 := by
  unfold scanned
  split_ifs <;> simp only [turnsLeft] <;> omega

theorem dfhandler_recordsLeft (dfOperation : Int → V → V → V) (s : State V)
    (operand : Operand V) (phase : Phase V) :
    (dfhandler dfOperation s operand phase).1.length +
      recordsLeft (dfhandler dfOperation s operand phase).2.2 ≤ recordsLeft phase := by
  cases phase with
  | scanning cSeqno seqno =>
    rw [dfhandler]
    cases s.get seqno with
    | none => simp [recordsLeft]
    | some node => simpa [recordsLeft] using scanned_recordsLeft cSeqno seqno node
  | future cSeqno fSeqno node =>
    rw [dfhandler]
    split_ifs
    · cases s.get fSeqno with
      | none => simp [recordsLeft]
      | some fnode =>
        dsimp only
        split_ifs <;> simp [recordsLeft]
    · simp [recordsLeft]
  | _ => simp [dfhandler, recordsLeft]

theorem dfhandler_turnsLeft (dfOperation : Int → V → V → V) (hbound : s.prog.length ≤ bound)
    (operand : Operand V) {phase : Phase V} (hreturned : phase ≠ .returned)
    (hfailed : phase ≠ .failed) :
    turnsLeft bound (dfhandler dfOperation s operand phase).2.2 < turnsLeft bound phase := by
  cases phase with
  | claiming =>
    simp only [dfhandler, turnsLeft]
    omega
  | scanning cSeqno seqno =>
    rw [dfhandler]
    cases s.get seqno with
    | none =>
      simp only [turnsLeft]
      omega
    | some node => exact scanned_turnsLeft cSeqno seqno node
  | making cSeqno node =>
    simp only [dfhandler, turnsLeft]
    omega
  | future cSeqno fSeqno node =>
    rw [dfhandler]
    split_ifs with hlt
    · cases s.get fSeqno with
      | none => simp [turnsLeft]
      | some fnode =>
        dsimp only
        split_ifs <;> simp only [turnsLeft] <;> omega
    · simp [turnsLeft]
  | retiring node result => simp [dfhandler, turnsLeft]
  | sending node result => simp [dfhandler, turnsLeft]
  | returned => exact absurd rfl hreturned
  | failed => exact absurd rfl hfailed

end Handler

/-! ## Runs -/

def total (f : Phase V → Nat) : List (Proc V) → Nat
  | [] => 0
  | proc :: rest => f proc.phase + total f rest

/-- The operations up to the end of a run of at most `handlers` handlers on at most `bound`
records. -/
def State.turnsLeft (s : State V) (bound handlers : Nat) : Nat :=
  total (Dataflow.turnsLeft bound) s.procs + (handlers - s.procs.length) * (2 * bound + 7)

section Runs

variable {dfOperation : Int → V → V → V} {nodes : List (Node V)} {s s' : State V} {bound : Nat}
  {handlers : Nat} {f : Phase V → Nat}

theorem total_append (f : Phase V → Nat) (l l' : List (Proc V)) :
    total f (l ++ l') = total f l + total f l' := by
  induction l with
  | nil => simp [total]
  | cons proc rest ih => simp [total, ih, Nat.add_assoc]

theorem total_launched (f : Phase V → Nat) (results : List (Int × Operand V)) :
    total f (launched results) = (launched results).length * f .claiming := by
  rw [launched]
  induction results.filter fun result => result.2.dstNo ≠ 0 with
  | nil => simp [total]
  | cons result rest ih => simp [total, ih, Nat.add_mul, Nat.add_comm]

theorem Reachable.length_prog_le (h : Reachable dfOperation nodes s) :
    s.prog.length + total recordsLeft s.procs ≤ nodes.length + 3 * s.procs.length := by
  induction h with
  | start => exact Nat.le_refl _
  | @step s s' _ hstep ih =>
    cases hstep with
    | put operand =>
      simp only [total_append, List.length_append, total, List.length_singleton, recordsLeft]
      omega
    | run before after proc recs results phase hprocs hrun =>
      have hleft := dfhandler_recordsLeft dfOperation s proc.operand proc.phase
      rw [hrun] at hleft
      rw [hprocs] at ih
      simp only [total_append, total, total_launched, List.length_append, List.length_cons,
        recordsLeft] at ih hleft ⊢
      omega

/-- Every step that changes the state leaves fewer operations. -/
theorem Step.turnsLeft_lt (h : Step dfOperation s s') (hne : s' ≠ s)
    (hbound : s'.prog.length ≤ bound) (hhandlers : s'.procs.length ≤ handlers) :
    s'.turnsLeft bound handlers < s.turnsLeft bound handlers := by
  cases h with
  | put operand =>
    rw [List.length_append, List.length_singleton] at hhandlers
    obtain ⟨room, rfl⟩ := Nat.exists_eq_add_of_le hhandlers
    simp only [State.turnsLeft, total_append, total, List.length_append, List.length_singleton,
      Dataflow.turnsLeft]
    rw [show s.procs.length + 1 + room - (s.procs.length + 1) = room by omega,
      show s.procs.length + 1 + room - s.procs.length = room + 1 by omega, Nat.add_mul]
    omega
  | run before after proc recs results phase hprocs hrun =>
    have hlength : s.prog.length ≤ bound := by
      rw [List.length_append] at hbound
      omega
    -- a handler at its end leaves the state as it is
    have hends {end' : Phase V} (hphase : proc.phase = end')
        (hstay : dfhandler dfOperation s proc.operand end' = ([], [], end')) : False := by
      rw [hphase, hstay] at hrun
      cases hrun
      apply hne
      obtain ⟨prog, procs, sent⟩ := s
      obtain ⟨operand, phase⟩ := proc
      simp only at hprocs hphase
      simp [hprocs, hphase, launched]
    have hless := dfhandler_turnsLeft dfOperation hlength proc.operand
      (fun hphase => hends hphase rfl) (fun hphase => hends hphase rfl)
    simp only [hrun] at hless
    have hclaiming : Dataflow.turnsLeft bound (.claiming : Phase V) = 2 * bound + 6 := rfl
    have hcount : s.procs.length = before.length + (after.length + 1) := by
      rw [hprocs, List.length_append, List.length_cons]
    simp only [List.length_append, List.length_cons] at hhandlers
    obtain ⟨room, rfl⟩ := Nat.exists_eq_add_of_le hhandlers
    simp only [State.turnsLeft, hcount, List.length_append, List.length_cons]
    rw [hprocs]
    simp only [total_append, total, total_launched, hclaiming]
    rw [Nat.add_sub_cancel_left, show before.length + (after.length + 1) +
      (launched results).length + room - (before.length + (after.length + 1)) =
        room + (launched results).length by omega, Nat.add_mul,
      show 2 * bound + 7 = 2 * bound + 6 + 1 by rfl, 
      Nat.mul_add (launched results).length (2 * bound + 6) 1]
    omega

end Runs

end Cspot.Dataflow
