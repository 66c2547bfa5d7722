import Cspot.Dataflow.Handler

/-!
# The two handlers of a node

Seen from one node the log holds its record, the claims of its two operands, one partial
record and the record that retires it.  Which of the two handlers fires depends on whether the
second claim comes before the partial record or behind it.
-/

namespace Cspot.Dataflow

variable {V : Type}

/-! ## The records of a node -/

def records (k : Int) (prog : List (Node V)) : List (Node V × Nat) :=
  (prog.zipIdx 1).filter fun record => record.1.nodeNo = k

section Records

variable {k : Int} {prog : List (Node V)} {node : Node V} {i : Nat}

theorem mem_records :
    (node, i) ∈ records k prog ↔ 0 < i ∧ prog[i - 1]? = some node ∧ node.nodeNo = k := by
  rw [records, List.mem_filter, List.mk_mem_zipIdx_iff_le_and_getElem?_sub, decide_eq_true_iff,
    and_assoc]
  rfl

theorem records_le (h : (node, i) ∈ records k prog) : i ≤ prog.length := by
  obtain ⟨hpos, hget, _⟩ := mem_records.1 h
  have hlt := (List.getElem?_eq_some_iff.1 hget).1
  omega

theorem records_increasing (k : Int) (prog : List (Node V)) :
    (records k prog).Pairwise fun first second => first.2 < second.2 := by
  apply List.Pairwise.filter
  have hrange : (List.range' 1 prog.length).Pairwise (· < ·) := List.pairwise_lt_range' 1
  rw [← List.zipIdx_map_snd 1 prog, List.pairwise_map] at hrange
  exact hrange

theorem records_append_self (h : node.nodeNo = k) :
    records k (prog ++ [node]) = records k prog ++ [(node, prog.length + 1)] := by
  rw [records, List.zipIdx_append, List.filter_append, records, Nat.add_comm]
  simp [h]

theorem records_append_of_ne {more : List (Node V)} (h : ∀ node ∈ more, node.nodeNo ≠ k) :
    records k (prog ++ more) = records k prog := by
  have hnone : (more.zipIdx (1 + prog.length)).filter (fun record => record.1.nodeNo = k) = [] := by
    rw [List.filter_eq_nil_iff]
    intro record hrecord
    have hmem := List.fst_mem_of_mem_zipIdx hrecord
    simpa using h _ hmem
  rw [records, List.zipIdx_append, List.filter_append, hnone, List.append_nil, records]

theorem scan_between {s : State V} {pre post : List (Node V × Nat)} {lower upper : Node V}
    {low high seqno : Nat}
    (h : records k s.prog = pre ++ (lower, low) :: (upper, high) :: post) (hlow : low ≤ seqno)
    (hhigh : seqno < high) :
    0 < seqno ∧ ((seqno = low ∧ s.get seqno = some lower) ∨
      (low < seqno ∧ ∃ node, s.get seqno = some node ∧ node.nodeNo ≠ k)) := by
  have hmemlow : (lower, low) ∈ records k s.prog := by simp [h]
  have hmemhigh : (upper, high) ∈ records k s.prog := by simp [h]
  have hsorted := records_increasing k s.prog
  obtain ⟨hpos, hgetlow, hlower⟩ := mem_records.1 hmemlow
  have hle := records_le hmemhigh
  have hget (n : Nat) (hn : 0 < n) : s.get n = s.prog[n - 1]? := if_neg (Nat.ne_of_gt hn)
  refine ⟨by omega, ?_⟩
  have hnode := List.getElem?_eq_getElem (show seqno - 1 < s.prog.length by omega)
  by_cases hk : s.prog[seqno - 1].nodeNo = k
  · -- the records of the node are in order, so none lies strictly between the two
    have hmem : (s.prog[seqno - 1], seqno) ∈ records k s.prog :=
      mem_records.2 ⟨by omega, hnode, hk⟩
    have hseqno : seqno = low := by
      rw [h] at hmem hsorted
      rw [List.pairwise_append, List.pairwise_cons, List.pairwise_cons] at hsorted
      obtain ⟨_, ⟨_, hpost, _⟩, hpre⟩ := hsorted
      rcases List.mem_append.1 hmem with hin | hin
      · have hlt := hpre _ hin (lower, low) (by simp)
        omega
      · rcases List.mem_cons.1 hin with heq | hin
        · exact (Prod.mk.inj heq).2
        · rcases List.mem_cons.1 hin with heq | hin
          · have hsame := (Prod.mk.inj heq).2
            omega
          · have hlt := hpost _ hin
            omega
    subst hseqno
    exact .inl ⟨rfl, by rw [hget _ hpos, hgetlow]⟩
  · have hne : seqno ≠ low := by
      intro heq
      subst heq
      rw [hnode, Option.some.injEq] at hgetlow
      exact hk (hgetlow ▸ hlower)
    exact .inr ⟨by omega, _, by rw [hget _ (by omega), hnode], hk⟩

end Records

/-! ## What a record makes of the scan -/

section Scanned

variable {dfOperation : Int → V → V → V} {operand first : Operand V} {node : Node V}
  {cSeqno seqno : Nat}

theorem scanned_other (hne : node.nodeNo ≠ operand.dstNo) (hpos : 0 < seqno) :
    scanned dfOperation operand cSeqno seqno node = .scanning cSeqno (seqno - 1) := by
  simp [scanned, hne, Nat.ne_of_gt hpos]

theorem scanned_waiting (hno : node.nodeNo = operand.dstNo) (hstate : node.state = .waiting)
    (hcount : node.readyCount = 0) :
    scanned dfOperation operand cSeqno seqno node =
      .making cSeqno (partialNode node operand) := by
  simp [scanned, hno, hstate, hcount]

theorem scanned_claim (hno : first.dstNo = operand.dstNo) (hlt : seqno < cSeqno) :
    scanned dfOperation operand cSeqno seqno (claimNode first) = .returned := by
  simp [scanned, claimNode, hno, hlt]

theorem scanned_halfway (hno : node.nodeNo = operand.dstNo) :
    scanned dfOperation operand cSeqno seqno (partialNode node first) =
      .retiring (partialNode node first)
        (operate dfOperation node.opcode first.order first.value operand.value) := by
  simp [scanned, partialNode, hno]

end Scanned

/-! ## The two handlers of a node -/

/-- The first handler looks for the record of the node, and is to leave a partial record. -/
def Seeks (node : Node V) (low : Nat) (operand : Operand V) (cSeqno : Nat) : Phase V → Prop
  | .scanning c seqno => c = cSeqno ∧ low ≤ seqno ∧ seqno < cSeqno
  | .making c made => c = cSeqno ∧ made = partialNode node operand
  | _ => False

/-- The first handler looks behind its partial record for a claim that is not there. -/
def Looks (node : Node V) (operand : Operand V) (cSeqno dSeqno : Nat) : Phase V → Prop
  | .future c fSeqno made => c = cSeqno ∧ cSeqno ≤ fSeqno ∧ fSeqno < dSeqno ∧
      made = partialNode node operand
  | .returned => True
  | _ => False

/-- The first handler looks for the claim of the second one, or has found it. -/
def Finds (dfOperation : Int → V → V → V) (node : Node V) (first second : Operand V)
    (cSeqno other dSeqno : Nat) : Phase V → Prop
  | .future c fSeqno made => c = cSeqno ∧ other ≤ fSeqno ∧ fSeqno < dSeqno ∧
      made = partialNode node first
  | .retiring made result => made = partialNode node first ∧
      result = operate dfOperation node.opcode second.order second.value first.value
  | _ => False

/-- The second handler comes to the claim of the first one and leaves the node to it. -/
def Yields (low cSeqno : Nat) : Phase V → Prop
  | .scanning c seqno => c = cSeqno ∧ low ≤ seqno ∧ seqno < cSeqno
  | .returned => True
  | _ => False

/-- The second handler comes to the partial record, or has found it. -/
def Meets (dfOperation : Int → V → V → V) (node : Node V) (first second : Operand V)
    (dSeqno cSeqno : Nat) : Phase V → Prop
  | .scanning c seqno => c = cSeqno ∧ dSeqno ≤ seqno ∧ seqno < cSeqno
  | .retiring made result => made = partialNode node first ∧
      result = operate dfOperation node.opcode first.order first.value second.value
  | _ => False

/-- The handler that retired the node has its result to send, or has sent it. -/
def Sends (node : Node V) (first : Operand V) (result : V) (sent : List (Operand V)) :
    Phase V → Prop
  | .sending made value => made = doneNode (partialNode node first) ∧ value = result ∧ sent = []
  | .returned => sent = [resultOperand node result]
  | _ => False

/-- Where the handlers of a node stand, in the order of their claims, against its records and
the results it sent. -/
inductive Joint (dfOperation : Int → V → V → V) (node : Node V) (i : Nat) :
    List (Node V × Nat) → List (Proc V) → List (Operand V) → Prop
  | waiting {procs : List (Proc V)} (hprocs : ∀ proc ∈ procs, proc.phase = .claiming) :
      Joint dfOperation node i [(node, i)] procs []
  | claimed (first : Proc V) {c : Nat} {procs : List (Proc V)}
      (hfirst : Seeks node i first.operand c first.phase)
      (hprocs : ∀ proc ∈ procs, proc.phase = .claiming) :
      Joint dfOperation node i [(node, i), (claimNode first.operand, c)] (first :: procs) []
  | prepared (first : Proc V) {c d : Nat} {procs : List (Proc V)}
      (hfirst : Looks node first.operand c d first.phase)
      (hprocs : ∀ proc ∈ procs, proc.phase = .claiming) :
      Joint dfOperation node i
        [(node, i), (claimNode first.operand, c), (partialNode node first.operand, d)]
        (first :: procs) []
  | crossed (first second : Proc V) {c c' : Nat}
      (hfirst : Seeks node i first.operand c first.phase) (hsecond : Yields c c' second.phase) :
      Joint dfOperation node i
        [(node, i), (claimNode first.operand, c), (claimNode second.operand, c')]
        [first, second] []
  | overtaken (first second : Proc V) {c c' d : Nat}
      (hfirst : Finds dfOperation node first.operand second.operand c c' d first.phase)
      (hsecond : Yields c c' second.phase) :
      Joint dfOperation node i
        [(node, i), (claimNode first.operand, c), (claimNode second.operand, c'),
          (partialNode node first.operand, d)]
        [first, second] []
  | overtakenDone (first second : Proc V) {c c' d e : Nat} {sent : List (Operand V)}
      (hfirst : Sends node first.operand (operate dfOperation node.opcode second.operand.order
        second.operand.value first.operand.value) sent first.phase)
      (hsecond : Yields c c' second.phase) :
      Joint dfOperation node i
        [(node, i), (claimNode first.operand, c), (claimNode second.operand, c'),
          (partialNode node first.operand, d), (doneNode (partialNode node first.operand), e)]
        [first, second] sent
  | met (first second : Proc V) {c c' d : Nat}
      (hfirst : Looks node first.operand c d first.phase)
      (hsecond : Meets dfOperation node first.operand second.operand d c' second.phase) :
      Joint dfOperation node i
        [(node, i), (claimNode first.operand, c), (partialNode node first.operand, d),
          (claimNode second.operand, c')]
        [first, second] []
  | metDone (first second : Proc V) {c c' d e : Nat} {sent : List (Operand V)}
      (hfirst : Looks node first.operand c d first.phase)
      (hsecond : Sends node first.operand (operate dfOperation node.opcode first.operand.order
        first.operand.value second.operand.value) sent second.phase) :
      Joint dfOperation node i
        [(node, i), (claimNode first.operand, c), (partialNode node first.operand, d),
          (claimNode second.operand, c'), (doneNode (partialNode node first.operand), e)]
        [first, second] sent

/-! ## One operation of a handler -/

section Steps

variable {dfOperation : Int → V → V → V} {s : State V} {node : Node V} {operand other : Operand V}
  {post : List (Node V × Nat)} {x y : Node V} {low c d : Nat} {phase : Phase V}

theorem nodeNo_of_records {k : Int} {record : Node V × Nat} (h : record ∈ records k s.prog) :
    record.1.nodeNo = k :=
  (mem_records.1 h).2.2

theorem dfhandler_scanning_other {seqno : Nat} (hpos : 0 < seqno) (hget : s.get seqno = some x)
    (hne : x.nodeNo ≠ operand.dstNo) :
    dfhandler dfOperation s operand (.scanning c seqno) = ([], [], .scanning c (seqno - 1)) := by
  rw [dfhandler, hget]
  dsimp only
  rw [scanned_other hne hpos]

theorem dfhandler_future_other {fSeqno : Nat} {made : Node V} (hlt : c < fSeqno)
    (hget : s.get fSeqno = some x) (hne : x.nodeNo ≠ operand.dstNo) :
    dfhandler dfOperation s operand (.future c fSeqno made) =
      ([], [], .future c (fSeqno - 1) made) := by
  rw [dfhandler, if_pos hlt, hget]
  dsimp only
  rw [if_neg fun htest => hne htest.1]

section

variable (pre : List (Node V × Nat))
include pre

theorem Seeks.step (h : Seeks node low operand c phase)
    (hrecords : records operand.dstNo s.prog = pre ++ (node, low) :: (y, c) :: post)
    (hstate : node.state = .waiting) (hcount : node.readyCount = 0) :
    (∃ phase', dfhandler dfOperation s operand phase = ([], [], phase') ∧
        Seeks node low operand c phase') ∨
      dfhandler dfOperation s operand phase = ([partialNode node operand], [],
        .future c s.prog.length (partialNode node operand)) := by
  cases phase with
  | scanning c' seqno =>
    obtain ⟨rfl, hlow, hhigh⟩ := h
    have hno : node.nodeNo = operand.dstNo :=
      nodeNo_of_records (show (node, low) ∈ records _ s.prog by simp [hrecords])
    left
    rcases scan_between hrecords hlow hhigh with
      ⟨hpos, ⟨rfl, hget⟩ | ⟨hlt, x, hget, hne⟩⟩
    · refine ⟨.making c' (partialNode node operand), ?_, rfl, rfl⟩
      rw [dfhandler, hget]
      dsimp only
      rw [scanned_waiting hno hstate hcount]
    · exact ⟨_, dfhandler_scanning_other hpos hget hne, rfl, by omega, by omega⟩
  | making c' made =>
    obtain ⟨rfl, rfl⟩ := h
    exact .inr rfl
  | _ => exact h.elim

theorem Looks.step (h : Looks node operand c d phase)
    (hrecords : records operand.dstNo s.prog = pre ++ (x, c) :: (y, d) :: post) :
    ∃ phase', dfhandler dfOperation s operand phase = ([], [], phase') ∧
      Looks node operand c d phase' := by
  cases phase with
  | future c' fSeqno made =>
    obtain ⟨rfl, hlow, hhigh, rfl⟩ := h
    by_cases hlt : c' < fSeqno
    · rcases scan_between hrecords hlow hhigh with
        ⟨_, ⟨heq, _⟩ | ⟨_, fnode, hget, hne⟩⟩
      · omega
      · exact ⟨_, dfhandler_future_other hlt hget hne, rfl, by omega, by omega, rfl⟩
    · exact ⟨.returned, if_neg hlt, trivial⟩
  | returned => exact ⟨.returned, rfl, trivial⟩
  | _ => exact h.elim

theorem Finds.step {c' : Nat} (h : Finds dfOperation node operand other c c' d phase)
    (hrecords : records operand.dstNo s.prog =
      pre ++ (claimNode other, c') :: (y, d) :: post) (hlt : c < c') :
    (∃ phase', dfhandler dfOperation s operand phase = ([], [], phase') ∧
        Finds dfOperation node operand other c c' d phase') ∨
      dfhandler dfOperation s operand phase = ([doneNode (partialNode node operand)], [],
        .sending (doneNode (partialNode node operand))
          (operate dfOperation node.opcode other.order other.value operand.value)) := by
  cases phase with
  | future c₁ fSeqno made =>
    obtain ⟨rfl, hlow, hhigh, rfl⟩ := h
    have hno : other.dstNo = operand.dstNo :=
      nodeNo_of_records (show (claimNode other, c') ∈ records _ s.prog by simp [hrecords])
    have hmore : c₁ < fSeqno := by omega
    left
    rcases scan_between hrecords hlow hhigh with
      ⟨_, ⟨rfl, hget⟩ | ⟨_, fnode, hget, hne⟩⟩
    · refine ⟨.retiring (partialNode node operand) _, ?_, rfl, rfl⟩
      rw [dfhandler, if_pos hmore, hget]
      dsimp only
      rw [if_pos ⟨hno, rfl⟩]
      rfl
    · exact ⟨_, dfhandler_future_other hmore hget hne, rfl, by omega, by omega, rfl⟩
  | retiring made result =>
    obtain ⟨rfl, rfl⟩ := h
    exact .inr rfl
  | _ => exact h.elim

theorem Yields.step (h : Yields low c phase)
    (hrecords : records operand.dstNo s.prog =
      pre ++ (claimNode other, low) :: (y, c) :: post) :
    ∃ phase', dfhandler dfOperation s operand phase = ([], [], phase') ∧ Yields low c phase' := by
  cases phase with
  | scanning c' seqno =>
    obtain ⟨rfl, hlow, hhigh⟩ := h
    have hno : other.dstNo = operand.dstNo :=
      nodeNo_of_records (show (claimNode other, low) ∈ records _ s.prog by simp [hrecords])
    rcases scan_between hrecords hlow hhigh with
      ⟨hpos, ⟨rfl, hget⟩ | ⟨hlt, x, hget, hne⟩⟩
    · refine ⟨.returned, ?_, trivial⟩
      rw [dfhandler, hget]
      dsimp only
      rw [scanned_claim hno hhigh]
    · exact ⟨_, dfhandler_scanning_other hpos hget hne, rfl, by omega, by omega⟩
  | returned => exact ⟨.returned, rfl, trivial⟩
  | _ => exact h.elim

theorem Meets.step (h : Meets dfOperation node other operand d c phase)
    (hrecords : records operand.dstNo s.prog =
      pre ++ (partialNode node other, d) :: (y, c) :: post) :
    (∃ phase', dfhandler dfOperation s operand phase = ([], [], phase') ∧
        Meets dfOperation node other operand d c phase') ∨
      dfhandler dfOperation s operand phase = ([doneNode (partialNode node other)], [],
        .sending (doneNode (partialNode node other))
          (operate dfOperation node.opcode other.order other.value operand.value)) := by
  cases phase with
  | scanning c' seqno =>
    obtain ⟨rfl, hlow, hhigh⟩ := h
    have hno : node.nodeNo = operand.dstNo :=
      nodeNo_of_records (show (partialNode node other, d) ∈ records _ s.prog by simp [hrecords])
    left
    rcases scan_between hrecords hlow hhigh with
      ⟨hpos, ⟨rfl, hget⟩ | ⟨hlt, x, hget, hne⟩⟩
    · refine ⟨.retiring (partialNode node other) _, ?_, rfl, rfl⟩
      rw [dfhandler, hget]
      dsimp only
      rw [scanned_halfway hno]
    · exact ⟨_, dfhandler_scanning_other hpos hget hne, rfl, by omega, by omega⟩
  | retiring made result =>
    obtain ⟨rfl, rfl⟩ := h
    exact .inr rfl
  | _ => exact h.elim

end

theorem Sends.step {result : V} {sent : List (Operand V)}
    (h : Sends node other result sent phase) :
    ∃ results phase', dfhandler dfOperation s operand phase = ([], results, phase') ∧
      Sends node other result (sent ++ results.map Prod.snd) phase' ∧
      ∀ r ∈ results, r.1 = node.nodeNo := by
  cases phase with
  | sending made value =>
    obtain ⟨rfl, rfl, rfl⟩ := h
    exact ⟨_, _, rfl, rfl, by simp [doneNode, partialNode]⟩
  | returned =>
    refine ⟨[], .returned, rfl, ?_, by simp⟩
    simpa using h
  | _ => exact h.elim

end Steps

/-! ## One operation, seen from the node -/

theorem perm_cons_cases {α : Type} {a b : α} {l l' : List α} (h : (a :: l).Perm (b :: l')) :
    (a = b ∧ l.Perm l') ∨ ∃ l'', l'.Perm (a :: l'') ∧ l.Perm (b :: l'') := by
  classical
  rcases List.mem_cons.1 (h.subset List.mem_cons_self) with rfl | hmem
  · exact .inl ⟨rfl, h.cons_inv⟩
  · have hperm := List.perm_cons_erase hmem
    refine .inr ⟨l'.erase a, hperm, ?_⟩
    have hswap : (a :: l).Perm (a :: b :: l'.erase a) :=
      h.trans ((hperm.cons b).trans (.swap a b _))
    exact hswap.cons_inv

theorem perm_cons_of_le_one {α : Type} {a b : α} {l l' : List α} (h : (a :: l).Perm (b :: l'))
    (hlen : l.length ≤ 1) : (a = b ∧ l.Perm l') ∨ (a ∈ l' ∧ l = [b]) := by
  rcases perm_cons_cases h with heq | ⟨l'', hl', hl⟩
  · exact .inl heq
  · have hlength := hl.length_eq
    rw [List.length_cons] at hlength
    obtain rfl : l'' = [] := List.eq_nil_of_length_eq_zero (by omega)
    exact .inr ⟨hl'.symm.subset List.mem_cons_self, List.perm_singleton.1 hl⟩

theorem perm_pair_cases {α : Type} {a b c : α} {l : List α} (h : (a :: l).Perm [b, c]) :
    (a = b ∧ l = [c]) ∨ (a = c ∧ l = [b]) := by
  rcases perm_cons_of_le_one h (Nat.le_of_eq (Nat.succ.inj h.length_eq)) with
    ⟨rfl, hl⟩ | ⟨hmem, rfl⟩
  · exact .inl ⟨rfl, List.perm_singleton.1 hl⟩
  · exact .inr ⟨List.mem_singleton.1 hmem, rfl⟩

/-- The handler goes on, and the handlers of its node stand well again. -/
def Advances (dfOperation : Int → V → V → V) (s : State V) (node : Node V) (i : Nat)
    (proc : Proc V) (rest : List (Proc V)) (sent : List (Operand V)) : Prop :=
  ∃ more results phase procs,
    dfhandler dfOperation s proc.operand proc.phase = (more, results, phase) ∧
      (⟨proc.operand, phase⟩ :: rest).Perm procs ∧
      Joint dfOperation node i (records node.nodeNo (s.prog ++ more)) procs
        (sent ++ results.map Prod.snd) ∧
      (∀ r ∈ more, r.nodeNo = node.nodeNo) ∧ ∀ r ∈ results, r.1 = node.nodeNo

section Advance

variable {dfOperation : Int → V → V → V} {s : State V} {node : Node V} {i : Nat} {proc : Proc V}
  {rest procs : List (Proc V)} {sent : List (Operand V)} {phase : Phase V}
  {recs : List (Node V × Nat)}

theorem Advances.send (hrecs : records node.nodeNo s.prog = recs)
    {results : List (Int × Operand V)}
    (hrun : dfhandler dfOperation s proc.operand proc.phase = ([], results, phase))
    (hno : ∀ r ∈ results, r.1 = node.nodeNo)
    (hperm : (⟨proc.operand, phase⟩ :: rest).Perm procs)
    (hjoint : Joint dfOperation node i recs procs (sent ++ results.map Prod.snd)) :
    Advances dfOperation s node i proc rest sent :=
  ⟨[], results, phase, procs, hrun, hperm, by simpa [hrecs] using hjoint, by simp, hno⟩

theorem Advances.quiet (hrecs : records node.nodeNo s.prog = recs)
    (hrun : dfhandler dfOperation s proc.operand proc.phase = ([], [], phase))
    (hperm : (⟨proc.operand, phase⟩ :: rest).Perm procs)
    (hjoint : Joint dfOperation node i recs procs sent) :
    Advances dfOperation s node i proc rest sent :=
  .send hrecs hrun (by simp) hperm (by simpa using hjoint)

theorem Advances.append (hrecs : records node.nodeNo s.prog = recs) {r : Node V}
    (hrun : dfhandler dfOperation s proc.operand proc.phase = ([r], [], phase))
    (hno : r.nodeNo = node.nodeNo) (hperm : (⟨proc.operand, phase⟩ :: rest).Perm procs)
    (hjoint : Joint dfOperation node i (recs ++ [(r, s.prog.length + 1)]) procs sent) :
    Advances dfOperation s node i proc rest sent := by
  refine ⟨[r], [], phase, procs, hrun, hperm, ?_, by simpa using hno, by simp⟩
  rw [records_append_self hno, hrecs]
  simpa using hjoint

/-- Step lemma: one case for each place the two handlers can be in. -/
theorem Joint.advance (h : Joint dfOperation node i recs procs sent)
    (hrecs : records node.nodeNo s.prog = recs)
    (hperm : (proc :: rest).Perm procs) (hlen : rest.length ≤ 1)
    (hdst : proc.operand.dstNo = node.nodeNo) (hstate : node.state = .waiting)
    (hcount : node.readyCount = 0) : Advances dfOperation s node i proc rest sent := by
  have hle (j : Nat) (hj : j ∈ recs.map Prod.snd) : j ≤ s.prog.length := by
    obtain ⟨⟨r, j⟩, hr, rfl⟩ := List.mem_map.1 hj
    exact records_le (hrecs ▸ hr)
  have hsorted := records_increasing node.nodeNo s.prog
  have hown : records proc.operand.dstNo s.prog = recs := hdst ▸ hrecs
  have hclaim (hphase : proc.phase = .claiming) :
      dfhandler dfOperation s proc.operand proc.phase =
        ([claimNode proc.operand], [], .scanning (s.prog.length + 1) s.prog.length) := by
    rw [hphase]
    rfl
  cases h with
  | waiting hprocs =>
    have hphase := hprocs proc (hperm.subset List.mem_cons_self)
    refine .append hrecs (hclaim hphase) hdst (.refl _) (.claimed ⟨proc.operand, .scanning _ _⟩
      ⟨rfl, hle i (by simp), Nat.lt_succ_self _⟩ ?_)
    intro p hp
    exact hprocs p (hperm.subset (List.mem_cons_of_mem _ hp))
  | @claimed first c others hfirst hprocs =>
    rcases perm_cons_of_le_one hperm hlen with ⟨rfl, hrest⟩ | ⟨hmem, rfl⟩
    · have hclaiming : ∀ p ∈ rest, p.phase = .claiming := fun p hp => hprocs p (hrest.subset hp)
      rcases hfirst.step [] hown hstate hcount with ⟨phase, hrun, hseeks⟩ | hrun
      · exact .quiet hrecs hrun (.refl _) (.claimed ⟨proc.operand, phase⟩ hseeks hclaiming)
      · exact .append hrecs hrun rfl (.refl _) (.prepared ⟨proc.operand, .future _ _ _⟩
          ⟨rfl, hle c (by simp), Nat.lt_succ_self _, rfl⟩ hclaiming)
    · exact .append hrecs (hclaim (hprocs proc hmem)) hdst (.swap _ _ _)
        (.crossed first ⟨proc.operand, .scanning _ _⟩ hfirst
          ⟨rfl, hle c (by simp), Nat.lt_succ_self _⟩)
  | @prepared first c d others hfirst hprocs =>
    rcases perm_cons_of_le_one hperm hlen with ⟨rfl, hrest⟩ | ⟨hmem, rfl⟩
    · have hclaiming : ∀ p ∈ rest, p.phase = .claiming := fun p hp => hprocs p (hrest.subset hp)
      obtain ⟨phase, hrun, hlooks⟩ := hfirst.step [_] hown
      exact .quiet hrecs hrun (.refl _) (.prepared ⟨proc.operand, phase⟩ hlooks hclaiming)
    · exact .append hrecs (hclaim (hprocs proc hmem)) hdst (.swap _ _ _)
        (.met first ⟨proc.operand, .scanning _ _⟩ hfirst
          ⟨rfl, hle d (by simp), Nat.lt_succ_self _⟩)
  | @crossed first second c c' hfirst hsecond =>
    rcases perm_pair_cases hperm with ⟨rfl, rfl⟩ | ⟨rfl, rfl⟩
    · rcases hfirst.step [] hown hstate hcount with ⟨phase, hrun, hseeks⟩ | hrun
      · exact .quiet hrecs hrun (.refl _)
          (.crossed ⟨proc.operand, phase⟩ second hseeks hsecond)
      · exact .append hrecs hrun rfl (.refl _) (.overtaken ⟨proc.operand, .future _ _ _⟩ second
          ⟨rfl, hle c' (by simp), Nat.lt_succ_self _, rfl⟩ hsecond)
    · obtain ⟨phase, hrun, hyields⟩ := hsecond.step [_] hown
      exact .quiet hrecs hrun (.swap _ _ _) (.crossed first ⟨proc.operand, phase⟩ hfirst hyields)
  | @overtaken first second c c' d hfirst hsecond =>
    have hlt : c < c' := by simp_all
    rcases perm_pair_cases hperm with ⟨rfl, rfl⟩ | ⟨rfl, rfl⟩
    · rcases hfirst.step [_, _] hown hlt with ⟨phase, hrun, hfinds⟩ | hrun
      · exact .quiet hrecs hrun (.refl _)
          (.overtaken ⟨proc.operand, phase⟩ second hfinds hsecond)
      · exact .append hrecs hrun rfl (.refl _)
          (.overtakenDone ⟨proc.operand, .sending _ _⟩ second ⟨rfl, rfl, rfl⟩ hsecond)
    · obtain ⟨phase, hrun, hyields⟩ := hsecond.step [_] hown
      exact .quiet hrecs hrun (.swap _ _ _)
        (.overtaken first ⟨proc.operand, phase⟩ hfirst hyields)
  | @overtakenDone first second c c' d e sent hfirst hsecond =>
    rcases perm_pair_cases hperm with ⟨rfl, rfl⟩ | ⟨rfl, rfl⟩
    · obtain ⟨results, phase, hrun, hsends, hno⟩ := hfirst.step
      exact .send hrecs hrun hno (.refl _)
        (.overtakenDone ⟨proc.operand, phase⟩ second hsends hsecond)
    · obtain ⟨phase, hrun, hyields⟩ := hsecond.step [_] hown
      exact .quiet hrecs hrun (.swap _ _ _)
        (.overtakenDone first ⟨proc.operand, phase⟩ hfirst hyields)
  | @met first second c c' d hfirst hsecond =>
    rcases perm_pair_cases hperm with ⟨rfl, rfl⟩ | ⟨rfl, rfl⟩
    · obtain ⟨phase, hrun, hlooks⟩ := hfirst.step [_] hown
      exact .quiet hrecs hrun (.refl _) (.met ⟨proc.operand, phase⟩ second hlooks hsecond)
    · rcases hsecond.step [_, _] hown with ⟨phase, hrun, hmeets⟩ | hrun
      · exact .quiet hrecs hrun (.swap _ _ _) (.met first ⟨proc.operand, phase⟩ hfirst hmeets)
      · exact .append hrecs hrun rfl (.swap _ _ _)
          (.metDone first ⟨proc.operand, .sending _ _⟩ hfirst ⟨rfl, rfl, rfl⟩)
  | @metDone first second c c' d e sent hfirst hsecond =>
    rcases perm_pair_cases hperm with ⟨rfl, rfl⟩ | ⟨rfl, rfl⟩
    · obtain ⟨phase, hrun, hlooks⟩ := hfirst.step [_] hown
      exact .quiet hrecs hrun (.refl _) (.metDone ⟨proc.operand, phase⟩ second hlooks hsecond)
    · obtain ⟨results, phase, hrun, hsends, hno⟩ := hsecond.step
      exact .send hrecs hrun hno (.swap _ _ _)
        (.metDone first ⟨proc.operand, phase⟩ hfirst hsends)

end Advance

end Cspot.Dataflow
