import Cspot.Dataflow.Joint
import Cspot.Dataflow.Turns
import Mathlib.Algebra.Order.BigOperators.Group.Finset
import Mathlib.Data.List.Nodup

/-!
# Every node fires once

In every run in which a node gets two operands, one of its handlers retires it and sends its
result; no handler ends with an error, and all of them return.
-/

namespace Cspot.Dataflow

variable {V : Type}

/-! ## Runs -/

def State.received (s : State V) (k : Int) : List (Operand V) :=
  (s.procs.map Proc.operand).filter fun operand => operand.dstNo = k

def State.retirements (s : State V) (k : Int) : Nat :=
  s.prog.countP fun node => node.nodeNo = k ∧ node.state = .done

def State.sentBy (s : State V) (k : Int) : List (Operand V) :=
  (s.sent.filter fun result => result.1 = k).map Prod.snd

/-- Operands go to nodes of the program, to each at most one of order 1 and one other. -/
structure Fed (nodes : List (Node V)) (s : State V) : Prop where
  known : ∀ proc ∈ s.procs, ∃ node ∈ nodes, node.nodeNo = proc.operand.dstNo
  first : ∀ k, (s.received k).countP (fun operand => operand.order = 1) ≤ 1
  other : ∀ k, (s.received k).countP (fun operand => ¬ operand.order = 1) ≤ 1

section Runs

variable {dfOperation : Int → V → V → V} {nodes : List (Node V)} {s s' : State V} {node : Node V}
  {procs : List (Proc V)} {k : Int} {new : List (Proc V)} {proc : Proc V}
  {sent results : List (Int × Operand V)}

theorem Fed.length_le (h : Fed nodes s) (k : Int) : (s.received k).length ≤ 2 := by
  have hfirst := h.first k
  have hother := h.other k
  have hsum : (s.received k).length = _ :=
    List.length_eq_countP_add_countP fun operand => decide (operand.order = 1)
  simp only [decide_eq_true_eq] at hsum
  omega

theorem Step.operands (h : Step dfOperation s s') :
    ∃ more, s'.procs.map Proc.operand = s.procs.map Proc.operand ++ more := by
  cases h with
  | put operand => exact ⟨[operand], by simp⟩
  | run before after proc recs results phase hprocs hrun =>
    exact ⟨(launched results).map Proc.operand, by simp [hprocs]⟩

theorem Fed.of_step (h : Fed nodes s') (hstep : Step dfOperation s s') : Fed nodes s := by
  obtain ⟨more, hmore⟩ := hstep.operands
  have hsub (k : Int) : (s.received k).Sublist (s'.received k) := by
    rw [State.received, State.received, hmore, List.filter_append]
    exact List.sublist_append_left _ _
  refine ⟨?_, ?_, ?_⟩
  · intro proc hproc
    have hmem : proc.operand ∈ s'.procs.map Proc.operand := by
      rw [hmore]
      exact List.mem_append_left _ (List.mem_map_of_mem hproc)
    obtain ⟨proc', hproc', heq⟩ := List.mem_map.1 hmem
    rw [← heq]
    exact h.known proc' hproc'
  · intro k
    exact Nat.le_trans (hsub k).countP_le (h.first k)
  · intro k
    exact Nat.le_trans (hsub k).countP_le (h.other k)

theorem Joint.add {i : Nat} {recs : List (Node V × Nat)} {sent : List (Operand V)}
    (h : Joint dfOperation node i recs procs sent) (hnew : ∀ proc ∈ new, proc.phase = .claiming)
    (hlen : (procs ++ new).length ≤ 2) :
    Joint dfOperation node i recs (procs ++ new) sent := by
  have hboth {l : List (Proc V)} (hl : ∀ proc ∈ l, proc.phase = .claiming) :
      ∀ proc ∈ l ++ new, proc.phase = .claiming := by
    intro proc hproc
    rcases List.mem_append.1 hproc with hmem | hmem
    · exact hl proc hmem
    · exact hnew proc hmem
  cases hl : new with
  | nil =>
    rw [List.append_nil]
    exact h
  | cons proc rest =>
    rw [← hl]
    cases h with
    | waiting hprocs => exact .waiting (hboth hprocs)
    | claimed first hfirst hprocs => exact .claimed first hfirst (hboth hprocs)
    | prepared first hfirst hprocs => exact .prepared first hfirst (hboth hprocs)
    | _ => simp [hl] at hlen

def procsOf (k : Int) (procs : List (Proc V)) : List (Proc V) :=
  procs.filter fun proc => proc.operand.dstNo = k

theorem length_procsOf (s : State V) (k : Int) :
    (procsOf k s.procs).length = (s.received k).length := by
  rw [procsOf, State.received, List.filter_map, List.length_map]
  rfl

def Stands (dfOperation : Int → V → V → V) (s : State V) (node : Node V) : Prop :=
  ∃ i procs, (procsOf node.nodeNo s.procs).Perm procs ∧
    Joint dfOperation node i (records node.nodeNo s.prog) procs (s.sentBy node.nodeNo)

theorem Stands.add (h : Stands dfOperation { s with procs := procs } node)
    (hnew : ∀ proc ∈ new, proc.phase = .claiming)
    (hlen : (procsOf node.nodeNo (procs ++ new)).length ≤ 2) :
    Stands dfOperation { s with procs := procs ++ new } node := by
  obtain ⟨i, arranged, hperm, hjoint⟩ := h
  have happend : procsOf node.nodeNo (procs ++ new) =
      procsOf node.nodeNo procs ++ procsOf node.nodeNo new := List.filter_append ..
  have hperm' := hperm.append_right (procsOf node.nodeNo new)
  rw [happend, hperm'.length_eq] at hlen
  refine ⟨i, arranged ++ procsOf node.nodeNo new, ?_, hjoint.add ?_ hlen⟩
  · rw [happend]
    exact hperm'
  · intro proc hproc
    exact hnew proc (List.mem_of_mem_filter hproc)

theorem launched_claiming (results : List (Int × Operand V)) :
    ∀ proc ∈ launched results, proc.phase = .claiming := by
  intro proc hproc
  obtain ⟨result, _, rfl⟩ := List.mem_map.1 hproc
  rfl

theorem procsOf_split (k : Int) (before after : List (Proc V)) (proc : Proc V) :
    (procsOf k (before ++ proc :: after)).Perm
      (procsOf k [proc] ++ procsOf k (before ++ after)) := by
  have hperm : (before ++ proc :: after).Perm ([proc] ++ (before ++ after)) := List.perm_middle
  exact (hperm.filter _).trans (by rw [List.filter_append]; exact .refl _)

theorem procsOf_singleton_self (h : proc.operand.dstNo = k) : procsOf k [proc] = [proc] := by
  simp [procsOf, h]

theorem procsOf_singleton_ne (h : proc.operand.dstNo ≠ k) : procsOf k [proc] = [] := by
  simp [procsOf, h]

theorem sentBy_append_self (h : ∀ r ∈ results, r.1 = k) :
    ((sent ++ results).filter fun result => result.1 = k).map Prod.snd =
      (sent.filter fun result => result.1 = k).map Prod.snd ++ results.map Prod.snd := by
  have hall : results.filter (fun result => result.1 = k) = results := by
    rw [List.filter_eq_self]
    intro r hr
    simpa using h r hr
  rw [List.filter_append, hall, List.map_append]

theorem sentBy_append_ne {k' : Int} (h : ∀ r ∈ results, r.1 = k') (hne : k' ≠ k) :
    ((sent ++ results).filter fun result => result.1 = k).map Prod.snd =
      (sent.filter fun result => result.1 = k).map Prod.snd := by
  have hnone : results.filter (fun result => result.1 = k) = [] := by
    rw [List.filter_eq_nil_iff]
    intro r hr
    have heq := h r hr
    simp [heq, hne]
  rw [List.filter_append, hnone, List.append_nil]

theorem Stands.step (hprogram : Program nodes) (hfed : Fed nodes s) (hfed' : Fed nodes s')
    (h : ∀ node ∈ nodes, Stands dfOperation s node) (hstep : Step dfOperation s s') :
    ∀ node ∈ nodes, Stands dfOperation s' node := by
  intro node hnode
  have hlen' := length_procsOf s' node.nodeNo ▸ hfed'.length_le node.nodeNo
  cases hstep with
  | put operand =>
    refine Stands.add (h node hnode) ?_ hlen'
    intro proc hproc
    rw [List.mem_singleton.1 hproc]
  | run before after proc recs results phase hprocs hrun =>
    obtain ⟨owner, howner, hdst⟩ := hfed.known proc (by simp [hprocs])
    obtain ⟨i, arranged, hperm, hjoint⟩ := h owner howner
    obtain ⟨hstate, hcount⟩ := hprogram.waiting owner howner
    have hlen := length_procsOf s owner.nodeNo ▸ hfed.length_le owner.nodeNo
    rw [hprocs] at hperm hlen
    have hsplit := procsOf_split owner.nodeNo before after proc
    rw [procsOf_singleton_self hdst.symm, List.singleton_append] at hsplit
    rw [hsplit.length_eq, List.length_cons] at hlen
    obtain ⟨more, sent, phase', arranged', hrun', hperm', hjoint', hmore, hsent⟩ :=
      hjoint.advance rfl (hsplit.symm.trans hperm) (by omega) hdst.symm hstate hcount
    rw [hrun] at hrun'
    obtain ⟨rfl, rfl, rfl⟩ := hrun'
    refine Stands.add (s := ⟨s.prog ++ recs, s.procs, s.sent ++ results⟩) ?_
      (launched_claiming results) hlen'
    by_cases hsame : node = owner
    · subst hsame
      refine ⟨i, arranged', ?_, ?_⟩
      · have hsplit' := procsOf_split node.nodeNo before after ⟨proc.operand, phase⟩
        rw [procsOf_singleton_self (by exact hdst.symm)] at hsplit'
        exact hsplit'.trans hperm'
      · rw [State.sentBy, sentBy_append_self hsent]
        exact hjoint'
    · have hne : owner.nodeNo ≠ node.nodeNo := fun heq =>
        hsame (List.inj_on_of_nodup_map hprogram.distinct hnode howner heq.symm)
      obtain ⟨j, others, hperm₂, hjoint₂⟩ := h node hnode
      refine ⟨j, others, ?_, ?_⟩
      · have hold := procsOf_split node.nodeNo before after proc
        have hnew := procsOf_split node.nodeNo before after ⟨proc.operand, phase⟩
        rw [procsOf_singleton_ne (by rw [← hdst]; exact hne)] at hold
        rw [procsOf_singleton_ne (by dsimp only; rw [← hdst]; exact hne)] at hnew
        rw [hprocs] at hperm₂
        exact hnew.trans (hold.symm.trans hperm₂)
      · rw [State.sentBy, sentBy_append_ne hsent hne,
          records_append_of_ne fun r hr => by rw [hmore r hr]; exact hne]
        exact hjoint₂

theorem Stands.start (hprogram : Program nodes) (hnode : node ∈ nodes) :
    Stands dfOperation ⟨nodes, [], []⟩ node := by
  obtain ⟨pre, post, rfl⟩ := List.append_of_mem hnode
  have hdistinct := hprogram.distinct
  rw [List.map_append, List.map_cons, List.nodup_append, List.nodup_cons] at hdistinct
  obtain ⟨_, ⟨hpost, _⟩, hpre⟩ := hdistinct
  have hrecords : records node.nodeNo (pre ++ node :: post) = [(node, pre.length + 1)] := by
    rw [← List.singleton_append, ← List.append_assoc, records_append_of_ne, records_append_self rfl]
    · have hnone : records node.nodeNo ([] ++ pre) = records node.nodeNo [] :=
        records_append_of_ne fun other hother heq =>
          hpre _ (List.mem_map_of_mem hother) _ List.mem_cons_self heq
      rw [List.nil_append] at hnone
      rw [hnone]
      rfl
    · intro other hother heq
      exact hpost (heq ▸ List.mem_map_of_mem hother)
  refine ⟨pre.length + 1, [], .refl _, ?_⟩
  rw [hrecords]
  exact .waiting (by simp)

theorem Reachable.stands (hprogram : Program nodes) (h : Reachable dfOperation nodes s)
    (hfed : Fed nodes s) : ∀ node ∈ nodes, Stands dfOperation s node := by
  induction h with
  | start => exact fun node hnode => .start hprogram hnode
  | step hs hstep ih =>
    have hbefore := hfed.of_step hstep
    exact Stands.step hprogram hbefore hfed (ih hbefore) hstep

/-! ## What a run makes of a node -/

/-- The node has been retired once and has sent one result, of its operand of order 1 and the
other one, if it got both. -/
def Fired (dfOperation : Int → V → V → V) (s : State V) (node : Node V) : Prop :=
  ∀ first other, (s.received node.nodeNo).Perm [first, other] → first.order = 1 →
    other.order ≠ 1 → s.retirements node.nodeNo = 1 ∧ s.sentBy node.nodeNo =
      [resultOperand node (dfOperation node.opcode first.value other.value)]

/-- The node is not retired twice and sends no second result, none of its handlers ends with an
error, and when they have returned the node has fired. -/
structure Fires (dfOperation : Int → V → V → V) (s : State V) (node : Node V) : Prop where
  unfailed : ∀ proc ∈ s.procs, proc.operand.dstNo = node.nodeNo → proc.phase ≠ .failed
  retired : s.retirements node.nodeNo ≤ 1
  sent : (s.sentBy node.nodeNo).length ≤ s.retirements node.nodeNo
  complete : (∀ proc ∈ s.procs, proc.operand.dstNo = node.nodeNo → proc.phase = .returned) →
    Fired dfOperation s node

def Ended (dfOperation : Int → V → V → V) (nodes : List (Node V)) (s : State V) : Prop :=
  (∀ proc ∈ s.procs, proc.phase = .returned) ∧ ∀ node ∈ nodes, Fired dfOperation s node

/-- In whatever order operands are put and handlers take turns, the end comes after at most `n`
operations; until then there is a handler that goes on. -/
def EndsWithin (dfOperation : Int → V → V → V) (nodes : List (Node V)) : Nat → State V → Prop
  | 0, s => Ended dfOperation nodes s
  | n + 1, s => Ended dfOperation nodes s ∨
      ((∃ proc ∈ s.procs, (dfhandler dfOperation s proc.operand proc.phase).2.2 ≠ proc.phase) ∧
        ∀ s', Step dfOperation s s' → s' ≠ s → Fed nodes s' → EndsWithin dfOperation nodes n s')

/-- Two handlers for each node, each of which goes twice through a log of the nodes and of three
records for each handler. -/
def operationBound (nodes : List (Node V)) : Nat :=
  2 * nodes.length * (14 * nodes.length + 7)

theorem retirements_eq (s : State V) (k : Int) :
    s.retirements k = (records k s.prog).countP fun record => record.1.state = .done := by
  have hprog : s.prog = (s.prog.zipIdx 1).map Prod.fst := (List.zipIdx_map_fst 1 s.prog).symm
  rw [State.retirements, records, List.countP_filter]
  conv_lhs => rw [hprog]
  rw [List.countP_map]
  apply List.countP_congr
  intro record _
  simp [and_comm]

theorem operate_pair (opcode : Int) {first second a b : Operand V}
    (hperm : [first, second].Perm [a, b]) (ha : a.order = 1) (hb : b.order ≠ 1) :
    operate dfOperation opcode first.order first.value second.value =
        dfOperation opcode a.value b.value ∧
      operate dfOperation opcode second.order second.value first.value =
        dfOperation opcode a.value b.value := by
  rcases perm_pair_cases hperm with ⟨rfl, heq⟩ | ⟨rfl, heq⟩
  · obtain rfl := List.singleton_injective heq
    exact ⟨if_pos ha, if_neg hb⟩
  · obtain rfl := List.singleton_injective heq
    exact ⟨if_neg hb, if_pos ha⟩

theorem received_perm (h : (procsOf k s.procs).Perm procs) :
    (s.received k).Perm (procs.map Proc.operand) := by
  rw [State.received, List.filter_map]
  exact h.map Proc.operand

section Joint

variable {i : Nat} {recs : List (Node V × Nat)} {procs : List (Proc V)} {sent : List (Operand V)}

theorem Joint.unfailed (h : Joint dfOperation node i recs procs sent) :
    ∀ proc ∈ procs, proc.phase ≠ .failed := by
  have hclaiming {l : List (Proc V)} (hl : ∀ proc ∈ l, proc.phase = .claiming) :
      ∀ proc ∈ l, proc.phase ≠ .failed := by
    intro proc hproc
    simp [hl proc hproc]
  have hpair {first second : Proc V} (hfirst : first.phase ≠ .failed)
      (hsecond : second.phase ≠ .failed) : ∀ proc ∈ [first, second], proc.phase ≠ .failed := by
    simp [hfirst, hsecond]
  have hnot {P : Phase V → Prop} {phase : Phase V} (hP : P phase) (hfailed : ¬ P .failed) :
      phase ≠ .failed := fun heq => hfailed (heq ▸ hP)
  cases h with
  | waiting hprocs => exact hclaiming hprocs
  | claimed first hfirst hprocs =>
    exact List.forall_mem_cons.2 ⟨hnot hfirst id, hclaiming hprocs⟩
  | prepared first hfirst hprocs =>
    exact List.forall_mem_cons.2 ⟨hnot hfirst id, hclaiming hprocs⟩
  | crossed first second hfirst hsecond => exact hpair (hnot hfirst id) (hnot hsecond id)
  | overtaken first second hfirst hsecond => exact hpair (hnot hfirst id) (hnot hsecond id)
  | overtakenDone first second hfirst hsecond => exact hpair (hnot hfirst id) (hnot hsecond id)
  | met first second hfirst hsecond => exact hpair (hnot hfirst id) (hnot hsecond id)
  | metDone first second hfirst hsecond => exact hpair (hnot hfirst id) (hnot hsecond id)

theorem Sends.length_le {first : Operand V} {result : V} {phase : Phase V}
    (h : Sends node first result sent phase) : sent.length ≤ 1 := by
  cases phase with
  | sending made value => simp [h.2.2]
  | returned =>
    rw [show sent = [resultOperand node result] from h]
    exact Nat.le_refl _
  | _ => exact h.elim

theorem Joint.retired (h : Joint dfOperation node i recs procs sent)
    (hstate : node.state = .waiting) :
    recs.countP (fun record => record.1.state = .done) ≤ 1 ∧
      sent.length ≤ recs.countP fun record => record.1.state = .done := by
  cases h with
  | overtakenDone first second hfirst hsecond =>
    have hsent := hfirst.length_le
    simpa [hstate, claimNode, partialNode, doneNode] using hsent
  | metDone first second hfirst hsecond =>
    have hsent := hsecond.length_le
    simpa [hstate, claimNode, partialNode, doneNode] using hsent
  | _ => simp [hstate, claimNode, partialNode]

theorem Joint.complete (h : Joint dfOperation node i recs procs sent)
    (hstate : node.state = .waiting) (hreturned : ∀ proc ∈ procs, proc.phase = .returned)
    {a b : Operand V} (hpair : (procs.map Proc.operand).Perm [a, b]) (ha : a.order = 1)
    (hb : b.order ≠ 1) :
    recs.countP (fun record => record.1.state = .done) = 1 ∧
      sent = [resultOperand node (dfOperation node.opcode a.value b.value)] := by
  cases h with
  | waiting hprocs =>
    obtain ⟨proc, hproc, _⟩ := List.mem_map.1 (hpair.symm.subset List.mem_cons_self)
    have hphase := hprocs proc hproc
    rw [hreturned proc hproc] at hphase
    cases hphase
  | claimed first hfirst hprocs =>
    rw [hreturned first (by simp)] at hfirst
    exact hfirst.elim
  | @prepared first c d others hfirst hprocs =>
    have hlength := hpair.length_eq
    obtain ⟨proc, hproc⟩ : ∃ proc, proc ∈ others := by
      apply List.exists_mem_of_length_pos
      simp only [List.map_cons, List.length_cons, List.length_map, List.length_nil] at hlength
      omega
    have hphase := hprocs proc hproc
    rw [hreturned proc (List.mem_cons_of_mem _ hproc)] at hphase
    cases hphase
  | crossed first second hfirst hsecond =>
    rw [hreturned first (by simp)] at hfirst
    exact hfirst.elim
  | overtaken first second hfirst hsecond =>
    rw [hreturned first (by simp)] at hfirst
    exact hfirst.elim
  | overtakenDone first second hfirst hsecond =>
    rw [hreturned first (by simp), (operate_pair node.opcode hpair ha hb).2] at hfirst
    exact ⟨by simp [hstate, claimNode, partialNode, doneNode], hfirst⟩
  | met first second hfirst hsecond =>
    rw [hreturned second (by simp)] at hsecond
    exact hsecond.elim
  | metDone first second hfirst hsecond =>
    rw [hreturned second (by simp), (operate_pair node.opcode hpair ha hb).1] at hsecond
    exact ⟨by simp [hstate, claimNode, partialNode, doneNode], hsecond⟩

end Joint

theorem Stands.fires (h : Stands dfOperation s node) (hstate : node.state = .waiting) :
    Fires dfOperation s node := by
  obtain ⟨i, procs, hperm, hjoint⟩ := h
  have hcount := retirements_eq s node.nodeNo
  refine ⟨?_, ?_, ?_, ?_⟩
  · intro proc hproc hdst
    exact hjoint.unfailed proc (hperm.subset (List.mem_filter.2 ⟨hproc, by simpa using hdst⟩))
  · rw [hcount]
    exact (hjoint.retired hstate).1
  · rw [hcount]
    exact (hjoint.retired hstate).2
  · intro hreturned first other hpair hfirst hother
    rw [hcount]
    refine hjoint.complete hstate ?_ ((received_perm hperm).symm.trans hpair) hfirst hother
    intro proc hproc
    have hin := List.mem_filter.1 (hperm.symm.subset hproc)
    exact hreturned proc hin.1 (by simpa using hin.2)

theorem Reachable.fires (hprogram : Program nodes) (h : Reachable dfOperation nodes s)
    (hfed : Fed nodes s) : ∀ node ∈ nodes, Fires dfOperation s node := fun node hnode =>
  (h.stands hprogram hfed node hnode).fires (hprogram.waiting node hnode).1

theorem Reachable.unfailed (hprogram : Program nodes) (h : Reachable dfOperation nodes s)
    (hfed : Fed nodes s) : ∀ proc ∈ s.procs, proc.phase ≠ .failed := by
  intro proc hproc
  obtain ⟨node, hnode, hdst⟩ := hfed.known proc hproc
  exact (h.fires hprogram hfed node hnode).unfailed proc hproc hdst.symm

/-! ## The end of a run -/

theorem Fed.length_procs_le (h : Fed nodes s) : s.procs.length ≤ 2 * nodes.length := by
  have hcount (k : Int) : (s.procs.map fun proc => proc.operand.dstNo).count k ≤ 2 := by
    have hle := length_procsOf s k ▸ h.length_le k
    rw [procsOf, ← List.countP_eq_length_filter] at hle
    rw [List.count, List.countP_map]
    exact Nat.le_trans (Nat.le_of_eq (List.countP_congr (by simp))) hle
  have hknown : (s.procs.map fun proc => proc.operand.dstNo).toFinset ⊆
      (nodes.map Node.nodeNo).toFinset := by
    intro k hk
    simp only [List.mem_toFinset, List.mem_map] at hk ⊢
    obtain ⟨proc, hproc, rfl⟩ := hk
    exact h.known proc hproc
  calc s.procs.length
      = ∑ k ∈ (s.procs.map fun proc => proc.operand.dstNo).toFinset,
          (s.procs.map fun proc => proc.operand.dstNo).count k := by
        rw [List.sum_toFinset_count_eq_length, List.length_map]
    _ ≤ ∑ _k ∈ (s.procs.map fun proc => proc.operand.dstNo).toFinset, 2 :=
        Finset.sum_le_sum fun k _ => hcount k
    _ = 2 * (s.procs.map fun proc => proc.operand.dstNo).toFinset.card := by
        rw [Finset.sum_const, Nat.mul_comm]
        rfl
    _ ≤ 2 * nodes.length := by
        have hcard := (Finset.card_le_card hknown).trans (List.toFinset_card_le _)
        rw [List.length_map] at hcard
        omega

theorem Reachable.length_prog (h : Reachable dfOperation nodes s) (hfed : Fed nodes s) :
    s.prog.length ≤ 7 * nodes.length := by
  have hprog := h.length_prog_le
  have hprocs := hfed.length_procs_le
  omega

theorem Reachable.turnsLeft_le (h : Reachable dfOperation nodes s) (hfed : Fed nodes s) :
    s.turnsLeft (7 * nodes.length) (2 * nodes.length) ≤ operationBound nodes := by
  induction h with
  | start =>
    show 0 + 2 * nodes.length * (2 * (7 * nodes.length) + 7) ≤ _
    rw [Nat.zero_add, ← Nat.mul_assoc]
    exact Nat.le_refl _
  | @step s s' hs hstep ih =>
    have hbefore := ih (hfed.of_step hstep)
    by_cases hne : s' = s
    · rw [hne]
      exact hbefore
    · have hturns := hstep.turnsLeft_lt hne ((hs.step hstep).length_prog hfed)
        hfed.length_procs_le
      exact Nat.le_trans (Nat.le_of_lt hturns) hbefore

theorem Reachable.ended (hprogram : Program nodes) (h : Reachable dfOperation nodes s)
    (hfed : Fed nodes s) (hall : ∀ proc ∈ s.procs, proc.phase = .returned) :
    Ended dfOperation nodes s :=
  ⟨hall, fun node hnode =>
    (h.fires hprogram hfed node hnode).complete fun proc hproc _ => hall proc hproc⟩

theorem Reachable.proc_turnsLeft_lt (hprogram : Program nodes) (h : Reachable dfOperation nodes s)
    (hfed : Fed nodes s) {proc : Proc V} (hproc : proc ∈ s.procs)
    (hphase : proc.phase ≠ .returned) :
    turnsLeft (7 * nodes.length) (dfhandler dfOperation s proc.operand proc.phase).2.2 <
      turnsLeft (7 * nodes.length) proc.phase :=
  dfhandler_turnsLeft dfOperation (h.length_prog hfed) proc.operand hphase
    (h.unfailed hprogram hfed proc hproc)

theorem Reachable.endsWithin (hprogram : Program nodes) {n : Nat}
    (h : Reachable dfOperation nodes s) (hfed : Fed nodes s)
    (hleft : s.turnsLeft (7 * nodes.length) (2 * nodes.length) ≤ n) :
    EndsWithin dfOperation nodes n s := by
  -- the operations left go down with each step
  induction n generalizing s with
  | zero =>
    refine h.ended hprogram hfed fun proc hproc => ?_
    by_contra hphase
    have hturns := h.proc_turnsLeft_lt hprogram hfed hproc hphase
    obtain ⟨before, after, hprocs⟩ := List.append_of_mem hproc
    rw [State.turnsLeft, hprocs, total_append, total] at hleft
    omega
  | succ n ih =>
    by_cases hall : ∀ proc ∈ s.procs, proc.phase = .returned
    · exact .inl (h.ended hprogram hfed hall)
    · push Not at hall
      obtain ⟨proc, hproc, hphase⟩ := hall
      refine .inr ⟨⟨proc, hproc, ?_⟩, ?_⟩
      · intro hstay
        have hturns := h.proc_turnsLeft_lt hprogram hfed hproc hphase
        rw [hstay] at hturns
        exact Nat.lt_irrefl _ hturns
      · intro s' hstep hne hfed'
        have h' := h.step hstep
        have hturns := hstep.turnsLeft_lt hne (h'.length_prog hfed') hfed'.length_procs_le
        exact ih h' hfed' (by omega)

end Runs

/-! ## A subtraction whose claims cross -/

def subtraction : Node Int := ⟨2, 0, 0, 0, 1, 0, 0, 0, .waiting⟩

end Cspot.Dataflow
