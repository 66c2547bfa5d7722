import Cspot.Raft.Replication

/-!
# The commit rule

The leader sorts the indices its members are known to have and looks at them from the middle
on.  The comparison is the difference of two indices cut down to an `int`; where it tells them
apart, which it does when they are less than `2 ^ 31` apart, an index in the middle is one that
more than half of the members have reached, and the rule finds every such index.
-/

namespace Cspot.Raft

/-! ## Sorting the indices -/

variable {a b c commitIndex term : Nat} {indices : List Nat} {log : RingLog LogEntry}
  {srv srv' : Server} {state state' : ServerState}

theorem compIndex_eq (hab : a < b + 2 ^ 31) (hba : b < a + 2 ^ 31) :
    compIndex a b = (b : Int) - a := by
  unfold compIndex Word.sub Word.toInt32 Word.modulus
  split <;> omega

/-- The comparison sees the larger one of two indices. -/
def Comparable (indices : Set Nat) : Prop :=
  ∀ a ∈ indices, ∀ b ∈ indices, a < b → 0 < (b - a) % 2 ^ 32 ∧ (b - a) % 2 ^ 32 < 2 ^ 31

theorem compIndex_pos_iff (hab : a < b) :
    0 < compIndex a b ↔ 0 < (b - a) % 2 ^ 32 ∧ (b - a) % 2 ^ 32 < 2 ^ 31 := by
  unfold compIndex Word.sub Word.toInt32 Word.modulus
  split <;> omega

theorem compIndex_neg_of_pos (h : 0 < compIndex a b) : compIndex b a < 0 := by
  unfold compIndex Word.sub Word.toInt32 Word.modulus at *
  split at h <;> split <;> omega

theorem Comparable.compIndex_nonpos_iff {indices : Set Nat} (h : Comparable indices)
    (ha : a ∈ indices) (hb : b ∈ indices) : compIndex a b ≤ 0 ↔ b ≤ a := by
  rcases Nat.lt_trichotomy a b with hlt | rfl | hgt
  · have hpos := (compIndex_pos_iff hlt).2 (h a ha b hb hlt)
    omega
  · have hzero : compIndex a a = 0 := by
      rw [compIndex_eq (by omega) (by omega)]
      omega
    omega
  · have hpos := (compIndex_pos_iff hgt).2 (h b hb a ha hgt)
    have hneg := compIndex_neg_of_pos hpos
    omega

theorem qsort_compIndex_pairwise (h : Comparable {index | index ∈ indices}) :
    (qsort compIndex indices).Pairwise fun a b => b ≤ a := by
  have hle : ∀ a ∈ indices, ∀ b ∈ indices, (compIndex a b ≤ 0 ↔ b ≤ a) :=
    fun a ha b hb => h.compIndex_nonpos_iff ha hb
  have hsorted : (qsort compIndex indices).Pairwise fun a b => compIndex a b ≤ 0 := by
    apply qsort.pairwise
    · intro a ha b hb
      rw [hle a ha b hb, hle b hb a ha]
      omega
    · intro a ha b hb c hc hab hbc
      rw [hle a ha b hb] at hab
      rw [hle b hb c hc] at hbc
      rw [hle a ha c hc]
      omega
  refine hsorted.imp_of_mem fun {a b} ha hb hab => ?_
  have hperm := qsort.perm compIndex indices
  exact (hle a (hperm.mem_iff.1 ha) b (hperm.mem_iff.1 hb)).1 hab

theorem lt_countP_of_sorted (h : Comparable {index | index ∈ indices}) {i : Nat}
    (hi : (qsort compIndex indices)[i]? = some c) : i < indices.countP (c ≤ ·) := by
  obtain ⟨hlt, hget⟩ := List.getElem?_eq_some_iff.1 hi
  have hfront : ∀ a ∈ (qsort compIndex indices).take (i + 1), c ≤ a := by
    intro a ha
    obtain ⟨j, hj, rfl⟩ := List.getElem_of_mem ha
    rw [List.length_take] at hj
    rw [List.getElem_take]
    rcases Nat.lt_or_ge j i with hji | hji
    · rw [← hget]
      exact List.pairwise_iff_getElem.1 (qsort_compIndex_pairwise h) j i (by omega) hlt hji
    · have : j = i := by omega
      subst this
      exact Nat.le_of_eq hget.symm
  have hcount : ((qsort compIndex indices).take (i + 1)).countP (c ≤ ·) = i + 1 := by
    rw [List.countP_eq_length.2 (by simpa using hfront), List.length_take]
    omega
  have hle := (List.take_sublist (i + 1) (qsort compIndex indices)).countP_le (p := (c ≤ ·))
  rw [hcount, (qsort.perm compIndex indices).countP_eq] at hle
  omega

/-! ## The scan -/

theorem commitScan_eq_some (h : commitScan log commitIndex term indices = some (some c)) :
    c ∈ indices ∧ commitIndex < c ∧ ∃ entry, log.get c = some entry ∧ entry.term = term := by
  induction indices with
  | nil => simp [commitScan] at h
  | cons index rest ih =>
    rw [commitScan] at h
    split at h
    · simp at h
    · cases hentry : log.get index with
      | none => simp [hentry] at h
      | some entry =>
        simp only [hentry] at h
        split at h
        · rename_i hterm
          obtain rfl : index = c := by simpa using h
          exact ⟨List.mem_cons_self .., by omega, entry, hentry, hterm⟩
        · obtain ⟨hmem, hrest⟩ := ih h
          exact ⟨List.mem_cons_of_mem _ hmem, hrest⟩

theorem useNewConfig_commitIndex (h : useNewConfig srv state = some (srv', state')) :
    state'.commitIndex = state.commitIndex := by
  simp only [useNewConfig, Option.bind_eq_bind, Option.bind_eq_some_iff] at h
  obtain ⟨configEntry, -, hsome⟩ := h
  cases hnew : newMembers configEntry.data with
  | none =>
    simp only [hnew, Option.some.injEq, Prod.mk.injEq] at hsome
    rw [← hsome.2]
  | some newMemberWoofs =>
    simp only [hnew, Option.some.injEq, Prod.mk.injEq] at hsome
    rw [← hsome.2]
    split <;> rfl

section

variable (h : updateCommitIndex srv state = some (srv', state'))
include h

theorem updateCommitIndex_cases :
    (srv' = srv ∧ state' = state) ∨
      ∃ c, commitScan srv.log state.commitIndex state.currentTerm
          ((sortedMatchIndex state).drop (state.members / 2)) = some (some c) ∧
        (srv' = srv ∧ state' = { state with commitIndex := c } ∨
          state.currentConfig = .joint ∧
            useNewConfig srv { state with commitIndex := c } = some (srv', state')) := by
  rw [updateCommitIndex] at h
  split at h
  · simp at h
  · simp only [Option.some.injEq, Prod.mk.injEq] at h
    exact .inl ⟨h.1.symm, h.2.symm⟩
  · rename_i c hscan
    refine .inr ⟨c, hscan, ?_⟩
    dsimp only at h
    split at h
    · rename_i hjoint
      exact .inr ⟨hjoint.1, h⟩
    · simp only [Option.some.injEq, Prod.mk.injEq] at h
      exact .inl ⟨h.1.symm, h.2.symm⟩

theorem updateCommitIndex_stable (hstable : state.currentConfig = .stable) :
    srv' = srv ∧ ∃ commitIndex, state' = { state with commitIndex := commitIndex } := by
  rcases updateCommitIndex_cases h with ⟨hsrv, rfl⟩ | ⟨c, -, ⟨hsrv, rfl⟩ | ⟨hjoint, -⟩⟩
  · exact ⟨hsrv, state'.commitIndex, rfl⟩
  · exact ⟨hsrv, c, rfl⟩
  · simp [hstable] at hjoint

theorem updateCommitIndex_scanned :
    state'.commitIndex = state.commitIndex ∨
      commitScan srv.log state.commitIndex state.currentTerm
        ((sortedMatchIndex state).drop (state.members / 2)) = some (some state'.commitIndex) := by
  rcases updateCommitIndex_cases h with ⟨-, rfl⟩ | ⟨c, hscan, ⟨-, rfl⟩ | ⟨-, hnew⟩⟩
  · exact .inl rfl
  · exact .inr hscan
  · rw [useNewConfig_commitIndex hnew]
    exact .inr hscan

end

theorem updateCommitIndex_raised
    (hindices : Comparable {index | index ∈ (List.range state.members).map state.matchIndex})
    (h : updateCommitIndex srv state = some (srv', state'))
    (hne : state'.commitIndex ≠ state.commitIndex) :
    state.commitIndex < state'.commitIndex ∧
      state.members / 2 <
        ((List.range state.members).map state.matchIndex).countP (state'.commitIndex ≤ ·) ∧
      ∃ entry, srv.log.get state'.commitIndex = some entry ∧ entry.term = state.currentTerm := by
  rcases updateCommitIndex_scanned h with hsame | hscan
  · exact absurd hsame hne
  · obtain ⟨hmem, hgt, hentry⟩ := commitScan_eq_some hscan
    obtain ⟨j, hj, hget⟩ := List.getElem_of_mem hmem
    rw [List.getElem_drop] at hget
    have hplace : (sortedMatchIndex state)[state.members / 2 + j]? =
        some state'.commitIndex := by
      rw [List.getElem?_eq_some_iff]
      rw [List.length_drop] at hj
      exact ⟨by omega, hget⟩
    have hcount := lt_countP_of_sorted hindices hplace
    exact ⟨hgt, by omega, hentry⟩

/-! ## The rule -/

/-- More than half of the members have reached the index, and its entry is one of the current
term. -/
def Committable (log : RingLog LogEntry) (state : ServerState) (c : Nat) : Prop :=
  state.commitIndex < c ∧
    state.members / 2 < ((List.range state.members).map state.matchIndex).countP (c ≤ ·) ∧
    ∃ entry, log.get c = some entry ∧ entry.term = state.currentTerm

def Readable (log : RingLog LogEntry) (state : ServerState) : Prop :=
  ∀ m < state.members, state.commitIndex < state.matchIndex m →
    ∃ entry, log.get (state.matchIndex m) = some entry

/-- The commit index changes to nothing but what may be committed, and it does change when the
index of some member may be. -/
def CommitRule (srv : Server) (state : ServerState) : Prop :=
  ∃ state', updateCommitIndex srv state = some (srv, state') ∧
    (state'.commitIndex ≠ state.commitIndex →
      Committable srv.log state state'.commitIndex) ∧
    ((∃ m < state.members, Committable srv.log state (state.matchIndex m)) →
      state'.commitIndex ≠ state.commitIndex)

theorem commitScan_ne_none
    (hread : ∀ c ∈ indices, commitIndex < c → ∃ entry, log.get c = some entry) :
    commitScan log commitIndex term indices ≠ none := by
  induction indices with
  | nil => simp [commitScan]
  | cons index rest ih =>
    rw [commitScan]
    split
    · simp
    obtain ⟨entry, hentry⟩ := hread index (List.mem_cons_self ..) (by omega)
    simp only [hentry]
    split
    · simp
    · exact ih fun c hc => hread c (List.mem_cons_of_mem _ hc)

/-- In front of an index that may be committed the scan meets larger ones only, so it does not
stop before it. -/
theorem commitScan_finds (hread : ∀ c ∈ indices, commitIndex < c → ∃ entry, log.get c = some entry)
    (hsorted : indices.Pairwise fun a b => b ≤ a) (hc : c ∈ indices) (hgt : commitIndex < c)
    {entry : LogEntry} (hentry : log.get c = some entry) (hterm : entry.term = term) :
    ∃ c', commitScan log commitIndex term indices = some (some c') := by
  induction indices with
  | nil => simp at hc
  | cons index rest ih =>
    obtain ⟨hfront, hrest⟩ := List.pairwise_cons.1 hsorted
    have hindex : c ≤ index := by
      rcases List.mem_cons.1 hc with rfl | hc
      · exact Nat.le_refl _
      · exact hfront c hc
    obtain ⟨first, hfirst⟩ := hread index (List.mem_cons_self ..) (by omega)
    rw [commitScan, if_neg (by omega)]
    simp only [hfirst]
    by_cases hsame : first.term = term
    · exact ⟨index, by rw [if_pos hsame]⟩
    rw [if_neg hsame]
    rcases List.mem_cons.1 hc with rfl | hc
    · rw [hentry, Option.some.injEq] at hfirst
      exact absurd (hfirst ▸ hterm) hsame
    · exact ih (fun c hc => hread c (List.mem_cons_of_mem _ hc)) hrest hc

theorem mem_drop_of_lt_countP {k : Nat} (hsorted : indices.Pairwise fun a b => b ≤ a)
    (hc : c ∈ indices) (hcount : k < indices.countP (c ≤ ·)) : c ∈ indices.drop k := by
  rw [← List.take_append_drop k indices] at hc hsorted hcount
  rcases List.mem_append.1 hc with htake | hdrop
  · have hfew : (indices.take k).countP (c ≤ ·) ≤ k :=
      List.countP_le_length.trans (List.length_take_le k indices)
    rw [List.countP_append] at hcount
    obtain ⟨index, hindex, hle⟩ := List.countP_pos_iff.1
      (show 0 < (indices.drop k).countP (c ≤ ·) by omega)
    have hge : index ≤ c := (List.pairwise_append.1 hsorted).2.2 c htake index hindex
    have hle : c ≤ index := by simpa using hle
    rw [Nat.le_antisymm hle hge]
    exact hindex
  · exact hdrop

theorem commitRule_of_comparable (hstable : state.currentConfig = .stable)
    (hindices : Comparable {index | index ∈ (List.range state.members).map state.matchIndex})
    (hreadable : Readable srv.log state) : CommitRule srv state := by
  have hperm := qsort.perm compIndex ((List.range state.members).map state.matchIndex)
  have hsorted : (sortedMatchIndex state).Pairwise fun a b => b ≤ a :=
    qsort_compIndex_pairwise hindices
  have hmem : ∀ c, c ∈ sortedMatchIndex state ↔ ∃ m < state.members, state.matchIndex m = c := by
    intro c
    rw [sortedMatchIndex, hperm.mem_iff, List.mem_map]
    simp
  have hread : ∀ c ∈ (sortedMatchIndex state).drop (state.members / 2), state.commitIndex < c →
      ∃ entry, srv.log.get c = some entry := by
    intro c hc hgt
    obtain ⟨m, hm, rfl⟩ := (hmem c).1 (List.mem_of_mem_drop hc)
    exact hreadable m hm hgt
  obtain ⟨result, hupdate⟩ : ∃ result, updateCommitIndex srv state = some result := by
    rw [updateCommitIndex]
    cases hscan : commitScan srv.log state.commitIndex state.currentTerm
        ((sortedMatchIndex state).drop (state.members / 2)) with
    | none => exact absurd hscan (commitScan_ne_none hread)
    | some found =>
      cases found with
      | none => exact ⟨_, rfl⟩
      | some c => simp [hstable]
  obtain ⟨srv', state'⟩ := result
  obtain ⟨rfl, -⟩ := updateCommitIndex_stable hupdate hstable
  refine ⟨state', hupdate, fun hne => updateCommitIndex_raised hindices hupdate hne, ?_⟩
  rintro ⟨m, hm, hgt, hmost, entry, hentry, hterm⟩
  have hlate : state.matchIndex m ∈ (sortedMatchIndex state).drop (state.members / 2) := by
    apply mem_drop_of_lt_countP hsorted ((hmem _).2 ⟨m, hm, rfl⟩)
    rwa [sortedMatchIndex, hperm.countP_eq]
  obtain ⟨c, hscan⟩ := commitScan_finds hread
    (hsorted.sublist (List.drop_sublist (state.members / 2) _)) hlate hgt hentry hterm
  rw [updateCommitIndex, hscan] at hupdate
  simp only [hstable, reduceCtorEq, false_and, if_false, Option.some.injEq, Prod.mk.injEq,
    true_and] at hupdate
  rw [← hupdate]
  exact Nat.ne_of_gt (commitScan_eq_some hscan).2.1

def pairLeader (a b : Nat) : Server where
  state :=
    { woofName := [97]
      role := .leader
      currentTerm := 1
      votedFor := [97]
      currentLeader := [97]
      members := 2
      observers := 0
      memberWoofs := slots [[97], [98]]
      currentConfig := .stable
      lastConfigSeqno := 0
      commitIndex := a
      nextIndex := fun _ => b + 1
      matchIndex := fun m => if m = 0 then a else b
      lastSentRequestSeq := fun _ => 0
      ackedRequestSeq := fun _ => 0
      lastCheckedCommittedEntry := a }
  log := RingLog.filled historySizeExtraLong (fun _ => { term := 1 }) b historySizeExtraLong_pos

theorem pairLeader_get (a : Nat) (hb : 0 < b) :
    (pairLeader a b).log.get b = some { term := 1 } := by
  have hsound : (pairLeader a b).log.Sound := .filled ..
  obtain ⟨entry, hread⟩ := hsound.exists_read_latest hb
  obtain ⟨slot, -, hslot⟩ := Option.map_eq_some_iff.1 hread
  rw [RingLog.get_of_pos _ hb]
  exact hread.trans (congrArg some hslot.symm)

theorem pairLeader_readable (a b : Nat) :
    Readable (pairLeader a b).log (pairLeader a b).state := by
  intro m _ hgt
  have hindex : (pairLeader a b).state.matchIndex m = b := by
    simp only [pairLeader] at hgt ⊢
    split at hgt
    · omega
    · rename_i hm
      rw [if_neg hm]
  rw [hindex] at hgt ⊢
  exact ⟨_, pairLeader_get a (Nat.zero_lt_of_lt hgt)⟩

theorem pairLeader_commits (hab : a < b) (hcomp : compIndex a b ≤ 0) :
    ¬ CommitRule (pairLeader a b) (pairLeader a b).state := by
  have hb : 0 < b := by omega
  rintro ⟨state', hupdate, hsound, -⟩
  have hsorted : sortedMatchIndex (pairLeader a b).state = [a, b] := by
    show qsort compIndex [a, b] = [a, b]
    simp [qsort, hcomp]
  have hscan : commitScan (pairLeader a b).log a 1 [b] = some (some b) := by
    rw [commitScan, if_neg (by omega), pairLeader_get a hb]
    rfl
  have hcommit : state'.commitIndex = b := by
    rw [updateCommitIndex, hsorted] at hupdate
    simp only [pairLeader, List.drop_succ_cons, List.drop_zero] at hupdate hscan
    simp only [hscan, reduceCtorEq, false_and, if_false, Option.some.injEq, Prod.mk.injEq,
      true_and] at hupdate
    rw [← hupdate]
  have hmost := (hsound (by rw [hcommit]; exact Nat.ne_of_gt hab)).2.1
  rw [hcommit, show (List.range (pairLeader a b).state.members).map
    (pairLeader a b).state.matchIndex = [a, b] from rfl] at hmost
  simp [pairLeader, hab] at hmost

/-- The rule is kept for all members with indices in a set exactly when the comparison tells the
indices of the set apart. -/
theorem commitRule_iff (indices : Set Nat) :
    (∀ (srv : Server) (state : ServerState), 0 < state.members → state.currentConfig = .stable →
      (∀ m < state.members, state.matchIndex m ∈ indices) → Readable srv.log state →
      CommitRule srv state) ↔ Comparable indices := by
  constructor
  · intro hrule a ha b hb hlt
    rw [← compIndex_pos_iff hlt]
    by_contra hcomp
    refine pairLeader_commits hlt (Int.not_lt.1 hcomp) (hrule _ _ Nat.two_pos rfl ?_
      (pairLeader_readable a b))
    intro m _
    simp only [pairLeader]
    split
    · exact ha
    · exact hb
  · intro h srv state _ hstable hindices hreadable
    refine commitRule_of_comparable hstable ?_ hreadable
    have hsub : ∀ index ∈ (List.range state.members).map state.matchIndex, index ∈ indices := by
      intro index hindex
      obtain ⟨m, hm, rfl⟩ := List.mem_map.1 hindex
      exact hindices m (List.mem_range.1 hm)
    exact fun a ha b hb => h a (hsub a ha) b (hsub b hb)

theorem commitRule_small :
    CommitRule (pairLeader 3 5) (pairLeader 3 5).state := by
  refine (commitRule_iff {index | index < 2 ^ 31}).2 ?_ _ _ (by decide) rfl ?_
    (pairLeader_readable 3 5)
  · intro a ha b hb hlt
    have : b < 2 ^ 31 := hb
    omega
  · intro m _
    show (if m = 0 then 3 else 5) < 2 ^ 31
    split <;> decide

/-- One of two members has nothing yet and the other has the entry behind `2 ^ 31`: the entry is
committed. -/
theorem lone_index_committed :
    (pairLeader 0 (2 ^ 31 + 1)).state.members = 2 ∧
      (pairLeader 0 (2 ^ 31 + 1)).state.currentConfig = .stable ∧
      Readable (pairLeader 0 (2 ^ 31 + 1)).log (pairLeader 0 (2 ^ 31 + 1)).state ∧
      ¬ CommitRule (pairLeader 0 (2 ^ 31 + 1)) (pairLeader 0 (2 ^ 31 + 1)).state :=
  ⟨rfl, rfl, pairLeader_readable _ _, pairLeader_commits (by decide) (by decide)⟩

end Cspot.Raft
