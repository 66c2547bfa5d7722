import Cspot.Lib.Quorum
import Cspot.Raft.Commit
import Cspot.Raft.Step

/-!
# The quorums of a joint configuration

While the configuration changes, elections and commits are counted in the union of the old
and the new members: more than half of the union decides.  Such a set has a member in common
with every majority of the old and of the new members only if the union is not much larger
than either.
-/

namespace Cspot.Raft

open Quorum

/-! ## The sets that decide -/

def votesOf (term : Nat) (voters : List Name) : List RequestVoteResult :=
  voters.map fun granter =>
    { term := term
      granted := true
      candidateVotePoolSeqno := 0
      granter := granter }

/-- The votes of `voters` make `h_count_vote` promote the candidate. -/
def Elects (srv : Server) (voters : List Name) : Prop :=
  ∃ result, (votesOf srv.state.currentTerm voters).getLast? = some result ∧
    (hCountVote { srv with votePool := votesOf srv.state.currentTerm voters } voters.length
      result).state.role = .leader

/-- The match indices of the leader, all of them in `indices`, make `update_commit_index` raise
the commit index, and `copies` are the members that have reached the new one. -/
def Commits (indices : Set Nat) (srv : Server) (copies : List Name) : Prop :=
  (∀ m < srv.state.members, srv.state.matchIndex m ∈ indices) ∧
    ∃ srv' state', updateCommitIndex srv srv.state = some (srv', state') ∧
      state'.commitIndex ≠ srv.state.commitIndex ∧
      ∀ m < srv.state.members, srv.state.memberWoofs.getD m [] ∈ copies ↔
        state'.commitIndex ≤ srv.state.matchIndex m

structure UsesJoint (state : ServerState) (joint : List Name) : Prop where
  config : state.config = joint
  members : state.members = joint.length
  status : state.currentConfig = .joint

/-- A set of members that can win an election, or commit an entry, with the joint
configuration. -/
def Decides (indices : Set Nat) (joint voters : List Name) : Prop :=
  voters.Nodup ∧ voters ⊆ joint ∧
    ∃ srv : Server, UsesJoint srv.state joint ∧
      (srv.state.role = .candidate ∧ 0 < srv.state.currentTerm ∧ Elects srv voters ∨
        srv.state.role = .leader ∧ Commits indices srv voters)

/-! ## Elections -/

theorem hCountVote_role (srv : Server) (seqNo : Nat) (result : RequestVoteResult)
    (hrole : srv.state.role = .candidate) (hpos : 0 < result.term)
    (hterm : result.term = srv.state.currentTerm) {total : Nat}
    (htotal : grantedVotes srv seqNo result = some total) :
    (hCountVote srv seqNo result).state.role = .leader ↔ srv.state.members / 2 < total := by
  rw [hCountVote, if_neg (by omega), if_neg (by omega), if_neg (by simp [hrole]), htotal]
  by_cases hmajority : srv.state.members / 2 < total
  · simp [hmajority, promote, startRoutines]
  · simp [hmajority, hrole]

variable {indices : Set Nat} {srv : Server} {joint voters : List Name} {state : ServerState}

theorem elects_iff (hrole : srv.state.role = .candidate) (hpos : 0 < srv.state.currentTerm)
    (hfew : voters.length ≤ 256) :
    Elects srv voters ↔ srv.state.members / 2 < voters.length := by
  induction voters using List.reverseRecOn with
  | nil => simp [Elects, votesOf]
  | append_singleton voters last _ =>
    have hvotes : votesOf srv.state.currentTerm (voters ++ [last]) =
        votesOf srv.state.currentTerm voters ++ votesOf srv.state.currentTerm [last] := by
      simp [votesOf]
    have hlen : (votesOf srv.state.currentTerm voters).length = voters.length := by
      simp [votesOf]
    have hread : ∀ j (hj : j < (votesOf srv.state.currentTerm voters).length),
        wooFGet historySizeShort (votesOf srv.state.currentTerm (voters ++ [last])) (1 + j) =
          some ((votesOf srv.state.currentTerm voters).get ⟨j, hj⟩) := by
      intro j hj
      have hheld : (votesOf srv.state.currentTerm (voters ++ [last])).length <
          1 + j + historySizeShort := by
        simp only [votesOf, List.length_map]
        unfold historySizeShort
        omega
      rw [wooFGet_of_le (by omega) hheld, hvotes, Nat.add_sub_cancel_left,
        List.getElem?_append_left hj, List.getElem?_eq_getElem hj]
      rfl
    obtain ⟨total, htotal, hiff⟩ := countVotes_of_read srv.state.members
      srv.state.currentTerm _ 1 1 hread
    have hall : (votesOf srv.state.currentTerm voters).countP
        (VoteFor srv.state.currentTerm) = voters.length := by
      rw [← hlen, List.countP_eq_length]
      intro vote hvote
      obtain ⟨granter, -, rfl⟩ := List.mem_map.1 hvote
      simp [VoteFor]
    have hlast : (votesOf srv.state.currentTerm (voters ++ [last])).getLast? =
        some ⟨srv.state.currentTerm, true, 0, last⟩ := by
      simp [votesOf]
    have htotal' : grantedVotes
        { srv with votePool := votesOf srv.state.currentTerm (voters ++ [last]) }
        (voters ++ [last]).length ⟨srv.state.currentTerm, true, 0, last⟩ = some total := by
      rw [grantedVotes, ← htotal, hlen]
      simp
    rw [Elects, hlast]
    simp only [Option.some.injEq, exists_eq_left']
    rw [hCountVote_role
      { srv with votePool := votesOf srv.state.currentTerm (voters ++ [last]) }
      (voters ++ [last]).length ⟨srv.state.currentTerm, true, 0, last⟩ hrole hpos rfl
      htotal']
    rw [hiff, hall, List.length_append, List.length_singleton, Nat.add_comm]

/-! ## Commits -/

theorem map_memberWoofs_range (huses : UsesJoint state joint) :
    (List.range state.members).map (fun m => state.memberWoofs.getD m []) = joint := by
  have hlen : state.members ≤ state.memberWoofs.length := by
    have := congrArg List.length huses.config
    rw [ServerState.config, List.length_take, ← huses.members] at this
    omega
  apply List.ext_getElem
  · simp [huses.members]
  · intro m hm _
    simp only [List.length_map, List.length_range] at hm
    simp only [← huses.config, ServerState.config, List.getElem_map, List.getElem_range,
      List.getElem_take]
    rw [List.getD_eq_getElem?_getD, List.getElem?_eq_getElem (by omega), Option.getD_some]

theorem commits_majority {copies : List Name} (hindices : Comparable indices)
    (huses : UsesJoint srv.state joint) (hnodup : joint.Nodup) (h : Commits indices srv copies) :
    joint.length / 2 < copies.length := by
  obtain ⟨hmatch, srv', state', hupdate, hraised, hcopies⟩ := h
  have hcomparable : Comparable
      {index | index ∈ (List.range srv.state.members).map srv.state.matchIndex} := by
    have hsub : ∀ index ∈ (List.range srv.state.members).map srv.state.matchIndex,
        index ∈ indices := by
      intro index hindex
      obtain ⟨m, hm, rfl⟩ := List.mem_map.1 hindex
      exact hmatch m (List.mem_range.1 hm)
    exact fun a ha b hb => hindices a (hsub a ha) b (hsub b hb)
  obtain ⟨-, hcount, -⟩ := updateCommitIndex_raised hcomparable hupdate hraised
  -- the members counted are those of the configuration that hold a copy
  have hheld : ((List.range srv.state.members).map srv.state.matchIndex).countP
      (state'.commitIndex ≤ ·) = joint.countP (· ∈ copies) := by
    rw [← map_memberWoofs_range huses, List.countP_map, List.countP_map]
    refine List.countP_congr fun m hm => ?_
    simpa using (hcopies m (List.mem_range.1 hm)).symm
  have hle : joint.countP (· ∈ copies) ≤ copies.length := by
    rw [List.countP_eq_length_filter]
    refine (List.subperm_of_subset (hnodup.filter _) fun v hv => ?_).length_le
    simpa using (List.mem_filter.1 hv).2
  rw [← huses.members]
  exact Nat.lt_of_lt_of_le (hheld ▸ hcount) hle

theorem decides_majority (hindices : Comparable indices) (hnodup : joint.Nodup)
    (hfew : joint.length ≤ 8) (h : Decides indices joint voters) :
    IsMajority joint.toFinset voters.toFinset := by
  obtain ⟨hvoters, hsub, srv, huses, hdecides⟩ := h
  have hlen : voters.length ≤ joint.length := (List.subperm_of_subset hvoters hsub).length_le
  refine ⟨fun v hv => List.mem_toFinset.2 (hsub (List.mem_toFinset.1 hv)), ?_⟩
  rw [List.toFinset_card_of_nodup hnodup, List.toFinset_card_of_nodup hvoters]
  rcases hdecides with ⟨hrole, hpos, helects⟩ | ⟨-, hcommits⟩
  · rw [← huses.members]
    exact (elects_iff hrole hpos (by omega)).1 helects
  · exact commits_majority hindices huses hnodup hcommits

/-! ## Accepted changes -/

/-- The change is accepted: a leader with a stable configuration, and a union that fits. -/
structure Accepts (srv : Server) (arg : ConfigChangeArg) : Prop where
  change : arg.observe = false
  leader : srv.state.role = .leader
  stable : srv.state.currentConfig = .stable
  fits : srv.state.config.length + arg.memberWoofs.length ≤ raftMaxMembers

theorem nodup_of_strcmp {names : List Name}
    (h : names.Pairwise fun a b => Bytes.strcmp a b < 0) : names.Nodup :=
  h.imp fun {a b} hlt heq => by
    rw [heq, Bytes.strcmp_self] at hlt
    exact absurd hlt (by decide)

theorem hConfigChange_joint {arg : ConfigChangeArg} (h : Accepts srv arg) :
    ∃ joint : List Name, (hConfigChange srv arg).state.config = joint ∧
      UsesJoint (hConfigChange srv arg).state joint ∧ joint.Nodup ∧ joint.length ≤ 8 ∧
      joint.toFinset = srv.state.config.toFinset ∪ arg.memberWoofs.toFinset := by
  obtain ⟨joint, behind, hcompute, hsorted, hmem⟩ := computeJointConfig_eq h.fits
  have hnodup := nodup_of_strcmp hsorted
  have hunion : joint.toFinset = srv.state.config.toFinset ∪ arg.memberWoofs.toFinset := by
    ext woof
    simp [hmem]
  have hlen : joint.length ≤ 8 := by
    rw [← List.toFinset_card_of_nodup hnodup, hunion]
    have hle := Finset.card_union_le srv.state.config.toFinset arg.memberWoofs.toFinset
    have hold := List.toFinset_card_le srv.state.config
    have hnew := List.toFinset_card_le arg.memberWoofs
    have hfits : srv.state.config.length + arg.memberWoofs.length ≤ 8 := h.fits
    omega
  have hstate : ∃ seq, (hConfigChange srv arg).state =
      useJointConfig srv.state joint.length (joint ++ behind) seq := by
    rw [hConfigChange, if_neg (by simp [h.change]), if_neg (by simp [h.leader]),
      if_neg (by simp [h.stable]), hcompute]
    exact ⟨_, rfl⟩
  obtain ⟨seq, hstate⟩ := hstate
  have hconfig : (hConfigChange srv arg).state.config = joint := by
    rw [hstate, ServerState.config, useJointConfig]
    simp only [List.append_assoc]
    have htake : (joint ++ behind).take raftMaxMembers =
        joint ++ behind.take (raftMaxMembers - joint.length) := by
      rw [List.take_append, List.take_of_length_le (by unfold raftMaxMembers; omega)]
    rw [htake, List.append_assoc, List.take_left]
  exact ⟨joint, hconfig, ⟨hconfig, by rw [hstate]; rfl, by rw [hstate]; rfl⟩, hnodup, hlen, hunion⟩

/-! ## Joint consensus -/

/-- Whatever decides with the joint configuration of the change has a member in common with
every majority of the old members and with every majority of the new ones. -/
def JointConsensus (indices : Set Nat) (srv : Server) (arg : ConfigChangeArg) : Prop :=
  ∀ voters quorum, Decides indices (hConfigChange srv arg).state.config voters →
    (IsMajority srv.state.config.toFinset quorum ∨ IsMajority arg.memberWoofs.toFinset quorum) →
    ∃ v ∈ voters, v ∈ quorum

/-- A smallest majority of the union leaves less than a majority of either part. -/
def Balanced (old new : List Name) : Prop :=
  let union := (old.toFinset ∪ new.toFinset).card
  (old.toFinset.card = 0 ∨ union < union / 2 + old.toFinset.card / 2 + 2) ∧
    (new.toFinset.card = 0 ∨ union < union / 2 + new.toFinset.card / 2 + 2)

instance (old new : List Name) : Decidable (Balanced old new) := by
  unfold Balanced
  infer_instance

theorem majority_decides (hsrv : srv.state = state) (huses : UsesJoint state joint)
    (hnodup : joint.Nodup) (hfew : joint.length ≤ 8) (part : Finset Name)
    (hpart : IsMajority joint.toFinset part) :
    Decides indices joint part.toList := by
  have hsub : part.toList ⊆ joint := fun v hv =>
    List.mem_toFinset.1 (hpart.1 (Finset.mem_toList.1 hv))
  have hlen : part.toList.length ≤ joint.length :=
    (List.subperm_of_subset part.nodup_toList hsub).length_le
  subst hsrv
  refine ⟨part.nodup_toList, hsub,
    { srv with state := { srv.state with role := .candidate, currentTerm := 1 } },
    ⟨huses.config, huses.members, huses.status⟩, .inl ⟨rfl, Nat.one_pos, ?_⟩⟩
  rw [elects_iff rfl Nat.one_pos (by omega)]
  have hcard := hpart.2
  rw [List.toFinset_card_of_nodup hnodup, ← huses.members] at hcard
  rw [Finset.length_toList]
  exact hcard

theorem jointConsensus_of_comparable (hindices : Comparable indices) {arg : ConfigChangeArg}
    (haccept : Accepts srv arg) :
    JointConsensus indices srv arg ↔ Balanced srv.state.config arg.memberWoofs := by
  obtain ⟨joint, hconfig, huses, hnodup, hfew, hunion⟩ := hConfigChange_joint haccept
  have hold : srv.state.config.toFinset ⊆ joint.toFinset := hunion ▸ Finset.subset_union_left
  have hnew : arg.memberWoofs.toFinset ⊆ joint.toFinset := hunion ▸ Finset.subset_union_right
  have hbalanced : Balanced srv.state.config arg.memberWoofs ↔
      Covers joint.toFinset srv.state.config.toFinset ∧
        Covers joint.toFinset arg.memberWoofs.toFinset := by
    rw [covers_iff hold, covers_iff hnew, hunion]
    rfl
  rw [hbalanced, JointConsensus, hconfig]
  constructor
  · intro hmeets
    constructor
    · intro p q hp hq
      obtain ⟨v, hv, hvq⟩ :=
        hmeets p.toList q (majority_decides rfl huses hnodup hfew p hp) (.inl hq)
      exact ⟨v, Finset.mem_toList.1 hv, hvq⟩
    · intro p q hp hq
      obtain ⟨v, hv, hvq⟩ :=
        hmeets p.toList q (majority_decides rfl huses hnodup hfew p hp) (.inr hq)
      exact ⟨v, Finset.mem_toList.1 hv, hvq⟩
  · rintro ⟨hcoversOld, hcoversNew⟩ voters quorum hdecides hquorum
    have hmajority := decides_majority hindices hnodup hfew hdecides
    have hmeets : ∃ v ∈ voters.toFinset, v ∈ quorum := by
      rcases hquorum with hquorum | hquorum
      · exact hcoversOld _ _ hmajority hquorum
      · exact hcoversNew _ _ hmajority hquorum
    obtain ⟨v, hv, hvq⟩ := hmeets
    exact ⟨v, List.mem_toFinset.1 hv, hvq⟩

def stableLeader (memberWoofs : List Name) : Server :=
  promote (startServer [97] memberWoofs false emptyLog) 1

def changeTo (memberWoofs : List Name) : ConfigChangeArg where
  memberWoofs := memberWoofs
  observe := false
  observerWoof := []

def quartetLeader (a b : Nat) : Server where
  state :=
    { woofName := [97]
      role := .leader
      currentTerm := 1
      votedFor := [97]
      currentLeader := [97]
      members := 4
      observers := 0
      memberWoofs := slots [[97], [98], [99], [100]]
      currentConfig := .joint
      lastConfigSeqno := b + 1
      commitIndex := a
      nextIndex := fun _ => b + 1
      matchIndex := fun m => if m < 2 then a else b
      lastSentRequestSeq := fun _ => 0
      ackedRequestSeq := fun _ => 0
      lastCheckedCommittedEntry := a }
  log := RingLog.filled historySizeExtraLong (fun _ => { term := 1 }) (b + 1)
    historySizeExtraLong_pos

theorem quartetLeader_commits {a b : Nat} (ha : a ∈ indices) (hb : b ∈ indices) (hab : a < b)
    (hcomp : compIndex a b ≤ 0) : Commits indices (quartetLeader a b) [[99], [100]] := by
  have hsorted : sortedMatchIndex (quartetLeader a b).state = [a, a, b, b] := by
    have hself : ∀ c, compIndex c c ≤ 0 := fun c => by
      rw [compIndex_eq (by omega) (by omega)]
      omega
    show qsort compIndex [a, a, b, b] = [a, a, b, b]
    simp [qsort, hcomp, hself]
  have hsound : (quartetLeader a b).log.Sound := .filled ..
  have hget : (quartetLeader a b).log.get b = some { term := 1 } := by
    rw [RingLog.get_of_pos _ (by omega), hsound.read_eq, if_pos]
    · rfl
    · simp only [quartetLeader, RingLog.filled, RingLog.earliest, historySizeExtraLong]
      omega
  have hscan : commitScan (quartetLeader a b).log (quartetLeader a b).state.commitIndex
      (quartetLeader a b).state.currentTerm
      ([a, a, b, b].drop ((quartetLeader a b).state.members / 2)) = some (some b) := by
    have hdrop : [a, a, b, b].drop ((quartetLeader a b).state.members / 2) = [b, b] := by
      simp [quartetLeader]
    have hnew : ¬ b ≤ (quartetLeader a b).state.commitIndex := Nat.not_le.2 hab
    rw [hdrop, commitScan, if_neg hnew, hget]
    exact if_pos rfl
  have hupdate : updateCommitIndex (quartetLeader a b) (quartetLeader a b).state =
      some (quartetLeader a b, { (quartetLeader a b).state with commitIndex := b }) := by
    rw [updateCommitIndex, hsorted, hscan]
    exact if_neg fun h => Nat.not_succ_le_self b h.2
  refine ⟨fun m _ => ?_, _, _, hupdate, Nat.ne_of_gt hab, fun m hm => ?_⟩
  · show (if m < 2 then a else b) ∈ indices
    split
    · exact ha
    · exact hb
  · have hm : m < 4 := hm
    show _ ↔ b ≤ if m < 2 then a else b
    rcases (by omega : m = 0 ∨ m = 1 ∨ m = 2 ∨ m = 3) with rfl | rfl | rfl | rfl <;>
      simp [quartetLeader, slots, hab]

/-- With match indices from a set, joint consensus is kept by exactly the balanced changes if and
only if the comparison tells the indices of the set apart. -/
theorem jointConsensus_iff (indices : Set Nat) :
    (∀ srv arg, Accepts srv arg →
      (JointConsensus indices srv arg ↔ Balanced srv.state.config arg.memberWoofs)) ↔
      Comparable indices := by
  refine ⟨fun h a ha b hb hab => ?_, fun h srv arg haccept =>
    jointConsensus_of_comparable h haccept⟩
  rw [← compIndex_pos_iff hab]
  by_contra hcomp
  have hconsensus := (h (stableLeader [[97], [98], [99]]) (changeTo [[97], [98], [100]])
    ⟨rfl, rfl, rfl, by decide⟩).2 (by decide)
  have hconfig : (hConfigChange (stableLeader [[97], [98], [99]])
      (changeTo [[97], [98], [100]])).state.config = [[97], [98], [99], [100]] := by decide
  have hcommits := quartetLeader_commits ha hb hab (Int.not_lt.1 hcomp)
  -- the two who commit are no majority, and the two others are one of the old members
  obtain ⟨v, hv, hvq⟩ := hconsensus [[99], [100]] {[97], [98]}
    ⟨by decide, by rw [hconfig]; decide, quartetLeader a b,
      by rw [hconfig]; exact ⟨rfl, rfl, rfl⟩, .inr ⟨rfl, hcommits⟩⟩
    (.inl ⟨by decide, by decide⟩)
  revert v
  decide

/-- Three members of which one is replaced, with indices below `2 ^ 31`. -/
theorem jointConsensus_oneReplaced :
    Accepts (stableLeader [[97], [98], [99]]) (changeTo [[97], [98], [100]]) ∧
      JointConsensus {index | index < 2 ^ 31} (stableLeader [[97], [98], [99]])
        (changeTo [[97], [98], [100]]) := by
  have haccept : Accepts (stableLeader [[97], [98], [99]]) (changeTo [[97], [98], [100]]) :=
    ⟨rfl, rfl, rfl, by decide⟩
  refine ⟨haccept, ((jointConsensus_iff {index | index < 2 ^ 31}).2 ?_ _ _ haccept).2 (by decide)⟩
  intro a _ b hb hlt
  have : b < 2 ^ 31 := hb
  omega

/-- A single server is replaced by three new ones: these win an election, or commit an entry,
without the only old member, whatever the match indices are. -/
theorem new_members_decide_alone :
    ∃ srv arg, Accepts srv arg ∧ ∀ indices, ¬ JointConsensus indices srv arg := by
  refine ⟨stableLeader [[97]], changeTo [[98], [99], [100]], ⟨rfl, rfl, rfl, by decide⟩, ?_⟩
  intro indices h
  have hconfig : (hConfigChange (stableLeader [[97]]) (changeTo [[98], [99], [100]])).state.config =
      [[97], [98], [99], [100]] := by decide
  have huses : UsesJoint
      (hConfigChange (stableLeader [[97]]) (changeTo [[98], [99], [100]])).state
      [[97], [98], [99], [100]] := ⟨hconfig, by decide, by decide⟩
  have hdecides : Decides indices _ _ := majority_decides rfl huses (by decide) (by decide)
    {[98], [99], [100]} ⟨by decide, by decide⟩
  rw [← hconfig] at hdecides
  obtain ⟨v, hv, hvq⟩ := h _ {[97]} hdecides (.inl ⟨by decide, by decide⟩)
  rw [Finset.mem_toList] at hv
  revert v
  decide

end Cspot.Raft
