import Cspot.Lib.Ballot
import Cspot.Raft.Tickets

/-!
# Election safety

The votes of a cluster are those of a ballot: a server remembers its term and its vote, and the
record of the ballot keeps every vote that was given and every majority that was counted.  A
count never takes a vote twice, since no ticket is there twice, so at most one server is made
the leader of a term.
-/

namespace Cspot.Raft

/-! ## Counting votes -/

variable {granted : Nat} {srv : Server} {result : RequestVoteResult} {m : Membership}
  {c c' : Cluster} {r : Ballot.Record Name} {action : Action} {name : Name} {input : Input}
  {rest messages : List Message}

theorem countVotes_le {votePool : List RequestVoteResult} {members term count voteSeq granted
    total : Nat} (hpos : 0 < voteSeq)
    (h : countVotes votePool members term count voteSeq granted = some total) :
    total ≤ granted + ((votePool.drop (voteSeq - 1)).take count).countP (VoteFor term) := by
  induction count generalizing voteSeq granted with
  | zero =>
    simp only [countVotes, Option.some.injEq] at h
    omega
  | succ count ih =>
    rw [countVotes] at h
    cases hread : wooFGet historySizeShort votePool voteSeq with
    | none => simp [hread] at h
    | some vote =>
      obtain ⟨hlt, hvote⟩ := List.getElem?_eq_some_iff.1 (wooFGet_eq_some hpos hread)
      have hnext : voteSeq - 1 + 1 = voteSeq + 1 - 1 := by omega
      rw [List.drop_eq_getElem_cons hlt, hvote, List.take_succ_cons, hnext]
      simp only [hread] at h
      by_cases hfor : VoteFor term vote
      · rw [List.countP_cons_of_pos (by simpa using hfor)]
        rw [if_pos (show vote.granted = true ∧ vote.term = term from hfor)] at h
        split at h
        · simp only [Option.some.injEq] at h
          omega
        · have hle := ih (show 0 < voteSeq + 1 by omega) h
          omega
      · rw [List.countP_cons_of_neg (by simpa using hfor)]
        rw [if_neg (show ¬ (vote.granted = true ∧ vote.term = term) from hfor)] at h
        exact ih (show 0 < voteSeq + 1 by omega) h

/-- What `h_count_vote` counts are votes of the pool, each once. -/
theorem grantedVotes_le {seqNo : Nat} (hresult : srv.votePool[seqNo - 1]? = some result)
    (h : grantedVotes srv seqNo result = some granted) :
    granted ≤ srv.votePool.countP (VoteFor result.term) := by
  have hle := countVotes_le (Nat.succ_pos _) h
  obtain ⟨hlt, hget⟩ := List.getElem?_eq_some_iff.1 hresult
  -- the loop goes over votes in front of the result
  have hfront : (srv.votePool.drop result.candidateVotePoolSeqno).take
      (seqNo - (result.candidateVotePoolSeqno + 1)) =
      (srv.votePool.take (seqNo - 1)).drop result.candidateVotePoolSeqno := by
    rw [List.drop_take]
    congr 1
    omega
  have hsub := (List.drop_sublist result.candidateVotePoolSeqno
    (srv.votePool.take (seqNo - 1))).countP_le (p := VoteFor result.term)
  have hsplit : srv.votePool.countP (VoteFor result.term) =
      (srv.votePool.take (seqNo - 1)).countP (VoteFor result.term) +
        (srv.votePool.drop (seqNo - 1)).countP (VoteFor result.term) := by
    rw [← List.countP_append, List.take_append_drop]
  have hown : (if result.granted = true then 1 else 0) ≤
      (srv.votePool.drop (seqNo - 1)).countP (VoteFor result.term) := by
    rw [List.drop_eq_getElem_cons hlt, hget]
    split
    · rename_i hgranted
      rw [List.countP_cons_of_pos (by simp [VoteFor, hgranted])]
      omega
    · omega
  rw [Nat.succ_sub_one, hfront] at hle
  omega

def voters (votePool : List RequestVoteResult) (term : Nat) : List Name :=
  (votePool.filter (VoteFor term)).map (·.granter)

theorem length_voters (votePool : List RequestVoteResult) (term : Nat) :
    (voters votePool term).length = votePool.countP (VoteFor term) := by
  rw [voters, List.length_map, List.countP_eq_length_filter]

theorem tickets_voters (votePool : List RequestVoteResult) (term : Nat) :
    ((voters votePool term).map (term, ·)).Sublist
      (votePool.flatMap RequestVoteResult.tickets) := by
  induction votePool with
  | nil => simp [voters]
  | cons vote votePool ih =>
    rw [List.flatMap_cons]
    by_cases hfor : VoteFor term vote
    · have hvoters : voters (vote :: votePool) term = vote.granter :: voters votePool term := by
        rw [voters, List.filter_cons_of_pos (by simpa using hfor)]
        rfl
      rw [hvoters, RequestVoteResult.tickets, if_pos hfor.1, hfor.2]
      exact ih.cons_cons _
    · have hvoters : voters (vote :: votePool) term = voters votePool term := by
        rw [voters, List.filter_cons_of_neg (by simpa using hfor)]
        rfl
      rw [hvoters]
      exact ih.trans (List.sublist_append_right _ _)

/-! ## The ballot of a cluster -/

/-- The vote a server remembers; the empty name stands for none. -/
def ServerState.vote (state : ServerState) : Option Name :=
  if state.votedFor = [] then none else some state.votedFor

/-- The cluster agrees with the record of its ballot. -/
structure Cluster.Polled (m : Membership) (c : Cluster) (r : Ballot.Record Name) : Prop where
  sound : Ballot.Sound m.memberWoofs.toFinset (fun name => (c.servers name).state.currentTerm)
    (fun name => (c.servers name).state.vote) r
  leads : ∀ name, (c.servers name).state.role = .leader →
    ∃ quorum, r.won name (c.servers name).state.currentTerm quorum
  pool : ∀ name, ∀ result ∈ (c.servers name).votePool, result.granted = true →
    r.cast result.granter result.term name
  network : ∀ dest result, .voteResult dest result ∈ c.network → result.granted = true →
    r.cast result.granter result.term dest
  counting : ∀ name, ∀ waiting ∈ (c.servers name).counting,
    (c.servers name).votePool[waiting.1 - 1]? = some waiting.2

/-- Nobody votes, is voted for or wins: servers keep their terms and votes or enter later terms,
and no vote is given. -/
structure Cluster.Calm (c c' : Cluster) : Prop where
  standing : ∀ name,
    ((c'.servers name).state.currentTerm = (c.servers name).state.currentTerm ∧
      (c'.servers name).state.votedFor = (c.servers name).state.votedFor ∧
      ((c'.servers name).state.role = .leader → (c.servers name).state.role = .leader)) ∨
    Leaves (c.servers name).state (c'.servers name).state
  pool : ∀ name, (c'.servers name).votePool = (c.servers name).votePool
  counting : ∀ name, ∀ waiting ∈ (c'.servers name).counting, waiting ∈ (c.servers name).counting
  network : ∀ dest result, .voteResult dest result ∈ c'.network → result.granted = true →
    .voteResult dest result ∈ c.network

theorem Cluster.Polled.calm (h : c.Polled m r) (hcalm : c.Calm c') : c'.Polled m r where
  sound := by
    refine h.sound.advance fun name => ?_
    rcases hcalm.standing name with ⟨hterm, hvote, -⟩ | hleaves
    · exact .inr ⟨hterm, by simp [ServerState.vote, hvote]⟩
    · exact .inl hleaves.1
  leads name hrole := by
    rcases hcalm.standing name with ⟨hterm, -, hleader⟩ | hleaves
    · rw [hterm]
      exact h.leads name (hleader hrole)
    · exact absurd hrole hleaves.2
  pool name result hresult := by
    rw [hcalm.pool name] at hresult
    exact h.pool name result hresult
  network dest result hresult hgranted :=
    h.network dest result (hcalm.network dest result hresult hgranted) hgranted
  counting name waiting hwaiting := by
    rw [hcalm.pool name]
    exact h.counting name waiting (hcalm.counting name waiting hwaiting)

theorem Cluster.calm_set (htakes : c.Takes action name input rest)
    (hstanding : (srv.state.currentTerm = (c.servers name).state.currentTerm ∧
        srv.state.votedFor = (c.servers name).state.votedFor ∧
        (srv.state.role = .leader → (c.servers name).state.role = .leader)) ∨
      Leaves (c.servers name).state srv.state) (hpool : srv.votePool = (c.servers name).votePool)
    (hcounting : ∀ waiting ∈ srv.counting, waiting ∈ (c.servers name).counting)
    (hmessages : ∀ dest result, .voteResult dest result ∈ messages → result.granted = false) :
    c.Calm (c.set name srv (rest ++ messages)) where
  standing other := by
    rw [set_servers]
    split
    · rename_i heq
      rw [heq]
      exact hstanding
    · exact .inl ⟨rfl, rfl, id⟩
  pool other := by
    rw [set_servers]
    split
    · rename_i heq
      rw [heq]
      exact hpool
    · rfl
  counting other := by
    rw [set_servers]
    split
    · rename_i heq
      rw [heq]
      exact hcounting
    · exact fun _ h => h
  network dest result hresult hgranted := by
    rcases List.mem_append.1 hresult with hold | hnew
    · exact htakes.mem _ hold
    · rw [hmessages dest result hnew] at hgranted
      simp at hgranted

/-! ## Steps that are not calm -/

theorem Cluster.Polled.grant {request : RequestVoteArg} (h : c.Polled m r) (hkept : c.Kept m)
    (htakes : c.Takes action name (.requestVote request) rest)
    (hmember : request.candidateWoof ∈ m.memberWoofs)
    (hle : (c.servers name).state.currentTerm ≤ request.term)
    (hvote : (enterTerm (c.servers name).state request).votedFor = [] ∨
      (enterTerm (c.servers name).state request).votedFor = request.candidateWoof) :
    (c.set name
      { c.servers name with
        state :=
          { enterTerm (c.servers name).state request with votedFor := request.candidateWoof } }
      (rest ++ voteReply request request.term true (c.servers name).state.woofName)).Polled m
      (r.grant name request.term request.candidateWoof) := by
  have hwithin := r.within_grant name request.term request.candidateWoof
  have hnamed : request.candidateWoof ≠ [] := fun hnil => m.named (hnil ▸ hmember)
  have hterm : (enterTerm (c.servers name).state request).currentTerm = request.term := by
    unfold enterTerm fallBack
    split
    · rfl
    · omega
  have hrole : (enterTerm (c.servers name).state request).role = .leader →
      (c.servers name).state.role = .leader ∧
        (c.servers name).state.currentTerm = request.term := by
    unfold enterTerm fallBack
    split
    · simp
    · exact fun hleader => ⟨hleader, by omega⟩
  refine ⟨?_, ?_, ?_, ?_, ?_⟩
  · refine h.sound.grant hle ?_ ?_ ?_ ?_
    · intro heq
      have hsame : enterTerm (c.servers name).state request = (c.servers name).state := by
        rw [enterTerm, if_neg (by omega)]
      rw [hsame] at hvote
      rcases hvote with hnone | hsome
      · exact .inl (by simp [ServerState.vote, hnone])
      · exact .inr (by simp [ServerState.vote, hsome, hnamed])
    · simp only [set_servers, if_true]
      exact hterm
    · simp [ServerState.vote, hnamed]
    · intro other hother
      simp [set_servers, hother]
  · intro other hleader
    rw [set_servers] at hleader ⊢
    split at hleader
    · rename_i heq
      obtain ⟨hleader, hcurrent⟩ := hrole hleader
      obtain ⟨quorum, hwon⟩ := h.leads name hleader
      rw [if_pos heq, heq]
      refine ⟨quorum, hwithin.won _ _ _ ?_⟩
      rwa [hterm, ← hcurrent]
    · rename_i hne
      obtain ⟨quorum, hwon⟩ := h.leads other hleader
      rw [if_neg hne]
      exact ⟨quorum, hwithin.won _ _ _ hwon⟩
  · intro other result hresult hgranted
    refine hwithin.cast _ _ _ (h.pool other result ?_ hgranted)
    rw [set_servers] at hresult
    split at hresult
    · rename_i heq
      rw [heq]
      exact hresult
    · exact hresult
  · intro dest result hresult hgranted
    rcases List.mem_append.1 hresult with hold | hnew
    · exact hwithin.cast _ _ _ (h.network dest result (htakes.mem _ hold) hgranted)
    · rw [voteReply, List.mem_singleton] at hnew
      obtain ⟨rfl, rfl⟩ := hnew
      exact .inr ⟨(hkept.servers name).settled.woofName, rfl, rfl⟩
  · intro other
    rw [set_servers]
    split
    · exact h.counting name
    · exact h.counting other

theorem Cluster.Polled.receive (h : c.Polled m r)
    (htakes : c.Takes action name (.voteResult result) rest) :
    (c.set name (receiveVote (c.servers name) result) (rest ++ [])).Polled m r := by
  obtain ⟨k, message, -, hk, hdest, hmessage, -⟩ := htakes.arrival rfl
  have hsent : Message.voteResult name result ∈ c.network := by
    rw [← hdest, ← Message.eq_voteResult hmessage]
    exact List.mem_of_getElem? hk
  have hstate : ∀ other, ((c.set name (receiveVote (c.servers name) result)
      (rest ++ [])).servers other).state = (c.servers other).state := by
    intro other
    rw [set_servers]
    split
    · rename_i heq
      rw [heq]
      rfl
    · rfl
  refine ⟨?_, ?_, ?_, ?_, ?_⟩
  · simp only [hstate]
    exact h.sound
  · simp only [hstate]
    exact h.leads
  · intro other vote hvote hgranted
    rw [set_servers] at hvote
    split at hvote
    · rename_i heq
      subst heq
      rcases List.mem_append.1 hvote with hold | hnew
      · exact h.pool other vote hold hgranted
      · rw [List.mem_singleton.1 hnew] at hgranted ⊢
        exact h.network other result hsent hgranted
    · exact h.pool other vote hvote hgranted
  · intro dest vote hvote hgranted
    rw [show (c.set name (receiveVote (c.servers name) result) (rest ++ [])).network = rest from
      List.append_nil rest] at hvote
    exact h.network dest vote (htakes.mem _ hvote) hgranted
  · intro other waiting hwaiting
    rw [set_servers] at hwaiting ⊢
    split at hwaiting
    · rename_i heq
      subst heq
      rw [if_pos rfl]
      rcases List.mem_append.1 hwaiting with hold | hnew
      · have hread := h.counting other waiting hold
        have hlt := (List.getElem?_eq_some_iff.1 hread).1
        exact (List.getElem?_append_left hlt).trans hread
      · rw [List.mem_singleton.1 hnew]
        simp [receiveVote]
    · rename_i hne
      rw [if_neg hne]
      exact h.counting other waiting hwaiting

theorem Cluster.Polled.majority (h : c.Polled m r) (hkept : c.Kept m) (htickets : c.Ticketed m)
    {seqNo : Nat} (hresult : (c.servers name).votePool[seqNo - 1]? = some result)
    (hgranted : grantedVotes (c.servers name) seqNo result = some granted)
    (hmost : (c.servers name).state.members / 2 < granted) :
    Quorum.IsMajority m.memberWoofs.toFinset
        (voters (c.servers name).votePool result.term).toFinset ∧
      ∀ voter ∈ (voters (c.servers name).votePool result.term).toFinset,
        r.cast voter result.term name := by
  have hle := grantedVotes_le hresult hgranted
  have hsub : ((voters (c.servers name).votePool result.term).map (result.term, ·)).Sublist
      (c.tickets name) :=
    (tickets_voters (c.servers name).votePool result.term).trans
      ((List.sublist_append_left _ _).trans (List.sublist_append_left _ _))
  have hpool : (voters (c.servers name).votePool result.term).Nodup := by
    have htickets' : (c.tickets name).Nodup :=
      List.nodup_iff_count_le_one.2 fun ticket => htickets.once name ticket
    exact (htickets'.sublist hsub).of_map _
  refine ⟨⟨fun voter hvoter => ?_, ?_⟩, fun voter hvoter => ?_⟩
  · rw [List.mem_toFinset] at hvoter ⊢
    have hticket : (result.term, voter) ∈ c.tickets name := hsub.subset (List.mem_map_of_mem hvoter)
    exact (htickets.sound name _ (List.count_pos_iff.2 hticket)).2
  · rw [List.toFinset_card_of_nodup m.nodup, List.toFinset_card_of_nodup hpool, length_voters,
      ← (hkept.servers name).settled.members]
    exact Nat.lt_of_lt_of_le hmost hle
  · rw [List.mem_toFinset, voters, List.mem_map] at hvoter
    obtain ⟨vote, hvote, rfl⟩ := hvoter
    rw [List.mem_filter, decide_eq_true_iff] at hvote
    obtain ⟨hmem, hgranted, hterm⟩ := hvote
    rw [← hterm]
    exact h.pool name vote hmem hgranted

theorem Cluster.Polled.promote (h : c.Polled m r) (hkept : c.Kept m) {term : Nat}
    {quorum : Finset Name} {waiting : List (Nat × RequestVoteResult)}
    (hmember : name ∈ m.memberWoofs) (hle : (c.servers name).state.currentTerm ≤ term)
    (hmajority : Quorum.IsMajority m.memberWoofs.toFinset quorum)
    (hcast : ∀ voter ∈ quorum, r.cast voter term name)
    (hwaiting : ∀ w ∈ waiting, w ∈ (c.servers name).counting) :
    (c.set name (Raft.promote { c.servers name with counting := waiting } term)
      (c.network ++ [])).Polled m (r.win name term quorum) := by
  have hname := (hkept.servers name).settled.woofName
  have hnamed : name ≠ [] := fun hnil => m.named (hnil ▸ hmember)
  refine ⟨?_, ?_, ?_, ?_, ?_⟩
  · refine h.sound.win hle hmajority hcast ?_ ?_ ?_
    · simp [Raft.promote, startRoutines]
    · simp [Raft.promote, startRoutines, ServerState.vote, hname, hnamed]
    · intro other hother
      simp [set_servers, hother]
  · intro other hleader
    rw [set_servers] at hleader ⊢
    split at hleader
    · rename_i heq
      rw [if_pos heq]
      exact ⟨quorum, .inr ⟨heq, rfl, rfl⟩⟩
    · rename_i hne
      rw [if_neg hne]
      obtain ⟨quorum', hwon⟩ := h.leads other hleader
      exact ⟨quorum', .inl hwon⟩
  · intro other result hresult hgranted
    refine h.pool other result ?_ hgranted
    rw [set_servers] at hresult
    split at hresult
    · rename_i heq
      rw [heq]
      exact hresult
    · exact hresult
  · intro dest result hresult hgranted
    refine h.network dest result ?_ hgranted
    rwa [show (c.set name (Raft.promote { c.servers name with counting := waiting } term)
      (c.network ++ [])).network = c.network from List.append_nil _] at hresult
  · intro other
    rw [set_servers]
    split
    · exact fun w hw => h.counting name w (hwaiting w hw)
    · exact h.counting other

/-! ## Runs -/

theorem Quiet.calm (h : Quiet (c.servers name) srv messages)
    (htakes : c.Takes action name input rest) : c.Calm (c.set name srv (rest ++ messages)) := by
  refine Cluster.calm_set htakes ?_ h.votePool (by rw [h.counting]; exact fun _ hw => hw) ?_
  · exact h.standing.imp_left fun hstays => ⟨hstays.1, hstays.2.1, hstays.2.2.1⟩
  · intro dest result hresult
    have := h.messages _ hresult
    simp [Message.ballot] at this

theorem enterTerm_standing (state : ServerState) (request : RequestVoteArg) :
    ((enterTerm state request).currentTerm = state.currentTerm ∧
      (enterTerm state request).votedFor = state.votedFor ∧
      ((enterTerm state request).role = .leader → state.role = .leader)) ∨
    Leaves state (enterTerm state request) := by
  unfold enterTerm
  split
  · rename_i hlt
    exact .inr ⟨hlt, by simp [fallBack]⟩
  · exact .inl ⟨rfl, rfl, id⟩

theorem Cluster.Polled.turn (h : c.Polled m r) (hkept : c.Kept m) (htickets : c.Ticketed m)
    (hsteady : Steady c action) (hmember : name ∈ c.memberWoofs)
    (htakes : c.Takes action name input rest)
    (hstep : (c.servers name).step input = some (srv, messages)) :
    ∃ r', r.Within r' ∧ (c.set name srv (rest ++ messages)).Polled m r' := by
  rw [hkept.memberWoofs] at hmember
  cases hballot : input.ballot with
  | false =>
    obtain ⟨-, hquiet, -⟩ :=
      (hkept.servers name).quiet (Input.keeps_of_takes hkept hsteady htakes) hballot hstep
    exact ⟨r, .refl r, h.calm (hquiet.calm htakes)⟩
  | true =>
    obtain ⟨hrun, -⟩ := Server.step_eq_some hstep
    cases input with
    | timeout =>
      obtain ⟨rfl, rfl⟩ := hrun
      refine ⟨r, .refl r, h.calm ?_⟩
      rcases hTimeoutChecker_cases (c.servers name) with heq | ⟨-, heq⟩
      · rw [heq]
        exact Cluster.calm_set htakes (.inl ⟨rfl, rfl, id⟩) rfl (fun _ hw => hw) (by simp)
      · rw [heq]
        refine Cluster.calm_set htakes (.inr ⟨?_, by simp [startElection]⟩) rfl
          (fun _ hw => hw) (by simp)
        rw [startElection_term (hsteady.no_wrap htakes)]
        exact Nat.lt_succ_self _
    | election k =>
      refine ⟨r, .refl r, h.calm ?_⟩
      obtain ⟨election, -, ⟨rfl, phase, rfl, -⟩ | ⟨rfl, _, _, -, hmessages⟩⟩ :=
        continueElection_cases hrun
      · exact Cluster.calm_set htakes (.inl ⟨rfl, rfl, id⟩) rfl (fun _ hw => hw) (by simp)
      · refine Cluster.calm_set htakes (.inl ⟨rfl, rfl, id⟩) rfl (fun _ hw => hw) ?_
        rcases hmessages with ⟨-, rfl⟩ | ⟨last, -, rfl⟩ <;> simp
    | requestVote request =>
      simp only [Server.run, Option.some.injEq] at hrun
      have hdenied : ∀ term dest result, Message.voteResult dest result ∈
          voteReply request term false [] → result.granted = false := by
        intro term dest result hresult
        rw [voteReply, List.mem_singleton, Message.voteResult.injEq] at hresult
        rw [hresult.2]
      rcases hRequestVote_cases (c.servers name) request with
        ⟨hsrv, hreply⟩ | ⟨-, hslot, hle, ⟨hsrv, hreply⟩ | ⟨hvote, -, hsrv, hreply⟩⟩
      all_goals
        rw [hrun] at hsrv hreply
        subst hsrv
      · refine ⟨r, .refl r, h.calm
          (Cluster.calm_set htakes (.inl ⟨rfl, rfl, id⟩) rfl (fun _ hw => hw) ?_)⟩
        rcases hreply with rfl | ⟨rfl, -⟩ | ⟨rfl, -⟩
        · simp
        · exact hdenied _
        · exact hdenied _
      · refine ⟨r, .refl r, h.calm (Cluster.calm_set htakes
          (enterTerm_standing (c.servers name).state request) rfl (fun _ hw => hw) ?_)⟩
        rcases hreply with rfl | rfl
        · simp
        · exact hdenied _
      · subst hreply
        have hcandidate : request.candidateWoof ∈ m.memberWoofs := by
          by_contra hnot
          exact hslot ((memberSlot_eq_none (hkept.servers name).settled).2 hnot)
        exact ⟨_, r.within_grant _ _ _, h.grant hkept htakes hcandidate hle hvote⟩
    | voteResult result =>
      obtain ⟨rfl, rfl⟩ := hrun
      exact ⟨r, .refl r, h.receive htakes⟩
    | countVote k =>
      obtain ⟨srv₁, hcount, ⟨⟩⟩ := Option.map_eq_some_iff.1 hrun
      obtain ⟨seqNo, result, hk, rfl⟩ := countWaiting_eq_some hcount
      have hwaiting : ∀ w ∈ (c.servers name).counting.eraseIdx k,
          w ∈ (c.servers name).counting := fun w hw => List.mem_of_mem_eraseIdx hw
      rcases hCountVote_cases { c.servers name with
          counting := (c.servers name).counting.eraseIdx k } seqNo result with
        heq | ⟨-, heq⟩ | ⟨-, hle, -, ⟨granted, hgranted, hmost⟩, heq⟩
      · rw [heq]
        exact ⟨r, .refl r, h.calm
          (Cluster.calm_set htakes (.inl ⟨rfl, rfl, id⟩) rfl hwaiting (by simp))⟩
      · rw [heq]
        exact ⟨r, .refl r, h.calm
          (Cluster.calm_set htakes (.inl ⟨rfl, rfl, by simp⟩) rfl hwaiting (by simp))⟩
      · rw [heq]
        obtain ⟨-, rfl⟩ := htakes.own fun message => by cases message <;> simp [Message.input]
        obtain ⟨hmajority, hcast⟩ := h.majority hkept htickets
          (h.counting name _ (List.mem_of_getElem? hk)) hgranted hmost
        exact ⟨_, r.within_win _ _ _,
          h.promote hkept hmember hle hmajority hcast hwaiting⟩
    | _ => simp [Input.ballot] at hballot

theorem Cluster.Polled.step (h : c.Polled m r) (hkept : c.Kept m) (htickets : c.Ticketed m)
    (hsteady : Steady c action) (hstep : c.step action = some c') :
    ∃ r', r.Within r' ∧ c'.Polled m r' := by
  rcases Cluster.step_cases hstep with
    ⟨name, input, rest, srv, messages, hmember, htakes, hsrv, rfl⟩ | ⟨k, message, -, -, rfl⟩ |
    ⟨k, member, arg, -, -, rfl⟩
  · exact h.turn hkept htickets hsteady hmember htakes hsrv
  · exact ⟨r, .refl r, h.calm ⟨fun _ => .inl ⟨rfl, rfl, id⟩, fun _ => rfl, fun _ _ hw => hw,
      fun dest result hresult _ => List.mem_of_mem_eraseIdx hresult⟩⟩
  · refine ⟨r, .refl r, h.calm ⟨fun name => ?_, fun name => ?_, fun name => ?_,
      fun dest result hresult _ => List.mem_of_mem_eraseIdx hresult⟩⟩
    all_goals
      rw [Cluster.set_servers]
      split
    · rename_i heq
      rw [heq]
      exact .inl ⟨rfl, rfl, id⟩
    · exact .inl ⟨rfl, rfl, id⟩
    · rename_i heq
      rw [heq]
      rfl
    · rfl
    · rename_i heq
      rw [heq]
      exact fun _ hw => hw
    · exact fun _ hw => hw

/-- All that holds of a cluster of a fixed configuration and of the record of its ballot. -/
structure Cluster.Elects (m : Membership) (c : Cluster) (r : Ballot.Record Name) : Prop where
  kept : c.Kept m
  tickets : c.Ticketed m
  polled : c.Polled m r

theorem Cluster.Elects.step (h : c.Elects m r) (hsteady : Steady c action)
    (hstep : c.step action = some c') : ∃ r', r.Within r' ∧ c'.Elects m r' := by
  obtain ⟨r', hwithin, hpolled⟩ := h.polled.step h.kept h.tickets hsteady hstep
  exact ⟨r', hwithin, h.kept.step hsteady hstep, h.tickets.step h.kept hsteady hstep, hpolled⟩

theorem Cluster.Elects.reaches (h : c.Elects m r) (hreaches : c.Reaches Steady c') :
    ∃ r', r.Within r' ∧ c'.Elects m r' := by
  induction hreaches with
  | refl => exact ⟨r, .refl r, h⟩
  | step _ hsteady hstep ih =>
    obtain ⟨r₁, hwithin₁, h₁⟩ := ih
    obtain ⟨r₂, hwithin₂, h₂⟩ := h₁.step hsteady hstep
    exact ⟨r₂, hwithin₁.trans hwithin₂, h₂⟩

theorem Membership.start_elects (m : Membership) (observer : Name → Bool)
    {logs : Name → RingLog LogEntry}
    (hlogs : ∀ name slot, Keeps m.memberWoofs ((logs name).slots slot)) :
    (m.start observer logs).Elects m .empty where
  kept := m.start_kept observer hlogs
  tickets := by
    have hnone : ∀ name ticket, (m.start observer logs).copies name ticket = 0 := by
      intro name ticket
      rfl
    exact ⟨fun name ticket => by rw [hnone]; omega, fun name ticket h => by
      rw [hnone] at h
      omega⟩
  polled :=
    { sound := Ballot.sound_empty _ _ _
      leads := by
        intro name hrole
        simp only [start, startServer] at hrole
        split at hrole <;> simp at hrole
      pool := by simp [start, startServer]
      network := by simp [start]
      counting := by simp [start, startServer] }

/-! ## Election safety -/

def Server.Leads (srv : Server) (term : Nat) : Prop :=
  srv.state.role = .leader ∧ srv.state.currentTerm = term

instance (srv : Server) (term : Nat) : Decidable (srv.Leads term) :=
  inferInstanceAs (Decidable (_ ∧ _))

def trio : Membership where
  memberWoofs := [Bytes.ofString "128.111.45", [98], [99]]
  nodup := by decide
  named := by decide

def trioElection : Option Cluster :=
  let name := Bytes.ofString "128.111.45"
  (trio.start (fun _ => false) fun _ => emptyLog.append .zero).play Steady
    [.act name .timeout, .act name (.election 0), .act name (.election 0), .act name (.election 0),
      .deliver 0, .deliver 0, .deliver 1, .deliver 1, .act name (.countVote 1)]

theorem trioElection_leads :
    ∃ c, trioElection = some c ∧ (c.servers (Bytes.ofString "128.111.45")).Leads 1 := by
  have hleads : (trioElection.map fun c =>
      decide ((c.servers (Bytes.ofString "128.111.45")).Leads 1)) = some true := by decide
  obtain ⟨c, hplay, hleader⟩ := Option.map_eq_some_iff.1 hleads
  exact ⟨c, hplay, of_decide_eq_true hleader⟩

theorem trio_keeps (_ : Name) (slot : Nat) :
    Keeps trio.memberWoofs ((emptyLog.append .zero).slots slot) := by
  have hzero : (emptyLog.append .zero).slots slot = .zero :=
    (emptyLog.slots_appendAll [.zero] slot).elim id List.mem_singleton.1
  rw [hzero]
  exact .inl rfl

/-- The log of the first server ends with a configuration of the third server alone; the last
entry of the second server is of a later term. -/
def dividingLogs (name : Name) : RingLog LogEntry :=
  if name = Bytes.ofString "128.111.45" then
    (emptyLog.append .zero).append { term := 0, isConfig := .new, data := encodeConfig [[99]] }
  else if name = [98] then emptyLog.append { term := 1 }
  else emptyLog.append .zero

def electionActions (name : Name) : List Action :=
  [.act name .timeout, .act name (.election 0), .act name (.election 0), .act name (.election 0)]

/-- The first server leads term 1 and sends its last entry to the third, which elects itself in
term 2; the second wins term 2 with its own vote and the vote of the first. -/
def dividedElection : Option Cluster :=
  let name := Bytes.ofString "128.111.45"
  (trio.start (fun _ => false) dividingLogs).play Steady
    (electionActions name ++
      [.deliver 0, .deliver 0, .deliver 0, .deliver 0, .deliver 1, .act name (.countVote 1),
        .act name (.replicate 0 [2]), .deliver 1, .deliver 1, .act name (.replicate 0 []),
        .act name (.replicate 0 []), .deliver 1, .act [99] .finishAppend] ++
      electionActions [99] ++ [.deliver 2, .deliver 2, .act [99] (.countVote 0)] ++
      electionActions [98] ++
      [.deliver 2, .deliver 2, .deliver 3, .deliver 3, .act [98] (.countVote 1)])

section Later

variable {m : Membership} {observer : Name → Bool} {logs : Name → RingLog LogEntry}
  (hlogs : ∀ name slot, Keeps m.memberWoofs ((logs name).slots slot))
  {c c' : Cluster} (h : (m.start observer logs).Reaches Steady c) (h' : c.Reaches Steady c')

include hlogs h h'

/-- A majority stays in the term of a leader or beyond it, whatever becomes of the leader. -/
theorem leader_majority {a : Name} {term : Nat} (ha : (c.servers a).Leads term) :
    ∃ quorum, Quorum.IsMajority m.memberWoofs.toFinset quorum ∧
      ∀ v ∈ quorum, term ≤ (c'.servers v).state.currentTerm := by
  obtain ⟨r, -, helects⟩ := (m.start_elects observer hlogs).reaches h
  obtain ⟨r', hwithin, helects'⟩ := helects.reaches h'
  obtain ⟨quorum, hwon⟩ := helects.polled.leads a ha.1
  rw [ha.2] at hwon
  have hsound := helects'.polled.sound
  obtain ⟨hmajority, hcast⟩ := hsound.backed a term quorum (hwithin.won _ _ _ hwon)
  exact ⟨quorum, hmajority, fun v hv => hsound.bounded v term a (hcast v hv)⟩

/-- A server votes for one candidate in a term, unless nobody but itself can lead the term from
then on. -/
theorem votes_agree {dest dest' : Name} {result result' : RequestVoteResult}
    (hvote : .voteResult dest result ∈ c.network) (hgranted : result.granted = true)
    (hvote' : .voteResult dest' result' ∈ c'.network) (hgranted' : result'.granted = true)
    (hgranter : result'.granter = result.granter) (hterm : result'.term = result.term) :
    dest' = dest ∨ ∀ c'' b, c'.Reaches Steady c'' → (c''.servers b).Leads result.term →
      b = result.granter := by
  obtain ⟨r, -, helects⟩ := (m.start_elects observer hlogs).reaches h
  obtain ⟨r', hwithin, helects'⟩ := helects.reaches h'
  have hcast := hwithin.cast _ _ _ (helects.polled.network dest result hvote hgranted)
  have hcast' := helects'.polled.network dest' result' hvote' hgranted'
  rw [hgranter, hterm] at hcast'
  have hsound := helects'.polled.sound
  rcases hsound.once _ _ _ _ hcast' hcast with heq | ⟨quorum, hwon, -⟩
  · exact .inl heq
  · right
    intro c'' b h'' hb
    obtain ⟨r'', hwithin', helects''⟩ := helects'.reaches h''
    obtain ⟨quorum', hwon'⟩ := helects''.polled.leads b hb.1
    rw [hb.2] at hwon'
    exact helects''.polled.sound.unique b _ _ quorum' quorum hwon' (hwithin'.won _ _ _ hwon)

end Later

theorem leader_majority_trio :
    ∃ c, trioElection = some c ∧ ∀ c', c.Reaches Steady c' →
      ∃ quorum, Quorum.IsMajority trio.memberWoofs.toFinset quorum ∧
        ∀ v ∈ quorum, 1 ≤ (c'.servers v).state.currentTerm := by
  obtain ⟨c, hplay, hleader⟩ := trioElection_leads
  exact ⟨c, hplay, fun c' h' =>
    leader_majority trio_keeps (Cluster.reaches_of_play .refl hplay) h' hleader⟩

theorem votes_agree_trio :
    ∃ (c : Cluster) (result : RequestVoteResult),
      .voteResult (Bytes.ofString "128.111.45") result ∈ c.network ∧
      ∀ c', c.Reaches Steady c' → ∀ dest, .voteResult dest result ∈ c'.network →
        dest = Bytes.ofString "128.111.45" ∨
          ∀ c'' b, c'.Reaches Steady c'' → (c''.servers b).Leads result.term →
            b = result.granter := by
  let name := Bytes.ofString "128.111.45"
  have hvote : ((trio.start (fun _ => false) fun _ => emptyLog.append .zero).play Steady
      [.act name .timeout, .act name (.election 0), .act name (.election 0),
        .act name (.election 0), .deliver 1]).bind (fun c => c.network[2]?) =
      some (.voteResult name ⟨1, true, 0, [98]⟩) := by decide
  obtain ⟨c, hplay, hget⟩ := Option.bind_eq_some_iff.1 hvote
  have hmem := List.mem_of_getElem? hget
  exact ⟨c, _, hmem, fun c' h' dest hvote' =>
    votes_agree trio_keeps (Cluster.reaches_of_play .refl hplay) h' hmem rfl hvote' rfl rfl rfl⟩

end Cspot.Raft
