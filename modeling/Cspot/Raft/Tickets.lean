import Cspot.Raft.FixedConfig

/-!
# Tickets

A candidate asks every member once, so every member can give it one vote in a term.  A ticket
is the term and the name of a voter whose vote for a candidate is asked for, on its way or in
the pool of the candidate.  No ticket is there twice, whatever is lost or overtaken.
-/

namespace Cspot.Raft

def RequestVoteResult.tickets (result : RequestVoteResult) : List (Nat × Name) :=
  if result.granted = true then [(result.term, result.granter)] else []

def Election.tickets (election : Election) : List (Nat × Name) :=
  election.memberWoofs.map (election.term, ·)

def Message.tickets (name : Name) : Message → List (Nat × Name)
  | .requestVote dest arg => if arg.candidateWoof = name then [(arg.term, dest)] else []
  | .voteResult dest result => if dest = name then result.tickets else []
  | _ => []

def Server.tickets (srv : Server) : List (Nat × Name) :=
  srv.votePool.flatMap RequestVoteResult.tickets ++ srv.elections.flatMap Election.tickets

def Cluster.tickets (c : Cluster) (name : Name) : List (Nat × Name) :=
  (c.servers name).tickets ++ c.network.flatMap (Message.tickets name)

theorem Message.tickets_of_ballot {message : Message} (h : message.ballot = false) (name : Name) :
    message.tickets name = [] := by
  cases message with
  | requestVote dest arg | voteResult dest result => simp [Message.ballot] at h
  | _ => rfl

variable {messages rest : List Message} {k : Nat} {c c' : Cluster} {action : Action} {name : Name}
  {input : Input} {srv : Server} {m : Membership} {α β : Type} {l : List α} {a : α} {srv' : Server}

theorem flatMap_tickets_of_ballot (h : ∀ message ∈ messages, message.ballot = false) (name : Name) :
    messages.flatMap (Message.tickets name) = [] :=
  List.flatMap_eq_nil_iff.2 fun message hmessage =>
    Message.tickets_of_ballot (h message hmessage) name

/-! ## Counting tickets -/

def Cluster.copies (c : Cluster) (name : Name) (ticket : Nat × Name) : Nat :=
  (c.tickets name).count ticket

theorem count_flatMap_eraseIdx [BEq β] (f : α → List β) (hk : l[k]? = some a) (b : β) :
    (l.flatMap f).count b = (f a).count b + ((l.eraseIdx k).flatMap f).count b := by
  obtain ⟨hlt, rfl⟩ := List.getElem?_eq_some_iff.1 hk
  have hperm := (List.getElem_cons_eraseIdx_perm hlt).flatMap_right f
  rw [← hperm.count_eq b, List.flatMap_cons, List.count_append]

theorem flatMap_set_of_eq (f : α → List β) {b : α} (hk : l[k]? = some a) (hab : f b = f a) :
    (l.set k b).flatMap f = l.flatMap f := by
  obtain ⟨hlt, rfl⟩ := List.getElem?_eq_some_iff.1 hk
  have hmap : (l.set k b).map f = l.map f := by
    have hself := @List.set_getElem_self _ (l.map f) k (by simpa using hlt)
    rwa [List.getElem_map, ← hab, ← List.map_set] at hself
  rw [List.flatMap_def, hmap, ← List.flatMap_def]

theorem Cluster.copies_eq (c : Cluster) (name : Name) (ticket : Nat × Name) :
    c.copies name ticket =
      (c.servers name).tickets.count ticket +
        (c.network.flatMap (Message.tickets name)).count ticket := by
  rw [copies, Cluster.tickets, List.count_append]

theorem Cluster.copies_set (c : Cluster) (name : Name) (srv : Server)
    (rest messages : List Message) (other : Name) (ticket : Nat × Name) :
    (c.set name srv (rest ++ messages)).copies other ticket =
      (if other = name then srv else c.servers other).tickets.count ticket +
        ((rest.flatMap (Message.tickets other)).count ticket +
          (messages.flatMap (Message.tickets other)).count ticket) := by
  rw [copies_eq, set_servers, show (c.set name srv (rest ++ messages)).network =
    rest ++ messages from rfl, List.flatMap_append, List.count_append]

theorem Cluster.Takes.count (h : c.Takes action name input rest) (other : Name)
    (ticket : Nat × Name) :
    (rest.flatMap (Message.tickets other)).count ticket ≤
      (c.network.flatMap (Message.tickets other)).count ticket := by
  rcases h with ⟨-, -, rfl⟩ | ⟨k, message, -, hk, -, -, rfl⟩
  · exact Nat.le_refl _
  · rw [count_flatMap_eraseIdx _ hk]
    omega

theorem Quiet.copies_le (h : Quiet (c.servers name) srv messages)
    (htakes : c.Takes action name input rest) (other : Name) (ticket : Nat × Name) :
    (c.set name srv (rest ++ messages)).copies other ticket ≤ c.copies other ticket := by
  have hown : (if other = name then srv else c.servers other).tickets =
      (c.servers other).tickets := by
    split
    · rename_i heq
      rw [heq, Server.tickets, Server.tickets, h.votePool, h.elections]
    · rfl
  have hrest := htakes.count other ticket
  rw [Cluster.copies_set, Cluster.copies_eq, hown, flatMap_tickets_of_ballot h.messages,
    List.count_nil]
  omega

/-! ## The steps of an election -/

theorem continueElection_tickets (h : continueElection srv k = some (srv', messages))
    (ticket : Nat × Name) :
    srv'.tickets.count ticket +
        (messages.flatMap (Message.tickets srv.state.woofName)).count ticket ≤
      srv.tickets.count ticket ∧
    ∀ other, other ≠ srv.state.woofName → messages.flatMap (Message.tickets other) = [] := by
  obtain ⟨election, hk, ⟨rfl, phase, rfl, -⟩ | ⟨rfl, seqno, latest, -, hmessages⟩⟩ :=
    continueElection_cases h
  · have hsame := flatMap_set_of_eq Election.tickets
      (b := { election with phase := phase }) hk rfl
    refine ⟨Nat.le_of_eq ?_, by simp⟩
    simp only [Server.tickets, List.flatMap_nil, List.count_nil, Nat.add_zero]
    rw [hsame]
  have hsent : ∀ other, messages.flatMap (Message.tickets other) = [] ∨
      messages.flatMap (Message.tickets other) =
        if srv.state.woofName = other then election.tickets else [] := by
    intro other
    rcases hmessages with ⟨-, rfl⟩ | ⟨last, -, rfl⟩
    · exact .inl rfl
    · right
      rw [List.flatMap_map]
      split
      · rename_i heq
        simp only [Message.tickets, voteRequest, heq, if_true]
        exact List.map_eq_flatMap.symm
      · rename_i hne
        simp [Message.tickets, voteRequest, hne]
  refine ⟨?_, fun other hother => ?_⟩
  · have hcount := count_flatMap_eraseIdx Election.tickets hk ticket
    have hle : (messages.flatMap (Message.tickets srv.state.woofName)).count ticket ≤
        election.tickets.count ticket := by
      rcases hsent srv.state.woofName with heq | heq
      · simp [heq]
      · simp [heq]
    simp only [Server.tickets, List.count_append]
    omega
  · rcases hsent other with heq | heq
    · exact heq
    · rw [heq, if_neg (Ne.symm hother)]

theorem hRequestVote_tickets (srv : Server) (request : RequestVoteArg) (other : Name)
    (ticket : Nat × Name) :
    ((hRequestVote srv request).2.flatMap (Message.tickets other)).count ticket ≤
      ((Message.requestVote srv.state.woofName request).tickets other).count ticket := by
  have hdenied : ∀ term,
      (voteReply request term false []).flatMap (Message.tickets other) = [] := by
    intro term
    simp [voteReply, Message.tickets, RequestVoteResult.tickets]
  rcases hRequestVote_cases srv request with
    ⟨-, heq | ⟨heq, -⟩ | ⟨heq, -⟩⟩ | ⟨-, -, -, ⟨-, heq | heq⟩ | ⟨-, -, -, heq⟩⟩
  · simp [heq]
  · simp [heq, hdenied]
  · simp [heq, hdenied]
  · simp [heq]
  · simp [heq, hdenied]
  · simp [heq, voteReply, Message.tickets, RequestVoteResult.tickets]

theorem receiveVote_tickets (srv : Server) (result : RequestVoteResult) (ticket : Nat × Name) :
    (receiveVote srv result).tickets.count ticket =
      srv.tickets.count ticket + result.tickets.count ticket := by
  simp only [Server.tickets, receiveVote, List.flatMap_append, List.count_append,
    List.flatMap_singleton]
  omega

theorem startElection_tickets (hwrap : srv.state.currentTerm + 1 < Word.modulus)
    (ticket : Nat × Name) :
    (startElection srv).tickets.count ticket =
      srv.tickets.count ticket +
        (srv.state.config.map (srv.state.currentTerm + 1, ·)).count ticket := by
  simp [Server.tickets, startElection, Election.tickets, Word.add_of_lt hwrap, Nat.add_assoc]

theorem hCountVote_tickets (srv : Server) (seqNo : Nat) (result : RequestVoteResult) :
    (hCountVote srv seqNo result).tickets = srv.tickets := by
  obtain ⟨state, _, _, _, _, heq, -⟩ := hCountVote_server srv seqNo result
  rw [heq]
  rfl

/-! ## Terms -/

theorem enterTerm_le (state : ServerState) (request : RequestVoteArg) :
    state.currentTerm ≤ (enterTerm state request).currentTerm := by
  unfold enterTerm fallBack
  split
  · dsimp only
    omega
  · exact Nat.le_refl _

theorem Kept.term_le {memberWoofs : List Name} (h : Kept memberWoofs name srv)
    (hinput : input.Keeps memberWoofs)
    (hwrap : input = .timeout → srv.state.currentTerm + 1 < Word.modulus)
    (hstep : srv.step input = some (srv', messages)) :
    srv.state.currentTerm ≤ srv'.state.currentTerm := by
  cases hballot : input.ballot with
  | false =>
    obtain ⟨-, hquiet, -⟩ := h.quiet hinput hballot hstep
    rcases hquiet.standing with hstays | hleaves
    · exact Nat.le_of_eq hstays.1.symm
    · exact Nat.le_of_lt hleaves.1
  | true =>
    obtain ⟨hrun, -⟩ := Server.step_eq_some hstep
    cases input with
    | timeout =>
      obtain ⟨rfl, rfl⟩ := hrun
      rcases hTimeoutChecker_cases srv with heq | ⟨-, heq⟩
      · exact Nat.le_of_eq (by rw [heq])
      · rw [heq, startElection_term (hwrap rfl)]
        exact Nat.le_succ _
    | election k =>
      obtain ⟨election, -, ⟨-, phase, rfl, -⟩ | ⟨rfl, -⟩⟩ := continueElection_cases hrun
      · exact Nat.le_refl _
      · exact Nat.le_refl _
    | requestVote request =>
      simp only [Server.run, Option.some.injEq] at hrun
      have hle := enterTerm_le srv.state request
      rcases hRequestVote_cases srv request with
        ⟨heq, -⟩ | ⟨-, -, -, ⟨heq, -⟩ | ⟨-, -, heq, -⟩⟩
      all_goals rw [hrun] at heq
      · exact Nat.le_of_eq (congrArg (·.state.currentTerm) heq).symm
      · exact Nat.le_trans hle (Nat.le_of_eq (congrArg (·.state.currentTerm) heq).symm)
      · exact Nat.le_trans hle (Nat.le_of_eq (congrArg (·.state.currentTerm) heq).symm)
    | voteResult result =>
      obtain ⟨rfl, rfl⟩ := hrun
      exact Nat.le_refl _
    | countVote k =>
      obtain ⟨srv₁, hcount, ⟨⟩⟩ := Option.map_eq_some_iff.1 hrun
      obtain ⟨seqNo, result, -, rfl⟩ := countWaiting_eq_some hcount
      rcases hCountVote_cases { srv with counting := srv.counting.eraseIdx k } seqNo result with
        heq | ⟨-, heq⟩ | ⟨-, hle, -, -, heq⟩
      · rw [heq]
      · rw [heq]
      · rw [heq]
        exact hle
    | _ => simp [Input.ballot] at hballot

/-! ## Runs -/

/-- No ticket is there twice, and none is of a term its candidate has not come to. -/
structure Cluster.Ticketed (m : Membership) (c : Cluster) : Prop where
  once : ∀ name ticket, c.copies name ticket ≤ 1
  sound : ∀ name ticket, 0 < c.copies name ticket →
    ticket.1 ≤ (c.servers name).state.currentTerm ∧ ticket.2 ∈ m.memberWoofs

theorem Cluster.Ticketed.of_le (h : c.Ticketed m)
    (hcopies : ∀ name ticket, c'.copies name ticket ≤ c.copies name ticket)
    (hterm : ∀ name,
      (c.servers name).state.currentTerm ≤ (c'.servers name).state.currentTerm) :
    c'.Ticketed m where
  once name ticket := Nat.le_trans (hcopies name ticket) (h.once name ticket)
  sound name ticket hpos := by
    obtain ⟨hle, hvoter⟩ := h.sound name ticket (Nat.lt_of_lt_of_le hpos (hcopies name ticket))
    exact ⟨Nat.le_trans hle (hterm name), hvoter⟩

theorem Cluster.Kept.copies_le (h : c.Kept m) (hsteady : Steady c action)
    (htakes : c.Takes action name input rest) (hinput : input ≠ .timeout)
    (hstep : (c.servers name).step input = some (srv, messages)) (other : Name)
    (ticket : Nat × Name) :
    (c.set name srv (rest ++ messages)).copies other ticket ≤ c.copies other ticket := by
  have hname := (h.servers name).settled.woofName
  cases hballot : input.ballot with
  | false =>
    obtain ⟨-, hquiet, -⟩ :=
      (h.servers name).quiet (Input.keeps_of_takes h hsteady htakes) hballot hstep
    exact hquiet.copies_le htakes other ticket
  | true =>
    obtain ⟨hrun, -⟩ := Server.step_eq_some hstep
    rw [Cluster.copies_set, Cluster.copies_eq]
    cases input with
    | timeout => exact absurd rfl hinput
    | election k =>
      obtain ⟨-, rfl⟩ := htakes.own fun message => by cases message <;> simp [Message.input]
      obtain ⟨hcount, hother⟩ := continueElection_tickets hrun ticket
      rw [hname] at hcount hother
      split
      · rename_i heq
        subst heq
        omega
      · rename_i hne
        rw [hother other hne, List.count_nil]
        omega
    | requestVote request =>
      obtain ⟨k, message, -, hk, hdest, hmessage, rfl⟩ := htakes.arrival rfl
      have hasked := Message.eq_requestVote hmessage
      rw [hdest] at hasked
      subst hasked
      have hnetwork := count_flatMap_eraseIdx (Message.tickets other) hk ticket
      have hreply := hRequestVote_tickets (c.servers name) request other ticket
      obtain ⟨⟨state, hserver, -⟩, -⟩ := hRequestVote_server (c.servers name) request
      simp only [Server.run, Option.some.injEq] at hrun
      rw [hname, hrun] at hreply
      rw [hrun] at hserver
      have hown : (if other = name then srv else c.servers other).tickets =
          (c.servers other).tickets := by
        split
        · rename_i heq
          subst heq
          rw [show srv = _ from hserver]
          rfl
        · rfl
      rw [hown]
      dsimp only at hreply
      omega
    | voteResult result =>
      obtain ⟨k, message, -, hk, hdest, hmessage, rfl⟩ := htakes.arrival rfl
      have hasked := Message.eq_voteResult hmessage
      rw [hdest] at hasked
      subst hasked
      have hnetwork := count_flatMap_eraseIdx (Message.tickets other) hk ticket
      obtain ⟨rfl, rfl⟩ := hrun
      rw [List.flatMap_nil, List.count_nil]
      split
      · rename_i heq
        subst heq
        rw [Message.tickets, if_pos rfl] at hnetwork
        rw [receiveVote_tickets]
        omega
      · omega
    | countVote k =>
      obtain ⟨srv₁, hcount, ⟨⟩⟩ := Option.map_eq_some_iff.1 hrun
      obtain ⟨seqNo, result, -, rfl⟩ := countWaiting_eq_some hcount
      have hrest := htakes.count other ticket
      have hown : (if other = name then hCountVote { c.servers name with
          counting := (c.servers name).counting.eraseIdx k } seqNo result
          else c.servers other).tickets = (c.servers other).tickets := by
        split
        · rename_i heq
          rw [hCountVote_tickets, heq]
          rfl
        · rfl
      rw [hown, List.flatMap_nil, List.count_nil]
      omega
    | _ => simp [Input.ballot] at hballot

theorem Cluster.Kept.term_le (h : c.Kept m) (hsteady : Steady c action)
    (hstep : c.step action = some c') (name : Name) :
    (c.servers name).state.currentTerm ≤ (c'.servers name).state.currentTerm := by
  rcases Cluster.step_cases hstep with
    ⟨actor, input, rest, srv, messages, -, htakes, hsrv, rfl⟩ | ⟨k, message, -, -, rfl⟩ |
    ⟨k, member, arg, -, -, rfl⟩
  · rw [Cluster.set_servers]
    split
    · rename_i heq
      subst heq
      exact (h.servers name).term_le (Input.keeps_of_takes h hsteady htakes)
        (fun htimeout => hsteady.no_wrap (htimeout ▸ htakes)) hsrv
    · exact Nat.le_refl _
  · exact Nat.le_refl _
  · rw [Cluster.set_servers]
    split
    · rename_i heq
      subst heq
      exact Nat.le_refl _
    · exact Nat.le_refl _

theorem Cluster.Ticketed.startElection (h : c.Ticketed m)
    (hkept : Raft.Kept m.memberWoofs name (c.servers name))
    (hwrap : (c.servers name).state.currentTerm + 1 < Word.modulus) :
    (c.set name (Raft.startElection (c.servers name)) (c.network ++ [])).Ticketed m := by
  have hconfig := hkept.settled.config
  have hcopies : ∀ other ticket,
      (c.set name (Raft.startElection (c.servers name)) (c.network ++ [])).copies other ticket =
        c.copies other ticket +
          if other = name then
            (m.memberWoofs.map ((c.servers name).state.currentTerm + 1, ·)).count ticket
          else 0 := by
    intro other ticket
    rw [Cluster.copies_set, Cluster.copies_eq, List.flatMap_nil, List.count_nil]
    split
    · rename_i heq
      rw [startElection_tickets hwrap, hconfig, heq]
      omega
    · omega
  have hnew : (m.memberWoofs.map ((c.servers name).state.currentTerm + 1, ·)).Nodup :=
    m.nodup.map fun a b hab => (Prod.mk.inj hab).2
  refine ⟨fun other ticket => ?_, fun other ticket hpos => ?_⟩
  · rw [hcopies]
    have hold := h.once other ticket
    split
    · rename_i heq
      subst heq
      have hone := List.nodup_iff_count_le_one.1 hnew ticket
      by_cases hmem : ticket ∈ m.memberWoofs.map ((c.servers other).state.currentTerm + 1, ·)
      · obtain ⟨voter, -, rfl⟩ := List.mem_map.1 hmem
        have hnone : c.copies other ((c.servers other).state.currentTerm + 1, voter) = 0 := by
          by_contra hsome
          have := (h.sound other _ (Nat.pos_of_ne_zero hsome)).1
          omega
        omega
      · rw [List.count_eq_zero_of_not_mem hmem]
        omega
    · omega
  · rw [hcopies] at hpos
    rw [Cluster.set_servers]
    split
    · rename_i heq
      subst heq
      rw [if_pos rfl] at hpos
      by_cases hold : 0 < c.copies other ticket
      · obtain ⟨hle, hvoter⟩ := h.sound other ticket hold
        exact ⟨by rw [startElection_term hwrap]; exact Nat.le_succ_of_le hle, hvoter⟩
      · have hmem := List.count_pos_iff.1 (show 0 <
          (m.memberWoofs.map ((c.servers other).state.currentTerm + 1, ·)).count ticket by omega)
        obtain ⟨voter, hvoter, rfl⟩ := List.mem_map.1 hmem
        exact ⟨Nat.le_of_eq (startElection_term hwrap).symm, hvoter⟩
    · rename_i hne
      rw [if_neg hne] at hpos
      exact h.sound other ticket hpos

theorem Cluster.Ticketed.step (hkept : c.Kept m) (h : c.Ticketed m) (hsteady : Steady c action)
    (hstep : c.step action = some c') :
    c'.Ticketed m := by
  have hterm := hkept.term_le hsteady hstep
  rcases Cluster.step_cases hstep with
    ⟨name, input, rest, srv, messages, -, htakes, hsrv, rfl⟩ | ⟨k, message, -, hk, rfl⟩ |
    ⟨k, member, arg, -, hk, rfl⟩
  · by_cases hinput : input = .timeout
    swap
    · exact h.of_le (hkept.copies_le hsteady htakes hinput hsrv) hterm
    subst hinput
    have hwrap := hsteady.no_wrap htakes
    obtain ⟨-, rfl⟩ := htakes.own fun message => by cases message <;> simp [Message.input]
    obtain ⟨hrun, -⟩ := Server.step_eq_some hsrv
    obtain ⟨rfl, rfl⟩ := hrun
    rcases hTimeoutChecker_cases (c.servers name) with heq | ⟨-, heq⟩
    · rw [heq] at hterm ⊢
      refine h.of_le (fun other ticket => ?_) hterm
      rw [Cluster.copies_set, Cluster.copies_eq, List.flatMap_nil, List.count_nil]
      split
      · rename_i hother
        rw [hother, Nat.add_zero]
      · rw [Nat.add_zero]
    · rw [heq]
      exact h.startElection (hkept.servers name) hwrap
  · refine h.of_le (fun name ticket => ?_) hterm
    have hcount := count_flatMap_eraseIdx (Message.tickets name) hk ticket
    rw [Cluster.copies_eq, Cluster.copies_eq]
    dsimp only
    omega
  · refine h.of_le (fun name ticket => ?_) hterm
    have hcount := count_flatMap_eraseIdx (Message.tickets name) hk ticket
    have hown : ((c.set arg.leaderWoof (sendFailed (c.servers arg.leaderWoof) member arg.term)
        (c.network.eraseIdx k)).servers name).tickets = (c.servers name).tickets := by
      rw [Cluster.set_servers]
      split
      · rename_i heq
        rw [heq]
        rfl
      · rfl
    rw [Cluster.copies_eq, Cluster.copies_eq, hown, show (c.set arg.leaderWoof
      (sendFailed (c.servers arg.leaderWoof) member arg.term) (c.network.eraseIdx k)).network =
        c.network.eraseIdx k from rfl]
    omega

end Cspot.Raft
