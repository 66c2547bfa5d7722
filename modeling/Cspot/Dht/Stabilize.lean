import Cspot.Dht.Lookup

/-!
# Stabilisation

A node asks its first successor for that node's predecessor.  When the answer lies between
the two it becomes the first successor; the other entries of the list stay where they are.
-/

namespace Cspot.Dht

open Circle

/-- What the successor reports: its predecessor, zeros if it has none, and its leader. -/
structure StabilizeCallbackArg where
  predecessor : Contact
  successorLeaderId : Fin 5

/-- The list that is handed to `r_set_successor`, if it changes. -/
def stabilizedList (node : NodeInfo) (successor : Fin 3 → Contact)
    (result : StabilizeCallbackArg) : Option (Fin 3 → Contact) :=
  if isEmpty result.predecessor.hash = false ∧
      inRange result.predecessor.hash node.hash (successor 0).hash then
    if (successor 0).hash ≠ result.predecessor.hash then
      some (Function.update successor 0 result.predecessor)
    else none
  else if (successor 0).leader ≠ result.successorLeaderId then
    some (Function.update successor 0
      { successor 0 with leader := result.successorLeaderId })
  else none

def rSetSuccessor (state : NodeState) (successor : Fin 3 → Contact) : NodeState :=
  { state with successor := successor }

def notifyPut (node : NodeInfo) (successor : Contact) : Put where
  monitor := some (nameIn successor.addr "dht")
  woof := nameIn successor.addr "dht_notify.woof"
  handler := some (Bytes.ofString "h_notify")
  message := .notify ⟨node.hash, node.replicas, node.replicaId⟩
    (nameIn node.addr "dht_notify_callback.woof") (Bytes.ofString "h_notify_callback")

/-- The state of the node afterwards and the puts, or the exit after a failure; `raftPut`
tells whether the list reaches the log of the replicas. -/
def hStabilizeCallback (env : Env) (raftPut : Bool) (state : NodeState)
    (result : StabilizeCallbackArg) : Exec (NodeState × List Put) := do
  let state ←
    match stabilizedList state.info state.successor result with
    | none => pure state
    | some successor => if raftPut then pure (rSetSuccessor state successor) else throw .exception
  let notify := notifyPut state.info (state.successor 0)
  if env.put notify then return (state, [notify])
  else if env.put tryReplicasPut then return (state, [tryReplicasPut])
  else throw .exception

/-! ## A node that joins -/

def Ring.join (ring : Ring) (hash : Hash) (hhash : hash ≠ 0) : Ring where
  hashes := insert hash ring.hashes
  nonempty := Finset.insert_nonempty _ _
  zero_notMem := by
    rw [Finset.mem_insert, not_or]
    exact ⟨fun hzero => hhash hzero.symm, ring.zero_notMem⟩
  owner := ring.owner

/-- Clockwise from `hash` the entries come one behind the other, until the list has come
round to the node itself. -/
def IncreasingFrom (hash : Hash) : List Hash → Prop
  | first :: second :: rest =>
    (gap hash first < gap hash second ∨ first = hash) ∧ IncreasingFrom hash (second :: rest)
  | _ => True

/-- No node of the set lies strictly between two neighbours of the list. -/
def NoneBetween (nodes : Finset Hash) (list : List Hash) : Prop :=
  list.IsChain fun first second => ∀ hash ∈ nodes, ¬ gap first hash < gap first second

/-- The request is answered with the first node at or after its key, or passed on. -/
def Resolves (env : Env) (ring : Ring) (state : NodeState) (arg : FindSuccessorArg) : Prop :=
  ∃ resolved, resolveThread env state arg = .ok resolved ∧
    match resolved.finish with
    | .answered contact => IsFirst ring.hashes arg.hashedKey contact.hash
    | .forwarded _ => True
    | _ => False

/-- What the list of a node should be like once `joined` has become its first successor. -/
structure Stabilised (env : Env) (ring joined : Ring) (hash : Hash) (state : NodeState)
    (action : Action) : Prop where
  increasing : IncreasingFrom hash (state.successors.map Contact.hash)
  between : NoneBetween ring.hashes (hash :: state.successors.map Contact.hash)
  resolves : ∀ arg, arg.action = action → Resolves env joined state arg

section Join

variable {env : Env} {ring : Ring} {hash : Hash} {state : NodeState} {x : Contact}
  {arg : FindSuccessorArg}

theorem Ring.Names.join {contact : Contact} (h : ring.Names contact) {h₀ : Hash} (hne : h₀ ≠ 0) :
    (ring.join h₀ hne).Names contact :=
  ⟨Finset.mem_insert_of_mem h.hash, h.addr, h.owner⟩

theorem hStabilizeCallback_adopts (henv : env.Works) (hstable : ring.Stable hash state)
    (hzero : x.hash ≠ 0) (hbetween : gap hash x.hash < gap hash (state.successor 0).hash)
    (leader : Fin 5) :
    ∃ puts, hStabilizeCallback env true state ⟨x, leader⟩ =
      .ok (rSetSuccessor state (Function.update state.successor 0 x), puts) := by
  have hrange : inRange x.hash state.info.hash (state.successor 0).hash = true := by
    rw [inRange_iff, hstable.info]
    exact hbetween
  have hempty : isEmpty x.hash = false := by simpa [isEmpty] using hzero
  have hne : (state.successor 0).hash ≠ x.hash := by
    intro heq
    rw [heq] at hbetween
    omega
  have hlist : stabilizedList state.info state.successor ⟨x, leader⟩ =
      some (Function.update state.successor 0 x) := by
    rw [stabilizedList, if_pos ⟨hempty, hrange⟩, if_pos hne]
  simp only [hStabilizeCallback, hlist, if_true, Exec.pure_eq, Exec.ok_bind, henv.put]
  exact ⟨_, rfl⟩

theorem adopted_successors :
    (rSetSuccessor state (Function.update state.successor 0 x)).successors =
      [x, state.successor 1, state.successor 2] := by
  simp [NodeState.successors, rSetSuccessor]

theorem resolveThread_answered {contact : Contact} {puts : List Put}
    (h : answer env state.info arg state.info.hash state.successors = .ok (some (contact, puts))) :
    resolveThread env state arg = .ok ⟨.answered contact, puts⟩ := by
  unfold resolveThread
  rw [show printNodeHash (2 * 20 + 1) = .ok () from rfl, Exec.ok_bind, h]
  rfl

theorem resolveThread_error {e : Stop}
    (h : answer env state.info arg state.info.hash state.successors = .error e) :
    resolveThread env state arg = .error e := by
  unfold resolveThread
  rw [show printNodeHash (2 * 20 + 1) = .ok () from rfl, Exec.ok_bind, h]
  rfl

theorem between_of_others (hstable : ring.Stable hash state) (hhash : hash ∈ ring.hashes)
    (hbetween : gap hash x.hash < gap hash (state.successor 0).hash)
    (hothers : ring.hashes ≠ {hash}) :
    gap x.hash (state.successor 0).hash < gap x.hash (state.successor 1).hash := by
  obtain ⟨other, hother, hne⟩ : ∃ other ∈ ring.hashes, other ≠ hash := by
    by_contra hnone
    apply hothers
    ext h
    rw [Finset.mem_singleton]
    constructor
    · intro hh
      by_contra hneq
      exact hnone ⟨h, hh, hneq⟩
    · intro hh
      exact hh ▸ hhash
  -- the first successor is another node, and the second one is not the first
  have hshort (a b : Hash) (hab : b ≠ a) : gap a b < 2 ^ 160 := by
    have hle := gap_le a b
    have hself := gap_self a
    have hinj : gap a b ≠ gap a a := fun heq => hab (gap_inj.1 heq)
    omega
  have hfirst : (state.successor 0).hash ≠ hash := by
    intro heq
    have hle := hstable.first.2 other hother
    have hlt := hshort hash other hne
    rw [heq, gap_self] at hle
    omega
  have hsecond : (state.successor 1).hash ≠ (state.successor 0).hash := by
    intro heq
    have hle := hstable.second.2 hash hhash
    have hlt := hshort (state.successor 0).hash hash (Ne.symm hfirst)
    rw [heq, gap_self] at hle
    omega
  have hle := hstable.first.2 _ hstable.second.1
  have hinj : gap hash (state.successor 0).hash ≠ gap hash (state.successor 1).hash :=
    fun heq => hsecond (gap_inj.1 heq).symm
  have hlt : gap hash (state.successor 0).hash < gap hash (state.successor 1).hash := by omega
  rw [gap_of_lt hbetween, gap_of_lt (hbetween.trans hlt)]
  omega

theorem resolves_of_alone (henv : env.Works) (hstable : ring.Stable hash state)
    (halone : ring.hashes = {hash}) (hzero : x.hash ≠ 0) (hx : (ring.join x.hash hzero).Names x)
    (hbetween : gap hash x.hash < gap hash (state.successor 0).hash)
    (hfetch : arg.action.fetches = false) :
    Resolves env (ring.join x.hash hzero)
      (rSetSuccessor state (Function.update state.successor 0 x)) arg := by
  have hself (i : Fin 3) : (state.successor i).hash = hash := by
    have hmem := (hstable.successor i).hash
    rwa [halone, Finset.mem_singleton] at hmem
  rw [hself 0] at hbetween
  have hmem (c : Hash) : c ∈ (ring.join x.hash hzero).hashes ↔ c = x.hash ∨ c = hash := by
    simp [Ring.join, halone]
  have hfirst : IsNext (ring.join x.hash hzero).hashes hash x.hash := by
    refine ⟨(hmem _).2 (.inl rfl), ?_⟩
    intro c hc
    rcases (hmem c).1 hc with rfl | rfl
    · exact Nat.le_refl _
    · exact Nat.le_of_lt hbetween
  have hsecond : IsNext (ring.join x.hash hzero).hashes x.hash (state.successor 1).hash := by
    rw [hself 1]
    refine ⟨(hmem _).2 (.inr rfl), ?_⟩
    intro c hc
    rcases (hmem c).1 hc with rfl | rfl
    · rw [gap_self]
      exact gap_le _ _
    · exact Nat.le_refl _
  have hanswer : ∃ contact, IsFirst (ring.join x.hash hzero).hashes arg.hashedKey contact.hash ∧
      answer env state.info arg state.info.hash [x, state.successor 1, state.successor 2] =
        .ok (some (contact, (actionPut env state.info arg contact).toList)) := by
    rw [hstable.info, answer_cons henv state.info hash hx]
    by_cases hkey : gap hash arg.hashedKey ≤ gap hash x.hash
    · rw [if_pos hkey, hfetch]
      exact ⟨x, hfirst.isFirst hkey, rfl⟩
    · have hlt : gap hash x.hash < gap hash arg.hashedKey := Nat.lt_of_not_le hkey
      have hrest : gap x.hash arg.hashedKey ≤ gap x.hash (state.successor 1).hash := by
        have hle := gap_le hash arg.hashedKey
        rw [hself 1, gap_of_lt hlt, gap_of_lt hbetween, gap_self]
        omega
      rw [if_neg hkey, answer_cons henv state.info x.hash ((hstable.successor 1).join hzero),
        if_pos hrest, hfetch]
      exact ⟨state.successor 1, hsecond.isFirst hrest, rfl⟩
  obtain ⟨contact, hcontact, heq⟩ := hanswer
  refine ⟨⟨.answered contact, (actionPut env state.info arg contact).toList⟩, ?_, hcontact⟩
  exact resolveThread_answered heq

/-- After the callback the list is in order, no node lies between its entries and every key
is resolved iff the node was alone in the ring; the two actions that print the key into the
short buffer never resolve. -/
theorem hStabilizeCallback_stabilised_iff (henv : env.Works) (hstable : ring.Stable hash state)
    (hhash : hash ∈ ring.hashes) (hzero : x.hash ≠ 0) (hx : (ring.join x.hash hzero).Names x)
    (hbetween : gap hash x.hash < gap hash (state.successor 0).hash) (leader : Fin 5)
    (action : Action) :
    ∃ state' puts, hStabilizeCallback env true state ⟨x, leader⟩ = .ok (state', puts) ∧
      (Stabilised env ring (ring.join x.hash hzero) hash state' action ↔
        ring.hashes = {hash} ∧ action ≠ .registerTopic ∧ action ≠ .subscribe) := by
  obtain ⟨puts, hcallback⟩ := hStabilizeCallback_adopts henv hstable hzero hbetween leader
  refine ⟨_, puts, hcallback, ?_⟩
  have hfetches : action.fetches = false ↔ action ≠ .registerTopic ∧ action ≠ .subscribe := by
    simp [Action.fetches]
  rw [← hfetches]
  constructor
  · intro h
    have halone : ring.hashes = {hash} := by
      by_contra hothers
      have hnone := h.between
      rw [adopted_successors, NoneBetween, List.map_cons, List.map_cons,
        List.isChain_cons_cons, List.isChain_cons_cons] at hnone
      exact hnone.2.1 _ hstable.first.1 (between_of_others hstable hhash hbetween hothers)
    refine ⟨halone, ?_⟩
    by_contra hfetch
    -- the key of the new node itself is answered by the first entry
    obtain ⟨resolved, hresolved, _⟩ := h.resolves ⟨[], x.hash, action, [], 0, [], 0⟩ rfl
    have hoverrun : answer env state.info ⟨[], x.hash, action, [], 0, [], 0⟩ state.info.hash
        (x :: [state.successor 1, state.successor 2]) = _ :=
      answer_cons henv state.info state.info.hash hx _
    rw [if_pos (Nat.le_refl _), if_pos (by simpa using hfetch), ← adopted_successors] at hoverrun
    rw [resolveThread_error hoverrun] at hresolved
    cases hresolved
  · rintro ⟨halone, hfetch⟩
    have hself (i : Fin 3) : (state.successor i).hash = hash := by
      have hmem := (hstable.successor i).hash
      rwa [halone, Finset.mem_singleton] at hmem
    refine ⟨?_, ?_, ?_⟩
    · rw [adopted_successors]
      rw [hself] at hbetween
      simp only [List.map_cons, List.map_nil, hself]
      exact ⟨.inl hbetween, .inr rfl, trivial⟩
    · rw [adopted_successors, NoneBetween]
      simp only [List.map_cons, List.map_nil, hself]
      have hnone (first : Hash) : ∀ h ∈ ring.hashes, ¬ gap first h < gap first hash := by
        rw [halone]
        simp
      have hnew : ∀ h ∈ ring.hashes, ¬ gap hash h < gap hash x.hash := by
        rw [hself] at hbetween
        intro h hh
        rw [halone, Finset.mem_singleton] at hh
        subst hh
        omega
      exact .cons_cons hnew (.cons_cons (hnone _) (.cons_cons (hnone _) (.singleton _)))
    · intro arg harg
      exact resolves_of_alone henv hstable halone hzero hx hbetween (harg ▸ hfetch)

end Join

/-! ## A node between two nodes, and one beside a single node -/

def fifteenContact : Contact := ⟨15, fun _ => [3], 0⟩

def oneNode : Ring where
  hashes := {10}
  nonempty := ⟨10, by decide⟩
  zero_notMem := by decide
  owner := fun addr => if addr = [1] then 10 else 15

def oneNodeState : NodeState where
  info := ⟨10, [], fun _ => [], 0, 0⟩
  successor := fun _ => tenContact
  fingers := fun _ => some .zero

theorem oneNodeState_stable : oneNode.Stable 10 oneNodeState := by
  have hnames : oneNode.Names tenContact := ⟨by decide, by decide, by decide⟩
  have hnext : IsNext oneNode.hashes 10 10 := by simp [IsNext, oneNode]
  exact ⟨rfl, fun _ => hnames, hnext, hnext, hnext, fun _ => ⟨.zero, rfl, .inl rfl⟩⟩

theorem hStabilizeCallback_stabilised_iff_oneNode :
    ∃ state' puts,
      hStabilizeCallback workingEnv true oneNodeState ⟨fifteenContact, 0⟩ = .ok (state', puts) ∧
        (Stabilised workingEnv oneNode (oneNode.join 15 (by decide)) 10 state' .findNode ↔
          oneNode.hashes = {10} ∧ Action.findNode ≠ .registerTopic ∧
            Action.findNode ≠ .subscribe) :=
  hStabilizeCallback_stabilised_iff (x := fifteenContact) workingEnv_works oneNodeState_stable
    (by decide) (by decide) ⟨by decide, by decide, by decide⟩
    (by simp [gap, fifteenContact, oneNodeState, tenContact]) 0 .findNode

/-- Node 15 joins between 10 and 20: node 20 is gone from the list of node 10, which answers
key 18 with itself. -/
theorem joined_node_hides_old_successor :
    ∃ state' puts,
      hStabilizeCallback workingEnv true (twoNodesNet 0 10) ⟨fifteenContact, 0⟩ =
          .ok (state', puts) ∧
        (∃ made, resolveThread workingEnv state' (requestFor 18 .findNode) =
          .ok ⟨.answered tenContact, made⟩) ∧
        IsFirst (twoNodes.join 15 (by decide)).hashes 18 20 ∧
        ¬ Stabilised workingEnv twoNodes (twoNodes.join 15 (by decide)) 10 state' .findNode := by
  refine ⟨_, _, rfl, ⟨_, rfl⟩, by simp [IsFirst, reach, Ring.join, twoNodes], ?_⟩
  intro h
  obtain ⟨_, hresolved, hfirst⟩ := h.resolves (requestFor 18 .findNode) rfl
  cases hresolved
  have hle : reach 18 tenContact.hash ≤ reach (18 : Hash) 20 := hfirst.2 20 (by decide)
  simp [reach, tenContact] at hle

end Cspot.Dht
