import Cspot.Dht.FindSuccessor
import Cspot.Lib.Circle

/-!
# Lookups in a stable ring

In a ring whose nodes know their next three nodes, a request comes to the node responsible
for its key: every hop shortens the clockwise way to the key.  The fingers may be empty or
point to any node of the ring.
-/

namespace Cspot.Dht

open Circle

/-! ## Intervals -/

theorem inRange_iff {n lower upper : Hash} :
    inRange n lower upper = true ↔ gap lower n < gap lower upper := by
  rw [gap_lt_gap_iff, inRange]
  split <;> simp

theorem inRange_or_eq_iff {key prev next : Hash} :
    (inRange key prev next || key = next) = true ↔ gap prev key ≤ gap prev next := by
  rw [Bool.or_eq_true, inRange_iff, decide_eq_true_iff, Nat.le_iff_lt_or_eq, gap_inj]

/-! ## Rings -/

/-- The nodes of a ring by their hashes, and the node that reads the woofs at an address. -/
structure Ring where
  hashes : Finset Hash
  nonempty : hashes.Nonempty
  zero_notMem : 0 ∉ hashes
  owner : Bytes → Hash

/-- The contact is one of a node of the ring. -/
structure Ring.Names (ring : Ring) (contact : Contact) : Prop where
  hash : contact.hash ∈ ring.hashes
  addr : contact.addr ≠ []
  owner : ring.owner contact.addr = contact.hash

/-- The records of the node `hash` in a stable ring. -/
structure Ring.Stable (ring : Ring) (hash : Hash) (state : NodeState) : Prop where
  info : state.info.hash = hash
  successor : ∀ i, ring.Names (state.successor i)
  first : IsNext ring.hashes hash (state.successor 0).hash
  second : IsNext ring.hashes (state.successor 0).hash (state.successor 1).hash
  third : IsNext ring.hashes (state.successor 1).hash (state.successor 2).hash
  fingers : ∀ i, ∃ finger, state.fingers i = some finger ∧
    (finger.hash = 0 ∨ ring.Names finger)

theorem Ring.Names.ne_zero {ring : Ring} {contact : Contact} (h : ring.Names contact) :
    isEmpty contact.hash = false := by
  have hne : contact.hash ≠ 0 := fun hzero => ring.zero_notMem (hzero ▸ h.hash)
  simpa [isEmpty] using hne

structure Env.Works (env : Env) : Prop where
  put : ∀ put, env.put put = true
  get : ∀ woof seqno, (env.get woof seqno).isSome

/-! ## One hop -/

section Hop

variable {env : Env} {ring : Ring} {hash : Hash} {state : NodeState} {arg : FindSuccessorArg}

theorem act_eq (henv : env.Works) (node : NodeInfo) (contact : Contact) :
    act env node arg contact =
      if arg.action.fetches then .error .outOfBounds
      else .ok (some (actionPut env node arg contact).toList) := by
  have hfetch (woof : Bytes) (seqno : Nat) : ∃ element, env.get woof seqno = some element :=
    Option.isSome_iff_exists.1 (henv.get woof seqno)
  unfold act actionPut
  cases haction : arg.action with
  | none => simp [Action.fetches]
  | findNode => simp [Action.fetches, henv.put]
  | join => simp [Action.fetches, henv.put]
  | fixFinger => simp [Action.fetches, henv.put]
  | publish => simp [Action.fetches, henv.put]
  | registerTopic =>
    obtain ⟨element, helement⟩ := hfetch
      (nameIn arg.actionNamespace "dht_register_topic.woof") arg.actionSeqno
    simp [Action.fetches, helement, printNodeHash]
  | subscribe =>
    obtain ⟨element, helement⟩ := hfetch
      (nameIn arg.actionNamespace "dht_subscribe.woof") arg.actionSeqno
    simp [Action.fetches, helement, printNodeHash]

theorem answer_cons (henv : env.Works) (node : NodeInfo) (prev : Hash) {contact : Contact}
    (hcontact : ring.Names contact) (rest : List Contact) :
    answer env node arg prev (contact :: rest) =
      if gap prev arg.hashedKey ≤ gap prev contact.hash then
        if arg.action.fetches then .error .outOfBounds
        else .ok (some (contact, (actionPut env node arg contact).toList))
      else answer env node arg contact.hash rest := by
  rw [answer, if_neg (by simp [hcontact.ne_zero])]
  by_cases hkey : gap prev arg.hashedKey ≤ gap prev contact.hash
  · rw [if_pos hkey, if_pos (inRange_or_eq_iff.2 hkey), act_eq henv]
    split <;> rfl
  · rw [if_neg hkey, if_neg (fun htest => hkey (inRange_or_eq_iff.1 htest))]

/-- Every contact is the next node after the one before it. -/
def Ring.Consecutive (ring : Ring) : (prev : Hash) → List Contact → Prop
  | _, [] => True
  | prev, contact :: rest => ring.Names contact ∧ IsNext ring.hashes prev contact.hash ∧
      ring.Consecutive contact.hash rest

theorem answer_cases (henv : env.Works) (node : NodeInfo) (arg : FindSuccessorArg) {prev : Hash}
    {contacts : List Contact} (h : ring.Consecutive prev contacts) :
    answer env node arg prev contacts = .ok none ∨
      ∃ contact, IsFirst ring.hashes arg.hashedKey contact.hash ∧
        answer env node arg prev contacts = if arg.action.fetches then .error .outOfBounds
          else .ok (some (contact, (actionPut env node arg contact).toList)) := by
  induction contacts generalizing prev with
  | nil => exact .inl rfl
  | cons contact rest ih =>
    obtain ⟨hnames, hnext, hrest⟩ := h
    rw [answer_cons henv node prev hnames]
    by_cases hkey : gap prev arg.hashedKey ≤ gap prev contact.hash
    · rw [if_pos hkey]
      exact .inr ⟨contact, hnext.isFirst hkey, rfl⟩
    · rw [if_neg hkey]
      exact ih hrest

theorem Ring.Stable.consecutive (h : ring.Stable hash state) :
    ring.Consecutive state.info.hash state.successors := by
  rw [h.info]
  exact ⟨h.successor 0, h.first, h.successor 1, h.second, h.successor 2, h.third, trivial⟩

/-- What a node of a stable ring does with a request: it answers with the node responsible
for the key, or passes the request on to a node before the key. -/
inductive Hop (env : Env) (ring : Ring) (hash : Hash) (state : NodeState)
    (arg : FindSuccessorArg) : Exec Resolved → Prop
  | answered (contact : Contact) (hfirst : IsFirst ring.hashes arg.hashedKey contact.hash)
      (hfetch : arg.action.fetches = false) :
      Hop env ring hash state arg
        (.ok ⟨.answered contact, (actionPut env state.info arg contact).toList⟩)
  | overrun (hfetch : arg.action.fetches = true) :
      Hop env ring hash state arg (.error .outOfBounds)
  | forwarded (contact : Contact) (hnames : ring.Names contact)
      (hcloser : gap hash contact.hash < gap hash arg.hashedKey) (puts : List Put) :
      Hop env ring hash state arg (.ok ⟨.forwarded contact, puts⟩)

section

variable (henv : env.Works) (hstable : ring.Stable hash state)
include henv hstable

theorem forwardFingers_cases (arg : FindSuccessorArg) (i : Nat) :
    forwardFingers env state.info arg i state.fingers = none ∨
      ∃ finger puts, forwardFingers env state.info arg i state.fingers =
          some ⟨.forwarded finger, puts⟩ ∧ ring.Names finger ∧
        gap hash finger.hash < gap hash arg.hashedKey := by
  induction i with
  | zero => exact .inl rfl
  | succ i ih =>
    obtain ⟨finger, hfinger, hring⟩ := hstable.fingers (i + 1)
    rw [forwardFingers, hfinger]
    dsimp only
    by_cases hempty : isEmpty finger.hash = true
    · rw [if_pos hempty]
      exact ih
    · rw [if_neg hempty]
      have hnames : ring.Names finger :=
        hring.resolve_left fun hzero => hempty (by simpa [isEmpty] using hzero)
      by_cases hrange : inRange finger.hash state.info.hash arg.hashedKey = true
      · rw [if_pos hrange, if_neg hnames.addr, if_pos (henv.put _)]
        refine .inr ⟨finger, _, rfl, hnames, ?_⟩
        rw [← hstable.info]
        exact inRange_iff.1 hrange
      · rw [if_neg hrange]
        exact ih

theorem forwardSuccessors_eq (hkey : gap hash (state.successor 0).hash < gap hash arg.hashedKey)
    (puts : List Put) :
    forwardSuccessors env state.info arg state.successors puts =
      ⟨.forwarded (state.successor 0), puts ++ [requestPut (state.successor 0).addr arg]⟩ := by
  have hrange : inRange (state.successor 0).hash state.info.hash arg.hashedKey = true := by
    rw [inRange_iff, hstable.info]
    exact hkey
  rw [NodeState.successors, forwardSuccessors,
    if_pos ⟨(hstable.successor 0).ne_zero, hrange⟩, if_pos (henv.put _)]

theorem resolveThread_hop (arg : FindSuccessorArg) :
    Hop env ring hash state arg (resolveThread env state arg) := by
  unfold resolveThread
  rcases answer_cases henv state.info arg hstable.consecutive with
    hnone | ⟨contact, hfirst, heq⟩
  · -- the key lies behind the next node: otherwise the loop would have answered
    have hkey : gap hash (state.successor 0).hash < gap hash arg.hashedKey := by
      by_contra hle
      rw [NodeState.successors, answer_cons henv state.info _ (hstable.successor 0), hstable.info,
        if_pos (Nat.le_of_not_lt hle)] at hnone
      split at hnone <;> cases hnone
    rw [hnone, Exec.ok_bind]
    rcases forwardFingers_cases henv hstable arg (20 * 8) with
      hfingers | ⟨finger, puts, hfingers, hnames, hcloser⟩
    · rw [hfingers, forwardSuccessors_eq henv hstable hkey]
      exact .forwarded _ (hstable.successor 0) hkey _
    · rw [hfingers]
      exact .forwarded finger hnames hcloser puts
  · rw [heq]
    by_cases hfetch : arg.action.fetches = true
    · rw [if_pos hfetch]
      exact .overrun hfetch
    · rw [if_neg hfetch]
      exact .answered contact hfirst (by simpa using hfetch)

end

end Hop

/-! ## Whole lookups -/

/-- A request on its way: the nodes it came to, and how it was answered at the last one. -/
structure Trail where
  nodes : List Hash
  contact : Contact
  puts : List Put

/-- The records of the nodes may change between hops; `net t` is what the `t`-th hop finds. -/
def lookup (env : Env) (owner : Bytes → Hash) (net : Nat → Hash → NodeState)
    (arg : FindSuccessorArg) : (fuel : Nat) → (t : Nat) → Hash → Exec Trail
  | 0, _, _ => .error .blocked
  | fuel + 1, t, hash => do
      let resolved ← resolveThread env (net t hash) arg
      match resolved.finish with
      | .answered contact => return ⟨[hash], contact, resolved.puts⟩
      | .forwarded contact =>
        let trail ← lookup env owner net arg fuel (t + 1) (owner contact.addr)
        return { trail with nodes := hash :: trail.nodes }
      | .toSelf =>
        let trail ← lookup env owner net arg fuel (t + 1) hash
        return { trail with nodes := hash :: trail.nodes }
      | .failed => throw .exception

/-- The request is answered with the first node at or after its key, by the put of its action,
and every hop goes to another node that is closer to the key. -/
structure Trail.Correct (env : Env) (ring : Ring) (net : Nat → Hash → NodeState)
    (arg : FindSuccessorArg) (t : Nat) (trail : Trail) : Prop where
  first : IsFirst ring.hashes arg.hashedKey trail.contact.hash
  puts : ∃ last ∈ trail.nodes.getLast?, trail.puts =
    (actionPut env (net (t + trail.nodes.length - 1) last).info arg trail.contact).toList
  closer : trail.nodes.IsChain fun node next =>
    gap next arg.hashedKey < gap node arg.hashedKey ∧ next ≠ node

section Runs

variable {env : Env} {ring : Ring} {net : Nat → Hash → NodeState} {arg : FindSuccessorArg}

theorem lookup_correct (henv : env.Works)
    (hstable : ∀ t, ∀ hash ∈ ring.hashes, ring.Stable hash (net t hash))
    (hfetch : arg.action.fetches = false) {fuel t : Nat} {hash : Hash} (hhash : hash ∈ ring.hashes)
    (hfuel : gap hash arg.hashedKey ≤ fuel) :
    ∃ trail, lookup env ring.owner net arg fuel t hash = .ok trail ∧
      trail.Correct env ring net arg t ∧ trail.nodes.head? = some hash := by
  induction fuel generalizing t hash with
  | zero =>
    have hpos := gap_pos hash arg.hashedKey
    omega
  | succ fuel ih =>
    have hhop := resolveThread_hop henv (hstable t hash hhash) arg
    rw [lookup]
    generalize hresolved : resolveThread env (net t hash) arg = resolved at hhop
    cases hhop with
    | answered contact hfirst _ =>
      exact ⟨_, rfl, ⟨hfirst, ⟨hash, rfl, rfl⟩, List.IsChain.singleton _⟩, rfl⟩
    | overrun hfetch' =>
      rw [hfetch] at hfetch'
      cases hfetch'
    | forwarded contact hnames hcloser puts =>
      have hgap := gap_of_lt hcloser
      have hpos := gap_pos hash contact.hash
      rw [← hnames.owner] at hgap hpos hcloser
      have hin : ring.owner contact.addr ∈ ring.hashes := hnames.owner ▸ hnames.hash
      obtain ⟨⟨nodes, found, made⟩, heq, hcorrect, hhead⟩ := ih (t := t + 1) hin (by omega)
      obtain ⟨rest, rfl⟩ : ∃ rest, nodes = ring.owner contact.addr :: rest :=
        List.head?_eq_some_iff.1 hhead
      refine ⟨⟨hash :: ring.owner contact.addr :: rest, found, made⟩, ?_,
        ⟨hcorrect.first, ?_, ?_⟩, rfl⟩
      · rw [Exec.ok_bind]
        dsimp only
        rw [heq]
        rfl
      · obtain ⟨last, hlast, hputs⟩ := hcorrect.puts
        refine ⟨last, by rwa [List.getLast?_cons_cons], ?_⟩
        rw [hputs]
        simp only [List.length_cons]
        rw [show t + 1 + (rest.length + 1) - 1 = t + (rest.length + 1 + 1) - 1 by omega]
      · refine List.isChain_cons_cons.2 ⟨⟨by omega, ?_⟩, hcorrect.closer⟩
        intro hself
        have hle := gap_le hash arg.hashedKey
        rw [hself, gap_self] at hcloser
        omega

theorem lookup_overrun (henv : env.Works)
    (hstable : ∀ t, ∀ hash ∈ ring.hashes, ring.Stable hash (net t hash))
    (hfetch : arg.action.fetches = true) (fuel t : Nat) {hash : Hash} (hhash : hash ∈ ring.hashes)
    (trail : Trail) : lookup env ring.owner net arg fuel t hash ≠ .ok trail := by
  induction fuel generalizing t hash trail with
  | zero => exact nofun
  | succ fuel ih =>
    intro hfound
    have hhop := resolveThread_hop henv (hstable t hash hhash) arg
    rw [lookup] at hfound
    generalize hresolved : resolveThread env (net t hash) arg = resolved at hhop hfound
    cases hhop with
    | answered contact _ hfetch' =>
      rw [hfetch] at hfetch'
      cases hfetch'
    | overrun _ => cases hfound
    | forwarded contact hnames _ puts =>
      have hin : ring.owner contact.addr ∈ ring.hashes := hnames.owner ▸ hnames.hash
      rw [Exec.ok_bind] at hfound
      obtain ⟨trail', hrest, _⟩ := Exec.bind_eq_ok.1 hfound
      exact ih (t + 1) hin trail' hrest

/-- In a stable ring, whatever the fingers are and however they change, a request from any
node is answered correctly iff its action is not one of the two that print the key into a
buffer too short for it. -/
theorem lookup_correct_iff (henv : env.Works)
    (hstable : ∀ t, ∀ hash ∈ ring.hashes, ring.Stable hash (net t hash)) (arg : FindSuccessorArg)
    {start : Hash} (hstart : start ∈ ring.hashes) :
    (∃ fuel trail, lookup env ring.owner net arg fuel 0 start = .ok trail ∧
        trail.Correct env ring net arg 0) ↔
      arg.action ≠ .registerTopic ∧ arg.action ≠ .subscribe := by
  have hiff : arg.action.fetches = false ↔
      arg.action ≠ .registerTopic ∧ arg.action ≠ .subscribe := by
    simp [Action.fetches]
  rw [← hiff]
  constructor
  · intro ⟨fuel, trail, hfound, _⟩
    by_contra hfetch
    exact lookup_overrun henv hstable (by simpa using hfetch) fuel 0 hstart trail hfound
  · intro hfetch
    obtain ⟨trail, hfound, hcorrect, _⟩ :=
      lookup_correct henv hstable hfetch (t := 0) hstart (Nat.le_refl _)
    exact ⟨_, trail, hfound, hcorrect⟩

end Runs

/-! ## A ring of two nodes -/

def twoNodes : Ring where
  hashes := {10, 20}
  nonempty := ⟨10, by decide⟩
  zero_notMem := by decide
  owner := fun addr => if addr = [1] then 10 else 20

def tenContact : Contact := ⟨10, fun _ => [1], 0⟩

def twentyContact : Contact := ⟨20, fun _ => [2], 0⟩

def twoNodesNet (_ : Nat) (hash : Hash) : NodeState where
  info := ⟨hash, [], fun _ => [], 0, 0⟩
  successor := fun i =>
    if hash = 10 ↔ i = 1 then tenContact else twentyContact
  fingers := fun i => some (if i % 2 = 0 then .zero else tenContact)

def workingEnv : Env := ⟨fun _ => true, fun _ _ => some [], 0⟩

def requestFor (hashedKey : Hash) (action : Action) : FindSuccessorArg :=
  ⟨[], hashedKey, action, [], 0, [], 0⟩

theorem workingEnv_works : workingEnv.Works := ⟨fun _ => rfl, fun _ _ => rfl⟩

theorem tenContact_names : twoNodes.Names tenContact := ⟨by decide, by decide, by decide⟩

theorem twentyContact_names : twoNodes.Names twentyContact := ⟨by decide, by decide, by decide⟩

theorem twoNodesNet_stable (t : Nat) (hash : Hash) (hhash : hash ∈ twoNodes.hashes) :
    twoNodes.Stable hash (twoNodesNet t hash) := by
  have hfingers (i : Nat) : ∃ finger, (twoNodesNet t hash).fingers i = some finger ∧
      (finger.hash = 0 ∨ twoNodes.Names finger) := by
    refine ⟨_, rfl, ?_⟩
    split
    · exact .inl rfl
    · exact .inr tenContact_names
  have hsuccessor (i : Fin 3) : twoNodes.Names ((twoNodesNet t hash).successor i) := by
    simp only [twoNodesNet]
    split
    · exact tenContact_names
    · exact twentyContact_names
  have hten : IsNext twoNodes.hashes 10 20 := by simp [IsNext, twoNodes, gap]
  have htwenty : IsNext twoNodes.hashes 20 10 := by simp [IsNext, twoNodes, gap]
  have hcases : hash = 10 ∨ hash = 20 := by simpa [twoNodes] using hhash
  rcases hcases with rfl | rfl
  · exact ⟨rfl, hsuccessor, hten, htwenty, hten, hfingers⟩
  · exact ⟨rfl, hsuccessor, htwenty, hten, htwenty, hfingers⟩

/-- A key behind the last node, looked up from that node. -/
theorem lookup_correct_iff_wrapped :
    (∃ fuel trail,
      lookup workingEnv twoNodes.owner twoNodesNet (requestFor 30 .findNode) fuel 0 20 =
        .ok trail ∧ trail.Correct workingEnv twoNodes twoNodesNet (requestFor 30 .findNode) 0) ↔
      Action.findNode ≠ .registerTopic ∧ Action.findNode ≠ .subscribe :=
  lookup_correct_iff workingEnv_works twoNodesNet_stable (requestFor 30 .findNode) (by decide)

/-- The registration of a topic is not answered: the thread writes past its buffer. -/
theorem topic_registration_overruns :
    resolveThread workingEnv (twoNodesNet 0 10) (requestFor 15 .registerTopic) =
        .error .outOfBounds ∧
      ¬ ∃ fuel trail, lookup workingEnv twoNodes.owner twoNodesNet (requestFor 15 .registerTopic)
          fuel 0 10 = .ok trail ∧
        trail.Correct workingEnv twoNodes twoNodesNet (requestFor 15 .registerTopic) 0 := by
  refine ⟨by rfl, ?_⟩
  intro ⟨fuel, trail, hfound, _⟩
  exact lookup_overrun workingEnv_works twoNodesNet_stable rfl fuel 0 (by decide) trail hfound

end Cspot.Dht
