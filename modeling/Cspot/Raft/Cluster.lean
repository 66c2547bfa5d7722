import Cspot.Raft.Step
import Mathlib.Logic.Function.Basic

/-!
# Clusters

The members of a cluster and the puts between them that are under way.  A message may be lost,
and messages overtake each other, but none arrives twice.  `replicate_thread` notices when its
put fails and leaves a result of its own.
-/

namespace Cspot.Raft

def Message.dest : Message → Name
  | .requestVote dest _ | .voteResult dest _ | .appendEntries dest _ | .appendResult dest _
  | .clientPut dest _ => dest

def Message.input : Message → Input
  | .requestVote _ arg => .requestVote arg
  | .voteResult _ result => .voteResult result
  | .appendEntries _ arg => .appendEntries arg
  | .appendResult _ result => .appendResult result
  | .clientPut _ request => .putRequest request

/-- The inputs that come from another server.  The requests of clients come from outside. -/
def Input.arrives : Input → Bool
  | .requestVote _ | .voteResult _ | .appendEntries _ | .appendResult _ => true
  | _ => false

structure Cluster where
  memberWoofs : List Name
  servers : Name → Server
  network : List Message

inductive Action where
  | act (name : Name) (input : Input)
  | deliver (k : Nat)
  | lose (k : Nat)
  | refuse (k : Nat)
deriving Repr, DecidableEq

def Cluster.set (c : Cluster) (name : Name) (srv : Server) (network : List Message) : Cluster :=
  { c with
    servers := Function.update c.servers name srv
    network := network }

theorem Cluster.set_servers (c : Cluster) (name : Name) (srv : Server) (network : List Message)
    (other : Name) :
    (c.set name srv network).servers other = if other = name then srv else c.servers other :=
  Function.update_apply ..

@[simp] theorem Cluster.set_servers_self (c : Cluster) (name : Name) (srv : Server)
    (network : List Message) : (c.set name srv network).servers name = srv :=
  Function.update_self ..

variable {c c' : Cluster} {name : Name} {input : Input} {action : Action} {rest : List Message}
  {allowed : Cluster → Action → Prop}

/-- Server `name` takes a step, and what it sends is under way. -/
def Cluster.turn (c : Cluster) (name : Name) (input : Input) : Option Cluster :=
  if name ∈ c.memberWoofs then
    match (c.servers name).step input with
    | none => none
    | some (srv, messages) => some (c.set name srv (c.network ++ messages))
  else none

def Cluster.step (c : Cluster) : Action → Option Cluster
  | .act name input => if input.arrives = true then none else c.turn name input
  | .deliver k =>
    match c.network[k]? with
    | none => none
    | some message =>
      { c with network := c.network.eraseIdx k }.turn message.dest message.input
  | .lose k =>
    match c.network[k]? with
    | none => none
    | some _ => some { c with network := c.network.eraseIdx k }
  | .refuse k =>
    match c.network[k]? with
    | some (.appendEntries member arg) => some
        (c.set arg.leaderWoof (sendFailed (c.servers arg.leaderWoof) member arg.term)
          (c.network.eraseIdx k))
    | _ => none

/-! ## What a step can be -/

/-- The input of server `name` is one of its own or that of a message, and `rest` is what stays
under way. -/
def Cluster.Takes (c : Cluster) (action : Action) (name : Name) (input : Input)
    (rest : List Message) : Prop :=
  action = .act name input ∧ input.arrives = false ∧ rest = c.network ∨
    ∃ k message, action = .deliver k ∧ c.network[k]? = some message ∧ message.dest = name ∧
      message.input = input ∧ rest = c.network.eraseIdx k

theorem Cluster.turn_eq_some (h : c.turn name input = some c') :
    name ∈ c.memberWoofs ∧ ∃ srv messages, (c.servers name).step input = some (srv, messages) ∧
      c' = c.set name srv (c.network ++ messages) := by
  unfold turn at h
  split at h
  · rename_i hmember
    refine ⟨hmember, ?_⟩
    cases hstep : (c.servers name).step input with
    | none => simp [hstep] at h
    | some result =>
      simp only [hstep, Option.some.injEq] at h
      exact ⟨result.1, result.2, rfl, h.symm⟩
  · simp at h

/-- A member takes a step, or a message is lost, or its sender finds that it cannot be put. -/
theorem Cluster.step_cases (h : c.step action = some c') :
    (∃ name input rest srv messages, name ∈ c.memberWoofs ∧ c.Takes action name input rest ∧
        (c.servers name).step input = some (srv, messages) ∧
        c' = c.set name srv (rest ++ messages)) ∨
      (∃ k message, action = .lose k ∧ c.network[k]? = some message ∧
        c' = { c with network := c.network.eraseIdx k }) ∨
      ∃ k member arg, action = .refuse k ∧ c.network[k]? = some (.appendEntries member arg) ∧
        c' = c.set arg.leaderWoof (sendFailed (c.servers arg.leaderWoof) member arg.term)
          (c.network.eraseIdx k) := by
  cases action with
  | act name input =>
    simp only [step] at h
    split at h
    · simp at h
    · rename_i harrives
      obtain ⟨hmember, srv, messages, hstep, rfl⟩ := turn_eq_some h
      exact .inl ⟨name, input, c.network, srv, messages, hmember,
        .inl ⟨rfl, by simpa using harrives, rfl⟩, hstep, rfl⟩
  | deliver k =>
    simp only [step] at h
    cases hk : c.network[k]? with
    | none => simp [hk] at h
    | some message =>
      simp only [hk] at h
      obtain ⟨hmember, srv, messages, hstep, rfl⟩ := turn_eq_some h
      exact .inl ⟨message.dest, message.input, c.network.eraseIdx k, srv, messages, hmember,
        .inr ⟨k, message, rfl, hk, rfl, rfl, rfl⟩, hstep, rfl⟩
  | lose k =>
    simp only [step] at h
    cases hk : c.network[k]? with
    | none => simp [hk] at h
    | some message =>
      simp only [hk, Option.some.injEq] at h
      exact .inr (.inl ⟨k, message, rfl, hk, h.symm⟩)
  | refuse k =>
    simp only [step] at h
    split at h
    · rename_i member arg hk
      exact .inr (.inr ⟨k, member, arg, rfl, hk, (Option.some.inj h).symm⟩)
    · simp at h

theorem Cluster.Takes.mem (h : c.Takes action name input rest) :
    ∀ message ∈ rest, message ∈ c.network := by
  intro message hmessage
  rcases h with ⟨-, -, rfl⟩ | ⟨k, _, -, -, -, -, rfl⟩
  · exact hmessage
  · exact List.mem_of_mem_eraseIdx hmessage

theorem Cluster.Takes.arrival (h : c.Takes action name input rest)
    (harrives : input.arrives = true) :
    ∃ k message, action = .deliver k ∧ c.network[k]? = some message ∧ message.dest = name ∧
      message.input = input ∧ rest = c.network.eraseIdx k := by
  rcases h with ⟨-, hown, -⟩ | harrival
  · simp [hown] at harrives
  · exact harrival

theorem Cluster.Takes.own (h : c.Takes action name input rest)
    (hown : ∀ message : Message, message.input ≠ input) :
    action = .act name input ∧ rest = c.network := by
  rcases h with ⟨haction, -, hrest⟩ | ⟨_, message, -, -, -, hinput, -⟩
  · exact ⟨haction, hrest⟩
  · exact absurd hinput (hown message)

theorem Message.eq_requestVote {message : Message} {request : RequestVoteArg}
    (h : message.input = .requestVote request) : message = .requestVote message.dest request := by
  cases message <;> simp_all [Message.input, Message.dest]

theorem Message.eq_voteResult {message : Message} {result : RequestVoteResult}
    (h : message.input = .voteResult result) : message = .voteResult message.dest result := by
  cases message <;> simp_all [Message.input, Message.dest]

/-! ## Runs -/

/-- The states a cluster comes to by steps that are all allowed. -/
inductive Cluster.Reaches (allowed : Cluster → Action → Prop) (first : Cluster) :
    Cluster → Prop where
  | refl : Reaches allowed first first
  | step {c c' : Cluster} {action : Action} :
      Reaches allowed first c → allowed c action → c.step action = some c' →
      Reaches allowed first c'

def Cluster.play (allowed : Cluster → Action → Prop) [∀ c action, Decidable (allowed c action)] :
    Cluster → List Action → Option Cluster
  | c, [] => some c
  | c, action :: actions =>
    if allowed c action then
      match c.step action with
      | none => none
      | some c' => play allowed c' actions
    else none

theorem Cluster.reaches_of_play [∀ c action, Decidable (allowed c action)] {first : Cluster}
    {actions : List Action} (h : first.Reaches allowed c)
    (hplay : c.play allowed actions = some c') :
    first.Reaches allowed c' := by
  induction actions generalizing c with
  | nil =>
    simp only [play, Option.some.injEq] at hplay
    exact hplay ▸ h
  | cons action actions ih =>
    rw [play] at hplay
    split at hplay
    · rename_i hallowed
      split at hplay
      · simp at hplay
      · rename_i hs
        exact ih (h.step hallowed hs) hplay
    · simp at hplay

/-! ## The start -/

/-- The names of a fixed configuration; the empty name stands for a free slot. -/
structure Membership where
  memberWoofs : List Name
  nodup : memberWoofs.Nodup
  named : [] ∉ memberWoofs

/-- The members as `raft_start_server` starts them, each with a log of its own. -/
def Membership.start (m : Membership) (observer : Name → Bool) (logs : Name → RingLog LogEntry) :
    Cluster where
  memberWoofs := m.memberWoofs
  servers name := startServer name m.memberWoofs (observer name) (logs name)
  network := []

/-- Nobody asks for another configuration, and the terms do not wrap. -/
def Steady (c : Cluster) : Action → Prop
  | .act _ (.configChange _) => False
  | .act name .timeout => (c.servers name).state.currentTerm + 1 < Word.modulus
  | _ => True

instance (c : Cluster) (action : Action) : Decidable (Steady c action) := by
  rcases action with ⟨name, input⟩ | _ | _ | _
  · rcases input <;> unfold Steady <;> infer_instance
  all_goals
    unfold Steady
    infer_instance

theorem Steady.no_wrap (h : Steady c action) (htakes : c.Takes action name .timeout rest) :
    (c.servers name).state.currentTerm + 1 < Word.modulus := by
  obtain ⟨rfl, -⟩ := htakes.own fun message => by cases message <;> simp [Message.input]
  exact h

end Cspot.Raft
