import Cspot.Runtime.Log

/-!
# Finding the successor of a key

A node of the table answers a request whose key one of its three successors is responsible
for, by carrying out the action of the request with that successor.  Otherwise it passes
the request on, to the closest finger before the key or to a successor before it.
-/

namespace Cspot.Dht

/-- `memcmp` on the twenty bytes of a hash compares the numbers they spell. -/
abbrev Hash := BitVec 160

def isEmpty (hash : Hash) : Bool := hash = 0

/-- `n` in (`lower`, `upper`). -/
def inRange (n lower upper : Hash) : Bool :=
  if lower < upper then lower < n && n < upper else lower < n || n < upper

scoped instance neZero_three : NeZero 3 := ⟨by decide⟩

scoped instance neZero_five : NeZero 5 := ⟨by decide⟩

/-- A node as it stands in a successor list, in a finger or as a predecessor. -/
structure Contact where
  hash : Hash
  replicas : Fin 5 → Bytes
  leader : Fin 5

def Contact.addr (contact : Contact) : Bytes := contact.replicas contact.leader

def Contact.zero : Contact := ⟨0, fun _ => [], 0⟩

structure NodeInfo where
  hash : Hash
  addr : Bytes
  replicas : Fin 5 → Bytes
  replicaId : Fin 5
  leaderId : Fin 5

inductive Action
  | none
  | findNode
  | join
  | fixFinger
  | registerTopic
  | subscribe
  | publish
deriving Repr, DecidableEq

structure FindSuccessorArg where
  key : Bytes
  hashedKey : Hash
  action : Action
  actionNamespace : Bytes
  actionSeqno : Nat
  callbackNamespace : Bytes
  tsCreated : Nat

inductive Message
  | findNodeResult (topic : Bytes) (node : Contact)
  | joinArg (replier node : Contact) (serializedConfig : Bytes)
  | fixFingerCallback (node : Contact) (fingerIndex : Int)
  | fetched (element : Bytes)
  | publishData (node : Contact) (elementSeqno : Nat) (topicName : Bytes)
      (tsCreated tsFound : Nat)
  | request (arg : FindSuccessorArg)
  | finger (contact : Contact)
  | tryReplicas
  | notify (node : Contact) (callbackWoof callbackHandler : Bytes)

/-- A put, through a monitor when it names one. -/
structure Put where
  monitor : Option Bytes
  woof : Bytes
  handler : Option Bytes
  message : Message

/-- `sprintf(name, "%s/%s", ns, woof)`. -/
def nameIn (ns : Bytes) (woof : String) : Bytes := ns ++ Bytes.ofString "/" ++ Bytes.ofString woof

/-- What the calls of the woof library answer. -/
structure Env where
  put : Put → Bool
  get : Bytes → Nat → Option Bytes
  now : Nat

/-- Forty digits and a zero byte are written, whatever the size of the buffer. -/
def printNodeHash (bufferSize : Nat) : Exec Unit :=
  if bufferSize < 2 * 20 + 1 then .error .outOfBounds else .ok ()

/-! ## Answering -/

def fetchedPut (contact : Contact) (woof handler : String) (element : Bytes) : Put where
  monitor := some (nameIn contact.addr "dht")
  woof := nameIn contact.addr woof
  handler := some (Bytes.ofString handler)
  message := .fetched element

def actionPut (env : Env) (node : NodeInfo) (arg : FindSuccessorArg) (contact : Contact) :
    Option Put :=
  match arg.action with
  | .none => none
  | .findNode => some
      { monitor := none
        woof := nameIn arg.callbackNamespace "dht_find_node_result.woof"
        handler := none
        message := .findNodeResult arg.key contact }
  | .join => some
      { monitor := some (nameIn arg.callbackNamespace "dht")
        woof := nameIn arg.callbackNamespace "dht_join.woof"
        handler := some (Bytes.ofString "h_join_callback")
        message := .joinArg ⟨node.hash, node.replicas, node.leaderId⟩ contact
          arg.actionNamespace }
  | .fixFinger => some
      { monitor := some (nameIn arg.callbackNamespace "dht")
        woof := nameIn arg.callbackNamespace "dht_fix_finger_callback.woof"
        handler := some (Bytes.ofString "h_fix_finger_callback")
        message := .fixFingerCallback contact (Word.toInt32 arg.actionSeqno) }
  | .registerTopic =>
    (env.get (nameIn arg.actionNamespace "dht_register_topic.woof") arg.actionSeqno).map
      (fetchedPut contact "dht_register_topic.woof" "r_register_topic")
  | .subscribe =>
    (env.get (nameIn arg.actionNamespace "dht_subscribe.woof") arg.actionSeqno).map
      (fetchedPut contact "dht_subscribe.woof" "r_subscribe")
  | .publish => some
      { monitor := none
        woof := nameIn arg.callbackNamespace "dht_server_publish_data.woof"
        handler := none
        message := .publishData contact arg.actionSeqno arg.key arg.tsCreated env.now }

/-- Whether the action fetches its argument, and then prints the key into 32 bytes. -/
def Action.fetches (action : Action) : Bool :=
  action = .registerTopic || action = .subscribe

/-- Carry out the action with a successor: the put that was made, or `none` when the loop
goes on with the next successor. -/
def act (env : Env) (node : NodeInfo) (arg : FindSuccessorArg) (contact : Contact) :
    Exec (Option (List Put)) :=
  match actionPut env node arg contact with
  | none => .ok (if arg.action = .none then some [] else none)
  | some put => do
      if arg.action.fetches then printNodeHash 32
      return if env.put put then some [put] else none

/-- The loop over the successors; `prev` is the node before the first of them. -/
def answer (env : Env) (node : NodeInfo) (arg : FindSuccessorArg) :
    (prev : Hash) → List Contact → Exec (Option (Contact × List Put))
  | _, [] => .ok none
  | prev, contact :: rest =>
    if isEmpty contact.hash then .ok none
    else if inRange arg.hashedKey prev contact.hash || arg.hashedKey = contact.hash then do
      match ← act env node arg contact with
      | some puts => return some (contact, puts)
      | none => answer env node arg contact.hash rest
    else answer env node arg contact.hash rest

/-! ## Passing on -/

inductive Finish
  | answered (contact : Contact)
  | forwarded (contact : Contact)
  | toSelf
  | failed

structure Resolved where
  finish : Finish
  puts : List Put

def requestPut (addr : Bytes) (arg : FindSuccessorArg) : Put where
  monitor := none
  woof := nameIn addr "dht_find_successor.woof"
  handler := none
  message := .request arg

def fingerPut (i : Nat) : Put where
  monitor := none
  woof := Bytes.ofString "dht_finger_info.woof_" ++ Bytes.ofString (toString i)
  handler := none
  message := .finger .zero

/-- Clear the fingers with this hash, as far as they can be read and written. -/
def invalidateFingers (env : Env) (hash : Hash) (fingers : Nat → Option Contact) :
    Nat → Option Contact :=
  fun i => (fingers i).map fun finger =>
    if finger.hash = hash ∧ env.put (fingerPut i) then .zero else finger

/-- The fingers from `i` down: where the request went, `none` when it goes to a successor. -/
def forwardFingers (env : Env) (node : NodeInfo) (arg : FindSuccessorArg) :
    (i : Nat) → (fingers : Nat → Option Contact) → Option Resolved
  | 0, _ => none
  | i + 1, fingers =>
    match fingers (i + 1) with
    | none => some ⟨.failed, []⟩
    | some finger =>
      if isEmpty finger.hash then forwardFingers env node arg i fingers
      else if inRange finger.hash node.hash arg.hashedKey then
        if finger.addr = [] then forwardFingers env node arg i fingers
        else if env.put (requestPut finger.addr arg) then
          some ⟨.forwarded finger, [requestPut finger.addr arg]⟩
        else
          forwardFingers env node arg i (invalidateFingers env finger.hash fingers)
      else forwardFingers env node arg i fingers

def tryReplicasPut : Put where
  monitor := some (Bytes.ofString "dht")
  woof := Bytes.ofString "dht_try_replicas.woof"
  handler := some (Bytes.ofString "r_try_replicas")
  message := .tryReplicas

/-- The successors before the key, and the node itself when there is none; `puts` have been
made. -/
def forwardSuccessors (env : Env) (node : NodeInfo) (arg : FindSuccessorArg) :
    List Contact → (puts : List Put) → Resolved
  | [], puts =>
    let put : Put := { requestPut [] arg with woof := Bytes.ofString "dht_find_successor.woof" }
    if env.put put then ⟨.toSelf, puts ++ [put]⟩ else ⟨.failed, puts⟩
  | contact :: rest, puts =>
    if isEmpty contact.hash = false ∧ inRange contact.hash node.hash arg.hashedKey then
      if env.put (requestPut contact.addr arg) then
        ⟨.forwarded contact, puts ++ [requestPut contact.addr arg]⟩
      else if env.put tryReplicasPut then
        forwardSuccessors env node arg rest (puts ++ [tryReplicasPut])
      else ⟨.failed, puts⟩
    else forwardSuccessors env node arg rest puts

structure NodeState where
  info : NodeInfo
  successor : Fin 3 → Contact
  fingers : Nat → Option Contact

def NodeState.successors (state : NodeState) : List Contact :=
  [state.successor 0, state.successor 1, state.successor 2]

def resolveThread (env : Env) (state : NodeState) (arg : FindSuccessorArg) : Exec Resolved := do
  printNodeHash (2 * 20 + 1)
  match ← answer env state.info arg state.info.hash state.successors with
  | some (contact, puts) => return ⟨.answered contact, puts⟩
  | none =>
    match forwardFingers env state.info arg (20 * 8) state.fingers with
    | some resolved => return resolved
    | none => return forwardSuccessors env state.info arg state.successors []

end Cspot.Dht
