import Cspot.Laminar.OneResult
import Cspot.Lib.KeySet
import Mathlib.Data.Int.Order.Basic
import Mathlib.Data.Nat.Basic

/-!
# Who hears of an output

A program subscribes its nodes to each other.  `setup` writes the subscribers of every
namespace into two WooFs, the sets of all nodes one after another and for every node the place
where its set begins.  The handler of an output reads the set of its node from there and puts an
event to every subscriber.
-/

namespace Cspot.Laminar

/-! ## Subscribing -/

structure Call where
  dstNs : Int
  dstId : Nat
  dstPort : Int
  srcNs : Int
  srcId : Nat
deriving Repr, DecidableEq

structure Subscriber where
  ns : Int
  id : Nat
  port : Int
deriving Repr, DecidableEq

structure Subscription where
  ns : Int
  id : Nat
  port : Int
deriving Repr, DecidableEq

/-- The maps a program fills.  Subscribers are compared by their `id`, subscriptions by their
`port`. -/
structure Registry where
  subscribers : Int → Nat → List Subscriber
  subscriptions : Int → Nat → List Subscription
  subscribeEntries : Int → Nat

def Registry.empty : Registry where
  subscribers _ _ := []
  subscriptions _ _ := []
  subscribeEntries _ := 0

/-- `sets[ns][id].insert(x)` -/
def insertAt {α κ : Type} [LinearOrder κ] (key : α → κ) (sets : Int → Nat → List α) (ns : Int)
    (id : Nat) (x : α) : Int → Nat → List α :=
  Function.update sets ns (Function.update (sets ns) id (KeySet.insert key x (sets ns id)))

def subscribe (r : Registry) (c : Call) : Registry where
  subscribers := insertAt Subscriber.id r.subscribers c.srcNs c.srcId ⟨c.dstNs, c.dstId, c.dstPort⟩
  subscriptions :=
    insertAt Subscription.port r.subscriptions c.dstNs c.dstId ⟨c.srcNs, c.srcId, c.dstPort⟩
  subscribeEntries ns := r.subscribeEntries ns +
    (if ns = c.srcNs then 1 else 0) + (if ns = c.dstNs then 1 else 0)

/-- A program: the nodes of a namespace are `1` to `nodeCount`, and its calls are about them. -/
structure Program where
  nodeCount : Int → Nat
  calls : List Call
  source : ∀ c ∈ calls, 1 ≤ c.srcId ∧ c.srcId ≤ nodeCount c.srcNs
  destination : ∀ c ∈ calls, 1 ≤ c.dstId ∧ c.dstId ≤ nodeCount c.dstNs

def Program.registry (p : Program) : Registry := p.calls.foldl subscribe Registry.empty

/-! ## Setting up -/

/-- The two WooFs of a map, by what was put to them, and the place for the next entry. -/
structure WoofMap (α : Type) where
  map : List Nat
  data : List α
  currentDataPos : Nat

def writeMap {α : Type} (sets : Nat → List α) : Nat → WoofMap α
  | 0 => ⟨[], [], 1⟩
  | n + 1 =>
    let w := writeMap sets n
    ⟨w.map ++ [w.currentDataPos], w.data ++ sets (n + 1),
      w.currentDataPos + (sets (n + 1)).length⟩

def sizedGet {α : Type} (size : Nat) (log : List α) (seqNo : Nat) : Option α :=
  if h : 0 < size then ((Window.empty size 1 h Nat.one_pos).appendAll log).get seqNo else none

/-- The data range of a node: from its entry to the next one, or to the end of the data. -/
def WoofMap.range {α : Type} (w : WoofMap α) (size id : Nat) : Option (Nat × Nat) := do
  let startIdx ← sizedGet size w.map id
  if id = w.map.length then some (startIdx, w.data.length + 1)
  else do
    let endIdx ← sizedGet size w.map (id + 1)
    some (startIdx, endIdx)

def Program.subscriberMap (p : Program) (ns : Int) : WoofMap Subscriber :=
  writeMap (p.registry.subscribers ns) (p.nodeCount ns)

def Program.subscriptionMap (p : Program) (ns : Int) : WoofMap Subscription :=
  writeMap (p.registry.subscriptions ns) (p.nodeCount ns)

/-- What the handler of subscription events finds of its node's subscriptions. -/
def Program.subscriptionsOf (p : Program) (ns : Int) (id : Nat) : Option (List Subscription) := do
  let (startIdx, endIdx) ← (p.subscriptionMap ns).range (p.nodeCount ns) id
  (List.range' startIdx (endIdx - startIdx)).mapM
    (sizedGet (p.registry.subscribeEntries ns) (p.subscriptionMap ns).data)

def Program.graph (p : Program) (opcode : Int × Nat → Opcode) : Graph (Int × Nat) where
  opcode := opcode
  subscriptions n := ((p.subscriptionsOf n.1 n.2).getD []).map fun sub => (sub.ns, sub.id)

/-! ## The handler of an output -/

structure SubscriptionEvent where
  ns : Int
  id : Nat
  port : Int
  seq : Nat
deriving Repr, DecidableEq

/-- How the puts go: whether a put of an event succeeds, the first one and every retry, and
whether its WooF is on another host. -/
structure Puts where
  ok : Nat → SubscriptionEvent → Bool
  remote : SubscriptionEvent → Bool

def maxRetries : Nat := 10

/-- The loop over the subscribers: those an event is put for, and whether the loop came to its
end.  It does not if an entry or the node it names cannot be read. -/
def Program.putLoop (p : Program) (fetch : Nat → Option Subscriber) :
    (count i : Nat) → List Subscriber × Bool
  | 0, _ => ([], true)
  | count + 1, i =>
    match fetch i with
    | none => ([], false)
    | some sub =>
      if 1 ≤ sub.id ∧ sub.id ≤ p.nodeCount sub.ns then
        let rest := p.putLoop fetch count (i + 1)
        (sub :: rest.1, rest.2)
      else ([], false)

/-- The loop over the buffer, as the events it puts. -/
def retryLoop (puts : Puts) : (rounds itr : Nat) → List SubscriptionEvent → List SubscriptionEvent
  | 0, _, _ => []
  | rounds + 1, itr, buffer =>
    let sent := buffer.filter (puts.ok itr)
    let left := buffer.filter fun ev => !puts.ok itr ev
    sent ++ if left = [] then [] else retryLoop puts rounds (itr + 1) left

/-- What the handler puts when it has not been fired twice. -/
def Program.notify (p : Program) (puts : Puts) (ns : Int) (id seq : Nat) :
    List SubscriptionEvent :=
  match (p.subscriberMap ns).range (p.nodeCount ns) id with
  | none => []
  | some (startIdx, endIdx) =>
    let fetch := sizedGet (p.registry.subscribeEntries ns) (p.subscriberMap ns).data
    let loop := p.putLoop fetch (endIdx - startIdx) startIdx
    let events := loop.1.map fun sub => ⟨sub.ns, sub.id, sub.port, seq⟩
    let buffer := events.filter fun ev => !puts.ok 0 ev && puts.remote ev
    events.filter (puts.ok 0) ++ if loop.2 then retryLoop puts (maxRetries + 1) 1 buffer else []

/-- The events `output_handler` puts for the output numbered `seqno`. -/
def Program.outputHandler {V : Type} (p : Program) (puts : Puts) (ns : Int) (id : Nat)
    (output : List (Operand V)) (seqno : Nat) (result : Operand V) : List SubscriptionEvent :=
  if 1 < seqno then
    match woofGet output (seqno - 1) with
    | none => []
    | some prev => if prev.seq = result.seq then [] else p.notify puts ns id result.seq
  else p.notify puts ns id result.seq

/-! ## What is read is what was written -/

variable {α κ : Type}

theorem sizedGet_eq {size : Nat} {log : List α} (hfits : log.length ≤ size) {seqNo : Nat}
    (hpos : 0 < seqNo) : sizedGet size log seqNo = log[seqNo - 1]? := by
  unfold sizedGet
  split
  · rw [Window.get, if_neg hpos.ne', Window.read_appendAll_empty, if_pos (by omega)]
  · have hnil : log = [] := List.eq_nil_of_length_eq_zero (by omega)
    simp [hnil]

section WriteMap

variable {α : Type} {sets : Nat → List α} {n : Nat} {i j : Nat}

theorem writeMap_pos (sets : Nat → List α) (n : Nat) :
    (writeMap sets n).currentDataPos = (writeMap sets n).data.length + 1 := by
  induction n with
  | zero => rfl
  | succ n ih =>
    simp only [writeMap, List.length_append, ih]
    omega

theorem writeMap_map_length (sets : Nat → List α) (n : Nat) :
    (writeMap sets n).map.length = n := by
  induction n with
  | zero => rfl
  | succ n ih => simp [writeMap, ih]

theorem writeMap_map_get (sets : Nat → List α) (hi : i < n) :
    (writeMap sets n).map[i]? = some ((writeMap sets i).data.length + 1) := by
  induction n with
  | zero => cases hi
  | succ n ih =>
    rcases Nat.lt_or_eq_of_le (Nat.le_of_lt_succ hi) with hlt | rfl
    · rw [writeMap, List.getElem?_append_left (by rw [writeMap_map_length]; exact hlt), ih hlt]
    · rw [writeMap, List.getElem?_append_right (Nat.le_of_eq (writeMap_map_length sets i)),
        writeMap_map_length, Nat.sub_self, ← writeMap_pos]
      rfl

theorem writeMap_data_get (sets : Nat → List α) (hi : i < n) (hj : j < (sets (i + 1)).length) :
    (writeMap sets n).data[(writeMap sets i).data.length + j]? = (sets (i + 1))[j]? := by
  induction n with
  | zero => cases hi
  | succ n ih =>
    rcases Nat.lt_or_eq_of_le (Nat.le_of_lt_succ hi) with hlt | rfl
    · have hget := ih hlt
      have hbound : (writeMap sets i).data.length + j < (writeMap sets n).data.length := by
        by_contra hout
        rw [List.getElem?_eq_none (Nat.not_lt.1 hout), List.getElem?_eq_getElem hj] at hget
        cases hget
      rw [writeMap, List.getElem?_append_left hbound, hget]
    · rw [writeMap, List.getElem?_append_right (Nat.le_add_right _ _), Nat.add_sub_cancel_left]

theorem writeMap_congr {sets' : Nat → List α} (h : ∀ i ≤ n, sets i = sets' i) :
    writeMap sets n = writeMap sets' n := by
  induction n with
  | zero => rfl
  | succ n ih =>
    rw [writeMap, writeMap, ih fun i hi => h i (Nat.le_succ_of_le hi), h (n + 1) (Nat.le_refl _)]

theorem writeMap_data_length_succ (sets : Nat → List α) (n : Nat) :
    (writeMap sets (n + 1)).data.length =
      (writeMap sets n).data.length + (sets (n + 1)).length := by
  simp [writeMap]

theorem range_writeMap (sets : Nat → List α) (hi : i < n) :
    (writeMap sets n).range n (i + 1) =
      some ((writeMap sets i).data.length + 1,
        (writeMap sets i).data.length + 1 + (sets (i + 1)).length) := by
  have hentry {k : Nat} (hk : k < n) : sizedGet n (writeMap sets n).map (k + 1) =
      some ((writeMap sets k).data.length + 1) := by
    rw [sizedGet_eq (Nat.le_of_eq (writeMap_map_length sets n)) (Nat.succ_pos k)]
    exact writeMap_map_get sets hk
  unfold WoofMap.range
  simp only [hentry hi, writeMap_map_length, Option.bind_eq_bind, Option.bind_some]
  by_cases hlast : i + 1 = n
  · rw [if_pos hlast, ← hlast, writeMap_data_length_succ, Nat.add_right_comm]
  · have hnext : i + 1 < n := Nat.lt_of_le_of_ne hi hlast
    rw [if_neg hlast, hentry hnext, Option.bind_some, writeMap_data_length_succ,
      Nat.add_right_comm]

theorem sizedGet_writeMap {size : Nat} (hfits : (writeMap sets n).data.length ≤ size) (hi : i < n)
    (hj : j < (sets (i + 1)).length) :
    sizedGet size (writeMap sets n).data ((writeMap sets i).data.length + 1 + j) =
      (sets (i + 1))[j]? := by
  rw [sizedGet_eq hfits (by omega), Nat.add_right_comm, Nat.add_sub_cancel]
  exact writeMap_data_get sets hi hj

theorem writeMap_data_length_update_le {id : Nat} {set : List α}
    (hset : set.length ≤ (sets id).length + 1) :
    (writeMap (Function.update sets id set) n).data.length ≤
      (writeMap sets n).data.length + 1 := by
  induction n with
  | zero => exact Nat.zero_le _
  | succ n ih =>
    by_cases hid : n + 1 = id
    · subst hid
      have hbefore : writeMap (Function.update sets (n + 1) set) n = writeMap sets n :=
        writeMap_congr fun i hi => Function.update_of_ne (by omega) _ _
      simp only [writeMap, hbefore, Function.update_self, List.length_append]
      omega
    · simp only [writeMap, Function.update_of_ne hid, List.length_append]
      omega

end WriteMap

/-! ## The sets of subscribers -/

def Call.subscriber (c : Call) : Subscriber := ⟨c.dstNs, c.dstId, c.dstPort⟩

def subscribed (calls : List Call) (ns : Int) (id : Nat) : List Call :=
  calls.filter fun c => c.srcNs = ns ∧ c.srcId = id

theorem insertAt_apply [LinearOrder κ] (key : α → κ) (sets : Int → Nat → List α) (ns : Int)
    (id : Nat) (x : α) (ns' : Int) (id' : Nat) :
    insertAt key sets ns id x ns' id' =
      if ns = ns' ∧ id = id' then KeySet.insert key x (sets ns' id') else sets ns' id' := by
  unfold insertAt
  by_cases hns : ns' = ns
  · subst hns
    by_cases hid : id' = id
    · subst hid
      simp
    · simp [Function.update_of_ne hid, Ne.symm hid]
  · simp [Function.update_of_ne hns, Ne.symm hns]

theorem registry_subscribers (calls : List Call) (ns : Int) (id : Nat) :
    (calls.foldl subscribe Registry.empty).subscribers ns id =
      KeySet.insertAll Subscriber.id ((subscribed calls ns id).map Call.subscriber) := by
  induction calls using List.reverseRecOn with
  | nil => rfl
  | append_singleton calls c ih =>
    rw [List.foldl_concat, subscribed, List.filter_append, List.map_append]
    simp only [subscribe, insertAt_apply, ih]
    by_cases hc : c.srcNs = ns ∧ c.srcId = id
    · simp [hc, ← KeySet.insertAll_concat, subscribed, Call.subscriber]
    · simp [hc, subscribed]

theorem insertAt_data_length_le [LinearOrder κ] (key : α → κ) (sets : Int → Nat → List α) (ns : Int)
    (id : Nat) (x : α) (ns' : Int) (n : Nat) :
    (writeMap (insertAt key sets ns id x ns') n).data.length ≤
      (writeMap (sets ns') n).data.length + if ns' = ns then 1 else 0 := by
  unfold insertAt
  by_cases hns : ns' = ns
  · subst hns
    rw [Function.update_self, if_pos rfl]
    exact writeMap_data_length_update_le (KeySet.length_insert_le x _)
  · rw [Function.update_of_ne hns]
    exact Nat.le_add_right _ _

theorem writeMap_nil (n : Nat) : (writeMap (fun _ => ([] : List α)) n).data = [] := by
  induction n with
  | zero => rfl
  | succ n ih => simp [writeMap, ih]

theorem data_length_le_entries (calls : List Call) (ns : Int) (n : Nat) :
    (writeMap ((calls.foldl subscribe Registry.empty).subscribers ns) n).data.length ≤
        (calls.foldl subscribe Registry.empty).subscribeEntries ns ∧
      (writeMap ((calls.foldl subscribe Registry.empty).subscriptions ns) n).data.length ≤
        (calls.foldl subscribe Registry.empty).subscribeEntries ns := by
  induction calls using List.reverseRecOn with
  | nil =>
    exact ⟨Nat.le_of_eq (congrArg List.length (writeMap_nil n)),
      Nat.le_of_eq (congrArg List.length (writeMap_nil n))⟩
  | append_singleton calls c ih =>
    rw [List.foldl_concat]
    generalize calls.foldl subscribe Registry.empty = r at ih ⊢
    have hsubscribers := insertAt_data_length_le Subscriber.id r.subscribers c.srcNs c.srcId
      ⟨c.dstNs, c.dstId, c.dstPort⟩ ns n
    have hsubscriptions := insertAt_data_length_le Subscription.port r.subscriptions c.dstNs
      c.dstId ⟨c.srcNs, c.srcId, c.dstPort⟩ ns n
    simp only [subscribe]
    omega

theorem mapM_range_eq {f : Nat → Option α} {l : List α} {i : Nat}
    (hf : ∀ j < l.length, f (i + j) = l[j]?) : (List.range' i l.length).mapM f = some l := by
  induction l generalizing i with
  | nil => rfl
  | cons x l ih =>
    have hfirst : f i = some x := hf 0 (Nat.succ_pos _)
    have hrest : (List.range' (i + 1) l.length).mapM f = some l := by
      refine ih fun j hj => ?_
      rw [Nat.add_right_comm, Nat.add_assoc]
      exact hf (j + 1) (Nat.succ_lt_succ hj)
    rw [List.length_cons, List.range'_succ, List.mapM_cons, hfirst]
    simp [hrest]

theorem graph_subscriptions (p : Program) (opcode : Int × Nat → Opcode) {ns : Int} {id : Nat}
    (hlow : 1 ≤ id) (hhigh : id ≤ p.nodeCount ns) :
    (p.graph opcode).subscriptions (ns, id) =
      (p.registry.subscriptions ns id).map fun sub => (sub.ns, sub.id) := by
  obtain ⟨m, rfl⟩ : ∃ m, id = m + 1 := ⟨id - 1, by omega⟩
  have hfits := (data_length_le_entries p.calls ns (p.nodeCount ns)).2
  have hread : p.subscriptionsOf ns (m + 1) = some (p.registry.subscriptions ns (m + 1)) := by
    unfold Program.subscriptionsOf
    rw [Program.subscriptionMap, range_writeMap _ hhigh]
    simp only [Option.bind_eq_bind, Option.bind_some, Nat.add_sub_cancel_left]
    exact mapM_range_eq fun j hj => sizedGet_writeMap hfits hhigh hj
  simp [Program.graph, hread]

/-! ## What the handler puts -/

section Handler

variable {p : Program} {puts : Puts} {ns : Int} {id : Nat}

theorem putLoop_eq {fetch : Nat → Option Subscriber} {set : List Subscriber} {i : Nat}
    (hfetch : ∀ j < set.length, fetch (i + j) = set[j]?)
    (hnodes : ∀ sub ∈ set, 1 ≤ sub.id ∧ sub.id ≤ p.nodeCount sub.ns) :
    p.putLoop fetch set.length i = (set, true) := by
  induction set generalizing i with
  | nil => rfl
  | cons sub set ih =>
    have hfirst : fetch i = some sub := hfetch 0 (Nat.succ_pos _)
    have hrest := ih (i := i + 1) (fun j hj => by
      rw [Nat.add_right_comm, Nat.add_assoc]
      exact hfetch (j + 1) (Nat.succ_lt_succ hj))
      (fun sub' hsub' => hnodes sub' (List.mem_cons_of_mem sub hsub'))
    rw [List.length_cons, Program.putLoop, hfirst]
    simp [if_pos (hnodes sub List.mem_cons_self), hrest]

theorem mem_registry_subscribers {sub : Subscriber}
    (hsub : sub ∈ p.registry.subscribers ns id) :
    ∃ c ∈ subscribed p.calls ns id, c.subscriber = sub := by
  rw [Program.registry, registry_subscribers, KeySet.mem_insertAll] at hsub
  obtain ⟨c, hc, heq⟩ := List.mem_map.1 (List.mem_of_find?_eq_some hsub)
  exact ⟨c, hc, heq⟩

theorem mem_subscribed {calls : List Call} {c : Call} :
    c ∈ subscribed calls ns id ↔ c ∈ calls ∧ c.srcNs = ns ∧ c.srcId = id := by
  simp [subscribed]

theorem notify_eq (hok : ∀ ev, puts.ok 0 ev = true) (hlow : 1 ≤ id) (hhigh : id ≤ p.nodeCount ns)
    (seq : Nat) :
    p.notify puts ns id seq =
      (p.registry.subscribers ns id).map fun sub => ⟨sub.ns, sub.id, sub.port, seq⟩ := by
  obtain ⟨m, rfl⟩ : ∃ m, id = m + 1 := ⟨id - 1, by omega⟩
  have hfits : (p.subscriberMap ns).data.length ≤ p.registry.subscribeEntries ns :=
    (data_length_le_entries p.calls ns (p.nodeCount ns)).1
  have hrange : (p.subscriberMap ns).range (p.nodeCount ns) (m + 1) = _ :=
    range_writeMap _ hhigh
  have hloop : p.putLoop (sizedGet (p.registry.subscribeEntries ns) (p.subscriberMap ns).data)
      (p.registry.subscribers ns (m + 1)).length
      ((writeMap (p.registry.subscribers ns) m).data.length + 1) =
      (p.registry.subscribers ns (m + 1), true) := by
    refine putLoop_eq (fun j hj => sizedGet_writeMap hfits hhigh hj) fun sub hsub => ?_
    obtain ⟨c, hc, rfl⟩ := mem_registry_subscribers hsub
    exact p.destination c (mem_subscribed.1 hc).1
  have hall (events : List SubscriptionEvent) : events.filter (puts.ok 0) = events := by
    simp [hok]
  have hnone (events : List SubscriptionEvent) :
      events.filter (fun ev => !puts.ok 0 ev && puts.remote ev) = [] := by
    simp [hok]
  unfold Program.notify
  simp only [hrange, Nat.add_sub_cancel_left, hloop, hall, hnone, if_true]
  simp [retryLoop]

end Handler

/-! ## Delivery -/

/-- Every node that subscribed hears once of the iteration, and no other node does. -/
structure Delivered (calls : List Call) (ns : Int) (id seq : Nat)
    (events : List SubscriptionEvent) : Prop where
  once : ∀ c ∈ subscribed calls ns id,
    (events.filter fun ev => ev.ns = c.dstNs ∧ ev.id = c.dstId).length = 1
  only : ∀ ev ∈ events, ∃ c ∈ subscribed calls ns id, ev.ns = c.dstNs ∧ ev.id = c.dstId
  iteration : ∀ ev ∈ events, ev.seq = seq

/-- No two namespaces have a subscriber with the same `id`. -/
def OneNamespace (calls : List Call) (ns : Int) (id : Nat) : Prop :=
  ∀ c ∈ subscribed calls ns id, ∀ c' ∈ subscribed calls ns id,
    c.dstId = c'.dstId → c.dstNs = c'.dstNs

/-- The output before the one that is handled can still be read. -/
def PreviousHeld {V : Type} (output : List (Operand V)) (seqno : Nat) : Prop :=
  1 < seqno → output.length < seqno - 1 + woofSize

section Delivery

variable {calls : List Call} {ns : Int} {id : Nat}

theorem exists_first {c : Call} (hc : c ∈ subscribed calls ns id) :
    ∃ c' ∈ subscribed calls ns id, c'.dstId = c.dstId ∧
      c'.subscriber ∈ (calls.foldl subscribe Registry.empty).subscribers ns id := by
  have hsome : (((subscribed calls ns id).map Call.subscriber).find?
      fun sub => sub.id = c.dstId).isSome :=
    List.find?_isSome.2 ⟨c.subscriber, List.mem_map_of_mem hc, by simp [Call.subscriber]⟩
  obtain ⟨sub, hsub⟩ := Option.isSome_iff_exists.1 hsome
  have hid : sub.id = c.dstId := by simpa using List.find?_some hsub
  obtain ⟨c', hc', rfl⟩ := List.mem_map.1 (List.mem_of_find?_eq_some hsub)
  refine ⟨c', hc', hid, ?_⟩
  rw [registry_subscribers, KeySet.mem_insertAll, hid]
  exact hsub

theorem delivered_subscribers_iff (calls : List Call) (ns : Int) (id seq : Nat) :
    Delivered calls ns id seq
        (((calls.foldl subscribe Registry.empty).subscribers ns id).map
          fun sub => ⟨sub.ns, sub.id, sub.port, seq⟩) ↔
      OneNamespace calls ns id := by
  have hordered : KeySet.Ordered Subscriber.id
      ((calls.foldl subscribe Registry.empty).subscribers ns id) := by
    rw [registry_subscribers]
    exact KeySet.ordered_insertAll _ _
  have hcount (c : Call) :
      (((((calls.foldl subscribe Registry.empty).subscribers ns id).map
        fun sub => (⟨sub.ns, sub.id, sub.port, seq⟩ : SubscriptionEvent)).filter
          fun ev => ev.ns = c.dstNs ∧ ev.id = c.dstId).length = 1) ↔
      ∃ sub ∈ (calls.foldl subscribe Registry.empty).subscribers ns id,
        sub.ns = c.dstNs ∧ sub.id = c.dstId := by
    rw [List.filter_map, List.length_map]
    exact hordered.length_filter_eq_one_iff fun sub h => h.2
  constructor
  · intro hdel c hc c' hc' hid
    obtain ⟨sub, hsub, hns, hsubid⟩ := (hcount c).1 (hdel.once c hc)
    obtain ⟨sub', hsub', hns', hsubid'⟩ := (hcount c').1 (hdel.once c' hc')
    -- two elements of one `id` are one element
    rw [registry_subscribers, KeySet.mem_insertAll] at hsub hsub'
    rw [hsubid', ← hid, ← hsubid, hsub] at hsub'
    rw [← hns, ← hns', Option.some.inj hsub']
  · intro hone
    refine ⟨fun c hc => (hcount c).2 ?_, fun ev hev => ?_, fun ev hev => ?_⟩
    · obtain ⟨c', hc', hid, hmem⟩ := exists_first hc
      exact ⟨c'.subscriber, hmem, hone c' hc' c hc hid, hid⟩
    · obtain ⟨sub, hsub, rfl⟩ := List.mem_map.1 hev
      rw [registry_subscribers, KeySet.mem_insertAll] at hsub
      obtain ⟨c, hc, rfl⟩ := List.mem_map.1 (List.mem_of_find?_eq_some hsub)
      exact ⟨c, hc, rfl, rfl⟩
    · obtain ⟨sub, hsub, rfl⟩ := List.mem_map.1 hev
      rfl

/-- For an output with a new iteration, the handler delivers to every subscriber exactly if the
output before it can still be read, or nobody subscribed, and no two namespaces have a
subscriber with the same `id`. -/
theorem outputHandler_delivers_iff {V : Type} (p : Program) (puts : Puts)
    (hok : ∀ ev, puts.ok 0 ev = true) (ns : Int) (id : Nat) (hlow : 1 ≤ id)
    (hhigh : id ≤ p.nodeCount ns) (output : List (Operand V)) (seqno : Nat) (result : Operand V)
    (hresult : output[seqno - 1]? = some result)
    (hnew : ∀ prev, 1 < seqno → output[seqno - 2]? = some prev → prev.seq ≠ result.seq) :
    Delivered p.calls ns id result.seq (p.outputHandler puts ns id output seqno result) ↔
      (subscribed p.calls ns id = [] ∨ PreviousHeld output seqno) ∧
        OneNamespace p.calls ns id := by
  have hnotify := delivered_subscribers_iff p.calls ns id result.seq
  rw [← Program.registry, ← notify_eq hok hlow hhigh] at hnotify
  have hlast : seqno - 1 < output.length := (List.getElem?_eq_some_iff.1 hresult).1
  unfold Program.outputHandler
  by_cases hfirst : 1 < seqno
  · rw [if_pos hfirst, woofGet, if_neg (by omega), Window.read_appendAll_empty]
    by_cases hheld : output.length < seqno - 1 + woofSize
    · -- the test for a second firing sees another iteration
      have hprev : output[seqno - 2]? = some output[seqno - 2] :=
        List.getElem?_eq_getElem (by omega)
      have hindex : seqno - 1 - 1 = seqno - 2 := by omega
      rw [if_pos (by omega), hindex, hprev]
      simp only [if_neg (hnew _ hfirst hprev)]
      rw [hnotify]
      exact ⟨fun hone => ⟨.inr fun _ => hheld, hone⟩, fun h => h.2⟩
    · rw [if_neg (by omega)]
      have hlost : ¬ PreviousHeld output seqno := fun h => hheld (h hfirst)
      constructor
      · intro hdel
        have hnone : subscribed p.calls ns id = [] := by
          rw [List.eq_nil_iff_forall_not_mem]
          intro c hc
          cases hdel.once c hc
        refine ⟨.inl hnone, fun c hc => ?_⟩
        rw [hnone] at hc
        cases hc
      · rintro ⟨hnone | hprev, -⟩
        · refine ⟨fun c hc => ?_, by simp, by simp⟩
          rw [hnone] at hc
          cases hc
        · exact absurd hprev hlost
  · rw [if_neg hfirst, hnotify]
    exact ⟨fun hone => ⟨.inr fun h => absurd h hfirst, hone⟩, fun h => h.2⟩

end Delivery

def twoNamespaces (dstId : Nat) (hlow : 1 ≤ dstId) (hhigh : dstId ≤ 2) : Program where
  nodeCount _ := 2
  calls := [⟨1, 2, 0, 1, 1⟩, ⟨2, dstId, 0, 1, 1⟩]
  source := by simp
  destination := by simp [hlow, hhigh]

theorem graph_subscriptions_two :
    ((twoNamespaces 1 (by decide) (by decide)).graph fun _ => .add).subscriptions (1, 2) =
      [(1, 1)] :=
  graph_subscriptions (twoNamespaces 1 (by decide) (by decide)) _ (by decide) (by decide)

def allPuts : Puts where
  ok _ _ := true
  remote _ := false

theorem outputHandler_delivers_two :
    Delivered (twoNamespaces 1 (by decide) (by decide)).calls 1 1 1
      ((twoNamespaces 1 (by decide) (by decide)).outputHandler allPuts 1 1
        [⟨(), 1⟩] 1 ⟨(), 1⟩) :=
  (outputHandler_delivers_iff (twoNamespaces 1 (by decide) (by decide)) allPuts (fun _ => rfl) 1 1
    (by decide) (by decide) [⟨(), 1⟩] 1 ⟨(), 1⟩ rfl (by simp)).2
    ⟨.inr fun h => absurd h (by decide), by unfold OneNamespace; decide⟩

/-- Nodes 1:2 and 2:2 subscribe to 1:1, and only the one that came first hears of the output. -/
theorem outputHandler_same_id :
    (twoNamespaces 2 (by decide) (by decide)).outputHandler allPuts 1 1 [⟨(), 1⟩] 1 ⟨(), 1⟩ =
        [⟨1, 2, 0, 1⟩] ∧
      ¬ Delivered (twoNamespaces 2 (by decide) (by decide)).calls 1 1 1
        ((twoNamespaces 2 (by decide) (by decide)).outputHandler allPuts 1 1
          [⟨(), 1⟩] 1 ⟨(), 1⟩) := by
  have hevents : (twoNamespaces 2 (by decide) (by decide)).outputHandler allPuts 1 1
      [⟨(), 1⟩] 1 ⟨(), 1⟩ = [⟨1, 2, 0, 1⟩] := by decide
  refine ⟨hevents, fun hdel => ?_⟩
  have honce := hdel.once ⟨2, 2, 0, 1, 1⟩ (by decide)
  rw [hevents] at honce
  exact absurd honce (by decide)

end Cspot.Laminar
