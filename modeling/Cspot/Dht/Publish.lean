import Cspot.Dht.FindNode
import Cspot.Net.UriParts

/-!
# Finding the subscribers of a topic

The replicas of a registry node keep two woofs for a topic: the registration, which says where
the topic is, and the list of its subscriptions.  `h_register_topic` and `h_subscribe` write
them under their local names; a publishing node reads the registration, or has it cached, and
makes up the name of the subscription list from what it has.
-/

namespace Cspot.Dht

/-! ## Registering and subscribing -/

/-- `sprintf(name, "%s_%s", topic_name, woof)`. -/
def topicWoof (topicName : Bytes) (woof : String) : Bytes :=
  topicName ++ Bytes.ofString "_" ++ Bytes.ofString woof

def registrationName (topicName : Bytes) : Bytes := topicWoof topicName "topic_registaration.woof"

def subscriptionName (topicName : Bytes) : Bytes := topicWoof topicName "subscription_list.woof"

structure Subscription where
  handler : Bytes
  replicaNamespaces : Fin 5 → Bytes
  lastSuccessfulReplica : Int

/-- The woofs of a registry node for its topics, by their local names. -/
structure TopicWoofs where
  registrations : Bytes → Option (List TopicRegistry)
  subscriptions : Bytes → Option (List (List Subscription))

structure RegisterTopicArg where
  topicName : Bytes
  topicReplicas : Fin 5 → Bytes
  topicLeader : Int

structure SubscribeArg where
  topicName : Bytes
  handler : Bytes
  replicaNamespaces : Fin 5 → Bytes
  replicaLeader : Int

def dhtMaxSubscriptions : Nat := 8

def hRegisterTopic (arg : RegisterTopicArg) (node : TopicWoofs) : TopicWoofs where
  registrations := Function.update node.registrations (registrationName arg.topicName)
    (some ((node.registrations (registrationName arg.topicName)).getD [] ++
      [⟨arg.topicName, arg.topicReplicas, arg.topicLeader⟩]))
  subscriptions :=
    match node.subscriptions (subscriptionName arg.topicName) with
    | none => Function.update node.subscriptions (subscriptionName arg.topicName) (some [[]])
    | some _ => node.subscriptions

def subscribed (list : List Subscription) (arg : SubscribeArg) : List Subscription :=
  match list.findIdx? fun entry => entry.handler = arg.handler with
  | some i => list.modify i fun entry =>
    ⟨entry.handler, arg.replicaNamespaces, arg.replicaLeader⟩
  | none => list ++ [⟨arg.handler, arg.replicaNamespaces, arg.replicaLeader⟩]

/-- `none` for `exit(1)`. -/
def hSubscribe (arg : SubscribeArg) (node : TopicWoofs) : Option TopicWoofs := do
  let lists ← node.subscriptions (subscriptionName arg.topicName)
  let list ← lists.getLast?
  if list.length = dhtMaxSubscriptions then return node
  return { node with
    subscriptions := Function.update node.subscriptions (subscriptionName arg.topicName)
      (some (lists ++ [subscribed list arg])) }

/-- A local name under which some `h_subscribe` for the topic appends to a woof. -/
def SubscribesAt (topicName woof : Bytes) : Prop :=
  ∃ arg node node', arg.topicName = topicName ∧ hSubscribe arg node = some node' ∧
    node'.subscriptions woof ≠ node.subscriptions woof

variable {arg : SubscribeArg} {node : TopicWoofs} {woof topicName : Bytes}

theorem hSubscribe_frame {node' : TopicWoofs} (h : hSubscribe arg node = some node')
    (hne : woof ≠ subscriptionName arg.topicName) :
    node'.subscriptions woof = node.subscriptions woof := by
  simp only [hSubscribe, Option.bind_eq_bind, Option.bind_eq_some_iff] at h
  obtain ⟨lists, hlists, list, hlist, h⟩ := h
  split at h
  · cases h
    rfl
  · cases h
    exact Function.update_of_ne hne _ _

theorem hSubscribe_appends {lists : List (List Subscription)} {list : List Subscription}
    (hlists : node.subscriptions (subscriptionName arg.topicName) = some lists)
    (hlist : lists.getLast? = some list) (hfull : list.length ≠ dhtMaxSubscriptions) :
    ∃ node', hSubscribe arg node = some node' ∧
      node'.subscriptions (subscriptionName arg.topicName) =
        some (lists ++ [subscribed list arg]) := by
  refine ⟨{ node with
    subscriptions := Function.update node.subscriptions (subscriptionName arg.topicName)
      (some (lists ++ [subscribed list arg])) }, ?_, Function.update_self _ _ _⟩
  simp only [hSubscribe, hlists, Option.bind_eq_bind, Option.bind_some, hlist, if_neg hfull]
  rfl

theorem hRegisterTopic_subscriptions (arg : RegisterTopicArg) (node : TopicWoofs) :
    (hRegisterTopic arg node).subscriptions (subscriptionName arg.topicName) =
      some ((node.subscriptions (subscriptionName arg.topicName)).getD [[]]) := by
  rw [hRegisterTopic]
  cases hlists : node.subscriptions (subscriptionName arg.topicName) with
  | none => simp
  | some lists => simp [hlists]

theorem subscribesAt_iff : SubscribesAt topicName woof ↔ woof = subscriptionName topicName := by
  constructor
  · rintro ⟨arg, node, node', rfl, h, hchanged⟩
    by_contra hne
    exact hchanged (hSubscribe_frame h hne)
  · rintro rfl
    -- the first subscription after the registration
    let arg : SubscribeArg := ⟨topicName, [], fun _ => [], 0⟩
    let node := hRegisterTopic ⟨topicName, fun _ => [], 0⟩ ⟨fun _ => none, fun _ => none⟩
    have hlists : node.subscriptions (subscriptionName arg.topicName) = some [[]] :=
      hRegisterTopic_subscriptions ⟨topicName, fun _ => [], 0⟩ _
    obtain ⟨node', h, happended⟩ := hSubscribe_appends hlists rfl (by decide)
    refine ⟨arg, node, node', rfl, h, ?_⟩
    rw [happended, hlists]
    simp

/-! ## The registry of a topic -/

/-- `sprintf(name, "%s/%s_%s", front, topic_name, woof)`. -/
def topicWoofIn (front topicName : Bytes) (woof : String) : Bytes :=
  front ++ Bytes.ofString "/" ++ topicWoof topicName woof

def registrationWoof (addr topicName : Bytes) : Bytes :=
  topicWoofIn addr topicName "topic_registaration.woof"

/-- The loop over the replicas from the leader on: the first registration that can be read. -/
def readRegistration (read : Bytes → Option TopicRegistry) (topicName : Bytes)
    (nodeReplicas : Fin 5 → Bytes) (nodeLeader : Fin 5) :
    List (Fin 5) → Option (TopicRegistry × Bytes)
  | [] => none
  | i :: rest =>
    let nodeAddr := nodeReplicas (nodeLeader + i)
    if nodeAddr = [] then readRegistration read topicName nodeReplicas nodeLeader rest
    else
      match read (registrationWoof nodeAddr topicName) with
      | none => readRegistration read topicName nodeReplicas nodeLeader rest
      | some topicEntry => some (topicEntry, registrationWoof nodeAddr topicName)

/-- The registry, the name that was passed in or the one it was read from, and the cache.
A hit in the cache leaves the name as it was passed in. -/
def dhtGetRegistry (cache : Window RegistryCache) (read : Bytes → Option TopicRegistry)
    (findNode : Option (Fin 5 × (Fin 5 → Bytes))) (topicName registryWoof : Bytes) :
    Option (TopicRegistry × Bytes × Window RegistryCache) :=
  match dhtCacheRegistryGet cache topicName with
  | some (some entry) => some (entry.registry, registryWoof, cache)
  | _ => do
      let (nodeLeader, nodeReplicas) ← findNode
      let (topicEntry, registrationWoof) ←
        readRegistration read topicName nodeReplicas nodeLeader (List.finRange 5)
      return (topicEntry, registrationWoof,
        dhtCacheRegistryPut cache topicName topicEntry registrationWoof)

structure TriggerArg where
  topicName : Bytes
  elementWoof : Fin 5 → Bytes
  leaderId : Int
  subscriptionWoof : Bytes

/-- The registry as `resolve_thread` obtains it.  Other processes may have written to the cache
between its own lookup and the one of `dht_get_registry`. -/
def publishRegistry (first second : Window RegistryCache) (read : Bytes → Option TopicRegistry)
    (findNode : Option (Fin 5 × (Fin 5 → Bytes))) (topicName : Bytes) :
    Option (TopicRegistry × Bytes × Window RegistryCache) :=
  match dhtCacheRegistryGet first topicName with
  | some (some entry) => some (entry.registry, entry.registryWoof, first)
  | _ =>
    (dhtGetRegistry second read findNode topicName []).map
      fun (topicEntry, registrationWoof, cache) =>
        (topicEntry, registrationWoof,
          dhtCacheRegistryPut cache topicName topicEntry registrationWoof)

/-- The trigger that `resolve_thread` puts, with the cache behind it. -/
def publishResolveThread (first second : Window RegistryCache)
    (read : Bytes → Option TopicRegistry) (findNode : Option (Fin 5 × (Fin 5 → Bytes)))
    (topicName : Bytes) : Option (TriggerArg × Window RegistryCache) :=
  (publishRegistry first second read findNode topicName).map
    fun (topicEntry, registrationWoof, cache) =>
      (⟨topicName, topicEntry.topicReplicas, topicEntry.lastLeader,
        topicWoofIn registrationWoof topicName "subscription_list.woof"⟩, cache)

/-! ## The cache of registries -/

def IsReplica (replicas : Fin 5 → Bytes) (addr : Bytes) : Prop := addr ≠ [] ∧ ∃ i, replicas i = addr

/-- What the routes above cache for a topic: a registration at a replica, or no name. -/
def CacheOf (replicas : Fin 5 → Bytes) (topicName : Bytes) (cache : Window RegistryCache) : Prop :=
  ∀ record ∈ cache.held, record.topicName = topicName → record.invalidated = false →
    record.registryWoof = [] ∨
      ∃ addr, IsReplica replicas addr ∧ record.registryWoof = registrationWoof addr topicName

section Routes

variable {replicas : Fin 5 → Bytes} {topicName : Bytes} {cache first second : Window RegistryCache}
  {read : Bytes → Option TopicRegistry} {record : RegistryCache} {nodeLeader : Fin 5}
  {order : List (Fin 5)} {name : Bytes} {findNode : Option (Fin 5)} {after : Window RegistryCache}

theorem cacheOf_emptyCache : CacheOf replicas topicName (emptyCache RegistryCache) := by
  intro record hmem
  cases hmem

theorem CacheOf.append (h : CacheOf replicas topicName cache)
    (hrecord : record.topicName = topicName → record.invalidated = false →
      record.registryWoof = [] ∨
        ∃ addr, IsReplica replicas addr ∧
          record.registryWoof = registrationWoof addr topicName) :
    CacheOf replicas topicName (cache.append record) := by
  intro other hmem
  rcases List.mem_append.1 (List.mem_of_mem_drop hmem) with hheld | hnew
  · exact h other hheld
  · rw [List.mem_singleton.1 hnew]
    exact hrecord

theorem cacheScan_mem {latestSeqno : Nat} (i : Nat)
    (h : cacheScan RegistryCache.topicName RegistryCache.invalidated cache latestSeqno topicName i =
      some (some record)) :
    record ∈ cache.held ∧ record.topicName = topicName ∧ record.invalidated = false := by
  induction i with
  | zero => simp [cacheScan] at h
  | succ i ih =>
    rw [cacheScan] at h
    split at h
    · simp at h
    · cases hget : cache.get (i + 1) with
      | none => simp [hget] at h
      | some result =>
        simp only [hget] at h
        split at h
        · next hname =>
            split at h
            · simp at h
            · next hvalid =>
                cases h
                exact ⟨cache.mem_held_of_get hget, hname, Bool.eq_false_iff.2 hvalid⟩
        · exact ih h

theorem CacheOf.get {entry : RegistryCache} (h : CacheOf replicas topicName cache)
    (hget : dhtCacheRegistryGet cache topicName = some (some entry)) :
    entry.registryWoof = [] ∨
      ∃ addr, IsReplica replicas addr ∧ entry.registryWoof = registrationWoof addr topicName := by
  obtain ⟨hmem, hname, hvalid⟩ := cacheScan_mem _ hget
  exact h entry hmem hname hvalid

theorem readRegistration_some {topicEntry : TopicRegistry}
    (h : readRegistration read topicName replicas nodeLeader order = some (topicEntry, name)) :
    ∃ addr, IsReplica replicas addr ∧ name = registrationWoof addr topicName ∧
      read name = some topicEntry := by
  induction order with
  | nil => simp [readRegistration] at h
  | cons i rest ih =>
    rw [readRegistration] at h
    split at h
    · exact ih h
    · next haddr =>
        cases hread : read (registrationWoof (replicas (nodeLeader + i)) topicName) with
        | none =>
          simp only [hread] at h
          exact ih h
        | some entry =>
          simp only [hread] at h
          cases h
          exact ⟨_, ⟨haddr, _, rfl⟩, rfl, hread⟩

theorem readRegistration_eq_none_iff :
    readRegistration read topicName replicas nodeLeader order = none ↔
      ∀ i ∈ order, replicas (nodeLeader + i) ≠ [] →
        read (registrationWoof (replicas (nodeLeader + i)) topicName) = none := by
  induction order with
  | nil => simp [readRegistration]
  | cons i rest ih =>
    rw [readRegistration, List.forall_mem_cons, ← ih]
    by_cases haddr : replicas (nodeLeader + i) = []
    · simp [haddr]
    · cases hread : read (registrationWoof (replicas (nodeLeader + i)) topicName) with
      | none => simp [haddr]
      | some entry => simp [haddr]

theorem dhtGetRegistry_name {result : TopicRegistry} (hcache : CacheOf replicas topicName cache)
    (h : dhtGetRegistry cache read (findNode.map fun leader => (leader, replicas)) topicName [] =
      some (result, name, after)) :
    (name = [] ∨ ∃ addr, IsReplica replicas addr ∧ name = registrationWoof addr topicName) ∧
      CacheOf replicas topicName after := by
  rw [dhtGetRegistry] at h
  split at h
  · cases h
    exact ⟨.inl rfl, hcache⟩
  · cases findNode with
    | none => simp at h
    | some leader =>
      simp only [Option.map_some, Option.bind_eq_bind, Option.bind_some,
        Option.bind_eq_some_iff] at h
      obtain ⟨⟨topicEntry, name'⟩, hread, h⟩ := h
      cases h
      obtain ⟨addr, haddr, hname, -⟩ := readRegistration_some hread
      exact ⟨.inr ⟨addr, haddr, hname⟩, hcache.append fun _ _ => .inr ⟨addr, haddr, hname⟩⟩

theorem publishResolveThread_cacheOf {trigger : TriggerArg}
    (hfirst : CacheOf replicas topicName first) (hsecond : CacheOf replicas topicName second)
    (h : publishResolveThread first second read (findNode.map fun leader => (leader, replicas))
      topicName = some (trigger, after)) : CacheOf replicas topicName after := by
  simp only [publishResolveThread, publishRegistry, Option.map_eq_some_iff] at h
  obtain ⟨⟨topicEntry, name, cache⟩, hregistry, heq⟩ := h
  cases heq
  split at hregistry
  · cases hregistry
    exact hfirst
  · obtain ⟨⟨topicEntry', name', cache'⟩, hget, heq⟩ := Option.map_eq_some_iff.1 hregistry
    cases heq
    obtain ⟨hname, hafter⟩ := dhtGetRegistry_name hsecond hget
    exact hafter.append fun _ _ => hname

end Routes

/-! ## The woof that is read -/

/-- A name for a woof of a node: its address and the local name, or at the node itself the
local name alone. -/
def NamesWoof (self name addr woof : Bytes) : Prop :=
  name = addr ++ Bytes.ofString "/" ++ woof ∨ (name = Bytes.ofString "/" ++ woof ∧ self = addr)

/-- The name is that of a woof to which `h_subscribe` appends at a replica. -/
def ReadsSubscriptions (self : Bytes) (replicas : Fin 5 → Bytes) (topicName name : Bytes) : Prop :=
  ∃ addr woof, IsReplica replicas addr ∧ SubscribesAt topicName woof ∧
    NamesWoof self name addr woof

theorem readsSubscriptions_iff {self : Bytes} {replicas : Fin 5 → Bytes} {front : Bytes} :
    ReadsSubscriptions self replicas topicName
        (topicWoofIn front topicName "subscription_list.woof") ↔
      IsReplica replicas front ∨ (front = [] ∧ IsReplica replicas self) := by
  have hname : topicWoofIn front topicName "subscription_list.woof" =
      front ++ (Bytes.ofString "/" ++ subscriptionName topicName) := List.append_assoc _ _ _
  simp only [ReadsSubscriptions, NamesWoof, subscribesAt_iff, hname]
  constructor
  · rintro ⟨addr, woof, haddr, rfl, h | ⟨h, rfl⟩⟩
    · rw [List.append_assoc] at h
      rw [List.append_cancel_right h]
      exact .inl haddr
    · exact .inr ⟨List.append_left_eq_self.1 h, haddr⟩
  · rintro (hfront | ⟨rfl, hself⟩)
    · exact ⟨front, _, hfront, rfl, .inl (List.append_assoc _ _ _).symm⟩
    · exact ⟨self, _, hself, rfl, .inr ⟨rfl, rfl⟩⟩

theorem registrationWoof_ne_nil (addr topicName : Bytes) :
    registrationWoof addr topicName ≠ [] := by
  simp [registrationWoof, topicWoofIn, Bytes.ofString]

/-- A name for the registration with which the right subscription list is found. -/
def RightName (self : Bytes) (replicas : Fin 5 → Bytes) (name : Bytes) : Prop :=
  IsReplica replicas name ∨ (name = [] ∧ IsReplica replicas self)

def Cached (cache : Window RegistryCache) (topicName : Bytes) : Prop :=
  ∃ entry, dhtCacheRegistryGet cache topicName = some (some entry)

/-- The registrations of the replicas cannot be found or cannot be read. -/
def Unregistered (replicas : Fin 5 → Bytes) (read : Bytes → Option TopicRegistry)
    (findNode : Option (Fin 5)) (topicName : Bytes) : Prop :=
  findNode.isSome = true → ∀ addr, IsReplica replicas addr →
    read (registrationWoof addr topicName) = none

section Publish

variable {self topicName : Bytes} {replicas : Fin 5 → Bytes} {first second : Window RegistryCache}
  {read : Bytes → Option TopicRegistry} {findNode : Option (Fin 5)}

theorem publishResolveThread_reads_iff (found : Option (Fin 5 × (Fin 5 → Bytes))) :
    (∀ trigger after, publishResolveThread first second read found topicName =
        some (trigger, after) →
      ReadsSubscriptions self replicas topicName trigger.subscriptionWoof) ↔
    ∀ result, publishRegistry first second read found topicName = some result →
      RightName self replicas result.2.1 := by
  constructor
  · intro h result hregistry
    have hreads := h _ _ (by rw [publishResolveThread, hregistry]; rfl)
    exact readsSubscriptions_iff.1 hreads
  · intro h trigger after hresolve
    obtain ⟨result, hregistry, heq⟩ := Option.map_eq_some_iff.1 hresolve
    cases heq
    exact readsSubscriptions_iff.2 (h result hregistry)

theorem publishRegistry_of_cached {entry : RegistryCache}
    (hentry : dhtCacheRegistryGet first topicName = some (some entry))
    (found : Option (Fin 5 × (Fin 5 → Bytes))) :
    publishRegistry first second read found topicName =
      some (entry.registry, entry.registryWoof, first) := by
  simp [publishRegistry, hentry]

theorem publishRegistry_of_not_cached (hfirst : ¬ Cached first topicName)
    (found : Option (Fin 5 × (Fin 5 → Bytes))) :
    publishRegistry first second read found topicName =
      (dhtGetRegistry second read found topicName []).map
        fun (topicEntry, registrationWoof, cache) =>
          (topicEntry, registrationWoof,
            dhtCacheRegistryPut cache topicName topicEntry registrationWoof) := by
  rw [publishRegistry]
  split
  · next entry hentry => exact absurd ⟨entry, hentry⟩ hfirst
  · rfl

theorem dhtGetRegistry_of_not_cached (hsecond : ¬ Cached second topicName) (leader : Fin 5) :
    dhtGetRegistry second read (some (leader, replicas)) topicName [] =
      (readRegistration read topicName replicas leader (List.finRange 5)).map
        fun (topicEntry, registrationWoof) => (topicEntry, registrationWoof,
          dhtCacheRegistryPut second topicName topicEntry registrationWoof) := by
  rw [dhtGetRegistry]
  split
  · next entry hentry => exact absurd ⟨entry, hentry⟩ hsecond
  · simp only [Option.bind_eq_bind, Option.bind_some]
    cases readRegistration read topicName replicas leader (List.finRange 5) <;> rfl

theorem readRegistration_finRange_eq_none_iff (leader : Fin 5) :
    readRegistration read topicName replicas leader (List.finRange 5) = none ↔
      ∀ addr, IsReplica replicas addr → read (registrationWoof addr topicName) = none := by
  rw [readRegistration_eq_none_iff]
  constructor
  · rintro h addr ⟨hne, i, rfl⟩
    have hi : leader + (i - leader) = i := by omega
    have hread := h (i - leader) (List.mem_finRange _)
    rw [hi] at hread
    exact hread hne
  · intro h i _ hne
    exact h _ ⟨hne, _, rfl⟩

/-- A registration woof is not a right name: it would have to be the address of a replica. -/
theorem not_rightName_registrationWoof {addr : Bytes}
    (hfiles : ∀ addr, IsReplica replicas addr →
      ¬ IsReplica replicas (registrationWoof addr topicName))
    (haddr : IsReplica replicas addr) :
    ¬ RightName self replicas (registrationWoof addr topicName) := by
  rintro (hreplica | ⟨hnil, -⟩)
  · exact hfiles addr haddr hreplica
  · exact registrationWoof_ne_nil addr topicName hnil

theorem dhtGetRegistry_read_iff
    (hfiles : ∀ addr, IsReplica replicas addr →
      ¬ IsReplica replicas (registrationWoof addr topicName))
    (hsecond : ¬ Cached second topicName) :
    (∀ result, dhtGetRegistry second read (findNode.map fun leader => (leader, replicas))
        topicName [] = some result → RightName self replicas result.2.1) ↔
      Unregistered replicas read findNode topicName := by
  cases findNode with
  | none =>
    have hnone : dhtGetRegistry second read none topicName [] = none := by
      rw [dhtGetRegistry]
      split
      · next entry hentry => exact absurd ⟨entry, hentry⟩ hsecond
      · rfl
    simp [hnone, Unregistered]
  | some leader =>
    rw [Option.map_some, dhtGetRegistry_of_not_cached hsecond, Unregistered]
    simp only [Option.isSome_some, forall_const, ← readRegistration_finRange_eq_none_iff leader]
    cases hread : readRegistration read topicName replicas leader (List.finRange 5) with
    | none => simp
    | some result =>
      obtain ⟨addr, haddr, hname, -⟩ := readRegistration_some hread
      have hwrong : ¬ RightName self replicas (registrationWoof addr topicName) :=
        not_rightName_registrationWoof hfiles haddr
      simp [hname, hwrong]

end Publish

/-- No replica has the registration woof of another for its directory, as it has been made a
file.  Then a publisher reads a subscription list of the topic, if it reads one at all, exactly
if it is itself a replica and has the registry from a record without a name, or from one cached
between its two lookups. -/
theorem publish_reads_iff {self topicName : Bytes} {replicas : Fin 5 → Bytes}
    {first second : Window RegistryCache} {read : Bytes → Option TopicRegistry}
    (findNode : Option (Fin 5))
    (hfiles : ∀ addr, IsReplica replicas addr →
      ¬ IsReplica replicas (registrationWoof addr topicName))
    (hcache : CacheOf replicas topicName first) :
    (∀ trigger after, publishResolveThread first second read
          (findNode.map fun leader => (leader, replicas)) topicName = some (trigger, after) →
        ReadsSubscriptions self replicas topicName trigger.subscriptionWoof) ↔
      (IsReplica replicas self ∧
        ((∃ entry, dhtCacheRegistryGet first topicName = some (some entry) ∧
            entry.registryWoof = []) ∨
          (¬ Cached first topicName ∧ Cached second topicName))) ∨
      (¬ Cached first topicName ∧ ¬ Cached second topicName ∧
        Unregistered replicas read findNode topicName) := by
  rw [publishResolveThread_reads_iff]
  by_cases hfirst : Cached first topicName
  · obtain ⟨entry, hentry⟩ := hfirst
    have hcached : Cached first topicName := ⟨entry, hentry⟩
    simp only [publishRegistry_of_cached hentry, Option.some.injEq, forall_eq', hentry, hcached,
      exists_eq_left', not_true, false_and, or_false]
    rcases hcache.get hentry with hnil | ⟨addr, haddr, hname⟩
    · simp [RightName, IsReplica, hnil]
    · have hwrong : ¬ RightName self replicas (registrationWoof addr topicName) :=
        not_rightName_registrationWoof hfiles haddr
      simp [hname, hwrong, registrationWoof_ne_nil]
  · have hmiss : ¬ ∃ entry, dhtCacheRegistryGet first topicName = some (some entry) ∧
        entry.registryWoof = [] := fun ⟨entry, hentry, _⟩ => hfirst ⟨entry, hentry⟩
    simp only [publishRegistry_of_not_cached hfirst, Option.map_eq_some_iff, hmiss, hfirst,
      false_or, not_false_eq_true, true_and, forall_exists_index, and_imp,
      forall_apply_eq_imp_iff₂]
    by_cases hsecond : Cached second topicName
    · obtain ⟨entry, hentry⟩ := hsecond
      have hget : dhtGetRegistry second read (findNode.map fun leader => (leader, replicas))
          topicName [] = some (entry.registry, [], second) := by
        simp [dhtGetRegistry, hentry]
      have hcached : Cached second topicName := ⟨entry, hentry⟩
      simp [hget, hcached, RightName, IsReplica]
    · simp only [hsecond, and_false, false_or, not_false_eq_true, true_and]
      exact dhtGetRegistry_read_iff hfiles hsecond

section Runs

def registryReplicas : Fin 5 → Bytes
  | 0 => Bytes.ofString "woof://10.0.0.1/ns"
  | _ => []

def readAll : Bytes → Option TopicRegistry := fun _ => some .zero

theorem registryReplicas_files (addr : Bytes) (haddr : IsReplica registryReplicas addr) :
    ¬ IsReplica registryReplicas (registrationWoof addr [116]) := by
  have hlengths : ∀ i, registryReplicas i = [] ∨ (registryReplicas i).length = 18 := by decide
  obtain ⟨hne, i, rfl⟩ := haddr
  rintro ⟨hne', j, hj⟩
  have hlength := congrArg List.length hj
  rw [registrationWoof, topicWoofIn, List.length_append, List.length_append,
    (hlengths i).resolve_left hne] at hlength
  rw [← hj] at hne'
  have hslash : (Bytes.ofString "/").length = 1 := by decide
  have hj18 := (hlengths j).resolve_left hne'
  omega

def namelessCache : Window RegistryCache :=
  (emptyCache _).appendAll (List.replicate 32 ⟨[116], .zero, [], false⟩)

theorem cached_namelessCache : Cached namelessCache [116] := by
  refine ⟨⟨[116], .zero, [], false⟩, ?_⟩
  rw [dhtCacheRegistryGet, namelessCache, cacheGet_eq [116] (by decide)]
  rfl

/-- The publisher is the replica, and another process caches the registry between its lookups. -/
theorem publish_reads_own :
    Cached namelessCache [116] ∧
      ∀ trigger after, publishResolveThread (emptyCache _) namelessCache readAll
          ((some 0).map fun leader => (leader, registryReplicas)) [116] = some (trigger, after) →
        ReadsSubscriptions (Bytes.ofString "woof://10.0.0.1/ns") registryReplicas [116]
          trigger.subscriptionWoof := by
  have hmiss : ¬ Cached (emptyCache _) [116] := fun ⟨_, h⟩ => by cases h
  have hself : IsReplica registryReplicas (Bytes.ofString "woof://10.0.0.1/ns") :=
    ⟨by decide, 0, rfl⟩
  exact ⟨cached_namelessCache,
    (publish_reads_iff (some 0) registryReplicas_files cacheOf_emptyCache).2
      (.inl ⟨hself, .inr ⟨hmiss, cached_namelessCache⟩⟩)⟩

/-- A publisher that reads the registration asks for a woof below the registration woof, in a
namespace whose server, if there is one, listens on another port. -/
theorem publish_misses_subscribers :
    (publishResolveThread (emptyCache _) (emptyCache _) readAll
        ((some 0).map fun leader => (leader, registryReplicas)) [116]).map
          (fun resolved => resolved.1.subscriptionWoof) = some (Bytes.ofString
        "woof://10.0.0.1/ns/t_topic_registaration.woof/t_subscription_list.woof") ∧
      ¬ ReadsSubscriptions [115] registryReplicas [116] (Bytes.ofString
        "woof://10.0.0.1/ns/t_topic_registaration.woof/t_subscription_list.woof") ∧
      wooFPortHash (Bytes.ofString "/ns/t_topic_registaration.woof") ≠
        wooFPortHash (Bytes.ofString "/ns") := by
  refine ⟨by decide, fun hreads => ?_, by decide⟩
  have hname : Bytes.ofString
      "woof://10.0.0.1/ns/t_topic_registaration.woof/t_subscription_list.woof" =
      topicWoofIn (registrationWoof (registryReplicas 0) [116]) [116] "subscription_list.woof" := by
    decide
  rw [hname] at hreads
  exact not_rightName_registrationWoof registryReplicas_files ⟨by decide, 0, rfl⟩
    (readsSubscriptions_iff.1 hreads)

end Runs

end Cspot.Dht
