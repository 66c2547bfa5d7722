import Cspot.Dht.FindSuccessor
import Cspot.Lib.Window

/-!
# The caches of a node

A node caches the node of a topic and the registry of a topic in two logs of its own.  A
lookup goes back from the latest record to the first one for the topic, over no more than
`DHT_CACHE_SIZE` records; a topic is invalidated by one more record for it.
-/

namespace Cspot.Dht

def dhtCacheSize : Nat := 32

/-! ## The two caches -/

structure TopicCache where
  topicName : Bytes
  nodeReplicas : Fin 5 → Bytes
  nodeLeader : Int

structure TopicRegistry where
  topicName : Bytes
  topicReplicas : Fin 5 → Bytes
  lastLeader : Int

def TopicRegistry.zero : TopicRegistry := ⟨[], fun _ => [], 0⟩

structure RegistryCache where
  topicName : Bytes
  registry : TopicRegistry
  registryWoof : Bytes
  invalidated : Bool

section Lookup

variable {ρ : Type} (nameOf : ρ → Bytes) (isInvalid : ρ → Bool)

/-- The loop from number `i` down: none for the result -1, and inside it the record for the
result 1.  The lower bound is a difference of unsigned words. -/
def cacheScan (woof : Window ρ) (latestSeqno : Nat) (topicName : Bytes) :
    Nat → Option (Option ρ)
  | 0 => some none
  | i + 1 =>
    if i + 1 ≤ Word.sub latestSeqno dhtCacheSize then some none
    else
      match woof.get (i + 1) with
      | none => none
      | some result =>
        if nameOf result = topicName then
          if isInvalid result = true then some none else some (some result)
        else cacheScan woof latestSeqno topicName i

def cacheGet (woof : Window ρ) (topicName : Bytes) : Option (Option ρ) :=
  cacheScan nameOf isInvalid woof woof.latest topicName woof.latest

end Lookup

def dhtCacheNodeGet (woof : Window TopicCache) (topicName : Bytes) : Option (Option TopicCache) :=
  cacheGet TopicCache.topicName (fun cache => cache.nodeLeader = -1) woof topicName

def dhtCacheNodePut (woof : Window TopicCache) (topicName : Bytes) (nodeLeader : Int)
    (nodeReplicas : Fin 5 → Bytes) : Window TopicCache :=
  woof.append ⟨topicName, nodeReplicas, nodeLeader⟩

def dhtCacheNodeInvalidate (woof : Window TopicCache) (topicName : Bytes) : Window TopicCache :=
  woof.append ⟨topicName, fun _ => [], -1⟩

def dhtCacheRegistryGet (woof : Window RegistryCache) (topicName : Bytes) :
    Option (Option RegistryCache) :=
  cacheGet RegistryCache.topicName RegistryCache.invalidated woof topicName

def dhtCacheRegistryPut (woof : Window RegistryCache) (topicName : Bytes)
    (registry : TopicRegistry) (registryWoof : Bytes) : Window RegistryCache :=
  woof.append ⟨topicName, registry, registryWoof, false⟩

def dhtCacheRegistryInvalidate (woof : Window RegistryCache) (topicName : Bytes) :
    Window RegistryCache :=
  woof.append ⟨topicName, .zero, [], true⟩

def emptyCache (ρ : Type) : Window ρ := Window.empty dhtCacheSize 1 (by decide) Nat.one_pos

/-! ## What a lookup finds -/

/-- The latest record for a topic among the last `DHT_CACHE_SIZE`. -/
def latestFor {ρ : Type} (nameOf : ρ → Bytes) (records : List ρ) (topicName : Bytes) : Option ρ :=
  (records.reverse.take dhtCacheSize).find? fun record => nameOf record = topicName

section Scan

variable {ρ : Type} {nameOf : ρ → Bytes} {isInvalid : ρ → Bool} {records : List ρ}

theorem emptyCache_get (records : List ρ) {i : Nat} (hlow : records.length < i + dhtCacheSize)
    (hpos : 0 < i) : ((emptyCache ρ).appendAll records).get i = records[i - 1]? := by
  rw [Window.get, if_neg (by omega), emptyCache, Window.read_appendAll_empty, if_pos (by omega)]

theorem cacheScan_of_full (topicName : Bytes) (hfull : dhtCacheSize ≤ records.length)
    (hword : records.length < Word.modulus) (i : Nat) (hi : i ≤ records.length) :
    cacheScan nameOf isInvalid ((emptyCache ρ).appendAll records) records.length topicName i =
      some (((((records.take i).drop (records.length - dhtCacheSize)).reverse).find?
        fun record => nameOf record = topicName).filter fun record => !isInvalid record) := by
  have hbound : Word.sub records.length dhtCacheSize = records.length - dhtCacheSize :=
    Word.sub_of_le hfull hword
  induction i with
  | zero => simp [cacheScan]
  | succ i ih =>
    rw [cacheScan, hbound]
    by_cases hold : i + 1 ≤ records.length - dhtCacheSize
    · rw [if_pos hold, List.drop_eq_nil_of_le (by rw [List.length_take]; omega)]
      rfl
    · obtain ⟨record, hrecord⟩ : ∃ record, records[i]? = some record :=
        ⟨_, List.getElem?_eq_getElem (by omega)⟩
      have htake : (records.take (i + 1)).drop (records.length - dhtCacheSize) =
          (records.take i).drop (records.length - dhtCacheSize) ++ [record] := by
        rw [List.take_add_one, hrecord, List.drop_append_of_le_length
          (by rw [List.length_take]; omega)]
        rfl
      rw [if_neg hold, emptyCache_get records (by omega) (by omega), Nat.add_sub_cancel,
        hrecord, htake, List.reverse_append, List.reverse_singleton, List.singleton_append,
        List.find?_cons]
      by_cases hname : nameOf record = topicName
      · cases hinvalid : isInvalid record <;> simp [hname, hinvalid, Option.filter]
      · simp only [hname, decide_false, if_false]
        exact ih (by omega)

/-- A lookup never fails; it finds nothing in a cache that is not full. -/
theorem cacheGet_eq (topicName : Bytes) (hword : records.length < Word.modulus) :
    cacheGet nameOf isInvalid ((emptyCache ρ).appendAll records) topicName =
      some (if dhtCacheSize ≤ records.length then
        (latestFor nameOf records topicName).filter fun record => !isInvalid record else none) := by
  have hlatest : ((emptyCache ρ).appendAll records).latest = records.length := by
    rw [emptyCache, Window.latest_appendAll_empty]
    omega
  rw [cacheGet, hlatest]
  by_cases hfull : dhtCacheSize ≤ records.length
  · have hlast : ((records.take records.length).drop
        (records.length - dhtCacheSize)).reverse = records.reverse.take dhtCacheSize := by
      rw [List.take_length, List.take_reverse]
    rw [if_pos hfull, cacheScan_of_full topicName hfull hword records.length (Nat.le_refl _),
      hlast, latestFor]
  · rw [if_neg hfull]
    cases hlen : records.length with
    | zero => rfl
    | succ n =>
      -- the bound has wrapped, so the first record is already too old
      have hsize : dhtCacheSize = 32 := rfl
      have hmodulus : Word.modulus = 2 ^ 64 := rfl
      have hwrap : n + 1 ≤ Word.sub (n + 1) dhtCacheSize := by
        rw [Word.sub, hsize, hmodulus]
        omega
      rw [cacheScan, if_pos hwrap]

end Scan

/-! ## Puts and invalidations -/

inductive CacheOp (ε : Type) where
  | put (topicName : Bytes) (entry : ε)
  | invalidate (topicName : Bytes)

def CacheOp.topicName {ε : Type} : CacheOp ε → Bytes
  | .put topicName _ => topicName
  | .invalidate topicName => topicName

/-- What a cache is for: the entry of the latest put, unless it is too old or invalidated. -/
def cachedEntry {ε : Type} (ops : List (CacheOp ε)) (topicName : Bytes) : Option ε :=
  match latestFor CacheOp.topicName ops topicName with
  | some (.put _ entry) => some entry
  | _ => none

structure NodeEntry where
  nodeLeader : Int
  nodeReplicas : Fin 5 → Bytes

structure RegistryEntry where
  registry : TopicRegistry
  registryWoof : Bytes

def CacheOp.onNodes (woof : Window TopicCache) : CacheOp NodeEntry → Window TopicCache
  | .put topicName entry => dhtCacheNodePut woof topicName entry.nodeLeader entry.nodeReplicas
  | .invalidate topicName => dhtCacheNodeInvalidate woof topicName

def CacheOp.onRegistries (woof : Window RegistryCache) :
    CacheOp RegistryEntry → Window RegistryCache
  | .put topicName entry => dhtCacheRegistryPut woof topicName entry.registry entry.registryWoof
  | .invalidate topicName => dhtCacheRegistryInvalidate woof topicName

def nodeCache (ops : List (CacheOp NodeEntry)) : Window TopicCache :=
  ops.foldl CacheOp.onNodes (emptyCache TopicCache)

def registryCache (ops : List (CacheOp RegistryEntry)) : Window RegistryCache :=
  ops.foldl CacheOp.onRegistries (emptyCache RegistryCache)

def CacheOp.nodeRecord : CacheOp NodeEntry → TopicCache
  | .put topicName entry => ⟨topicName, entry.nodeReplicas, entry.nodeLeader⟩
  | .invalidate topicName => ⟨topicName, fun _ => [], -1⟩

def CacheOp.registryRecord : CacheOp RegistryEntry → RegistryCache
  | .put topicName entry => ⟨topicName, entry.registry, entry.registryWoof, false⟩
  | .invalidate topicName => ⟨topicName, .zero, [], true⟩

theorem CacheOp.nodeRecord_topicName (op : CacheOp NodeEntry) :
    op.nodeRecord.topicName = op.topicName := by
  cases op <;> rfl

theorem CacheOp.registryRecord_topicName (op : CacheOp RegistryEntry) :
    op.registryRecord.topicName = op.topicName := by
  cases op <;> rfl

variable {α ρ : Type} {topicName : Bytes} {ops : List (CacheOp NodeEntry)}

theorem foldl_append_eq_appendAll (onWoof : Window ρ → α → Window ρ) (record : α → ρ)
    (honWoof : ∀ woof a, onWoof woof a = woof.append (record a)) (woof : Window ρ) (ops : List α) :
    ops.foldl onWoof woof = woof.appendAll (ops.map record) := by
  rw [Window.appendAll, List.foldl_map]
  congr 1
  funext woof a
  exact honWoof woof a

theorem nodeCache_eq (ops : List (CacheOp NodeEntry)) :
    nodeCache ops = (emptyCache TopicCache).appendAll (ops.map CacheOp.nodeRecord) :=
  foldl_append_eq_appendAll _ _ (fun _ op => by cases op <;> rfl) _ ops

theorem registryCache_eq (ops : List (CacheOp RegistryEntry)) :
    registryCache ops = (emptyCache RegistryCache).appendAll (ops.map CacheOp.registryRecord) :=
  foldl_append_eq_appendAll _ _ (fun _ op => by cases op <;> rfl) _ ops

theorem latestFor_map {nameOf : ρ → Bytes} {nameOf' : α → Bytes} (record : α → ρ)
    (hname : ∀ a, nameOf (record a) = nameOf' a) (ops : List α) (topicName : Bytes) :
    latestFor nameOf (ops.map record) topicName =
      (latestFor nameOf' ops topicName).map record := by
  rw [latestFor, latestFor, ← List.map_reverse, ← List.map_take, List.find?_map]
  congr 2
  funext a
  simp [hname]

def NodeAnswers (ops : List (CacheOp NodeEntry)) (topicName : Bytes) : Prop :=
  dhtCacheNodeGet (nodeCache ops) topicName =
    some ((cachedEntry ops topicName).map fun entry => CacheOp.nodeRecord (.put topicName entry))

def RegistryAnswers (ops : List (CacheOp RegistryEntry)) (topicName : Bytes) : Prop :=
  dhtCacheRegistryGet (registryCache ops) topicName =
    some ((cachedEntry ops topicName).map fun entry =>
      CacheOp.registryRecord (.put topicName entry))

theorem latestFor_topicName {ε : Type} {ops : List (CacheOp ε)} {op : CacheOp ε}
    (h : latestFor CacheOp.topicName ops topicName = some op) :
    op.topicName = topicName := by
  simpa using List.find?_some h

theorem dhtCacheNodeGet_eq (topicName : Bytes) (hword : ops.length < Word.modulus) :
    dhtCacheNodeGet (nodeCache ops) topicName =
      some (if dhtCacheSize ≤ ops.length then
        ((latestFor CacheOp.topicName ops topicName).map CacheOp.nodeRecord).filter
          fun record => !decide (record.nodeLeader = -1) else none) := by
  rw [dhtCacheNodeGet, nodeCache_eq, cacheGet_eq topicName (by rwa [List.length_map]),
    List.length_map,
    latestFor_map CacheOp.nodeRecord CacheOp.nodeRecord_topicName ops topicName]

theorem dhtCacheRegistryGet_eq {ops : List (CacheOp RegistryEntry)} (topicName : Bytes)
    (hword : ops.length < Word.modulus) :
    dhtCacheRegistryGet (registryCache ops) topicName =
      some (if dhtCacheSize ≤ ops.length then
        ((latestFor CacheOp.topicName ops topicName).map CacheOp.registryRecord).filter
          fun record => !record.invalidated else none) := by
  rw [dhtCacheRegistryGet, registryCache_eq, cacheGet_eq topicName (by rwa [List.length_map]),
    List.length_map,
    latestFor_map CacheOp.registryRecord CacheOp.registryRecord_topicName ops topicName]

theorem nodeAnswers_iff (hword : ops.length < Word.modulus) :
    NodeAnswers ops topicName ↔ ∀ entry, cachedEntry ops topicName = some entry →
      dhtCacheSize ≤ ops.length ∧ entry.nodeLeader ≠ -1 := by
  rw [NodeAnswers, dhtCacheNodeGet_eq topicName hword]
  cases hlatest : latestFor CacheOp.topicName ops topicName with
  | none => simp [cachedEntry, hlatest]
  | some op =>
    cases op with
    | invalidate name => simp [cachedEntry, hlatest, CacheOp.nodeRecord, Option.filter]
    | put name entry =>
      obtain rfl : name = topicName := latestFor_topicName hlatest
      by_cases hfull : dhtCacheSize ≤ ops.length
      · by_cases hleader : entry.nodeLeader = -1
        · simp [cachedEntry, hlatest, CacheOp.nodeRecord, Option.filter, hfull, hleader]
        · simp [cachedEntry, hlatest, CacheOp.nodeRecord, Option.filter, hfull, hleader]
      · simp [cachedEntry, hlatest, hfull]

theorem registryAnswers_iff {ops : List (CacheOp RegistryEntry)}
    (hword : ops.length < Word.modulus) :
    RegistryAnswers ops topicName ↔ ∀ entry, cachedEntry ops topicName = some entry →
      dhtCacheSize ≤ ops.length := by
  rw [RegistryAnswers, dhtCacheRegistryGet_eq topicName hword]
  cases hlatest : latestFor CacheOp.topicName ops topicName with
  | none => simp [cachedEntry, hlatest]
  | some op =>
    cases op with
    | invalidate name => simp [cachedEntry, hlatest, CacheOp.registryRecord, Option.filter]
    | put name entry =>
      obtain rfl : name = topicName := latestFor_topicName hlatest
      by_cases hfull : dhtCacheSize ≤ ops.length
      · simp [cachedEntry, hlatest, CacheOp.registryRecord, Option.filter, hfull]
      · simp [cachedEntry, hlatest, hfull]

/-- No lookup fails.  One in the node cache is right exactly if there is nothing to find, or
the cache is full and the leader of the entry is not the mark of an invalidation; one in the
registry cache is right exactly if there is nothing to find or the cache is full. -/
theorem dhtCache_get_iff {nodeOps : List (CacheOp NodeEntry)}
    {registryOps : List (CacheOp RegistryEntry)} {topicName : Bytes}
    (hnodes : nodeOps.length < Word.modulus) (hregistries : registryOps.length < Word.modulus) :
    (dhtCacheNodeGet (nodeCache nodeOps) topicName ≠ none ∧
        dhtCacheRegistryGet (registryCache registryOps) topicName ≠ none) ∧
      (NodeAnswers nodeOps topicName ↔ ∀ entry, cachedEntry nodeOps topicName = some entry →
        dhtCacheSize ≤ nodeOps.length ∧ entry.nodeLeader ≠ -1) ∧
      (RegistryAnswers registryOps topicName ↔
        ∀ entry, cachedEntry registryOps topicName = some entry →
          dhtCacheSize ≤ registryOps.length) := by
  refine ⟨⟨?_, ?_⟩, nodeAnswers_iff hnodes, registryAnswers_iff hregistries⟩
  · rw [dhtCacheNodeGet_eq topicName hnodes]
    exact Option.some_ne_none _
  · rw [dhtCacheRegistryGet_eq topicName hregistries]
    exact Option.some_ne_none _

def fullOps {α : Type} (entry other : α) : List (CacheOp α) :=
  .put [116] entry :: List.replicate 31 (.put [117] other)

def fullNodeOps : List (CacheOp NodeEntry) := fullOps ⟨3, fun _ => []⟩ ⟨0, fun _ => []⟩

def fullRegistryOps : List (CacheOp RegistryEntry) := fullOps ⟨.zero, [114]⟩ ⟨.zero, []⟩

theorem dhtCache_get_full :
    NodeAnswers fullNodeOps [116] ∧ RegistryAnswers fullRegistryOps [116] ∧
      (cachedEntry fullNodeOps [116]).map NodeEntry.nodeLeader = some 3 ∧
      (cachedEntry fullRegistryOps [116]).map RegistryEntry.registryWoof = some [114] := by
  have hleader : (cachedEntry fullNodeOps [116]).map NodeEntry.nodeLeader = some 3 := by decide
  obtain ⟨-, hnode, hregistry⟩ :=
    dhtCache_get_iff (show fullNodeOps.length < Word.modulus by decide)
      (show fullRegistryOps.length < Word.modulus by decide)
  refine ⟨hnode.2 fun entry hentry => ⟨by decide, ?_⟩, hregistry.2 fun _ _ => by decide, hleader,
    by decide⟩
  rw [hentry, Option.map_some, Option.some.injEq] at hleader
  omega

/-- One put, and a lookup of its topic: the entry is there and the lookup returns 0. -/
theorem dhtCache_first_put_missed :
    (cachedEntry [.put [116] (⟨3, fun _ => []⟩ : NodeEntry)] [116]).isSome = true ∧
      (dhtCacheNodeGet (nodeCache [.put [116] ⟨3, fun _ => []⟩]) [116]).map Option.isSome =
        some false ∧
      (cachedEntry [.put [116] (⟨.zero, [114]⟩ : RegistryEntry)] [116]).isSome = true ∧
      (dhtCacheRegistryGet (registryCache [.put [116] ⟨.zero, [114]⟩]) [116]).map Option.isSome =
        some false := by
  decide

end Cspot.Dht
