import Cspot.Runtime.Forker

/-!
# The connection cache

A caller that is done with a connection leaves it to the next one that asks for the same
address and port.  The cache has two trees: the connections in use, by descriptor, and the idle
ones, by a hash of address and port.  A connection that goes idle stays in the first tree,
though, so the cache keeps its discipline only in runs in which none does.
-/

namespace Cspot.CmqPkt

/-! ## Hashing -/

def fnvOffsetBasis : Nat := 0xcbf29ce484222325

def fnvPrime : Nat := 0x100000001b3

def fnv1a (hash : Nat) (data : Bytes) : Nat :=
  data.foldl (fun hash b => (hash ^^^ b.toNat) * fnvPrime % Word.modulus) hash

/-- Conversion of an unsigned 64-bit number to a double: 53 bits, rounded to the nearest and to
even between two. -/
def toDouble (n : Nat) : Int :=
  if n < 2 ^ 53 then n
  else
    let unit := 2 ^ (n.log2 - 52)
    let digits := n / unit
    let rest := n % unit
    if unit < 2 * rest ∨ unit = 2 * rest ∧ digits % 2 = 1 then ((digits + 1) * unit : Nat)
    else (digits * unit : Nat)

/-- How the process reaches its peers.  `inetPton` gives the four bytes of an address. -/
structure PktConfig where
  useMqtt : Bool
  inetPton : Bytes → Option Bytes

def cmqSdCacheHash (cfg : PktConfig) (ipStr : Bytes) (port : Nat) : Int :=
  match cfg.inetPton ipStr with
  | none => -1
  | some ipAddr =>
    let portBytes := [UInt8.ofNat (port / 2 ^ 8), UInt8.ofNat port]
    toDouble (fnv1a (fnv1a fnvOffsetBasis ipAddr) portBytes)

/-! ## The cache -/

structure CmqSd where
  ipStr : Bytes
  port : Nat
  sd : Nat
deriving Repr, DecidableEq

/-- The trees hold addresses of records. -/
structure SdCache where
  locked : Bool
  idle : RB Nat
  active : RB Nat
  csds : Nat → Option CmqSd
  nextAddr : Nat

def cmqSdCacheInit : SdCache where
  locked := false
  idle := []
  active := []
  csds := fun _ => none
  nextAddr := 0

def rbInsert {α : Type} (tree : RB α) (key : Int) (value : α) : RB α :=
  tree.orderedInsert (fun a b => a.1 ≤ b.1) (key, value)

def rbFind {α : Type} (tree : RB α) (key : Int) : Option (Int × α) :=
  tree.find? fun node => node.1 = key

/-- `pthread_mutex_lock`: who has the mutex already waits for itself. -/
def SdCache.lock (c : SdCache) : Exec SdCache :=
  if c.locked then .error .blocked else .ok { c with locked := true }

def SdCache.unlock (c : SdCache) : SdCache := { c with locked := false }

def SdCache.csd (c : SdCache) (addr : Nat) : Exec CmqSd :=
  match c.csds addr with
  | none => .error .outOfBounds
  | some csd => .ok csd

def SdCache.free (c : SdCache) (addr : Nat) : Exec SdCache :=
  match c.csds addr with
  | none => .error .doubleFree
  | some _ => .ok { c with csds := Function.update c.csds addr none }

/-- Find on the idle list and move to the active list. -/
def cmqSdCacheFind (cfg : PktConfig) (c : SdCache) (ipStr : Bytes) (port : Nat) :
    Exec (Option Nat × SdCache) := do
  let hash := cmqSdCacheHash cfg ipStr port
  let c ← c.lock
  match rbFind c.idle hash with
  | none => return (none, c.unlock)
  | some rb =>
    let csd ← c.csd rb.2
    let c := { c with idle := c.idle.erase rb }
    let c := { c with active := rbInsert c.active csd.sd rb.2 }
    return (some csd.sd, c.unlock)

/-- Inserts on the active list; `malloc` tells whether there is memory for a record. -/
def cmqSdCacheInsert (c : SdCache) (malloc : Bool) (ipStr : Bytes) (port sd : Nat) :
    Exec (Int × SdCache) := do
  if malloc = false then return (-1, c)
  let c ← c.lock
  match rbFind c.active sd with
  | some _ => return (-1, c.unlock)
  | none =>
    let addr := c.nextAddr
    let c := { c with
      csds := Function.update c.csds addr (some ⟨Bytes.strncpy ipStr 20, port, sd⟩)
      nextAddr := addr + 1
      active := rbInsert c.active sd addr }
    return (1, c.unlock)

/-- Inserts on the idle list; the active list keeps its node. -/
def cmqSdCacheIdle (cfg : PktConfig) (c : SdCache) (sd : Nat) : Exec (Int × SdCache) := do
  let c ← c.lock
  match rbFind c.active sd with
  | none => return (0, c.unlock)
  | some rb =>
    let csd ← c.csd rb.2
    let hash := cmqSdCacheHash cfg csd.ipStr csd.port
    let c := { c with idle := rbInsert c.idle hash rb.2 }
    return (1, c.unlock)

/-! ## Connections -/

/-- The cache and the open descriptors with the address and port they were opened to; `retired`
are those passed to `cmq_pkt_err_close` and not opened since. -/
structure PktState where
  cache : SdCache
  opened : Nat → Option (Bytes × Nat)
  retired : Nat → Bool

/-- `close`; the descriptors of an MQTT proxy are none of the system's. -/
def PktState.close (cfg : PktConfig) (st : PktState) (sd : Nat) : PktState :=
  if cfg.useMqtt then st else { st with opened := Function.update st.opened sd none }

def PktState.cmqMqttClose (st : PktState) (sd : Nat) : PktState :=
  { st with opened := Function.update st.opened sd none }

/-- The walk through the idle list, under the lock. -/
def destroyIdle (cfg : PktConfig) (st : PktState) (sd : Nat) : RB Nat → Exec PktState
  | [] => .ok { st with cache := st.cache.unlock }
  | rb :: rest => do
      let csd ← st.cache.csd rb.2
      if csd.sd = sd then
        let hash := cmqSdCacheHash cfg csd.ipStr csd.port
        match rbFind st.cache.idle hash with
        | some drb =>
          let cache := { st.cache with idle := st.cache.idle.erase drb }
          let cache ← cache.free rb.2
          let st := PktState.close cfg { st with cache := cache } sd
          let cache ← st.cache.lock
          return { st with cache := cache }
        | none =>
          let st := st.close cfg sd
          let cache ← st.cache.lock
          return { st with cache := cache }
      else destroyIdle cfg st sd rest

def cmqSdCacheDestroy (cfg : PktConfig) (st : PktState) (sd : Nat) : Exec PktState := do
  let cache ← st.cache.lock
  match rbFind cache.active sd with
  | some rb =>
    let cache := { cache with active := cache.active.erase rb }
    let st := PktState.close cfg { st with cache := cache } sd
    let cache ← st.cache.free rb.2
    return { st with cache := cache.unlock }
  | none => destroyIdle cfg { st with cache := cache } sd cache.idle

def cmqPktErrClose (cfg : PktConfig) (st : PktState) (sd : Nat) : Exec PktState := do
  let st := { st with retired := Function.update st.retired sd true }
  let st ← cmqSdCacheDestroy cfg st sd
  if cfg.useMqtt then return st.cmqMqttClose sd
  return st.close cfg sd

def cmqPktClose (cfg : PktConfig) (st : PktState) (sd : Nat) : Exec PktState := do
  let (idled, cache) ← cmqSdCacheIdle cfg st.cache sd
  let st := { st with cache := cache }
  if idled = 1 then return st
  if cfg.useMqtt then return st.cmqMqttClose sd
  return st.close cfg sd

/-- What the system answers during a connect: whether a cached socket still has its peer, which
descriptor `socket` or the MQTT proxy opens, whether `connect` succeeds, and whether there is
memory for a record. -/
structure ConnectEnv where
  isConnected : Bool
  descriptor : Option Nat
  connects : Bool
  malloc : Bool

/-- The descriptor that is opened.  The system gives out none that is open. -/
def PktState.offered (st : PktState) (env : ConnectEnv) : Option Nat :=
  env.descriptor.filter fun sd => (st.opened sd).isNone

def PktState.openDescriptor (st : PktState) (env : ConnectEnv) (addr : Bytes) (port : Nat) :
    Option Nat × PktState :=
  match st.offered env with
  | none => (none, st)
  | some sd =>
    (some sd, { st with
      opened := Function.update st.opened sd (some (addr, port))
      retired := Function.update st.retired sd false })

/-- The rest of `cmq_pkt_connect`, when no cached descriptor is returned. -/
def connectAnew (cfg : PktConfig) (env : ConnectEnv) (st : PktState) (addr : Bytes)
    (port : Nat) : Exec (Option Nat × PktState) :=
  match st.openDescriptor env addr port with
  | (none, st) => .ok (none, st)
  | (some sd, st) => do
      if cfg.useMqtt then
        let (_, cache) ← cmqSdCacheInsert st.cache env.malloc addr port sd
        return (some sd, { st with cache := cache })
      if (cfg.inetPton addr).isNone then
        let st ← cmqPktErrClose cfg st sd
        return (none, st)
      if env.connects = false then
        let st ← cmqPktErrClose cfg st sd
        return (none, st)
      let (_, cache) ← cmqSdCacheInsert st.cache env.malloc addr port sd
      return (some sd, { st with cache := cache })

def cmqPktConnect (cfg : PktConfig) (env : ConnectEnv) (st : PktState) (addr : Bytes)
    (port : Nat) : Exec (Option Nat × PktState) := do
  let (sd, cache) ← cmqSdCacheFind cfg st.cache addr port
  let st := { st with cache := cache }
  match sd with
  | none => connectAnew cfg env st addr port
  | some sd =>
    -- the other side has gone away
    if cfg.useMqtt = false ∧ env.isConnected = false then
      let st ← cmqSdCacheDestroy cfg st sd
      connectAnew cfg env st addr port
    else return (some sd, st)

/-! ## Callers -/

/-- A descriptor in the hands of a caller, and what the caller asked for. -/
structure Handed where
  caller : Nat
  sd : Nat
  addr : Bytes
  port : Nat
deriving Repr, DecidableEq

structure Callers where
  pkt : PktState
  held : List Handed

def noCallers : Callers where
  pkt := ⟨cmqSdCacheInit, fun _ => none, fun _ => false⟩
  held := []

inductive PktCall where
  | connect (caller : Nat) (addr : Bytes) (port : Nat) (env : ConnectEnv)
  | close (caller sd : Nat)
  | errClose (caller sd : Nat)

def Callers.handBack (st : Callers) (caller sd : Nat) : List Handed :=
  st.held.eraseP fun h => h.caller = caller ∧ h.sd = sd

def Callers.call (cfg : PktConfig) (st : Callers) : PktCall → Exec Callers
  | .connect caller addr port env => do
      let (sd, pkt) ← cmqPktConnect cfg env st.pkt addr port
      match sd with
      | none => return { st with pkt := pkt }
      | some sd => return ⟨pkt, ⟨caller, sd, addr, port⟩ :: st.held⟩
  | .close caller sd => do
      let pkt ← cmqPktClose cfg st.pkt sd
      return ⟨pkt, st.handBack caller sd⟩
  | .errClose caller sd => do
      let pkt ← cmqPktErrClose cfg st.pkt sd
      return ⟨pkt, st.handBack caller sd⟩

/-- A caller closes what it holds. -/
def Callers.Allows (st : Callers) : PktCall → Prop
  | .connect _ _ _ _ => True
  | .close caller sd => ∃ h ∈ st.held, h.caller = caller ∧ h.sd = sd
  | .errClose caller sd => ∃ h ∈ st.held, h.caller = caller ∧ h.sd = sd

def Callers.AllowsAll (cfg : PktConfig) (st : Callers) : List PktCall → Prop
  | [] => True
  | call :: calls => st.Allows call ∧
      match st.call cfg call with
      | .ok st => st.AllowsAll cfg calls
      | .error _ => True

def SdCache.records (c : SdCache) (sd : Nat) : Nat :=
  (c.active.map Prod.fst).count (sd : Int) +
    c.idle.countP fun rb => (c.csds rb.2).any fun csd => csd.sd = sd

structure Callers.Disciplined (st : Callers) : Prop where
  recorded : ∀ sd, (st.pkt.opened sd).isSome → st.pkt.cache.records sd = 1
  apart : (st.held.map Handed.sd).Nodup
  endpoint : ∀ h ∈ st.held, st.pkt.opened h.sd = some (h.addr, h.port)
  anew : ∀ h ∈ st.held, st.pkt.retired h.sd = false
  unlocked : st.pkt.cache.locked = false

/-- All calls return, and the discipline holds before and after each of them. -/
def Callers.StaysDisciplined (cfg : PktConfig) (st : Callers) : List PktCall → Prop
  | [] => st.Disciplined
  | call :: calls => st.Disciplined ∧
      match st.call cfg call with
      | .ok st => st.StaysDisciplined cfg calls
      | .error _ => False

/-- A new descriptor gets its connection. -/
def Reaches (cfg : PktConfig) (env : ConnectEnv) (addr : Bytes) : Prop :=
  cfg.useMqtt = true ∨ (cfg.inetPton addr).isSome ∧ env.connects = true

/-- A connect that gets a connection finds memory for its record, and no descriptor is closed
in the way that leaves it to the next caller. -/
def Callers.Orderly (cfg : PktConfig) (st : Callers) : PktCall → Prop
  | .connect _ addr _ env =>
    (st.pkt.offered env).isSome → Reaches cfg env addr → env.malloc = true
  | .close _ _ => False
  | .errClose _ _ => True

def Callers.AllOrderly (cfg : PktConfig) (st : Callers) : List PktCall → Prop
  | [] => True
  | call :: calls => st.Orderly cfg call ∧
      match st.call cfg call with
      | .ok st => st.AllOrderly cfg calls
      | .error _ => True

/-! ## One call -/

/-- While nothing is idle: every open descriptor is recorded once, under a record of its own. -/
structure PktState.Recorded (st : PktState) : Prop where
  unlocked : st.cache.locked = false
  idle : st.cache.idle = []
  keys : (st.cache.active.map Prod.fst).Nodup
  active : ∀ sd : Nat, (st.opened sd).isSome ↔ (sd : Int) ∈ st.cache.active.map Prod.fst
  addrs : (st.cache.active.map Prod.snd).Nodup
  allocated : ∀ rb ∈ st.cache.active, rb.2 < st.cache.nextAddr ∧
    ∃ csd, st.cache.csds rb.2 = some csd ∧ rb.1 = csd.sd
  anew : ∀ sd, (st.opened sd).isSome → st.retired sd = false

section Calls

variable {cfg : PktConfig} {env : ConnectEnv} {st : PktState} {addr : Bytes} {port sd : Nat}
  {c : SdCache} {tree : RB Nat}

theorem SdCache.lock_of_unlocked (h : c.locked = false) :
    c.lock = .ok { c with locked := true } := by
  rw [SdCache.lock, h]
  rfl

theorem SdCache.unlock_lock (h : c.locked = false) :
    SdCache.unlock { c with locked := true } = c := by
  rw [SdCache.unlock, ← h]

theorem rbFind_eq_none (h : (sd : Int) ∉ tree.map Prod.fst) : rbFind tree sd = none := by
  rw [rbFind, List.find?_eq_none]
  intro rb hrb heq
  exact h (List.mem_map.2 ⟨rb, hrb, by simpa using heq⟩)

theorem exists_rbFind (h : (sd : Int) ∈ tree.map Prod.fst) :
    ∃ rb ∈ tree, rb.1 = (sd : Int) ∧ rbFind tree sd = some rb := by
  obtain ⟨rb, hrb, hkey⟩ := List.mem_map.1 h
  have hsome : (rbFind tree sd).isSome := by
    rw [rbFind, List.find?_isSome]
    exact ⟨rb, hrb, by simpa using hkey⟩
  obtain ⟨found, hfound⟩ := Option.isSome_iff_exists.1 hsome
  exact ⟨found, List.mem_of_find?_eq_some hfound, by simpa using List.find?_some hfound, hfound⟩

theorem PktState.Recorded.find (h : st.Recorded) :
    cmqSdCacheFind cfg st.cache addr port = .ok (none, st.cache) := by
  rw [cmqSdCacheFind, SdCache.lock_of_unlocked h.unlocked, Exec.ok_bind]
  simp only [h.idle, rbFind, List.find?_nil]
  have hcache := SdCache.unlock_lock h.unlocked
  rw [h.idle] at hcache
  rw [hcache]
  rfl

theorem PktState.Recorded.connect_eq (h : st.Recorded) :
    cmqPktConnect cfg env st addr port = connectAnew cfg env st addr port := by
  rw [cmqPktConnect, h.find, Exec.ok_bind]

def SdCache.record (c : SdCache) (addr : Bytes) (port sd : Nat) : SdCache :=
  { c with
    csds := Function.update c.csds c.nextAddr (some ⟨Bytes.strncpy addr 20, port, sd⟩)
    nextAddr := c.nextAddr + 1
    active := rbInsert c.active sd c.nextAddr }

section

variable (h : st.Recorded) (hsd : st.opened sd = none)
include h hsd

theorem PktState.Recorded.notMem : (sd : Int) ∉ st.cache.active.map Prod.fst := by
  intro hmem
  have hsome := (h.active sd).2 hmem
  rw [hsd] at hsome
  cases hsome

theorem PktState.Recorded.insert :
    cmqSdCacheInsert st.cache true addr port sd = .ok (1, st.cache.record addr port sd) := by
  rw [cmqSdCacheInsert, if_neg Bool.noConfusion, SdCache.lock_of_unlocked h.unlocked, Exec.ok_bind]
  simp only [rbFind_eq_none (h.notMem hsd)]
  rw [Exec.pure_eq, SdCache.record, SdCache.unlock, ← h.unlocked]

theorem PktState.Recorded.record (addr : Bytes) (port : Nat) :
    PktState.Recorded
      { cache := st.cache.record addr port sd
        opened := Function.update st.opened sd (some (addr, port))
        retired := Function.update st.retired sd false } := by
  have hperm : (st.cache.record addr port sd).active.Perm
      ((↑sd, st.cache.nextAddr) :: st.cache.active) := List.perm_orderedInsert _ _ _
  have hkeys := hperm.map Prod.fst
  have haddrs := hperm.map Prod.snd
  rw [List.map_cons] at hkeys haddrs
  have hnew : st.cache.nextAddr ∉ st.cache.active.map Prod.snd := by
    intro hmem
    obtain ⟨rb, hrb, heq⟩ := List.mem_map.1 hmem
    have hlt := (h.allocated rb hrb).1
    omega
  refine ⟨h.unlocked, h.idle, ?_, ?_, ?_, ?_, ?_⟩
  · exact hkeys.nodup_iff.2 (List.nodup_cons.2 ⟨h.notMem hsd, h.keys⟩)
  · intro other
    rw [hkeys.mem_iff, List.mem_cons]
    by_cases heq : other = sd
    · subst heq
      simp
    · dsimp only
      rw [Function.update_of_ne heq, h.active other]
      simp [heq]
  · exact haddrs.nodup_iff.2 (List.nodup_cons.2 ⟨hnew, h.addrs⟩)
  · intro rb hrb
    show rb.2 < st.cache.nextAddr + 1 ∧ ∃ csd, Function.update st.cache.csds st.cache.nextAddr
      (some ⟨Bytes.strncpy addr 20, port, sd⟩) rb.2 = some csd ∧ rb.1 = csd.sd
    rcases List.mem_cons.1 (hperm.mem_iff.1 hrb) with rfl | hold
    · exact ⟨Nat.lt_succ_self _, _, Function.update_self _ _ _, rfl⟩
    · obtain ⟨hlt, hcsd⟩ := h.allocated rb hold
      rw [Function.update_of_ne (by omega)]
      exact ⟨by omega, hcsd⟩
  · intro other hother
    by_cases heq : other = sd
    · subst heq
      simp
    · dsimp only at hother ⊢
      rw [Function.update_of_ne heq] at hother ⊢
      exact h.anew other hother

theorem PktState.Recorded.errClose_new (cfg : PktConfig) (addr : Bytes) (port : Nat) :
    cmqPktErrClose cfg
      { st with
        opened := Function.update st.opened sd (some (addr, port))
        retired := Function.update st.retired sd false } sd =
      .ok { st with retired := Function.update st.retired sd true } := by
  have hopened : Function.update st.opened sd none = st.opened := by
    rw [← hsd, Function.update_eq_self]
  have hfind : rbFind st.cache.active sd = none := rbFind_eq_none (h.notMem hsd)
  have hcache := SdCache.unlock_lock h.unlocked
  rw [h.idle] at hcache
  rw [cmqPktErrClose, cmqSdCacheDestroy, SdCache.lock_of_unlocked h.unlocked]
  simp only [Exec.ok_bind, hfind, h.idle, destroyIdle, hcache]
  cases hmqtt : cfg.useMqtt <;>
    simp [PktState.close, PktState.cmqMqttClose, hmqtt, hopened]

end

def SdCache.forget (c : SdCache) (rb : Int × Nat) : SdCache :=
  { c with active := c.active.erase rb, csds := Function.update c.csds rb.2 none }

theorem PktState.Recorded.errClose (h : st.Recorded) (hsd : (st.opened sd).isSome)
    (cfg : PktConfig) :
    ∃ st', cmqPktErrClose cfg st sd = .ok st' ∧ st'.Recorded ∧
      st'.opened = Function.update st.opened sd none := by
  obtain ⟨rb, hrb, hkey, hfind⟩ := exists_rbFind ((h.active sd).1 hsd)
  obtain ⟨-, csd, hcsd, -⟩ := h.allocated rb hrb
  refine ⟨{ cache := st.cache.forget rb
            opened := Function.update st.opened sd none
            retired := Function.update st.retired sd true }, ?_, ?_, rfl⟩
  · rw [cmqPktErrClose, cmqSdCacheDestroy, SdCache.lock_of_unlocked h.unlocked]
    simp only [Exec.ok_bind, hfind]
    cases hmqtt : cfg.useMqtt <;>
      simp [PktState.close, PktState.cmqMqttClose, hmqtt, SdCache.free, hcsd, SdCache.unlock,
        SdCache.forget, h.unlocked]
  · have hnodup : st.cache.active.Nodup := List.Nodup.of_map Prod.fst h.keys
    have hother : ∀ node ∈ st.cache.active.erase rb, node ∈ st.cache.active ∧ node.2 ≠ rb.2 := by
      intro node hnode
      obtain ⟨hne, hmem⟩ := hnodup.mem_erase_iff.1 hnode
      exact ⟨hmem, fun heq => hne (List.inj_on_of_nodup_map h.addrs hmem hrb heq)⟩
    refine ⟨h.unlocked, h.idle, ?_, ?_, ?_, ?_, ?_⟩
    · exact h.keys.sublist (List.erase_sublist.map Prod.fst)
    · intro other
      have hmem : (other : Int) ∈ (st.cache.active.erase rb).map Prod.fst ↔
          other ≠ sd ∧ (other : Int) ∈ st.cache.active.map Prod.fst := by
        constructor
        · intro hin
          obtain ⟨node, hnode, heq⟩ := List.mem_map.1 hin
          obtain ⟨hne, hold⟩ := hnodup.mem_erase_iff.1 hnode
          refine ⟨?_, List.mem_map.2 ⟨node, hold, heq⟩⟩
          intro hsame
          rw [hsame, ← hkey] at heq
          exact hne (List.inj_on_of_nodup_map h.keys hold hrb heq)
        · intro ⟨hne, hin⟩
          obtain ⟨node, hold, heq⟩ := List.mem_map.1 hin
          refine List.mem_map.2 ⟨node, hnodup.mem_erase_iff.2 ⟨?_, hold⟩, heq⟩
          intro hsame
          rw [hsame, hkey] at heq
          exact hne (Int.ofNat.inj heq.symm)
      dsimp only
      rw [SdCache.forget, hmem]
      by_cases heq : other = sd
      · subst heq
        simp
      · rw [Function.update_of_ne heq, h.active other]
        simp [heq]
    · exact h.addrs.sublist (List.erase_sublist.map Prod.snd)
    · intro node hnode
      obtain ⟨hold, hne⟩ := hother node hnode
      obtain ⟨hlt, csd, hcsd, hown⟩ := h.allocated node hold
      exact ⟨hlt, csd, (Function.update_of_ne hne _ _).trans hcsd, hown⟩
    · intro other hopen
      by_cases heq : other = sd
      · subst heq
        simp at hopen
      · dsimp only at hopen ⊢
        rw [Function.update_of_ne heq] at hopen ⊢
        exact h.anew other hopen

theorem opened_of_offered (hsd : st.offered env = some sd) : st.opened sd = none := by
  simpa using (Option.filter_eq_some_iff.1 hsd).2

theorem openDescriptor_of_offered (hsd : st.offered env = some sd) :
    st.openDescriptor env addr port = (some sd, { st with
      opened := Function.update st.opened sd (some (addr, port))
      retired := Function.update st.retired sd false }) := by
  rw [PktState.openDescriptor, hsd]

theorem PktState.Recorded.connect_refused (h : st.Recorded)
    (hno : st.offered env = none ∨ ¬ Reaches cfg env addr) (port : Nat) :
    ∃ st', cmqPktConnect cfg env st addr port = .ok (none, st') ∧ st'.Recorded ∧
      st'.opened = st.opened := by
  rw [h.connect_eq]
  cases hsd : st.offered env with
  | none =>
    refine ⟨st, ?_, h, rfl⟩
    rw [connectAnew, PktState.openDescriptor, hsd]
  | some sd =>
    have hreach := hno.resolve_left (by simp [hsd])
    have hmqtt : cfg.useMqtt = false := by
      cases hmqtt : cfg.useMqtt with
      | false => rfl
      | true => exact absurd (.inl hmqtt) hreach
    have hopened := opened_of_offered hsd
    have hclose := h.errClose_new hopened cfg addr port
    refine ⟨{ st with retired := Function.update st.retired sd true }, ?_, ?_, rfl⟩
    · rw [connectAnew, openDescriptor_of_offered hsd]
      cases hpton : cfg.inetPton addr with
      | none => simp [hmqtt, hclose]
      | some ipAddr =>
        have hconnects : env.connects = false := by
          cases hconnects : env.connects with
          | false => rfl
          | true => exact absurd (.inr ⟨by simp [hpton], hconnects⟩) hreach
        simp [hmqtt, hclose, hconnects]
    · refine ⟨h.unlocked, h.idle, h.keys, h.active, h.addrs, h.allocated, ?_⟩
      intro other hother
      have hne : other ≠ sd := by
        intro heq
        rw [heq, hopened] at hother
        cases hother
      exact (Function.update_of_ne hne _ _).trans (h.anew other hother)

theorem connectAnew_of_reaches (hsd : st.offered env = some sd)
    (hreach : Reaches cfg env addr) :
    connectAnew cfg env st addr port = (do
      let (_, cache) ← cmqSdCacheInsert st.cache env.malloc addr port sd
      return (some sd, {
        cache := cache
        opened := Function.update st.opened sd (some (addr, port))
        retired := Function.update st.retired sd false })) := by
  rw [connectAnew, openDescriptor_of_offered hsd]
  cases hmqtt : cfg.useMqtt with
  | true => rfl
  | false =>
    rcases hreach with habs | ⟨hpton, hconnects⟩
    · rw [hmqtt] at habs
      cases habs
    · obtain ⟨ipAddr, hip⟩ := Option.isSome_iff_exists.1 hpton
      simp [hip, hconnects]

theorem PktState.Recorded.connect_granted (h : st.Recorded) (hsd : st.offered env = some sd)
    (hreach : Reaches cfg env addr) (hmalloc : env.malloc = true) (port : Nat) :
    ∃ st', cmqPktConnect cfg env st addr port = .ok (some sd, st') ∧ st'.Recorded ∧
      st'.opened = Function.update st.opened sd (some (addr, port)) := by
  have hopened := opened_of_offered hsd
  refine ⟨_, ?_, h.record hopened addr port, rfl⟩
  rw [h.connect_eq, connectAnew_of_reaches hsd hreach, hmalloc, h.insert hopened]
  rfl

theorem PktState.Recorded.connect_unrecorded (h : st.Recorded) (hsd : st.offered env = some sd)
    (hreach : Reaches cfg env addr) (hmalloc : env.malloc = false) (port : Nat) :
    ∃ st', cmqPktConnect cfg env st addr port = .ok (some sd, st') ∧
      (st'.opened sd).isSome ∧ st'.cache.records sd = 0 := by
  refine ⟨{ st with
    opened := Function.update st.opened sd (some (addr, port))
    retired := Function.update st.retired sd false }, ?_, ?_, ?_⟩
  · rw [h.connect_eq, connectAnew_of_reaches hsd hreach, hmalloc]
    rfl
  · simp
  · have hcount := List.count_eq_zero.2 (h.notMem (opened_of_offered hsd))
    rw [SdCache.records, hcount, h.idle]
    rfl

theorem PktState.Recorded.close_twice (h : st.Recorded) (hsd : (st.opened sd).isSome)
    (cfg : PktConfig) :
    ∃ st', cmqPktClose cfg st sd = .ok st' ∧ st'.opened = st.opened ∧
      st'.cache.records sd = 2 := by
  obtain ⟨rb, hrb, hkey, hfind⟩ := exists_rbFind ((h.active sd).1 hsd)
  obtain ⟨-, csd, hmem, hown⟩ := h.allocated rb hrb
  have hcount := List.count_eq_one_of_mem h.keys ((h.active sd).1 hsd)
  have hsame : csd.sd = sd := by omega
  refine ⟨{ st with cache := { st.cache with
    idle := [(cmqSdCacheHash cfg csd.ipStr csd.port, rb.2)] } }, ?_, rfl, ?_⟩
  · rw [cmqPktClose, cmqSdCacheIdle, SdCache.lock_of_unlocked h.unlocked]
    simp only [Exec.ok_bind, hfind, SdCache.csd, hmem, h.idle]
    simp [SdCache.unlock, rbInsert, h.unlocked]
  · show (st.cache.active.map Prod.fst).count (sd : Int) + _ = 2
    rw [hcount]
    simp [hmem, hsame]

end Calls

/-! ## Runs -/

structure Callers.Inv (st : Callers) : Prop where
  recorded : st.pkt.Recorded
  apart : (st.held.map Handed.sd).Nodup
  endpoint : ∀ h ∈ st.held, st.pkt.opened h.sd = some (h.addr, h.port)

section Runs

variable {cfg : PktConfig} {st st' : Callers} {caller sd : Nat} {calls : List PktCall}

theorem noCallers_inv : noCallers.Inv where
  recorded := by
    refine ⟨rfl, rfl, List.nodup_nil, ?_, List.nodup_nil, ?_, ?_⟩
    · simp [noCallers, cmqSdCacheInit]
    · simp [noCallers, cmqSdCacheInit]
    · simp [noCallers]
  apart := List.nodup_nil
  endpoint _ h := absurd h List.not_mem_nil

theorem Callers.Inv.disciplined (h : st.Inv) : st.Disciplined where
  recorded sd hsd := by
    rw [SdCache.records, h.recorded.idle,
      List.count_eq_one_of_mem h.recorded.keys ((h.recorded.active sd).1 hsd)]
    rfl
  apart := h.apart
  endpoint := h.endpoint
  anew handed hmem := h.recorded.anew _ (by rw [h.endpoint handed hmem]; rfl)
  unlocked := h.recorded.unlocked

section

variable (h : st.Inv) (hheld : ∃ h ∈ st.held, h.caller = caller ∧ h.sd = sd)
include h hheld

theorem Callers.Inv.isSome_of_held : (st.pkt.opened sd).isSome := by
  obtain ⟨handed, hmem, -, rfl⟩ := hheld
  rw [h.endpoint handed hmem]
  rfl

theorem Callers.Inv.ne_of_handBack :
    ∀ other ∈ st.handBack caller sd, other ∈ st.held ∧ other.sd ≠ sd := by
  have hex : ∃ h ∈ st.held, decide (h.caller = caller ∧ h.sd = sd) = true := by
    obtain ⟨handed, hmem, hown⟩ := hheld
    exact ⟨handed, hmem, decide_eq_true hown⟩
  obtain ⟨handed, hmem, hown⟩ := hex
  obtain ⟨gone, before, after, -, hgone, hsplit, herase⟩ :=
    List.exists_of_eraseP (p := fun h => decide (h.caller = caller ∧ h.sd = sd)) hmem hown
  have hsd : gone.sd = sd := (of_decide_eq_true hgone).2
  have hapart := h.apart
  rw [hsplit, List.map_append, List.map_cons] at hapart
  intro other hother
  rw [Callers.handBack, herase] at hother
  have hin : other ∈ before ∨ other ∈ after := List.mem_append.1 hother
  refine ⟨?_, ?_⟩
  · rw [hsplit, List.mem_append, List.mem_cons]
    exact hin.imp_right .inr
  · intro heq
    have hnot := (List.nodup_middle.1 hapart)
    rw [List.nodup_cons, hsd, ← heq, ← List.map_append] at hnot
    exact hnot.1 (List.mem_map_of_mem (List.mem_append.2 hin))

theorem Callers.Inv.errClose : ∃ st', st.call cfg (.errClose caller sd) = .ok st' ∧ st'.Inv := by
  obtain ⟨pkt, hclose, hrecorded, hopened⟩ :=
    h.recorded.errClose (h.isSome_of_held hheld) cfg
  refine ⟨⟨pkt, st.handBack caller sd⟩, ?_, hrecorded, ?_, ?_⟩
  · rw [Callers.call, hclose]
    rfl
  · exact h.apart.sublist (List.eraseP_sublist.map Handed.sd)
  · intro other hother
    obtain ⟨hmem, hne⟩ := h.ne_of_handBack hheld other hother
    rw [hopened, Function.update_of_ne hne]
    exact h.endpoint other hmem

end

theorem Callers.Inv.connect (h : st.Inv) {addr : Bytes} {port : Nat} {env : ConnectEnv}
    (horderly : st.Orderly cfg (.connect caller addr port env)) :
    ∃ st', st.call cfg (.connect caller addr port env) = .ok st' ∧ st'.Inv := by
  by_cases hno : st.pkt.offered env = none ∨ ¬ Reaches cfg env addr
  · obtain ⟨pkt, hconnect, hrecorded, hopened⟩ := h.recorded.connect_refused hno port
    refine ⟨{ st with pkt := pkt }, ?_, hrecorded, h.apart, ?_⟩
    · rw [Callers.call, hconnect]
      rfl
    · intro other hother
      rw [hopened]
      exact h.endpoint other hother
  · obtain ⟨hsome, hreach⟩ := not_or.1 hno
    obtain ⟨sd, hsd⟩ := Option.ne_none_iff_exists'.1 hsome
    have hmalloc := horderly (by rw [hsd]; rfl) (not_not.1 hreach)
    obtain ⟨pkt, hconnect, hrecorded, hopened⟩ :=
      h.recorded.connect_granted hsd (not_not.1 hreach) hmalloc port
    have hfree := opened_of_offered hsd
    have hother : ∀ other ∈ st.held, other.sd ≠ sd := by
      intro other hother heq
      have hopen := h.endpoint other hother
      rw [heq, hfree] at hopen
      cases hopen
    refine ⟨⟨pkt, ⟨caller, sd, addr, port⟩ :: st.held⟩, ?_, hrecorded, ?_, ?_⟩
    · rw [Callers.call, hconnect]
      rfl
    · rw [List.map_cons, List.nodup_cons]
      refine ⟨?_, h.apart⟩
      intro hmem
      obtain ⟨other, hin, heq⟩ := List.mem_map.1 hmem
      exact hother other hin heq
    · intro other hin
      rw [hopened]
      rcases List.mem_cons.1 hin with rfl | hold
      · exact Function.update_self _ _ _
      · rw [Function.update_of_ne (hother other hold)]
        exact h.endpoint other hold

theorem Callers.Inv.call (h : st.Inv) {call : PktCall} (hallows : st.Allows call)
    (horderly : st.Orderly cfg call) : ∃ st', st.call cfg call = .ok st' ∧ st'.Inv := by
  cases call with
  | connect caller addr port env => exact h.connect horderly
  | close caller sd => exact absurd horderly id
  | errClose caller sd => exact h.errClose hallows

/-- Every other call leaves an open descriptor that is recorded twice, or not at all. -/
theorem Callers.Inv.not_disciplined (h : st.Inv) {call : PktCall} (hallows : st.Allows call)
    (hbad : ¬ st.Orderly cfg call) :
    ∃ st', st.call cfg call = .ok st' ∧ ¬ st'.Disciplined := by
  cases call with
  | connect caller addr port env =>
    simp only [Callers.Orderly, Classical.not_imp, Bool.not_eq_true] at hbad
    obtain ⟨hsome, hreach, hmalloc⟩ := hbad
    obtain ⟨sd, hsd⟩ := Option.isSome_iff_exists.1 hsome
    obtain ⟨pkt, hconnect, hopen, hrecords⟩ :=
      h.recorded.connect_unrecorded hsd hreach hmalloc port
    refine ⟨⟨pkt, ⟨caller, sd, addr, port⟩ :: st.held⟩, ?_, ?_⟩
    · rw [Callers.call, hconnect]
      rfl
    · intro hdisciplined
      have hone := hdisciplined.recorded sd hopen
      rw [hrecords] at hone
      cases hone
  | close caller sd =>
    have hopen := h.isSome_of_held hallows
    obtain ⟨pkt, hclose, hopened, hrecords⟩ := h.recorded.close_twice hopen cfg
    refine ⟨⟨pkt, st.handBack caller sd⟩, ?_, ?_⟩
    · rw [Callers.call, hclose]
      rfl
    · intro hdisciplined
      have hone := hdisciplined.recorded sd (by rw [hopened]; exact hopen)
      rw [hrecords] at hone
      cases hone
  | errClose caller sd => exact absurd trivial hbad

theorem Callers.StaysDisciplined.head (h : st.StaysDisciplined cfg calls) : st.Disciplined := by
  cases calls with
  | nil => exact h
  | cons call calls => exact h.1

theorem Callers.Inv.stays_iff (h : st.Inv) (hallows : st.AllowsAll cfg calls) :
    st.StaysDisciplined cfg calls ↔ st.AllOrderly cfg calls := by
  induction calls generalizing st with
  | nil => exact iff_of_true h.disciplined trivial
  | cons call calls ih =>
    obtain ⟨hallowed, hrest⟩ := hallows
    rw [Callers.StaysDisciplined, Callers.AllOrderly]
    by_cases horderly : st.Orderly cfg call
    · obtain ⟨next, hcall, hnext⟩ := h.call hallowed horderly
      rw [hcall] at hrest ⊢
      exact and_congr (iff_of_true h.disciplined horderly) (ih hnext hrest)
    · obtain ⟨next, hcall, hnot⟩ := h.not_disciplined hallowed horderly
      rw [hcall]
      constructor
      · intro hstays
        exact absurd hstays.2.head hnot
      · intro hall
        exact absurd hall.1 horderly

/-- A run of callers, each of which closes what it holds, keeps the discipline if and only if no
connection is left to the next caller and every record finds memory. -/
theorem cache_disciplined_iff {calls : List PktCall} (hallows : noCallers.AllowsAll cfg calls) :
    noCallers.StaysDisciplined cfg calls ↔ noCallers.AllOrderly cfg calls :=
  noCallers_inv.stays_iff hallows

end Runs

def offers (sd : Nat) : ConnectEnv := ⟨true, some sd, true, true⟩

def loopback : Bytes := Bytes.ofString "127.0.0.1"

def socketConfig : PktConfig where
  useMqtt := false
  inetPton addr := if addr = loopback then some [127, 0, 0, 1] else none

/-- Two callers with one peer, of which the first gives its descriptor up; it is opened anew for
another port. -/
theorem cache_disciplined_reuse :
    noCallers.StaysDisciplined socketConfig [.connect 1 loopback 80 (offers 3),
      .connect 2 loopback 80 (offers 4), .errClose 1 3, .connect 1 loopback 81 (offers 3)] := by
  apply (cache_disciplined_iff ?_).2
  · exact ⟨fun _ _ => rfl, fun _ _ => rfl, trivial, fun _ _ => rfl, trivial⟩
  · refine ⟨trivial, trivial, ?_, trivial, trivial⟩
    exact ⟨⟨1, 3, loopback, 80⟩, by simp, rfl, rfl⟩

/-- A connection is opened and left to the next caller: it is in both trees. -/
theorem idle_recorded_twice :
    ¬ noCallers.StaysDisciplined socketConfig [.connect 1 loopback 80 (offers 3), .close 1 3] ∧
      ((noCallers.call socketConfig (.connect 1 loopback 80 (offers 3))).bind fun st =>
        st.call socketConfig (.close 1 3)).map (fun st => st.pkt.cache.records 3) = .ok 2 := by
  refine ⟨?_, by decide +kernel⟩
  intro h
  have hallows : noCallers.AllowsAll socketConfig
      [.connect 1 loopback 80 (offers 3), .close 1 3] := by
    refine ⟨trivial, ?_, trivial⟩
    exact ⟨⟨1, 3, loopback, 80⟩, by simp, rfl, rfl⟩
  exact ((noCallers_inv.stays_iff hallows).1 h).2.1

end Cspot.CmqPkt
