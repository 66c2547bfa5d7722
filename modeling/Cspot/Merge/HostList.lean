import Cspot.Lib.Probe
import Cspot.Runtime.Log

/-!
# The host table of a global log

The hosts whose events a global log has met, in a table of a hundred records that is probed
from the remainder of the id on.  A record with id zero is free, so a search for id zero
stops at the first free record.
-/

namespace Cspot.Merge

structure Host where
  hostId : Nat
  maxSeen : Nat
  eventHorizon : Nat
deriving Repr, DecidableEq

def hashCount : Nat := 100

structure HostList where
  hash : Nat → Host
  count : Nat

def hostListCreate : HostList where
  hash := fun _ => ⟨0, 0, 0⟩
  count := 0

/-- A record that is put into use keeps its other fields. -/
def HostList.put (hl : HostList) (slot hostId : Nat) : HostList where
  hash := Function.update hl.hash slot { hl.hash slot with hostId := hostId }
  count := hl.count + 1

def hostListAdd (hl : HostList) (hostId : Nat) : Exec (Int × HostList) :=
  if hashCount ≤ hl.count + 1 then .ok (-1, hl)
  else
    match Probe.first hashCount (hostId % hashCount) fun i => (hl.hash i).hostId = 0 with
    -- no empty slot: the loop has no other way out
    | none => .error .blocked
    | some i => .ok (1, hl.put i hostId)

def hostListFind (hl : HostList) (hostId : Nat) : Option Nat :=
  (Probe.first hashCount (hostId % hashCount) fun i =>
    (hl.hash i).hostId = hostId ∨ (hl.hash i).hostId = 0).filter fun i =>
      (hl.hash i).hostId = hostId

def HostList.setMaxSeen (hl : HostList) (slot seqNo : Nat) : HostList :=
  { hl with hash := Function.update hl.hash slot { hl.hash slot with maxSeen := seqNo } }

def HostList.setEventHorizon (hl : HostList) (slot seqNo : Nat) : HostList :=
  { hl with hash := Function.update hl.hash slot { hl.hash slot with eventHorizon := seqNo } }

def HostList.host (hl : HostList) (hostId : Nat) : Option Host :=
  (hostListFind hl hostId).map hl.hash

def HostList.occupied (hl : HostList) : Nat :=
  (List.range hashCount).countP fun i => (hl.hash i).hostId ≠ 0

/-- Every record is found under its id, and the count leaves a record free. -/
structure HostList.Hashed (hl : HostList) : Prop where
  found : ∀ i < hashCount, (hl.hash i).hostId ≠ 0 →
    hostListFind hl (hl.hash i).hostId = some i
  counted : hl.count = hl.occupied
  room : hl.count < hashCount

/-- The free records are as the table was created with. -/
def HostList.Blank (hl : HostList) : Prop :=
  ∀ i, (hl.hash i).hostId = 0 → hl.hash i = ⟨0, 0, 0⟩

theorem mod_hashCount_lt (n : Nat) : n % hashCount < hashCount := Nat.mod_lt _ (by decide)

theorem hostListCreate_hashed : hostListCreate.Hashed where
  found _ _ hne := absurd rfl hne
  counted := by simp [HostList.occupied, hostListCreate]
  room := by decide

theorem hostListCreate_blank : hostListCreate.Blank := fun _ _ => rfl

section Find

variable {hl : HostList} {hostId slot : Nat}

theorem hostListFind_spec (h : hostListFind hl hostId = some slot) :
    slot < hashCount ∧ (hl.hash slot).hostId = hostId := by
  obtain ⟨hfirst, hid⟩ := Option.filter_eq_some_iff.1 h
  exact ⟨(Probe.first_spec (mod_hashCount_lt hostId) hfirst).1, by simpa using hid⟩

theorem hostListFind_congr {hl' : HostList} (h : ∀ i, (hl'.hash i).hostId = (hl.hash i).hostId)
    (hostId : Nat) : hostListFind hl' hostId = hostListFind hl hostId := by
  simp [hostListFind, h]

theorem HostList.Hashed.exists_free (h : hl.Hashed) :
    ∃ i < hashCount, (hl.hash i).hostId = 0 := by
  by_contra hnone
  have hall : hl.occupied = (List.range hashCount).length := by
    rw [HostList.occupied, List.countP_eq_length]
    intro i hi
    have hne : (hl.hash i).hostId ≠ 0 := fun hzero => hnone ⟨i, List.mem_range.1 hi, hzero⟩
    simpa using hne
  rw [List.length_range, ← h.counted] at hall
  exact absurd h.room (by omega)

theorem HostList.Hashed.exists_first (h : hl.Hashed) (hostId : Nat) :
    ∃ i, (Probe.first hashCount (hostId % hashCount) fun i =>
      (hl.hash i).hostId = hostId ∨ (hl.hash i).hostId = 0) = some i := by
  obtain ⟨i, hi, hfree⟩ := h.exists_free
  exact Option.isSome_iff_exists.1
    (Probe.first_isSome (mod_hashCount_lt hostId) hi (by simp [hfree]))

theorem HostList.Hashed.find_zero (h : hl.Hashed) : (hostListFind hl 0).isSome := by
  obtain ⟨i, hi⟩ := h.exists_first 0
  have hzero := (Probe.first_spec (mod_hashCount_lt 0) hi).2
  have hid : (hl.hash i).hostId = 0 := by simpa using hzero
  rw [hostListFind, hi]
  simp [Option.filter, hid]

end Find

/-! ## Updates of a record -/

section Update

variable {hl : HostList} {slot hostId : Nat} {hl' : HostList}

theorem setMaxSeen_hostId (slot seqNo i : Nat) :
    ((hl.setMaxSeen slot seqNo).hash i).hostId = (hl.hash i).hostId := by
  by_cases hi : i = slot
  · subst hi
    simp [HostList.setMaxSeen]
  · simp [HostList.setMaxSeen, hi]

theorem setEventHorizon_hostId (slot seqNo i : Nat) :
    ((hl.setEventHorizon slot seqNo).hash i).hostId = (hl.hash i).hostId := by
  by_cases hi : i = slot
  · subst hi
    simp [HostList.setEventHorizon]
  · simp [HostList.setEventHorizon, hi]

@[simp] theorem hostListFind_setMaxSeen (slot seqNo hostId : Nat) :
    hostListFind (hl.setMaxSeen slot seqNo) hostId = hostListFind hl hostId :=
  hostListFind_congr (setMaxSeen_hostId slot seqNo) hostId

@[simp] theorem hostListFind_setEventHorizon (slot seqNo hostId : Nat) :
    hostListFind (hl.setEventHorizon slot seqNo) hostId = hostListFind hl hostId :=
  hostListFind_congr (setEventHorizon_hostId slot seqNo) hostId

theorem HostList.Hashed.of_hostId (h : hl.Hashed)
    (hid : ∀ i, (hl'.hash i).hostId = (hl.hash i).hostId) (hcount : hl'.count = hl.count) :
    hl'.Hashed where
  found i hi hne := by
    rw [hid] at hne ⊢
    rw [hostListFind_congr hid]
    exact h.found i hi hne
  counted := by
    rw [hcount, h.counted]
    simp [HostList.occupied, hid]
  room := hcount ▸ h.room

theorem HostList.Hashed.setMaxSeen (h : hl.Hashed) (slot seqNo : Nat) :
    (hl.setMaxSeen slot seqNo).Hashed :=
  h.of_hostId (setMaxSeen_hostId slot seqNo) rfl

theorem HostList.Hashed.setEventHorizon (h : hl.Hashed) (slot seqNo : Nat) :
    (hl.setEventHorizon slot seqNo).Hashed :=
  h.of_hostId (setEventHorizon_hostId slot seqNo) rfl

theorem host_of_find (h : hostListFind hl hostId = some slot) :
    hl.host hostId = some (hl.hash slot) := by
  rw [HostList.host, h, Option.map_some]

theorem host_isSome : (hl.host hostId).isSome = (hostListFind hl hostId).isSome := by
  simp [HostList.host]

theorem host_update (hfind : hostListFind hl hostId = some slot) (record : Host)
    (hsame : ∀ id, hostListFind hl' id = hostListFind hl id)
    (hhash : hl'.hash = Function.update hl.hash slot record) :
    hl'.host = Function.update hl.host hostId (some record) := by
  funext id
  by_cases hid : id = hostId
  · subst hid
    rw [HostList.host, hsame, hfind, Option.map_some, hhash, Function.update_self,
      Function.update_self]
  · rw [Function.update_of_ne hid, HostList.host, hsame, HostList.host, hhash]
    cases hother : hostListFind hl id with
    | none => rfl
    | some i =>
      have hne : i ≠ slot := by
        intro heq
        subst heq
        exact hid ((hostListFind_spec hother).2.symm.trans (hostListFind_spec hfind).2)
      rw [Option.map_some, Option.map_some, Function.update_of_ne hne]

theorem host_setMaxSeen (hfind : hostListFind hl hostId = some slot) (seqNo : Nat) :
    (hl.setMaxSeen slot seqNo).host =
      Function.update hl.host hostId (some { hl.hash slot with maxSeen := seqNo }) :=
  host_update hfind _ (hostListFind_setMaxSeen slot seqNo) rfl

theorem HostList.Blank.update {record : Host} (h : hl.Blank)
    (hhash : hl'.hash = Function.update hl.hash slot record) (hid : record.hostId ≠ 0) :
    hl'.Blank := by
  intro i hi
  rw [hhash] at hi ⊢
  by_cases heq : i = slot
  · subst heq
    rw [Function.update_self] at hi
    exact absurd hi hid
  · rw [Function.update_of_ne heq] at hi ⊢
    exact h i hi

end Update

/-! ## A new record -/

section Add

variable {hl : HostList} {hostId slot : Nat} {id : Nat}

theorem put_hash_self (slot hostId : Nat) :
    (hl.put slot hostId).hash slot = { hl.hash slot with hostId := hostId } := by
  simp [HostList.put]

theorem put_hash_of_ne {i : Nat} (hi : i ≠ slot) (hostId : Nat) :
    (hl.put slot hostId).hash i = hl.hash i := by
  simp [HostList.put, hi]

theorem occupied_put (hslot : slot < hashCount) (hfree : (hl.hash slot).hostId = 0)
    (hid : hostId ≠ 0) : (hl.put slot hostId).occupied = hl.occupied + 1 := by
  have hsplit : (List.range hashCount).Perm (slot :: (List.range hashCount).erase slot) :=
    List.perm_cons_erase (List.mem_range.2 hslot)
  have hrest : ∀ i ∈ (List.range hashCount).erase slot,
      (decide (((hl.put slot hostId).hash i).hostId ≠ 0) = true ↔
        decide ((hl.hash i).hostId ≠ 0) = true) := by
    intro i hi
    rw [put_hash_of_ne (List.nodup_range.mem_erase_iff.1 hi).1]
  rw [HostList.occupied, HostList.occupied, hsplit.countP_eq, hsplit.countP_eq,
    List.countP_cons, List.countP_cons, List.countP_congr hrest]
  simp [put_hash_self, hfree, hid]

/-- The slot in which the probe for an id that is not in the table ends. -/
structure HostList.Home (hl : HostList) (hostId slot : Nat) : Prop where
  bound : slot < hashCount
  free : (hl.hash slot).hostId = 0
  first : (Probe.first hashCount (hostId % hashCount) fun i =>
    (hl.hash i).hostId = hostId ∨ (hl.hash i).hostId = 0) = some slot

theorem HostList.Hashed.exists_home (h : hl.Hashed) (hnone : hostListFind hl hostId = none) :
    ∃ slot, hl.Home hostId slot := by
  obtain ⟨slot, hfirst⟩ := h.exists_first hostId
  obtain ⟨hslot, hstop⟩ := Probe.first_spec (mod_hashCount_lt hostId) hfirst
  rw [hostListFind, hfirst] at hnone
  have hne : (hl.hash slot).hostId ≠ hostId := by simpa [Option.filter] using hnone
  have hor : (hl.hash slot).hostId = hostId ∨ (hl.hash slot).hostId = 0 := by simpa using hstop
  exact ⟨slot, hslot, hor.resolve_left hne, hfirst⟩

theorem HostList.Home.first_free (h : hl.Home hostId slot) :
    (Probe.first hashCount (hostId % hashCount) fun i => (hl.hash i).hostId = 0) = some slot := by
  apply Probe.first_of_imp _ (mod_hashCount_lt hostId) h.first (by simpa using h.free)
  intro i _ hi
  have hzero : (hl.hash i).hostId = 0 := by simpa using hi
  simp [hzero]

theorem HostList.Home.find_put (h : hl.Home hostId slot) :
    hostListFind (hl.put slot hostId) hostId = some slot := by
  have hself : ((hl.put slot hostId).hash slot).hostId = hostId := by rw [put_hash_self]
  have hfirst : (Probe.first hashCount (hostId % hashCount) fun i =>
      ((hl.put slot hostId).hash i).hostId = hostId ∨
        ((hl.put slot hostId).hash i).hostId = 0) = some slot := by
    apply Probe.first_of_imp _ (mod_hashCount_lt hostId) h.first (by simp [hself])
    intro i _ hi
    by_cases heq : i = slot
    · simp [heq, h.free]
    · simpa [put_hash_of_ne heq] using hi
  rw [hostListFind, hfirst]
  simp [Option.filter, hself]

theorem HostList.Home.find_put_of_find (h : hl.Home hostId slot) {i : Nat} (hzero : id ≠ 0)
    (hfind : hostListFind hl id = some i) :
    hostListFind (hl.put slot hostId) id = some i := by
  have hid := (hostListFind_spec hfind).2
  have hi : i ≠ slot := by
    intro heq
    rw [heq, h.free] at hid
    exact hzero hid.symm
  have hid' : ((hl.put slot hostId).hash i).hostId = id := by rw [put_hash_of_ne hi, hid]
  have hfirst : (Probe.first hashCount (id % hashCount) fun i =>
      ((hl.put slot hostId).hash i).hostId = id ∨
        ((hl.put slot hostId).hash i).hostId = 0) = some i := by
    apply Probe.first_of_imp _ (mod_hashCount_lt id) (Option.filter_eq_some_iff.1 hfind).1
      (by simp [hid'])
    intro k _ hk
    by_cases heq : k = slot
    · simp [heq, h.free]
    · simpa [put_hash_of_ne heq] using hk
  rw [hostListFind, hfirst]
  simp [Option.filter, hid']

theorem HostList.Hashed.find_put_of_ne (hh : hl.Hashed) (h : hl.Home hostId slot) (hzero : id ≠ 0)
    (hne : id ≠ hostId) :
    hostListFind (hl.put slot hostId) id = hostListFind hl id := by
  cases hfind : hostListFind hl id with
  | some i => exact h.find_put_of_find hzero hfind
  | none =>
    -- a record found now was there before, and would have been found
    apply Option.eq_none_iff_forall_ne_some.2
    intro i hi
    obtain ⟨hbound, hid⟩ := hostListFind_spec hi
    have hne' : i ≠ slot := by
      intro heq
      rw [heq, put_hash_self] at hid
      exact hne hid.symm
    rw [put_hash_of_ne hne'] at hid
    have hfound := hh.found i hbound (hid ▸ hzero)
    rw [hid, hfind] at hfound
    cases hfound

theorem HostList.Hashed.put (hh : hl.Hashed) (h : hl.Home hostId slot) (hid : hostId ≠ 0)
    (hroom : hl.count + 1 < hashCount) : (hl.put slot hostId).Hashed where
  found i hi hne := by
    by_cases heq : i = slot
    · subst heq
      rw [put_hash_self]
      exact h.find_put
    · rw [put_hash_of_ne heq] at hne ⊢
      exact h.find_put_of_find hne (hh.found i hi hne)
  counted := by
    rw [occupied_put h.bound h.free hid, ← hh.counted]
    rfl
  room := hroom

theorem HostList.Hashed.host_put_of_ne (hh : hl.Hashed) (h : hl.Home hostId slot) (hzero : id ≠ 0)
    (hne : id ≠ hostId) : (hl.put slot hostId).host id = hl.host id := by
  rw [HostList.host, HostList.host, hh.find_put_of_ne h hzero hne]
  cases hold : hostListFind hl id with
  | none => rfl
  | some i =>
    have hi : i ≠ slot := by
      intro heq
      rw [heq] at hold
      exact hzero ((hostListFind_spec hold).2.symm.trans h.free)
    rw [Option.map_some, Option.map_some, put_hash_of_ne hi]

theorem hostListAdd_of_home (h : hl.Home hostId slot) :
    hostListAdd hl hostId =
      .ok (if hashCount ≤ hl.count + 1 then (-1, hl) else (1, hl.put slot hostId)) := by
  unfold hostListAdd
  split
  · rfl
  · rw [h.first_free]

end Add

end Cspot.Merge
