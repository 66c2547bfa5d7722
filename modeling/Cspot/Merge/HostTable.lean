import Cspot.Merge.HostList

/-!
# The host table as a map

What a table is for: a host that has been added is found again, under a record of its own in
which the number of its latest event is kept.  The table does this for every set of hosts
without the id zero, which stands for a free record.
-/

namespace Cspot.Merge

/-! ## The map -/

inductive HostOp where
  | add (hostId : Nat)
  | see (hostId seqNo : Nat)
deriving Repr, DecidableEq

def HostOp.hostId : HostOp → Nat
  | .add hostId => hostId
  | .see hostId _ => hostId

def addedHosts (ops : List HostOp) : List Nat :=
  ops.filterMap fun
    | .add hostId => some hostId
    | .see _ _ => none

/-- What is known of the hosts, and how many there are. -/
structure HostMap where
  maxSeen : Nat → Option Nat
  count : Nat

def HostMap.empty : HostMap where
  maxSeen := fun _ => none
  count := 0

/-- The map has room for one host less than the table has records. -/
def HostMap.apply (map : HostMap) : HostOp → HostMap
  | .add hostId =>
    if hashCount ≤ map.count + 1 then map
    else
      { maxSeen := Function.update map.maxSeen hostId (some 0)
        count := map.count + 1 }
  | .see hostId seqNo =>
    if (map.maxSeen hostId).isSome then
      { map with maxSeen := Function.update map.maxSeen hostId (some seqNo) }
    else map

/-! ## The table -/

/-- A table, and the hosts for which `HostListAdd` has returned success. -/
structure HostUse where
  table : HostList
  added : List Nat

def HostUse.fresh : HostUse where
  table := hostListCreate
  added := []

def HostUse.apply (use : HostUse) : HostOp → Exec HostUse
  | .add hostId => do
      let (result, table) ← hostListAdd use.table hostId
      return ⟨table, if result = 1 then hostId :: use.added else use.added⟩
  | .see hostId seqNo =>
    match hostListFind use.table hostId with
    | none => .ok use
    | some slot => .ok { use with table := use.table.setMaxSeen slot seqNo }

def HostUse.applyAll (use : HostUse) : List HostOp → Exec HostUse
  | [] => .ok use
  | op :: ops => do
      let use ← use.apply op
      use.applyAll ops

/-- For the hosts of a set the table is the map: those that have been added are found, each under
a record of its own, with the number that was noted last. -/
structure HostUse.Represents (use : HostUse) (ids : Set Nat) (map : HostMap) : Prop where
  found : ∀ id ∈ ids, (hostListFind use.table id).isSome = true ↔ id ∈ use.added
  record : ∀ id ∈ ids, ∀ slot, hostListFind use.table id = some slot →
    (use.table.hash slot).hostId = id
  distinct : ∀ id ∈ ids, ∀ id' ∈ ids, ∀ slot, hostListFind use.table id = some slot →
    hostListFind use.table id' = some slot → id = id'
  maxSeen : ∀ id ∈ ids, (use.table.host id).map Host.maxSeen = map.maxSeen id

/-! ## The table keeps the map -/

/-- The table and the map agree on all hosts with another id than zero. -/
structure HostUse.Keeps (use : HostUse) (map : HostMap) : Prop where
  hashed : use.table.Hashed
  blank : use.table.Blank
  count : use.table.count = map.count
  found : ∀ id, id ≠ 0 → ((hostListFind use.table id).isSome = true ↔ id ∈ use.added)
  maxSeen : ∀ id, id ≠ 0 → (use.table.host id).map Host.maxSeen = map.maxSeen id

theorem HostUse.fresh_keeps : HostUse.fresh.Keeps .empty where
  hashed := hostListCreate_hashed
  blank := hostListCreate_blank
  count := rfl
  found id hzero := by
    have hnone : hostListFind hostListCreate id = none := by
      apply Option.eq_none_iff_forall_ne_some.2
      intro slot hslot
      exact hzero (hostListFind_spec hslot).2.symm
    simp [HostUse.fresh, hnone]
  maxSeen id hzero := by
    have hnone : hostListCreate.host id = none := by
      rw [HostList.host, Option.map_eq_none_iff]
      apply Option.eq_none_iff_forall_ne_some.2
      intro slot hslot
      exact hzero (hostListFind_spec hslot).2.symm
    simp [HostUse.fresh, hnone, HostMap.empty]

section Step

variable {use : HostUse} {map : HostMap} {hostId seqNo : Nat}

theorem HostUse.Keeps.add (h : use.Keeps map) (hzero : hostId ≠ 0) (hnew : hostId ∉ use.added) :
    ∃ use', use.apply (.add hostId) = .ok use' ∧ use'.Keeps (map.apply (.add hostId)) ∧
      ∀ id ∈ use'.added, id = hostId ∨ id ∈ use.added := by
  have hnone : hostListFind use.table hostId = none := by
    rw [← Option.not_isSome_iff_eq_none, h.found hostId hzero]
    exact hnew
  obtain ⟨slot, hhome⟩ := h.hashed.exists_home hnone
  have hcount := h.count
  rw [HostUse.apply, hostListAdd_of_home hhome, HostMap.apply]
  by_cases hfull : hashCount ≤ use.table.count + 1
  · rw [if_pos hfull, if_pos (by omega)]
    exact ⟨use, rfl, h, fun id hid => .inr hid⟩
  rw [if_neg hfull, if_neg (by omega)]
  refine ⟨⟨use.table.put slot hostId, hostId :: use.added⟩, rfl, ⟨?_, ?_, ?_, ?_, ?_⟩, ?_⟩
  · exact h.hashed.put hhome hzero (by omega)
  · exact h.blank.update rfl hzero
  · show use.table.count + 1 = map.count + 1
    rw [h.count]
  · intro id hid
    by_cases hsame : id = hostId
    · subst hsame
      simp [hhome.find_put]
    · rw [h.hashed.find_put_of_ne hhome hid hsame, h.found id hid, List.mem_cons]
      simp [hsame]
  · intro id hid
    by_cases hsame : id = hostId
    · subst hsame
      rw [host_of_find hhome.find_put, put_hash_self, h.blank slot hhome.free]
      simp
    · rw [h.hashed.host_put_of_ne hhome hid hsame, h.maxSeen id hid]
      exact (Function.update_of_ne hsame _ _).symm
  · exact fun id hid => List.mem_cons.1 hid

theorem HostUse.Keeps.see (h : use.Keeps map) (hzero : hostId ≠ 0) :
    ∃ use', use.apply (.see hostId seqNo) = .ok use' ∧
      use'.Keeps (map.apply (.see hostId seqNo)) ∧ use'.added = use.added := by
  have hseen : (map.maxSeen hostId).isSome = (hostListFind use.table hostId).isSome := by
    rw [← h.maxSeen hostId hzero, Option.isSome_map, host_isSome]
  rw [HostUse.apply, HostMap.apply, hseen]
  cases hfind : hostListFind use.table hostId with
  | none => exact ⟨use, rfl, h, rfl⟩
  | some slot =>
    have hid : (use.table.hash slot).hostId ≠ 0 := by
      rw [(hostListFind_spec hfind).2]
      exact hzero
    refine ⟨_, rfl, ⟨?_, ?_, ?_, ?_, ?_⟩, rfl⟩
    · exact h.hashed.setMaxSeen slot seqNo
    · exact h.blank.update rfl hid
    · exact h.count
    · intro id hid
      rw [hostListFind_setMaxSeen]
      exact h.found id hid
    · intro id hid
      rw [host_setMaxSeen hfind]
      by_cases hsame : id = hostId
      · subst hsame
        simp
      · rw [Function.update_of_ne hsame, h.maxSeen id hid]
        simp [hsame]

end Step

theorem HostUse.Keeps.applyAll {use : HostUse} {map : HostMap} (h : use.Keeps map)
    {ops : List HostOp} (hzero : ∀ op ∈ ops, op.hostId ≠ 0) (hnodup : (addedHosts ops).Nodup)
    (hnew : ∀ id ∈ addedHosts ops, id ∉ use.added) :
    ∃ use', use.applyAll ops = .ok use' ∧ use'.Keeps (ops.foldl HostMap.apply map) := by
  induction ops generalizing use map with
  | nil => exact ⟨use, rfl, h⟩
  | cons op ops ih =>
    have hfirst := hzero op (List.mem_cons_self ..)
    have hrest : ∀ op ∈ ops, op.hostId ≠ 0 := fun op hop => hzero op (List.mem_cons_of_mem _ hop)
    cases op with
    | add hostId =>
      have hid : hostId ≠ 0 := hfirst
      have hadds : addedHosts (.add hostId :: ops) = hostId :: addedHosts ops := rfl
      obtain ⟨hother, hnodup⟩ := List.nodup_cons.1 hnodup
      obtain ⟨use', happly, hkeeps, hadded⟩ :=
        h.add hid (hnew hostId (List.mem_cons_self ..))
      obtain ⟨use'', hall, hkeeps'⟩ := ih hkeeps hrest hnodup fun id hlater hmem => by
        rcases hadded id hmem with heq | hold
        · exact hother (heq ▸ hlater)
        · exact hnew id (List.mem_cons_of_mem _ hlater) hold
      exact ⟨use'', by rw [HostUse.applyAll, happly, Exec.ok_bind, hall], hkeeps'⟩
    | see hostId seqNo =>
      have hid : hostId ≠ 0 := hfirst
      obtain ⟨use', happly, hkeeps, hadded⟩ := h.see hid
      obtain ⟨use'', hall, hkeeps'⟩ := ih hkeeps hrest hnodup (by rw [hadded]; exact hnew)
      exact ⟨use'', by rw [HostUse.applyAll, happly, Exec.ok_bind, hall], hkeeps'⟩

theorem HostUse.Keeps.represents {use : HostUse} {map : HostMap} (h : use.Keeps map)
    {ids : Set Nat} (hzero : 0 ∉ ids) : use.Represents ids map := by
  have hne : ∀ id ∈ ids, id ≠ 0 := fun id hid heq => hzero (heq ▸ hid)
  refine ⟨fun id hid => h.found id (hne id hid), fun id _ slot hfind =>
    (hostListFind_spec hfind).2, fun id _ id' _ slot hfind hfind' => ?_, fun id hid =>
    h.maxSeen id (hne id hid)⟩
  exact (hostListFind_spec hfind).2.symm.trans (hostListFind_spec hfind').2

theorem fresh_finds_zero (ids : Set Nat) (hzero : 0 ∈ ids) (map : HostMap) :
    ¬ HostUse.fresh.Represents ids map := by
  intro h
  have hfound := (h.found 0 hzero).1 hostListCreate_hashed.find_zero
  simp [HostUse.fresh] at hfound

/-- The table represents the map for the hosts of a set exactly when none of them has id zero. -/
theorem hostTable_iff (ids : Set Nat) :
    (∀ ops : List HostOp, (∀ op ∈ ops, op.hostId ∈ ids) → (addedHosts ops).Nodup →
      ∃ use, HostUse.fresh.applyAll ops = .ok use ∧
        use.Represents ids (ops.foldl HostMap.apply .empty)) ↔ 0 ∉ ids := by
  constructor
  · intro h hzero
    obtain ⟨use, hfresh, hrepresents⟩ := h [] (by simp) (by simp [addedHosts])
    simp only [HostUse.applyAll] at hfresh
    cases hfresh
    exact fresh_finds_zero ids hzero _ hrepresents
  · intro hzero ops hops hnodup
    obtain ⟨use, hall, hkeeps⟩ := HostUse.fresh_keeps.applyAll
      (fun op hop heq => hzero (heq ▸ hops op hop)) hnodup (by simp [HostUse.fresh])
    exact ⟨use, hall, hkeeps.represents hzero⟩

theorem hostTable_two_hosts :
    ∃ use, HostUse.fresh.applyAll [.add 7, .see 7 3, .add 107, .see 107 5] = .ok use ∧
      use.Represents {7, 107}
        ([.add 7, .see 7 3, .add 107, .see 107 5].foldl HostMap.apply .empty) :=
  (hostTable_iff {7, 107}).2 (by simp) _ (by simp [HostOp.hostId]) (by decide)

/-- Nobody has been added to the table, and id zero is found; once it has been added and its
record has been written to, the next host of that slot takes the record over. -/
theorem zero_shares_records :
    ¬ HostUse.fresh.Represents {0} .empty ∧
      (HostUse.fresh.applyAll [.add 0, .see 0 5, .add 100]).map (fun use =>
        (use.table.host 100).map Host.maxSeen) = .ok (some 5) ∧
      ([.add 0, .see 0 5, .add 100].foldl HostMap.apply .empty).maxSeen 100 = some 0 :=
  ⟨fresh_finds_zero {0} rfl .empty, by decide, by decide⟩

end Cspot.Merge
