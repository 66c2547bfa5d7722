import Cspot.Lib.Probe
import Cspot.Runtime.Forker

/-!
# The pending list of a global log

The events that wait for their cause.  They lie in an array whose free slots have sequence
number zero; one tree finds a slot by the event it holds, the other by the cause it waits
for.  Several events may wait for one cause, so the second tree has equal keys.
-/

namespace Cspot.Merge

/-- Host and sequence number in one key, as the bits of an `int64_t`. -/
def eventIndex (host seqNo : Nat) : Nat := (host * 2 ^ 32 + seqNo) % Word.modulus

def eventKey (ev : Event) : Int := Word.toInt64 (eventIndex ev.host ev.seqNo)

def causeKey (ev : Event) : Int := Word.toInt64 (eventIndex ev.causeHost ev.causeSeqNo)

structure Pending where
  events : Nat → Event
  size : Nat
  nextFree : Nat
  alive : RB Nat
  causes : RB Nat

def pendingCreate (size : Nat) : Pending where
  events := fun _ => eventCreate .unknown 0
  size := size
  nextFree := 0
  alive := []
  causes := []

def pendingFindEvent (pending : Pending) (host seqNo : Nat) : Option Nat :=
  (rbFindI64 pending.alive (eventIndex host seqNo)).map Prod.snd

/-- The slot of an event that waits for this one.  Which of several it is depends on the
shape of the tree; `met` stands for it. -/
def pendingFindCause (met : Nat) (pending : Pending) (host seqNo : Nat) : Option Nat :=
  let nodes := pending.causes.filter fun node => node.1 = Word.toInt64 (eventIndex host seqNo)
  nodes[met % nodes.length]?.map Prod.snd

def Pending.put (pending : Pending) (slot : Nat) (event : Event) : Pending :=
  { pending with
    events := Function.update pending.events slot event
    nextFree := slot
    alive := rbInsertI64 pending.alive (eventIndex event.host event.seqNo) slot
    causes := rbInsertI64 pending.causes (eventIndex event.causeHost event.causeSeqNo) slot }

def pendingAddEvent (pending : Pending) (event : Event) : Exec (Int × Pending) :=
  match pendingFindEvent pending event.host event.seqNo with
  | some _ => .ok (-1, pending)
  | none =>
    if pending.size ≤ pending.nextFree then .error .outOfBounds
    else
      match Probe.first pending.size pending.nextFree
          fun i => (pending.events i).seqNo = 0 with
      | none => .ok (-1, pending)
      | some slot => .ok (1, pending.put slot event)

/-- The walks along equal keys, forward and backward from where the search ended, see every
node with the key. -/
def pendingRemoveEvent (pending : Pending) (event : Event) : Int × Pending :=
  match rbFindI64 pending.alive (eventIndex event.host event.seqNo) with
  | none => (-1, pending)
  | some node =>
    let slot := node.2
    if (causeKey event, slot) ∈ pending.causes then
      (1, { pending with
        alive := pending.alive.erase node
        causes := pending.causes.erase (causeKey event, slot)
        events := Function.update pending.events slot
          { pending.events slot with seqNo := 0 } })
    else (-1, { pending with alive := pending.alive.erase node })

/-! ## Slots and trees -/

/-- The occupied slots are the nodes of both trees, under the keys of what they hold. -/
structure Pending.Coherent (pending : Pending) : Prop where
  keys : (pending.alive.map Prod.fst).Nodup
  alive : ∀ node ∈ pending.alive, node.2 < pending.size ∧
    (pending.events node.2).seqNo ≠ 0 ∧ node.1 = eventKey (pending.events node.2)
  occupied : ∀ i < pending.size, (pending.events i).seqNo ≠ 0 →
    (eventKey (pending.events i), i) ∈ pending.alive
  causes : pending.causes.Perm
    (pending.alive.map fun node => (causeKey (pending.events node.2), node.2))
  nextFree : pending.nextFree < pending.size

def Pending.waiting (pending : Pending) (key : Int) : Option Event :=
  (pending.alive.find? fun node => node.1 = key).map fun node => pending.events node.2

def Pending.inOrder (pending : Pending) : List Event :=
  pending.alive.map fun node => pending.events node.2

def Pending.Room (pending : Pending) : Prop :=
  ∃ i < pending.size, (pending.events i).seqNo = 0

theorem pendingCreate_coherent {size : Nat} (hsize : 0 < size) :
    (pendingCreate size).Coherent where
  keys := List.nodup_nil
  alive _ hnode := absurd hnode List.not_mem_nil
  occupied _ _ hne := absurd rfl hne
  causes := List.Perm.nil
  nextFree := hsize

theorem find?_key_eq_some {α : Type} {tree : RB α} (hkeys : (tree.map Prod.fst).Nodup)
    {key : Int} {node : Int × α} :
    (tree.find? fun n => n.1 = key) = some node ↔ node ∈ tree ∧ node.1 = key := by
  induction tree with
  | nil => simp
  | cons head rest ih =>
    rw [List.map_cons, List.nodup_cons] at hkeys
    by_cases hhead : head.1 = key
    · rw [List.find?_cons_of_pos (by simpa using hhead), Option.some.injEq]
      constructor
      · intro heq
        subst heq
        exact ⟨List.mem_cons_self, hhead⟩
      · intro ⟨hmem, hnode⟩
        rcases List.mem_cons.1 hmem with heq | hrest
        · exact heq.symm
        · have hin : head.1 ∈ rest.map Prod.fst :=
            List.mem_map.2 ⟨node, hrest, hnode.trans hhead.symm⟩
          exact absurd hin hkeys.1
    · rw [List.find?_cons_of_neg (by simpa using hhead), ih hkeys.2, List.mem_cons]
      constructor
      · intro ⟨hmem, hnode⟩
        exact ⟨.inr hmem, hnode⟩
      · intro ⟨hmem, hnode⟩
        refine ⟨hmem.resolve_left ?_, hnode⟩
        intro heq
        exact hhead (heq ▸ hnode)

section Coherent

variable {pending : Pending} {key : Int} {event : Event} {host seqNo slot : Nat}

theorem Pending.Coherent.waiting_eq_some (h : pending.Coherent) :
    pending.waiting key = some event ↔
      ∃ slot, (key, slot) ∈ pending.alive ∧ pending.events slot = event := by
  rw [Pending.waiting, Option.map_eq_some_iff]
  constructor
  · intro ⟨node, hfind, hevent⟩
    obtain ⟨hmem, rfl⟩ := (find?_key_eq_some h.keys).1 hfind
    exact ⟨node.2, hmem, hevent⟩
  · intro ⟨slot, hmem, hevent⟩
    exact ⟨(key, slot), (find?_key_eq_some h.keys).2 ⟨hmem, rfl⟩, hevent⟩

theorem waiting_eq_map (pending : Pending) (host seqNo : Nat) :
    pending.waiting (Word.toInt64 (eventIndex host seqNo)) =
      (pendingFindEvent pending host seqNo).map pending.events := by
  simp [Pending.waiting, pendingFindEvent, rbFindI64, Function.comp_def]

theorem waiting_of_mem (h : pending.Coherent) {node : Int × Nat} (hmem : node ∈ pending.alive) :
    pending.waiting node.1 = some (pending.events node.2) :=
  h.waiting_eq_some.2 ⟨node.2, hmem, rfl⟩

theorem findEvent_eq_some (h : pending.Coherent) :
    pendingFindEvent pending host seqNo = some slot ↔
      (Word.toInt64 (eventIndex host seqNo), slot) ∈ pending.alive := by
  rw [pendingFindEvent, Option.map_eq_some_iff]
  constructor
  · intro ⟨node, hfind, hslot⟩
    obtain ⟨hmem, hkey⟩ := (find?_key_eq_some h.keys).1 hfind
    rwa [← hkey, ← hslot]
  · intro hmem
    exact ⟨_, (find?_key_eq_some h.keys).2 ⟨hmem, rfl⟩, rfl⟩

theorem findCause_spec (h : pending.Coherent) {met : Nat}
    (hfind : pendingFindCause met pending host seqNo = some slot) :
    (eventKey (pending.events slot), slot) ∈ pending.alive ∧
      causeKey (pending.events slot) = Word.toInt64 (eventIndex host seqNo) := by
  obtain ⟨node, hget, rfl⟩ := Option.map_eq_some_iff.1 hfind
  obtain ⟨hmem, hkey⟩ := List.mem_filter.1 (List.mem_of_getElem? hget)
  obtain ⟨alive, halive, heq⟩ := List.mem_map.1 (h.causes.mem_iff.1 hmem)
  subst heq
  have hkey' : alive.1 = eventKey (pending.events alive.2) := (h.alive alive halive).2.2
  exact ⟨hkey' ▸ halive, by simpa using hkey⟩

end Coherent

/-! ## Adding -/

section Add

variable {pending : Pending} {event : Event} {slot : Nat} {node : Int × Nat}

theorem mem_put_alive : node ∈ (pending.put slot event).alive ↔
    node = (eventKey event, slot) ∨ node ∈ pending.alive :=
  List.mem_orderedInsert _

theorem put_events_of_ne {i : Nat} (hi : i ≠ slot) (event : Event) :
    (pending.put slot event).events i = pending.events i := by
  simp [Pending.put, hi]

theorem put_events_self (slot : Nat) (event : Event) :
    (pending.put slot event).events slot = event := by
  simp [Pending.put]

theorem Pending.Coherent.ne_of_free (h : pending.Coherent) (hmem : node ∈ pending.alive)
    (hfree : (pending.events slot).seqNo = 0) : node.2 ≠ slot := by
  intro heq
  exact (h.alive node hmem).2.1 (heq ▸ hfree)

theorem Pending.Coherent.notMem_keys (h : pending.Coherent)
    (hnew : pendingFindEvent pending event.host event.seqNo = none) :
    eventKey event ∉ pending.alive.map Prod.fst := by
  intro hmem
  obtain ⟨node, hnode, hkey⟩ := List.mem_map.1 hmem
  have hfound : pendingFindEvent pending event.host event.seqNo = some node.2 := by
    apply (findEvent_eq_some h).2
    show (eventKey event, node.2) ∈ _
    rw [← hkey]
    exact hnode
  rw [hnew] at hfound
  cases hfound

theorem Pending.Coherent.put_map_perm (h : pending.Coherent)
    (hfree : (pending.events slot).seqNo = 0) {α : Type} (f : Event → Nat → α) :
    ((pending.put slot event).alive.map fun node =>
        f ((pending.put slot event).events node.2) node.2).Perm
      (f event slot :: pending.alive.map fun node => f (pending.events node.2) node.2) := by
  have hsame : (pending.alive.map fun node =>
      f ((pending.put slot event).events node.2) node.2) =
      pending.alive.map fun node => f (pending.events node.2) node.2 := by
    apply List.map_congr_left
    intro node hnode
    rw [put_events_of_ne (h.ne_of_free hnode hfree)]
  have hnodes := (List.perm_orderedInsert (fun a b : Int × Nat => a.1 ≤ b.1)
    (eventKey event, slot) pending.alive).map fun node =>
      f ((pending.put slot event).events node.2) node.2
  rwa [List.map_cons, hsame, put_events_self] at hnodes

section

variable (h : pending.Coherent) (hslot : slot < pending.size)
  (hfree : (pending.events slot).seqNo = 0)
  (hnew : pendingFindEvent pending event.host event.seqNo = none) (hseq : event.seqNo ≠ 0)
include h hslot hfree hnew hseq

theorem Pending.Coherent.put :
    (pending.put slot event).Coherent where
  keys := by
    have hperm : ((pending.put slot event).alive.map Prod.fst).Perm
        (eventKey event :: pending.alive.map Prod.fst) :=
      (List.perm_orderedInsert _ _ _).map Prod.fst
    rw [hperm.nodup_iff, List.nodup_cons]
    exact ⟨h.notMem_keys hnew, h.keys⟩
  alive node hnode := by
    rcases mem_put_alive.1 hnode with rfl | hmem
    · rw [put_events_self]
      exact ⟨hslot, hseq, rfl⟩
    · rw [put_events_of_ne (h.ne_of_free hmem hfree)]
      exact h.alive node hmem
  occupied i hi hne := by
    rw [mem_put_alive]
    by_cases heq : i = slot
    · subst heq
      rw [put_events_self]
      exact .inl rfl
    · rw [put_events_of_ne heq] at hne ⊢
      exact .inr (h.occupied i hi hne)
  causes := ((List.perm_orderedInsert _ _ _).trans (h.causes.cons _)).trans
    (h.put_map_perm hfree fun event i => (causeKey event, i)).symm
  nextFree := hslot

theorem Pending.Coherent.waiting_put :
    (pending.put slot event).waiting =
      Function.update pending.waiting (eventKey event) (some event) := by
  have h' := h.put hslot hfree hnew hseq
  funext key
  ext found
  rw [h'.waiting_eq_some]
  by_cases hkey : key = eventKey event
  · subst hkey
    rw [Function.update_self]
    constructor
    · intro ⟨i, hmem, hfound⟩
      rcases mem_put_alive.1 hmem with heq | hold
      · cases heq
        rw [put_events_self] at hfound
        rw [hfound]
      · exact absurd (List.mem_map_of_mem hold) (h.notMem_keys hnew)
    · intro hfound
      cases hfound
      exact ⟨slot, mem_put_alive.2 (.inl rfl), put_events_self slot _⟩
  · rw [Function.update_of_ne hkey, h.waiting_eq_some]
    constructor
    · intro ⟨i, hmem, hfound⟩
      rcases mem_put_alive.1 hmem with heq | hold
      · cases heq
        exact absurd rfl hkey
      · rw [put_events_of_ne (h.ne_of_free hold hfree)] at hfound
        exact ⟨i, hold, hfound⟩
    · intro ⟨i, hold, hfound⟩
      refine ⟨i, mem_put_alive.2 (.inr hold), ?_⟩
      rw [put_events_of_ne (h.ne_of_free hold hfree), hfound]

end

theorem Pending.Coherent.inOrder_put (h : pending.Coherent)
    (hfree : (pending.events slot).seqNo = 0) :
    (pending.put slot event).inOrder.Perm (event :: pending.inOrder) :=
  h.put_map_perm hfree fun event _ => event

structure Pending.Adds (pending : Pending) (event : Event) (pending' : Pending) : Prop where
  coherent : pending'.Coherent
  fresh : pending.waiting (eventKey event) = none
  waiting : pending'.waiting = Function.update pending.waiting (eventKey event) (some event)
  inOrder : pending'.inOrder.Perm (event :: pending.inOrder)
  size : pending'.size = pending.size

theorem pendingAddEvent_spec (h : pending.Coherent) (hseq : event.seqNo ≠ 0) :
    (pendingAddEvent pending event = .ok (-1, pending) ∧
      (pending.waiting (eventKey event) ≠ none ∨ ¬ pending.Room)) ∨
      ∃ pending', pendingAddEvent pending event = .ok (1, pending') ∧
        pending.Adds event pending' := by
  have hbound := h.nextFree
  have hwait := waiting_eq_map pending event.host event.seqNo
  unfold pendingAddEvent
  cases hnew : pendingFindEvent pending event.host event.seqNo with
  | some i =>
    left
    refine ⟨rfl, .inl ?_⟩
    rw [eventKey, hwait, hnew]
    simp
  | none =>
    rw [if_neg (by omega)]
    cases hfirst : Probe.first pending.size pending.nextFree
        fun i => (pending.events i).seqNo = 0 with
    | none =>
      left
      refine ⟨rfl, .inr ?_⟩
      intro ⟨i, hi, hzero⟩
      have hno := Probe.first_eq_none hbound hfirst hi
      simp [hzero] at hno
    | some slot =>
      right
      obtain ⟨hslot, hstop⟩ := Probe.first_spec hbound hfirst
      have hfree : (pending.events slot).seqNo = 0 := by simpa using hstop
      refine ⟨_, rfl, h.put hslot hfree hnew hseq, ?_,
        h.waiting_put hslot hfree hnew hseq, h.inOrder_put hfree, rfl⟩
      rw [eventKey, hwait, hnew]
      rfl

end Add

/-! ## Removing -/

def Pending.drop (pending : Pending) (slot : Nat) : Pending :=
  { pending with
    alive := pending.alive.erase (eventKey (pending.events slot), slot)
    causes := pending.causes.erase (causeKey (pending.events slot), slot)
    events := Function.update pending.events slot { pending.events slot with seqNo := 0 } }

structure Pending.Removes (pending : Pending) (event : Event) (pending' : Pending) : Prop where
  coherent : pending'.Coherent
  held : pending.waiting (eventKey event) = some event
  waiting : pending'.waiting = Function.update pending.waiting (eventKey event) none
  inOrder : pending.inOrder.Perm (event :: pending'.inOrder)
  room : pending'.Room
  size : pending'.size = pending.size

section Remove

variable {pending : Pending} {slot : Nat}

theorem drop_events_of_ne {i : Nat} (hi : i ≠ slot) :
    (pending.drop slot).events i = pending.events i := by
  simp [Pending.drop, hi]

theorem drop_events_self (slot : Nat) : ((pending.drop slot).events slot).seqNo = 0 := by
  simp [Pending.drop]

theorem pendingRemoveEvent_of_mem (h : pending.Coherent)
    (hmem : (eventKey (pending.events slot), slot) ∈ pending.alive) :
    pendingRemoveEvent pending (pending.events slot) = (1, pending.drop slot) := by
  have hfind : rbFindI64 pending.alive
      (eventIndex (pending.events slot).host (pending.events slot).seqNo) =
      some (eventKey (pending.events slot), slot) :=
    (find?_key_eq_some h.keys).2 ⟨hmem, rfl⟩
  have hcause : (causeKey (pending.events slot), slot) ∈ pending.causes :=
    h.causes.mem_iff.2 (List.mem_map.2 ⟨_, hmem, rfl⟩)
  rw [pendingRemoveEvent, hfind]
  simp only [hcause, if_true]
  rfl

theorem Pending.Coherent.mem_drop_alive (h : pending.Coherent) {node : Int × Nat} :
    node ∈ (pending.drop slot).alive ↔ node ∈ pending.alive ∧ node.2 ≠ slot := by
  have hnodup : pending.alive.Nodup := List.Nodup.of_map Prod.fst h.keys
  show node ∈ pending.alive.erase (eventKey (pending.events slot), slot) ↔ _
  rw [hnodup.mem_erase_iff]
  constructor
  · intro ⟨hne, hmem⟩
    refine ⟨hmem, ?_⟩
    intro heq
    subst heq
    exact hne (Prod.ext (h.alive node hmem).2.2 rfl)
  · intro ⟨hmem, hne⟩
    refine ⟨?_, hmem⟩
    intro heq
    exact hne (congrArg Prod.snd heq)

theorem Pending.Coherent.perm_drop (h : pending.Coherent) {α : Type} (f : Event → Nat → α)
    (hmem : (eventKey (pending.events slot), slot) ∈ pending.alive) :
    (pending.alive.map fun node => f (pending.events node.2) node.2).Perm
      (f (pending.events slot) slot ::
        (pending.drop slot).alive.map fun node =>
          f ((pending.drop slot).events node.2) node.2) := by
  have hsame : ((pending.drop slot).alive.map fun node =>
      f ((pending.drop slot).events node.2) node.2) =
      (pending.drop slot).alive.map fun node => f (pending.events node.2) node.2 := by
    apply List.map_congr_left
    intro node hnode
    rw [drop_events_of_ne (h.mem_drop_alive.1 hnode).2]
  rw [hsame]
  exact (List.perm_cons_erase hmem).map fun node => f (pending.events node.2) node.2

section

variable (h : pending.Coherent) (hmem : (eventKey (pending.events slot), slot) ∈ pending.alive)
include h hmem

theorem Pending.Coherent.drop :
    (pending.drop slot).Coherent where
  keys := h.keys.sublist (List.erase_sublist.map Prod.fst)
  alive node hnode := by
    obtain ⟨hold, hne⟩ := h.mem_drop_alive.1 hnode
    rw [drop_events_of_ne hne]
    exact h.alive node hold
  occupied i hi hseq := by
    have hne : i ≠ slot := by
      intro heq
      rw [heq] at hseq
      exact hseq (drop_events_self slot)
    rw [drop_events_of_ne hne] at hseq ⊢
    exact h.mem_drop_alive.2 ⟨h.occupied i hi hseq, hne⟩
  causes := by
    have hperm := h.causes.trans (h.perm_drop (fun ev i => (causeKey ev, i)) hmem)
    have herase := hperm.erase (causeKey (pending.events slot), slot)
    rwa [List.erase_cons_head] at herase
  nextFree := h.nextFree

theorem Pending.Coherent.waiting_drop :
    (pending.drop slot).waiting =
      Function.update pending.waiting (eventKey (pending.events slot)) none := by
  have h' := h.drop hmem
  funext key
  ext found
  rw [h'.waiting_eq_some]
  by_cases hkey : key = eventKey (pending.events slot)
  · subst hkey
    rw [Function.update_self]
    constructor
    · intro ⟨i, hnode, _⟩
      -- the keys are distinct, so another node has another key
      obtain ⟨hold, hne⟩ := h.mem_drop_alive.1 hnode
      have hfind := (find?_key_eq_some h.keys).2 ⟨hold, rfl⟩
      have hfind' := (find?_key_eq_some h.keys).2 ⟨hmem, rfl⟩
      rw [hfind] at hfind'
      cases hfind'
      exact absurd rfl hne
    · intro hfound
      cases hfound
  · rw [Function.update_of_ne hkey, h.waiting_eq_some]
    constructor
    · intro ⟨i, hnode, hfound⟩
      obtain ⟨hold, hne⟩ := h.mem_drop_alive.1 hnode
      rw [drop_events_of_ne hne] at hfound
      exact ⟨i, hold, hfound⟩
    · intro ⟨i, hold, hfound⟩
      have hne : i ≠ slot := by
        intro heq
        subst heq
        exact hkey (h.alive _ hold).2.2
      exact ⟨i, h.mem_drop_alive.2 ⟨hold, hne⟩, by rw [drop_events_of_ne hne, hfound]⟩

theorem pendingRemoveEvent_spec :
    ∃ pending', pendingRemoveEvent pending (pending.events slot) = (1, pending') ∧
      pending.Removes (pending.events slot) pending' := by
  refine ⟨_, pendingRemoveEvent_of_mem h hmem, h.drop hmem, waiting_of_mem h hmem,
    h.waiting_drop hmem, h.perm_drop (fun ev _ => ev) hmem, ?_, rfl⟩
  exact ⟨slot, (h.alive _ hmem).1, drop_events_self slot⟩

end

end Remove

end Cspot.Merge
