import Cspot.Merge.Pending

/-!
# Calls on the pending list

Any row of calls on the pending list.  Slots and trees stay together as long as the calls name
events that the keys tell apart, and one cause for each event: a key has room for the lower
half of a host id only, and an event leaves the first tree before its cause has been looked for
in the second.
-/

namespace Cspot.Merge

/-! ## Keys -/

variable {seqNo : Nat}

theorem eventIndex_eq (hseq : seqNo < 2 ^ 32) (host : Nat) :
    eventIndex host seqNo = host % 2 ^ 32 * 2 ^ 32 + seqNo := by
  unfold eventIndex Word.modulus
  omega

theorem eventIndex_lt (host seqNo : Nat) : eventIndex host seqNo < Word.modulus :=
  Nat.mod_lt _ (by decide)

theorem indexKey_eq_iff {host host' seqNo' : Nat} (hseq : seqNo < 2 ^ 32)
    (hseq' : seqNo' < 2 ^ 32) :
    Word.toInt64 (eventIndex host seqNo) = Word.toInt64 (eventIndex host' seqNo') ↔
      host % 2 ^ 32 = host' % 2 ^ 32 ∧ seqNo = seqNo' := by
  rw [Word.toInt64_eq_iff (eventIndex_lt host seqNo) (eventIndex_lt host' seqNo'),
    eventIndex_eq hseq, eventIndex_eq hseq']
  omega

/-! ## Calls -/

inductive PendingCall where
  | add (event : Event)
  | remove (event : Event)

def PendingCall.event : PendingCall → Event
  | .add event => event
  | .remove event => event

def Pending.call (pending : Pending) : PendingCall → Exec Pending
  | .add event => do
      let (_, pending) ← pendingAddEvent pending event
      return pending
  | .remove event => .ok (pendingRemoveEvent pending event).2

def Pending.callAll (pending : Pending) : List PendingCall → Exec Pending
  | [] => .ok pending
  | call :: calls => do
      let pending ← pending.call call
      pending.callAll calls

def Pending.occupiedSlots (pending : Pending) : List Nat :=
  (List.range pending.size).filter fun i => (pending.events i).seqNo ≠ 0

/-- Every occupied slot has one node in each tree, and no tree has another node. -/
structure Pending.Matched (pending : Pending) : Prop where
  alive : pending.alive.Perm
    (pending.occupiedSlots.map fun i => (eventKey (pending.events i), i))
  causes : pending.causes.Perm
    (pending.occupiedSlots.map fun i => (causeKey (pending.events i), i))

/-- A search for this host and number ends at an event that is asked for, if there is one. -/
structure Pending.ExactAt (pending : Pending) (host seqNo : Nat) : Prop where
  event_found : ∀ slot, pendingFindEvent pending host seqNo = some slot →
    slot ∈ pending.occupiedSlots ∧
      (pending.events slot).host = host ∧ (pending.events slot).seqNo = seqNo
  finds_event : ∀ slot ∈ pending.occupiedSlots, (pending.events slot).host = host →
    (pending.events slot).seqNo = seqNo → (pendingFindEvent pending host seqNo).isSome
  cause_found : ∀ met slot, pendingFindCause met pending host seqNo = some slot →
    slot ∈ pending.occupiedSlots ∧
      (pending.events slot).causeHost = host ∧ (pending.events slot).causeSeqNo = seqNo
  finds_cause : ∀ met, ∀ slot ∈ pending.occupiedSlots, (pending.events slot).causeHost = host →
    (pending.events slot).causeSeqNo = seqNo →
    (pendingFindCause met pending host seqNo).isSome

/-- Sequence numbers start at one and fit into half a key. -/
structure InRange (event : Event) : Prop where
  pos : 0 < event.seqNo
  seqNo : event.seqNo < 2 ^ 32
  causeSeqNo : event.causeSeqNo < 2 ^ 32

def occurring (events : Set Event) : Set (Nat × Nat) :=
  {pair | ∃ event ∈ events,
    pair = (event.host, event.seqNo) ∨ pair = (event.causeHost, event.causeSeqNo)}

/-- The lower halves of the host ids tell the events and their causes apart, from one another and
from what else is searched for, and each event has one cause. -/
structure Distinguished (events : Set Event) (searched : Set (Nat × Nat)) : Prop where
  hosts : ∀ pair ∈ occurring events, ∀ pair' ∈ occurring events ∪ searched,
    pair.1 % 2 ^ 32 = pair'.1 % 2 ^ 32 → pair.2 = pair'.2 → pair = pair'
  causes : ∀ event ∈ events, ∀ event' ∈ events, event.host = event'.host →
    event.seqNo = event'.seqNo →
    event.causeHost = event'.causeHost ∧ event.causeSeqNo = event'.causeSeqNo

/-! ## Coherence and searches -/

section Coherent

variable {pending : Pending} {slot : Nat}

theorem mem_occupiedSlots : slot ∈ pending.occupiedSlots ↔
    slot < pending.size ∧ (pending.events slot).seqNo ≠ 0 := by
  simp [Pending.occupiedSlots]

theorem Pending.Coherent.occupied_of_mem (h : pending.Coherent) {node : Int × Nat}
    (hmem : node ∈ pending.alive) : node.2 ∈ pending.occupiedSlots :=
  mem_occupiedSlots.2 ⟨(h.alive node hmem).1, (h.alive node hmem).2.1⟩

theorem Pending.Coherent.mem_of_occupied (h : pending.Coherent)
    (hslot : slot ∈ pending.occupiedSlots) :
    (eventKey (pending.events slot), slot) ∈ pending.alive :=
  h.occupied slot (mem_occupiedSlots.1 hslot).1 (mem_occupiedSlots.1 hslot).2

theorem Pending.Coherent.matched (h : pending.Coherent) : pending.Matched := by
  have halive : pending.alive.Perm
      (pending.occupiedSlots.map fun i => (eventKey (pending.events i), i)) := by
    have hslots : pending.occupiedSlots.Nodup := List.nodup_range.filter _
    have hnodes := hslots.map (f := fun i => (eventKey (pending.events i), i))
      fun i j heq => congrArg Prod.snd heq
    apply (List.perm_ext_iff_of_nodup (List.Nodup.of_map Prod.fst h.keys) hnodes).2
    intro node
    rw [List.mem_map]
    constructor
    · intro hmem
      exact ⟨node.2, h.occupied_of_mem hmem, Prod.ext (h.alive node hmem).2.2.symm rfl⟩
    · intro ⟨slot, hslot, heq⟩
      subst heq
      exact h.mem_of_occupied hslot
  refine ⟨halive, h.causes.trans ?_⟩
  have hmap := halive.map fun node => (causeKey (pending.events node.2), node.2)
  rwa [List.map_map] at hmap

theorem Pending.Coherent.findCause_isSome (h : pending.Coherent) {host : Nat}
    (hslot : slot ∈ pending.occupiedSlots)
    (hkey : causeKey (pending.events slot) = Word.toInt64 (eventIndex host seqNo)) (met : Nat) :
    (pendingFindCause met pending host seqNo).isSome := by
  have hnode : (causeKey (pending.events slot), slot) ∈ pending.causes :=
    h.causes.mem_iff.2 (List.mem_map.2 ⟨_, h.mem_of_occupied hslot, rfl⟩)
  have hmem : (causeKey (pending.events slot), slot) ∈
      pending.causes.filter fun node => node.1 = Word.toInt64 (eventIndex host seqNo) :=
    List.mem_filter.2 ⟨hnode, by simpa using hkey⟩
  have hlt := Nat.mod_lt met (List.length_pos_of_mem hmem)
  rw [pendingFindCause, Option.isSome_map, List.getElem?_eq_getElem hlt]
  rfl

end Coherent

/-! ## Runs -/

/-- What holds after every row of calls with events of the set. -/
structure Pending.Holds (pending : Pending) (events : Set Event) : Prop where
  coherent : pending.Coherent
  held : ∀ key event, pending.waiting key = some event → event ∈ events

section Runs

variable {events : Set Event} {searched : Set (Nat × Nat)} {pending : Pending} {event : Event}
  {pair : Nat × Nat}

theorem pendingCreate_holds {size : Nat} (hsize : 0 < size) (events : Set Event) :
    (pendingCreate size).Holds events where
  coherent := pendingCreate_coherent hsize
  held key event hwait := by simp [Pending.waiting, pendingCreate] at hwait

theorem event_mem_occurring (hevent : event ∈ events) :
    (event.host, event.seqNo) ∈ occurring events := ⟨event, hevent, .inl rfl⟩

theorem cause_mem_occurring (hevent : event ∈ events) :
    (event.causeHost, event.causeSeqNo) ∈ occurring events := ⟨event, hevent, .inr rfl⟩

theorem seqNo_lt_of_searched (hrange : ∀ event ∈ events, InRange event)
    (hsearched : ∀ pair ∈ searched, pair.2 < 2 ^ 32)
    (hpair : pair ∈ occurring events ∪ searched) : pair.2 < 2 ^ 32 := by
  obtain ⟨event, hevent, rfl | rfl⟩ | hpair := hpair
  · exact (hrange event hevent).seqNo
  · exact (hrange event hevent).causeSeqNo
  · exact hsearched pair hpair

theorem Distinguished.key_inj (h : Distinguished events searched)
    (hrange : ∀ event ∈ events, InRange event) (hsearched : ∀ pair ∈ searched, pair.2 < 2 ^ 32)
    {pair' : Nat × Nat} (hpair : pair ∈ occurring events)
    (hpair' : pair' ∈ occurring events ∪ searched)
    (hkey : Word.toInt64 (eventIndex pair.1 pair.2) =
      Word.toInt64 (eventIndex pair'.1 pair'.2)) : pair = pair' := by
  obtain ⟨hhost, hseq⟩ := (indexKey_eq_iff (seqNo_lt_of_searched hrange hsearched (.inl hpair))
    (seqNo_lt_of_searched hrange hsearched hpair')).1 hkey
  exact h.hosts pair hpair pair' hpair' hhost hseq

theorem Pending.Holds.mem_of_occupied (h : pending.Holds events) {slot : Nat}
    (hslot : slot ∈ pending.occupiedSlots) : pending.events slot ∈ events :=
  h.held _ _ (waiting_of_mem h.coherent (h.coherent.mem_of_occupied hslot))

theorem Pending.Holds.add (h : pending.Holds events) (hevent : event ∈ events)
    (hrange : InRange event) :
    ∃ pending', pending.call (.add event) = .ok pending' ∧ pending'.Holds events := by
  rcases pendingAddEvent_spec h.coherent (Nat.ne_of_gt hrange.pos) with
    ⟨hrefused, -⟩ | ⟨pending', hadd, hadds⟩
  · exact ⟨pending, by rw [Pending.call, hrefused]; rfl, h⟩
  · refine ⟨pending', by rw [Pending.call, hadd]; rfl, hadds.coherent, ?_⟩
    intro key found hwait
    rw [hadds.waiting] at hwait
    by_cases hkey : key = eventKey event
    · subst hkey
      rw [Function.update_self, Option.some.injEq] at hwait
      exact hwait ▸ hevent
    · rw [Function.update_of_ne hkey] at hwait
      exact h.held key found hwait

theorem pendingRemoveEvent_congr {event' : Event} (hevent : eventKey event = eventKey event')
    (hcause : causeKey event = causeKey event') (pending : Pending) :
    pendingRemoveEvent pending event = pendingRemoveEvent pending event' := by
  unfold eventKey at hevent
  simp [pendingRemoveEvent, rbFindI64, hevent, hcause]

section

variable (h : pending.Holds events) (hdist : Distinguished events searched)
  (hrange : ∀ event ∈ events, InRange event) (hsearched : ∀ pair ∈ searched, pair.2 < 2 ^ 32)
include h hdist hrange hsearched

theorem Pending.Holds.remove (hevent : event ∈ events) :
    ∃ pending', pending.call (.remove event) = .ok pending' ∧ pending'.Holds events := by
  refine ⟨_, rfl, ?_⟩
  cases hfind : rbFindI64 pending.alive (eventIndex event.host event.seqNo) with
  | none =>
    have hsame : pendingRemoveEvent pending event = (-1, pending) := by
      rw [pendingRemoveEvent, hfind]
    rw [hsame]
    exact h
  | some node =>
    obtain ⟨hmem, hkey⟩ := (find?_key_eq_some h.coherent.keys).1 hfind
    have hown : node.1 = eventKey (pending.events node.2) := (h.coherent.alive node hmem).2.2
    have hheld := h.mem_of_occupied (h.coherent.occupied_of_mem hmem)
    -- the key belongs to one event, and that has one cause
    have hpair := hdist.key_inj hrange hsearched (event_mem_occurring hevent)
      (.inl (event_mem_occurring hheld)) (hkey.symm.trans hown)
    obtain ⟨hcauseHost, hcauseSeqNo⟩ := hdist.causes event hevent _ hheld
      (congrArg Prod.fst hpair) (congrArg Prod.snd hpair)
    have hcause : causeKey event = causeKey (pending.events node.2) := by
      rw [causeKey, causeKey, hcauseHost, hcauseSeqNo]
    have halive : (eventKey (pending.events node.2), node.2) ∈ pending.alive := hown ▸ hmem
    obtain ⟨pending', hremove, hremoves⟩ := pendingRemoveEvent_spec h.coherent halive
    rw [pendingRemoveEvent_congr (hkey.symm.trans hown) hcause, hremove]
    refine ⟨hremoves.coherent, ?_⟩
    intro key found hwait
    rw [hremoves.waiting] at hwait
    by_cases hsame : key = eventKey (pending.events node.2)
    · subst hsame
      rw [Function.update_self] at hwait
      cases hwait
    · rw [Function.update_of_ne hsame] at hwait
      exact h.held key found hwait

theorem Pending.Holds.callAll {calls : List PendingCall}
    (hcalls : ∀ call ∈ calls, call.event ∈ events) :
    ∃ pending', pending.callAll calls = .ok pending' ∧ pending'.Holds events := by
  induction calls generalizing pending with
  | nil => exact ⟨pending, rfl, h⟩
  | cons call calls ih =>
    have hevent := hcalls call List.mem_cons_self
    have hstep : ∃ pending', pending.call call = .ok pending' ∧ pending'.Holds events := by
      cases call with
      | add event => exact h.add hevent (hrange event hevent)
      | remove event => exact h.remove hdist hrange hsearched hevent
    obtain ⟨pending', hcall, h'⟩ := hstep
    obtain ⟨pending'', hall, h''⟩ := ih h' fun call hmem =>
      hcalls call (List.mem_cons_of_mem _ hmem)
    exact ⟨pending'', by rw [Pending.callAll, hcall, Exec.ok_bind, hall], h''⟩

theorem Pending.Holds.exactAt (hpair : pair ∈ occurring events ∪ searched) :
    pending.ExactAt pair.1 pair.2 where
  event_found slot hfind := by
    have hnode := (findEvent_eq_some h.coherent).1 hfind
    have hslot := h.coherent.occupied_of_mem hnode
    have heq := hdist.key_inj hrange hsearched (event_mem_occurring (h.mem_of_occupied hslot))
      hpair (h.coherent.alive _ hnode).2.2.symm
    exact ⟨hslot, congrArg Prod.fst heq, congrArg Prod.snd heq⟩
  finds_event slot hslot hhost hseq := by
    have hfind : pendingFindEvent pending pair.1 pair.2 = some slot := by
      rw [findEvent_eq_some h.coherent, ← hhost, ← hseq]
      exact h.coherent.mem_of_occupied hslot
    rw [hfind]
    rfl
  cause_found met slot hfind := by
    obtain ⟨hnode, hkey⟩ := findCause_spec h.coherent hfind
    have hslot := h.coherent.occupied_of_mem hnode
    have heq := hdist.key_inj hrange hsearched (cause_mem_occurring (h.mem_of_occupied hslot))
      hpair hkey
    exact ⟨hslot, congrArg Prod.fst heq, congrArg Prod.snd heq⟩
  finds_cause met slot hslot hhost hseq := by
    apply h.coherent.findCause_isSome hslot
    rw [causeKey, hhost, hseq]

end

end Runs

/-! ## Calls that go wrong -/

section Wrong

variable {event event' : Event} {host : Nat}

def oneWaiting (event : Event) : Pending := (pendingCreate 1).put 0 event

theorem callAll_add_one (event : Event) :
    (pendingCreate 1).callAll [.add event] = .ok (oneWaiting event) := rfl

theorem callAll_add_remove (event event' : Event) :
    (pendingCreate 1).callAll [.add event, .remove event'] =
      .ok (pendingRemoveEvent (oneWaiting event) event').2 := rfl

theorem oneWaiting_events (event : Event) : (oneWaiting event).events 0 = event :=
  put_events_self 0 event

theorem ExactAt.eq_event (h : (oneWaiting event).ExactAt host seqNo)
    (hkey : eventKey event = Word.toInt64 (eventIndex host seqNo)) :
    event.host = host ∧ event.seqNo = seqNo := by
  have hfind : pendingFindEvent (oneWaiting event) host seqNo = some 0 := by
    have halive : (oneWaiting event).alive = [(eventKey event, 0)] := rfl
    rw [pendingFindEvent, rbFindI64, halive, List.find?_cons_of_pos (by simpa using hkey)]
    rfl
  have hfound := (h.event_found 0 hfind).2
  rwa [oneWaiting_events] at hfound

theorem ExactAt.eq_cause (h : (oneWaiting event).ExactAt host seqNo)
    (hkey : causeKey event = Word.toInt64 (eventIndex host seqNo)) :
    event.causeHost = host ∧ event.causeSeqNo = seqNo := by
  have hfind : pendingFindCause 0 (oneWaiting event) host seqNo = some 0 := by
    have hcauses : (oneWaiting event).causes = [(causeKey event, 0)] := rfl
    simp [pendingFindCause, hcauses, hkey]
  have hfound := (h.cause_found 0 0 hfind).2
  rwa [oneWaiting_events] at hfound

theorem not_matched_of_cause (hpos : event.seqNo ≠ 0) (hevent : eventKey event' = eventKey event)
    (hcause : causeKey event' ≠ causeKey event) :
    ¬ (pendingRemoveEvent (oneWaiting event) event').2.Matched := by
  have halive : (oneWaiting event).alive = [(eventKey event, 0)] := rfl
  have hcauses : (oneWaiting event).causes = [(causeKey event, 0)] := rfl
  have hfind : rbFindI64 (oneWaiting event).alive (eventIndex event'.host event'.seqNo) =
      some (eventKey event, 0) := by
    exact List.find?_cons_of_pos (decide_eq_true hevent.symm)
  have hremove : (pendingRemoveEvent (oneWaiting event) event').2 =
      { oneWaiting event with alive := [] } := by
    rw [pendingRemoveEvent, hfind]
    simp [hcauses, hcause, halive]
  rw [hremove]
  intro hmatched
  have hoccupied : 0 ∈ (Pending.occupiedSlots { oneWaiting event with alive := [] }) := by
    apply mem_occupiedSlots.2
    refine ⟨Nat.one_pos, ?_⟩
    rwa [oneWaiting_events]
  have hnode := hmatched.alive.mem_iff.2 (List.mem_map_of_mem hoccupied)
  exact absurd hnode List.not_mem_nil

end Wrong

/-! ## When every row of calls keeps the list coherent -/

/-- What every row of calls with events of the set is to leave behind.  One may search for the
events, for their causes and for any other pair in `searched`. -/
def KeepsCoherent (events : Set Event) (searched : Set (Nat × Nat)) : Prop :=
  ∀ size > 0, ∀ calls : List PendingCall, (∀ call ∈ calls, call.event ∈ events) →
    ∃ pending, (pendingCreate size).callAll calls = .ok pending ∧ pending.Matched ∧
      ∀ pair ∈ occurring events ∪ searched, pending.ExactAt pair.1 pair.2

section Iff

variable {events : Set Event} {searched : Set (Nat × Nat)}

theorem KeepsCoherent.exactAt (h : KeepsCoherent events searched) {event : Event}
    (hevent : event ∈ events) {pair : Nat × Nat} (hpair : pair ∈ occurring events ∪ searched) :
    (oneWaiting event).ExactAt pair.1 pair.2 := by
  obtain ⟨pending, hall, -, hexact⟩ := h 1 Nat.one_pos [.add event] (by simpa [PendingCall.event])
  rw [callAll_add_one] at hall
  cases hall
  exact hexact pair hpair

theorem KeepsCoherent.distinguished (h : KeepsCoherent events searched)
    (hrange : ∀ event ∈ events, InRange event) (hsearched : ∀ pair ∈ searched, pair.2 < 2 ^ 32) :
    Distinguished events searched := by
  have hhosts : ∀ pair ∈ occurring events, ∀ pair' ∈ occurring events ∪ searched,
      pair.1 % 2 ^ 32 = pair'.1 % 2 ^ 32 → pair.2 = pair'.2 → pair = pair' := by
    intro pair hpair pair' hpair' hhost hseq
    have hkey := (indexKey_eq_iff (seqNo_lt_of_searched hrange hsearched (.inl hpair))
      (seqNo_lt_of_searched hrange hsearched hpair')).2 ⟨hhost, hseq⟩
    obtain ⟨event, hevent, rfl | rfl⟩ := hpair
    · obtain ⟨heq, heq'⟩ := ExactAt.eq_event (h.exactAt hevent hpair') hkey
      exact Prod.ext heq heq'
    · obtain ⟨heq, heq'⟩ := ExactAt.eq_cause (h.exactAt hevent hpair') hkey
      exact Prod.ext heq heq'
  refine ⟨hhosts, ?_⟩
  intro event hevent event' hevent' hhost hseq
  by_cases hcause : causeKey event' = causeKey event
  · obtain ⟨hlow, hseqNo⟩ := (indexKey_eq_iff (hrange event' hevent').causeSeqNo
      (hrange event hevent).causeSeqNo).1 hcause
    have heq := hhosts _ (cause_mem_occurring hevent') _ (.inl (cause_mem_occurring hevent))
      hlow hseqNo
    exact ⟨congrArg Prod.fst heq.symm, congrArg Prod.snd heq.symm⟩
  · obtain ⟨pending, hall, hmatched, -⟩ := h 1 Nat.one_pos [.add event, .remove event']
      (by simp [PendingCall.event, hevent, hevent'])
    rw [callAll_add_remove] at hall
    cases hall
    have hkey : eventKey event' = eventKey event := by rw [eventKey, eventKey, hhost, hseq]
    exact absurd hmatched
      (not_matched_of_cause (Nat.ne_of_gt (hrange event hevent).pos) hkey hcause)

/-- Every row of calls with events of the set keeps slots and trees together, and every search
exact, if and only if the lower halves of the host ids distinguish the events from one another
and from what is searched for, and no event is named with two causes. -/
theorem keepsCoherent_iff (hrange : ∀ event ∈ events, InRange event)
    (hsearched : ∀ pair ∈ searched, pair.2 < 2 ^ 32) :
    KeepsCoherent events searched ↔ Distinguished events searched := by
  constructor
  · intro h
    exact h.distinguished hrange hsearched
  · intro hdist size hsize calls hcalls
    obtain ⟨pending, hall, h⟩ := (pendingCreate_holds hsize events).callAll hdist hrange hsearched
      hcalls
    exact ⟨pending, hall, h.coherent.matched,
      fun pair hpair => h.exactAt hdist hrange hsearched hpair⟩

end Iff

def eventOf (host seqNo causeHost causeSeqNo : Nat) : Event :=
  { eventCreate .append host with
    seqNo := seqNo, causeHost := causeHost, causeSeqNo := causeSeqNo }

theorem keepsCoherent_two_events :
    KeepsCoherent {eventOf 1 1 2 4, eventOf 3 1 2 4} {(5, 1)} := by
  apply (keepsCoherent_iff ?_ ?_).2
  · refine ⟨?_, ?_⟩
    · rintro _ ⟨event, rfl | rfl, rfl | rfl⟩ _ (⟨event', rfl | rfl, rfl | rfl⟩ | rfl) <;>
        simp [eventOf, eventCreate]
    · rintro event (rfl | rfl) event' (rfl | rfl) <;> simp [eventOf, eventCreate]
  · rintro event (rfl | rfl) <;> exact ⟨by decide, by decide, by decide⟩
  · rintro pair rfl
    decide

/-- Two hosts with one lower half: after the event of the one has been added, that of the other
is found, and it cannot be added. -/
theorem upper_half_lost :
    ¬ KeepsCoherent {eventOf 1 1 5 1} {(2 ^ 32 + 1, 1)} ∧
      (pendingFindEvent (oneWaiting (eventOf 1 1 5 1)) (2 ^ 32 + 1) 1 = some 0) ∧
      (pendingAddEvent (oneWaiting (eventOf 1 1 5 1)) (eventOf (2 ^ 32 + 1) 1 5 1)).map
        Prod.fst = .ok (-1) := by
  refine ⟨?_, by decide, by decide⟩
  intro h
  have hdist := h.distinguished (by rintro event rfl; exact ⟨by decide, by decide, by decide⟩)
    (by rintro pair rfl; decide)
  have heq := hdist.hosts (1, 1) ⟨_, rfl, .inl rfl⟩ (2 ^ 32 + 1, 1) (.inr rfl) (by decide) rfl
  exact absurd (congrArg Prod.fst heq) (by decide)

end Cspot.Merge
