import Cspot.Merge.GLog

/-!
# What a call can do to a global log

Every part of `GLogEvent` is one of five moves: a host is met as the host of a cause, the
first event of a host is admitted, an event is put on the pending list, an event is
committed to the log, or a pending event is released to it.  Each move keeps the tables of
the global log coherent.
-/

namespace Cspot.Merge

/-! ## The parts of a move -/

/-- One more event in the ring.  When the ring is not full afterwards nothing was lost. -/
structure Appends (log : Log) (event : Event) (log' : Log) : Prop where
  bounded : log'.Bounded
  live : logFull log' = .ok false →
    logFull log = .ok false ∧ log'.live = log.live ++ [event]

structure NewHost (hl : HostList) (hostId maxSeen : Nat) (hl' : HostList) : Prop where
  hashed : hl'.Hashed
  ne_zero : hostId ≠ 0
  new : hl.host hostId = none
  host : ∃ slot, (hl.hash slot).hostId = 0 ∧
    hl'.host hostId = some ⟨hostId, maxSeen, (hl.hash slot).eventHorizon⟩
  others : ∀ id, id ≠ 0 → id ≠ hostId → hl'.host id = hl.host id
  blank : hl.Blank → hl'.Blank

/-- What has been seen of a host is raised to a sequence number. -/
structure Raises (hl : HostList) (hostId seqNo : Nat) (hl' : HostList) : Prop where
  hashed : hl'.Hashed
  find : ∀ id, hostListFind hl' id = hostListFind hl id
  host : ∃ record, hl.host hostId = some record ∧ hl'.host =
    Function.update hl.host hostId (some { record with maxSeen := max record.maxSeen seqNo })
  blank : hostId ≠ 0 → hl.Blank → hl'.Blank

theorem exists_appends {log : Log} (h : log.Bounded) (event : Event) :
    ∃ log', logAdd log event = .ok log' ∧ Appends log event log' := by
  obtain ⟨log', hadd, hbounded, hlive⟩ := h.logAdd_spec event
  exact ⟨log', hadd, hbounded, hlive⟩

section Hosts

variable {hl hl' : HostList} {hostId seqNo slot : Nat} {id : Nat}

theorem HostList.Hashed.ne_zero_of_find (h : hl.Hashed) (hnone : hostListFind hl hostId = none) :
    hostId ≠ 0 := by
  rintro rfl
  have hsome := h.find_zero
  rw [hnone] at hsome
  cases hsome

theorem HostList.Hashed.newHost (hh : hl.Hashed) (hnone : hostListFind hl hostId = none)
    (hhome : hl.Home hostId slot) (hroom : hl.count + 1 < hashCount) (maxSeen : Nat) :
    NewHost hl hostId maxSeen ((hl.put slot hostId).setMaxSeen slot maxSeen) := by
  have hid := hh.ne_zero_of_find hnone
  have hfind := hhome.find_put
  have hhost := host_setMaxSeen hfind maxSeen
  refine ⟨(hh.put hhome hid hroom).setMaxSeen slot maxSeen, hid, ?_, ⟨slot, hhome.free, ?_⟩,
    ?_, ?_⟩
  · rw [HostList.host, hnone, Option.map_none]
  · rw [hhost, Function.update_self, put_hash_self]
  · intro id hzero hne
    rw [hhost, Function.update_of_ne hne, hh.host_put_of_ne hhome hzero hne]
  · intro hblank
    have hput : (hl.put slot hostId).Blank := hblank.update rfl hid
    refine hput.update rfl ?_
    rw [put_hash_self]
    exact hid

theorem hostListAdd_cases (hh : hl.Hashed) (hnone : hostListFind hl hostId = none) :
    (hashCount ≤ hl.count + 1 ∧ hostListAdd hl hostId = .ok (-1, hl)) ∨
      ∃ slot hl', hostListAdd hl hostId = .ok (1, hl') ∧ hostListFind hl' hostId = some slot ∧
        ∀ maxSeen, NewHost hl hostId maxSeen (hl'.setMaxSeen slot maxSeen) := by
  obtain ⟨slot, hhome⟩ := hh.exists_home hnone
  rw [hostListAdd_of_home hhome]
  by_cases hfull : hashCount ≤ hl.count + 1
  · left
    rw [if_pos hfull]
    exact ⟨hfull, rfl⟩
  · right
    rw [if_neg hfull]
    exact ⟨slot, _, rfl, hhome.find_put, hh.newHost hnone hhome (by omega)⟩

theorem NewHost.isSome (h : NewHost hl hostId seqNo hl') (hsome : (hl.host id).isSome) :
    (hl'.host id).isSome := by
  by_cases hzero : id = 0
  · rw [hzero, host_isSome]
    exact h.hashed.find_zero
  · by_cases hne : id = hostId
    · obtain ⟨_, -, hhost⟩ := h.host
      rw [hne, hhost]
      rfl
    · rw [h.others id hzero hne]
      exact hsome

theorem Raises.isSome (h : Raises hl hostId seqNo hl') :
    (hl'.host id).isSome = (hl.host id).isSome := by
  rw [host_isSome, host_isSome, h.find]

theorem HostList.Hashed.raises (hh : hl.Hashed) (hfind : hostListFind hl hostId = some slot)
    (seqNo : Nat) :
    Raises hl hostId seqNo (if (hl.hash slot).maxSeen < seqNo then hl.setMaxSeen slot seqNo
      else hl) := by
  have hhost := host_of_find hfind
  split
  · rename_i hlt
    refine ⟨hh.setMaxSeen slot seqNo, hostListFind_setMaxSeen slot seqNo,
      ⟨hl.hash slot, hhost, ?_⟩, ?_⟩
    · rw [host_setMaxSeen hfind, Nat.max_eq_right (Nat.le_of_lt hlt)]
    · intro hne hblank
      apply hblank.update rfl
      exact (hostListFind_spec hfind).2 ▸ hne
  · rename_i hge
    refine ⟨hh, fun _ => rfl, ⟨hl.hash slot, hhost, ?_⟩, fun _ hblank => hblank⟩
    rw [Nat.max_eq_left (Nat.le_of_not_lt hge), ← hhost, Function.update_eq_self]

end Hosts

/-! ## The moves -/

/-- The tables fit together, and the hosts that pending events name are known. -/
structure GLog.Coherent (gl : GLog) : Prop where
  log : gl.log.Bounded
  hosts : gl.hostList.Hashed
  pending : gl.pending.Coherent
  known : ∀ key ev, gl.pending.waiting key = some ev →
    (gl.hostList.host ev.host).isSome ∧ (gl.hostList.host ev.causeHost).isSome

theorem GLog.Coherent.known_of_mem {gl : GLog} (h : gl.Coherent) {ev : Event}
    (hev : ev ∈ gl.pending.inOrder) : (gl.hostList.host ev.host).isSome := by
  obtain ⟨node, hmem, rfl⟩ := List.mem_map.1 hev
  exact (h.known _ _ (waiting_of_mem h.pending hmem)).1

theorem gLogCreate_coherent {size : Nat} (hsize : 0 < size) (hlt : size < Word.modulus) :
    (gLogCreate size).Coherent where
  log := logCreate_bounded 0 hsize hlt
  hosts := hostListCreate_hashed
  pending := pendingCreate_coherent (by omega)
  known _ _ hwait := by cases hwait

/-- The host of the cause is met; a first event stands in the log for the cause. -/
structure Meets (gl : GLog) (event : Event) (gl' : GLog) : Prop where
  coherent : gl'.Coherent
  hosts : NewHost gl.hostList event.causeHost event.causeSeqNo gl'.hostList
  log : Appends gl.log (firstEvent event.causeHost event.causeSeqNo) gl'.log
  pending : gl'.pending = gl.pending

/-- The first event of a host is logged, whatever its cause is. -/
structure Admits (gl : GLog) (event : Event) (gl' : GLog) : Prop where
  coherent : gl'.Coherent
  hosts : NewHost gl.hostList event.host event.seqNo gl'.hostList
  log : Appends gl.log event gl'.log
  pending : gl'.pending = gl.pending

def GLog.Unseen (gl : GLog) (event : Event) : Prop :=
  ∃ record, gl.hostList.host event.host = some record ∧ record.maxSeen < event.seqNo

/-- The cause is pending, or above what has been seen of its host and its horizon. -/
def GLog.Delayed (gl : GLog) (event : Event) : Prop :=
  isAnchor event = false ∧ (gl.pending.waiting (causeKey event) ≠ none ∨
    ∃ record, gl.hostList.host event.causeHost = some record ∧
      record.maxSeen < event.causeSeqNo ∧ record.eventHorizon < event.causeSeqNo)

structure Waits (gl : GLog) (event : Event) (gl' : GLog) : Prop where
  coherent : gl'.Coherent
  unseen : gl.Unseen event
  delayed : gl.Delayed event
  hosts : gl'.hostList = gl.hostList
  log : gl'.log = gl.log
  pending : gl.pending.Adds event gl'.pending

/-- The event has been checked and goes into the log; an anchor takes what is pending under
its key off the list. -/
structure Commits (gl : GLog) (event : Event) (gl' : GLog) : Prop where
  coherent : gl'.Coherent
  unseen : gl.Unseen event
  hosts : Raises gl.hostList event.host event.seqNo gl'.hostList
  log : Appends gl.log event gl'.log
  checked : isAnchor event = true ∨ (gl.pending.waiting (causeKey event) = none ∧
    ∃ record, gl.hostList.host event.causeHost = some record ∧
      (event.causeSeqNo ≤ record.maxSeen ∨ event.causeSeqNo ≤ record.eventHorizon))
  waiting : gl'.pending.waiting =
    if isAnchor event then Function.update gl.pending.waiting (eventKey event) none
    else gl.pending.waiting
  inOrder : gl'.pending.inOrder.Subperm gl.pending.inOrder

/-- A pending event goes into the log because of what has been seen of its cause's host. -/
structure Releases (gl : GLog) (event : Event) (gl' : GLog) : Prop where
  coherent : gl'.Coherent
  seen : ∃ record, gl.hostList.host event.causeHost = some record ∧
    event.causeSeqNo ≤ record.maxSeen
  hosts : Raises gl.hostList event.host event.seqNo gl'.hostList
  log : Appends gl.log event gl'.log
  pending : gl.pending.Removes event gl'.pending

section Cases

variable {gl : GLog} {event : Event} {shape : Shape} {hostId seqNo : Nat} {ev : Event}
  {hostList : HostList} {log : Log}

theorem GLog.Coherent.of_newHost (h : gl.Coherent)
    (hhosts : NewHost gl.hostList hostId seqNo hostList) (hlog : Appends gl.log ev log) :
    GLog.Coherent { gl with hostList := hostList, log := log } where
  log := hlog.bounded
  hosts := hhosts.hashed
  pending := h.pending
  known key ev hwait := by
    obtain ⟨hhost, hcause⟩ := h.known key ev hwait
    exact ⟨hhosts.isSome hhost, hhosts.isSome hcause⟩

theorem gLogCauseHost_cases (h : gl.Coherent) (event : Event) :
    (∃ slot, hostListFind gl.hostList event.causeHost = some slot ∧
        gLogCauseHost gl event = .ok (1, gl)) ∨
      (hostListFind gl.hostList event.causeHost = none ∧ hashCount ≤ gl.hostList.count + 1 ∧
        gLogCauseHost gl event = .ok (-1, gl)) ∨
      ∃ gl', gLogCauseHost gl event = .ok (1, gl') ∧ Meets gl event gl' := by
  unfold gLogCauseHost
  cases hfind : hostListFind gl.hostList event.causeHost with
  | some slot => exact .inl ⟨slot, rfl, rfl⟩
  | none =>
    right
    rcases hostListAdd_cases h.hosts hfind with ⟨hfull, hadd⟩ | ⟨slot, hl', hadd, hslot, hnew⟩
    · left
      exact ⟨rfl, hfull, by rw [hadd]; rfl⟩
    · right
      obtain ⟨log', hlog, happends⟩ :=
        exists_appends h.log (firstEvent event.causeHost event.causeSeqNo)
      refine ⟨{ gl with log := log', hostList := hl'.setMaxSeen slot event.causeSeqNo }, ?_,
        h.of_newHost (hnew _) happends, hnew _, happends, rfl⟩
      simp [hadd, show ¬ (1 : Int) < 0 by decide, hslot, hlog]

theorem gLogNewHost_cases (h : gl.Coherent)
    (hnone : hostListFind gl.hostList event.host = none) :
    (hashCount ≤ gl.hostList.count + 1 ∧ gLogNewHost gl event = .ok (-1, gl)) ∨
      ∃ gl', gLogNewHost gl event = .ok (1, gl') ∧ Admits gl event gl' := by
  unfold gLogNewHost
  rcases hostListAdd_cases h.hosts hnone with ⟨hfull, hadd⟩ | ⟨slot, hl', hadd, hslot, hnew⟩
  · left
    exact ⟨hfull, by rw [hadd]; rfl⟩
  · right
    obtain ⟨log', hlog, happends⟩ := exists_appends h.log event
    refine ⟨{ gl with log := log', hostList := hl'.setMaxSeen slot event.seqNo }, ?_,
      h.of_newHost (hnew _) happends, hnew _, happends, rfl⟩
    simp [hadd, show ¬ (1 : Int) < 0 by decide, hslot, hlog]

def GLog.Pends (gl : GLog) (thisEvent : Option Nat) : Prop :=
  ∀ slot, thisEvent = some slot → (eventKey (gl.pending.events slot), slot) ∈ gl.pending.alive

theorem GLog.Coherent.pends_findCause (h : gl.Coherent) (shape : Shape) (host seqNo : Nat) :
    gl.Pends (gl.findCause shape host seqNo) :=
  fun _ hslot => (findCause_spec h.pending hslot).1

theorem GLog.Coherent.pends_satisfied (h : gl.Coherent) :
    gl.Pends (gLogPendingSatisfied gl) := by
  intro slot hslot
  obtain ⟨node, hfind, rfl⟩ := Option.map_eq_some_iff.1 hslot
  have hmem := List.mem_of_find?_eq_some hfind
  exact (h.pending.alive node hmem).2.2 ▸ hmem

theorem causeKey_of_isAnchor (h : isAnchor event = true) : causeKey event = eventKey event := by
  have heq : event.host = event.causeHost ∧ event.seqNo = event.causeSeqNo := by
    simpa [isAnchor] using h
  rw [causeKey, eventKey, heq.1, heq.2]

theorem GLog.Unseen.seqNo_ne_zero (h : gl.Unseen event) : event.seqNo ≠ 0 := by
  obtain ⟨record, -, hlt⟩ := h
  omega

theorem GLog.Coherent.of_raises (h : gl.Coherent)
    (hhosts : Raises gl.hostList hostId seqNo hostList) (hlog : Appends gl.log ev log)
    (searches : Nat) :
    GLog.Coherent { gl with hostList := hostList, log := log, searches := searches } where
  log := hlog.bounded
  hosts := hhosts.hashed
  pending := h.pending
  known key ev hwait := by
    rw [hhosts.isSome, hhosts.isSome]
    exact h.known key ev hwait

theorem gLogCommit_ok (h : gl.Coherent) (shape : Shape) {host : Nat}
    (hhost : hostListFind gl.hostList event.host = some host)
    (hunseen : (gl.hostList.hash host).maxSeen < event.seqNo) :
    ∃ gl' thisEvent, gLogCommit shape gl event host = .ok (.walk gl' thisEvent) ∧
      gl'.Coherent ∧ gl'.Pends thisEvent ∧ gl'.pending = gl.pending ∧
      Raises gl.hostList event.host event.seqNo gl'.hostList ∧ Appends gl.log event gl'.log := by
  obtain ⟨log', hlog, happends⟩ := exists_appends h.log event
  have hraises := h.hosts.raises hhost event.seqNo
  have hcoherent := h.of_raises hraises happends
  refine ⟨_, _, ?_, hcoherent (gl.searches + 1),
    (hcoherent gl.searches).pends_findCause shape event.host event.seqNo, rfl, hraises, happends⟩
  simp [gLogCommit, hlog, hunseen]

end Cases

/-! ## Outcomes -/

def Met (gl : GLog) (event : Event) (gl' : GLog) : Prop :=
  ((gl.hostList.host event.causeHost).isSome ∧ gl' = gl) ∨ Meets gl event gl'

/-- What a submission comes to once the host of the cause is known. -/
inductive Outcome (gl : GLog) (event : Event) : Submitted → Prop
  | noRoom (hnew : gl.hostList.host event.host = none)
      (hfull : hashCount ≤ gl.hostList.count + 1) : Outcome gl event (.done (-1) gl)
  | admitted {gl' : GLog} (h : Admits gl event gl') : Outcome gl event (.done 1 gl')
  | stale {record : Host} (hhost : gl.hostList.host event.host = some record)
      (hold : event.seqNo ≤ record.maxSeen) : Outcome gl event (.done 1 gl)
  | refused (hunseen : gl.Unseen event) (hdelayed : gl.Delayed event)
      (hwhy : gl.pending.waiting (eventKey event) ≠ none ∨ ¬ gl.pending.Room) :
      Outcome gl event (.done (-1) gl)
  | waits {gl' : GLog} (h : Waits gl event gl') : Outcome gl event (.done 1 gl')
  | committed {gl' : GLog} {thisEvent : Option Nat} (h : Commits gl event gl')
      (hthis : gl'.Pends thisEvent) : Outcome gl event (.walk gl' thisEvent)

section Outcomes

variable {gl : GLog} {event : Event} {shape : Shape} {host : Nat} {ev : Event} {pending : Pending}

theorem gLogWait_outcome (h : gl.Coherent) (hunseen : gl.Unseen event)
    (hdelayed : gl.Delayed event) (hcause : (gl.hostList.host event.causeHost).isSome) :
    ∃ result, gLogWait gl event = .ok result ∧ Outcome gl event result := by
  unfold gLogWait
  rcases pendingAddEvent_spec h.pending hunseen.seqNo_ne_zero with
    ⟨hadd, hwhy⟩ | ⟨pending', hadd, hadds⟩
  · rw [hadd]
    exact ⟨_, rfl, .refused hunseen hdelayed hwhy⟩
  · rw [hadd]
    refine ⟨_, rfl, .waits ⟨?_, hunseen, hdelayed, rfl, rfl, hadds⟩⟩
    refine ⟨h.log, h.hosts, hadds.coherent, ?_⟩
    intro key ev hwait
    have hwait' : pending'.waiting key = some ev := hwait
    rw [hadds.waiting] at hwait'
    by_cases hkey : key = eventKey event
    · subst hkey
      rw [Function.update_self] at hwait'
      cases hwait'
      obtain ⟨record, hhost, -⟩ := hunseen
      exact ⟨by rw [hhost]; rfl, hcause⟩
    · rw [Function.update_of_ne hkey] at hwait'
      exact h.known key ev hwait'

theorem gLogCheckSeen_outcome (h : gl.Coherent)
    (hhost : hostListFind gl.hostList event.host = some host)
    (hunseen : (gl.hostList.hash host).maxSeen < event.seqNo)
    (hcause : (gl.hostList.host event.causeHost).isSome)
    (hpending : gl.pending.waiting (causeKey event) = none) :
    ∃ result, gLogCheckSeen shape gl event host = .ok result ∧ Outcome gl event result := by
  have hunseen' : gl.Unseen event := ⟨_, host_of_find hhost, hunseen⟩
  obtain ⟨record, hrecord⟩ := Option.isSome_iff_exists.1 hcause
  unfold gLogCheckSeen
  rw [hrecord]
  by_cases hdelayed : record.maxSeen < event.causeSeqNo ∧
      record.eventHorizon < event.causeSeqNo ∧ ¬ isAnchor event
  · simp only [if_pos hdelayed]
    exact gLogWait_outcome h hunseen' ⟨by simpa using hdelayed.2.2,
      .inr ⟨record, hrecord, hdelayed.1, hdelayed.2.1⟩⟩ hcause
  · simp only [if_neg hdelayed]
    obtain ⟨gl', thisEvent, heq, hcoherent, hpends, hsame, hraises, happends⟩ :=
      gLogCommit_ok h shape hhost hunseen
    refine ⟨_, heq, .committed ⟨hcoherent, hunseen', hraises, happends, ?_, ?_, ?_⟩ hpends⟩
    · cases hanchor : isAnchor event with
      | true => exact .inl rfl
      | false =>
        right
        refine ⟨hpending, record, hrecord, ?_⟩
        simp only [hanchor, Bool.false_eq_true, not_false_eq_true, and_true] at hdelayed
        omega
    · rw [hsame]
      split
      · rename_i hanchor
        rw [← causeKey_of_isAnchor hanchor, ← hpending, Function.update_eq_self]
      · rfl
    · rw [hsame]

theorem GLog.Coherent.of_removes (h : gl.Coherent) (hremoves : gl.pending.Removes ev pending) :
    GLog.Coherent { gl with pending := pending } where
  log := h.log
  hosts := h.hosts
  pending := hremoves.coherent
  known key found hwait := by
    have hwait' : pending.waiting key = some found := hwait
    rw [hremoves.waiting] at hwait'
    by_cases hkey : key = eventKey ev
    · rw [hkey, Function.update_self] at hwait'
      cases hwait'
    · rw [Function.update_of_ne hkey] at hwait'
      exact h.known key found hwait'

theorem gLogCheckSeen_anchor (h : gl.Coherent)
    (hhost : hostListFind gl.hostList event.host = some host)
    (hunseen : (gl.hostList.hash host).maxSeen < event.seqNo)
    (hcause : (gl.hostList.host event.causeHost).isSome) (hanchor : isAnchor event = true)
    (hkey : eventKey ev = eventKey event) (hremoves : gl.pending.Removes ev pending) :
    ∃ result, gLogCheckSeen shape { gl with pending := pending } event host = .ok result ∧
      Outcome gl event result := by
  obtain ⟨record, hrecord⟩ := Option.isSome_iff_exists.1 hcause
  obtain ⟨gl', thisEvent, heq, hcoherent, hpends, hsame, hraises, happends⟩ :=
    gLogCommit_ok (h.of_removes hremoves) shape hhost hunseen
  refine ⟨_, ?_, .committed ⟨hcoherent, ⟨_, host_of_find hhost, hunseen⟩, hraises, happends,
    .inl hanchor, ?_, ?_⟩ hpends⟩
  · unfold gLogCheckSeen
    simp only [hrecord, hanchor, not_true_eq_false, and_false, if_false]
    exact heq
  · rw [hsame, if_pos hanchor, ← hkey]
    exact hremoves.waiting
  · rw [hsame]
    exact (List.sublist_cons_self ev _).subperm.trans hremoves.inOrder.symm.subperm

theorem gLogKnownHost_outcome (h : gl.Coherent)
    (hhost : hostListFind gl.hostList event.host = some host)
    (hcause : (gl.hostList.host event.causeHost).isSome) :
    ∃ result, gLogKnownHost shape gl event host = .ok result ∧ Outcome gl event result := by
  unfold gLogKnownHost
  by_cases hold : event.seqNo ≤ (gl.hostList.hash host).maxSeen
  · rw [if_pos hold]
    exact ⟨_, rfl, .stale (host_of_find hhost) hold⟩
  · have hunseen := Nat.lt_of_not_le hold
    have hwait := waiting_eq_map gl.pending event.causeHost event.causeSeqNo
    rw [if_neg hold, gLogCheckPending]
    cases hfind : pendingFindEvent gl.pending event.causeHost event.causeSeqNo with
    | none =>
      rw [hfind] at hwait
      exact gLogCheckSeen_outcome h hhost hunseen hcause hwait
    | some slot =>
      rw [hfind] at hwait
      have hmem := (findEvent_eq_some h.pending).1 hfind
      have hkey : causeKey event = eventKey (gl.pending.events slot) :=
        (h.pending.alive _ hmem).2.2
      cases hanchor : isAnchor event with
      | true =>
        obtain ⟨pending', hremove, hremoves⟩ :=
          pendingRemoveEvent_spec h.pending (show (eventKey (gl.pending.events slot), slot) ∈
            gl.pending.alive from hkey ▸ hmem)
        simp only [hremove, show ¬ (1 : Int) < 0 by decide, if_false, if_true]
        exact gLogCheckSeen_anchor h hhost hunseen hcause hanchor
          (hkey.symm.trans (causeKey_of_isAnchor hanchor)) hremoves
      | false =>
        have hsome : gl.pending.waiting (causeKey event) ≠ none := by
          rw [causeKey, hwait]
          simp
        exact gLogWait_outcome h ⟨_, host_of_find hhost, hunseen⟩ ⟨hanchor, .inl hsome⟩
          hcause

theorem Meets.isSome {gl' : GLog} (h : Meets gl event gl') :
    (gl'.hostList.host event.causeHost).isSome := by
  obtain ⟨_, -, hhost⟩ := h.hosts.host
  rw [hhost]
  rfl

theorem Met.eq_of_isSome {gl' : GLog} (h : Met gl event gl')
    (hknown : (gl.hostList.host event.causeHost).isSome) : gl' = gl := by
  rcases h with ⟨-, rfl⟩ | hmeets
  · rfl
  · rw [hmeets.hosts.new] at hknown
    cases hknown

/-- Every submission ends; with a full host table, or in one of the outcomes. -/
theorem gLogSubmit_outcome (h : gl.Coherent) (shape : Shape) (event : Event) :
    (gl.hostList.host event.causeHost = none ∧ hashCount ≤ gl.hostList.count + 1 ∧
        gLogSubmit shape gl event = .ok (.done (-1) gl)) ∨
      ∃ gl' result, Met gl event gl' ∧ gLogSubmit shape gl event = .ok result ∧
        Outcome gl' event result := by
  -- once the host of the cause is known, the host of the event decides
  have hrest (gl' : GLog) (h' : gl'.Coherent)
      (hcause : (gl'.hostList.host event.causeHost).isSome)
      (hmet : gLogCauseHost gl event = .ok (1, gl')) :
      ∃ result, gLogSubmit shape gl event = .ok result ∧ Outcome gl' event result := by
    unfold gLogSubmit
    simp only [hmet, Exec.ok_bind, show ¬ (1 : Int) < 0 by decide, if_false]
    cases hhost : hostListFind gl'.hostList event.host with
    | some host => exact gLogKnownHost_outcome h' hhost hcause
    | none =>
      rcases gLogNewHost_cases h' hhost with ⟨hfull, heq⟩ | ⟨gl'', heq, hadmits⟩
      · refine ⟨_, by simp [heq], .noRoom ?_ hfull⟩
        rw [HostList.host, hhost, Option.map_none]
      · exact ⟨_, by simp [heq], .admitted hadmits⟩
  rcases gLogCauseHost_cases h event with
    ⟨slot, hfind, heq⟩ | ⟨hnone, hfull, heq⟩ | ⟨gl', heq, hmeets⟩
  · right
    have hcause : (gl.hostList.host event.causeHost).isSome := by
      rw [host_of_find hfind]
      rfl
    obtain ⟨result, hresult, houtcome⟩ := hrest gl h hcause heq
    exact ⟨gl, result, .inl ⟨hcause, rfl⟩, hresult, houtcome⟩
  · left
    refine ⟨by rw [HostList.host, hnone, Option.map_none], hfull, ?_⟩
    simp [gLogSubmit, heq]
  · right
    obtain ⟨result, hresult, houtcome⟩ := hrest gl' hmeets.coherent hmeets.isSome heq
    exact ⟨gl', result, .inr hmeets, hresult, houtcome⟩

end Outcomes

/-! ## The walk over the pending list -/

section Walk

variable {gl : GLog} {event : Event} {shape : Shape} {slot : Nat}

theorem gLogRelease_ok (h : gl.Coherent) (hslot : gl.Pends (some slot)) {record : Host}
    (hrecord : gl.hostList.host (gl.pending.events slot).causeHost = some record)
    (hseen : (gl.pending.events slot).causeSeqNo ≤ record.maxSeen) :
    ∃ gl' thisEvent, gLogRelease shape gl slot = .ok (.next gl' thisEvent) ∧
      Releases gl (gl.pending.events slot) gl' ∧ gl'.Pends thisEvent := by
  have hmem := hslot slot rfl
  have hknown : (gl.hostList.host (gl.pending.events slot).host).isSome :=
    (h.known _ _ (waiting_of_mem h.pending hmem)).1
  rw [host_isSome] at hknown
  obtain ⟨host, hhost⟩ := Option.isSome_iff_exists.1 hknown
  obtain ⟨log', hlog, happends⟩ := exists_appends h.log (gl.pending.events slot)
  obtain ⟨pending', hremove, hremoves⟩ := pendingRemoveEvent_spec h.pending hmem
  have hraises := h.hosts.raises hhost (gl.pending.events slot).seqNo
  have hcoherent := (h.of_removes hremoves).of_raises hraises happends
  unfold gLogRelease
  simp only [hlog, Exec.ok_bind, hremove, show ¬ (1 : Int) < 0 by decide, if_false, hhost,
    Exec.pure_eq]
  refine ⟨_, _, rfl, ⟨hcoherent (gl.searches + 1), ⟨record, hrecord, hseen⟩, hraises, happends,
    hremoves⟩, ?_⟩
  intro slot' hslot'
  rcases Option.or_eq_some_iff.1 hslot' with hfound | ⟨-, hfound⟩
  · exact (hcoherent gl.searches).pends_findCause shape _ _ slot' hfound
  · exact (hcoherent gl.searches).pends_satisfied slot' hfound

theorem gLogTurn_cases (h : gl.Coherent) (shape : Shape) (event : Event)
    (hslot : gl.Pends (some slot)) :
    gLogTurn shape event gl slot = .ok (.stop 1 gl) ∨
      ∃ gl' thisEvent, gLogTurn shape event gl slot = .ok (.next gl' thisEvent) ∧
        Releases gl (gl.pending.events slot) gl' ∧ gl'.Pends thisEvent := by
  have hknown := (h.known _ _ (waiting_of_mem h.pending (hslot slot rfl))).2
  obtain ⟨record, hrecord⟩ := Option.isSome_iff_exists.1 hknown
  unfold gLogTurn
  simp only [hrecord]
  by_cases hseen : (gl.pending.events slot).causeSeqNo ≤ record.maxSeen
  · simp only [if_pos hseen]
    exact .inr (gLogRelease_ok h hslot hrecord hseen)
  · simp only [if_neg hseen]
    exact .inl trivial

theorem gLogWalk_rule {I : GLog → Prop}
    (release : ∀ gl gl' ev, gl.Coherent → Releases gl ev gl' → I gl → I gl') {fuel : Nat}
    {thisEvent : Option Nat} (h : gl.Coherent) (hthis : gl.Pends thisEvent)
    (hfuel : gl.pending.inOrder.length ≤ fuel) (hI : I gl) :
    ∃ gl', gLogWalk shape event fuel gl thisEvent = .ok (1, gl') ∧ gl'.Coherent ∧ I gl' := by
  induction fuel generalizing gl thisEvent with
  | zero =>
    cases thisEvent with
    | none => exact ⟨gl, rfl, h, hI⟩
    | some slot =>
      have hpos := List.length_pos_of_mem (hthis slot rfl)
      rw [Pending.inOrder, List.length_map] at hfuel
      omega
  | succ fuel ih =>
    cases thisEvent with
    | none => exact ⟨gl, rfl, h, hI⟩
    | some slot =>
      rw [gLogWalk]
      rcases gLogTurn_cases h shape event hthis with
        heq | ⟨gl', next, heq, hreleases, hpends⟩
      · rw [heq]
        exact ⟨gl, rfl, h, hI⟩
      · rw [heq]
        have hshorter := hreleases.pending.inOrder.length_eq
        rw [List.length_cons] at hshorter
        exact ih hreleases.coherent hpends (by omega) (release gl gl' _ h hreleases hI)

end Walk

/-! ## Whole calls -/

section Rule

variable {gl : GLog} {event : Event} {shape : Shape} {I : GLog → Prop}

/-- Every call returns, with what every move keeps. -/
theorem gLogEvent_rule (h : gl.Coherent)
    (meet : ∀ gl', Meets gl event gl' → I gl → I gl')
    (enter : ∀ gl₁ gl', Met gl event gl₁ → Admits gl₁ event gl' → I gl₁ → I gl')
    (wait : ∀ gl₁ gl', Met gl event gl₁ → Waits gl₁ event gl' → I gl₁ → I gl')
    (commit : ∀ gl₁ gl', Met gl event gl₁ → Commits gl₁ event gl' → I gl₁ → I gl')
    (release : ∀ gl gl' ev, gl.Coherent → Releases gl ev gl' → I gl → I gl')
    (hI : I gl) :
    ∃ err gl', gLogEvent shape gl event = .ok (err, gl') ∧ gl'.Coherent ∧ I gl' := by
  unfold gLogEvent
  rcases gLogSubmit_outcome h shape event with ⟨-, -, heq⟩ | ⟨gl₁, result, hmet, heq, houtcome⟩
  · rw [heq]
    exact ⟨-1, gl, rfl, h, hI⟩
  · have hfirst : gl₁.Coherent ∧ I gl₁ := by
      rcases hmet with ⟨-, rfl⟩ | hmeets
      · exact ⟨h, hI⟩
      · exact ⟨hmeets.coherent, meet gl₁ hmeets hI⟩
    obtain ⟨h₁, hI₁⟩ := hfirst
    cases houtcome with
    | noRoom _ _ => exact ⟨-1, gl₁, by rw [heq]; rfl, h₁, hI₁⟩
    | stale _ _ => exact ⟨1, gl₁, by rw [heq]; rfl, h₁, hI₁⟩
    | refused _ _ _ => exact ⟨-1, gl₁, by rw [heq]; rfl, h₁, hI₁⟩
    | admitted hadmits =>
      exact ⟨1, _, by rw [heq]; rfl, hadmits.coherent, enter gl₁ _ hmet hadmits hI₁⟩
    | waits hwaits => exact ⟨1, _, by rw [heq]; rfl, hwaits.coherent, wait gl₁ _ hmet hwaits hI₁⟩
    | committed hcommits hthis =>
      obtain ⟨gl', hwalked, hcoherent, hI'⟩ := gLogWalk_rule release hcommits.coherent hthis
        (Nat.le_of_eq (List.length_map _)) (commit gl₁ _ hmet hcommits hI₁)
      exact ⟨1, gl', by rw [heq]; exact hwalked, hcoherent, hI'⟩

end Rule

end Cspot.Merge
