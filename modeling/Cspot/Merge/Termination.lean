import Cspot.Merge.CausalOrder

/-!
# The merge ends

Every turn of the walk takes an event off the pending list.  A pass of the fast forward takes
one off, too, and may put it back with the horizon for its cause, so that fewer pending events
have a cause below the horizon.
-/

namespace Cspot.Merge

/-! ## The walk -/

/-- Every turn of the walk that goes on has taken an event off the pending list. -/
def WalkShrinks (shape : Shape) (event : Event) :
    (fuel : Nat) → GLog → (thisEvent : Option Nat) → Prop
  | _, _, none => True
  | 0, _, some _ => True
  | fuel + 1, gl, some slot =>
    ∀ gl' thisEvent, gLogTurn shape event gl slot = .ok (.next gl' thisEvent) →
      gl'.pending.alive.length + 1 = gl.pending.alive.length ∧
        WalkShrinks shape event fuel gl' thisEvent

def EventShrinks (shape : Shape) (gl : GLog) (event : Event) : Prop :=
  ∀ gl' thisEvent, gLogSubmit shape gl event = .ok (.walk gl' thisEvent) →
    WalkShrinks shape event gl'.pending.alive.length gl' thisEvent

section Walk

variable {gl : GLog}

theorem Pending.length_inOrder (pending : Pending) :
    pending.inOrder.length = pending.alive.length := List.length_map _

theorem GLog.Coherent.walkShrinks (h : gl.Coherent) (shape : Shape) (event : Event) (fuel : Nat)
    {thisEvent : Option Nat} (hthis : gl.Pends thisEvent) :
    WalkShrinks shape event fuel gl thisEvent := by
  induction fuel generalizing gl thisEvent with
  | zero => cases thisEvent <;> trivial
  | succ fuel ih =>
    cases thisEvent with
    | none => trivial
    | some slot =>
      intro gl' next hturn
      rcases gLogTurn_cases h shape event hthis with
        heq | ⟨gl'', next', heq, hreleases, hpends⟩
      · rw [hturn] at heq
        cases heq
      · rw [hturn] at heq
        cases heq
        have hlength := hreleases.pending.inOrder.length_eq
        rw [List.length_cons, Pending.length_inOrder, Pending.length_inOrder] at hlength
        exact ⟨hlength.symm, ih hreleases.coherent hpends⟩

theorem GLog.Coherent.eventShrinks (h : gl.Coherent) (shape : Shape) (event : Event) :
    EventShrinks shape gl event := by
  intro gl' thisEvent hsubmit
  rcases gLogSubmit_outcome h shape event with ⟨-, -, heq⟩ | ⟨gl₁, result, -, heq, houtcome⟩
  · rw [hsubmit] at heq
    cases heq
  · rw [hsubmit] at heq
    cases heq
    cases houtcome with
    | committed hcommits hthis => exact hcommits.coherent.walkShrinks shape event _ hthis

theorem GLog.Coherent.gLogEvent (h : gl.Coherent) (shape : Shape) (event : Event) :
    ∃ err gl', Merge.gLogEvent shape gl event = .ok (err, gl') ∧ gl'.Coherent := by
  obtain ⟨err, gl', heq, hcoherent, -⟩ := gLogEvent_rule (I := fun _ => True) h
    (fun _ _ _ => trivial) (fun _ _ _ _ _ => trivial) (fun _ _ _ _ _ => trivial)
    (fun _ _ _ _ _ => trivial) (fun _ _ _ _ _ _ => trivial) trivial
  exact ⟨err, gl', heq, hcoherent⟩

end Walk

/-! ## The fast forward -/

def causedBelow (hostId horizon : Nat) (ev : Event) : Bool :=
  ev.causeHost = hostId ∧ ev.causeSeqNo < horizon

/-- How many pending events have a cause of the host in this slot below its horizon. -/
def GLog.below (gl : GLog) (remoteHost : Nat) : Nat :=
  gl.pending.inOrder.countP
    (causedBelow (gl.hostList.hash remoteHost).hostId (gl.hostList.hash remoteHost).eventHorizon)

def ForwardShrinks (shape : Shape) (remoteHost : Nat) : (fuel : Nat) → GLog → Prop
  | 0, _ => True
  | fuel + 1, gl => ∀ node err gl', belowHorizon gl remoteHost = some node →
      logResolveHorizon shape gl (gl.pending.events node.2) = .ok (err, gl') → ¬ err < 0 →
      gl'.below remoteHost < gl.below remoteHost ∧ ForwardShrinks shape remoteHost fuel gl'

/-- The host has this record, and this horizon; not more than `n` pending events have a cause
below it. -/
structure GLog.Forwarding (gl : GLog) (hostId remoteHost horizon n : Nat) : Prop where
  find : hostListFind gl.hostList hostId = some remoteHost
  eventHorizon : (gl.hostList.hash remoteHost).eventHorizon = horizon
  below : gl.pending.inOrder.countP (causedBelow hostId horizon) ≤ n

section Forward

variable {gl gl' : GLog} {hostId remoteHost horizon n : Nat}

theorem Raises.eventHorizon {hl hl' : HostList} {id seqNo : Nat} (h : Raises hl id seqNo hl')
    (hfind : hostListFind hl hostId = some remoteHost) :
    (hl'.hash remoteHost).eventHorizon = (hl.hash remoteHost).eventHorizon := by
  obtain ⟨record, hrecord, hhost⟩ := h.host
  have hold := host_of_find hfind
  have hnew := host_of_find ((h.find hostId).trans hfind)
  rw [hhost] at hnew
  by_cases hid : hostId = id
  · subst hid
    rw [hold, Option.some.injEq] at hrecord
    rw [Function.update_self, Option.some.injEq] at hnew
    rw [← hnew, ← hrecord]
  · rw [Function.update_of_ne hid, hold, Option.some.injEq] at hnew
    rw [← hnew]

section

variable (h : gl.Forwarding hostId remoteHost horizon n)
include h

theorem GLog.Forwarding.below_eq :
    gl.below remoteHost = gl.pending.inOrder.countP (causedBelow hostId horizon) := by
  rw [GLog.below, (hostListFind_spec h.find).2, h.eventHorizon]

theorem GLog.Forwarding.raises {id seqNo : Nat} (hhosts : Raises gl.hostList id seqNo gl'.hostList)
    (horder : gl'.pending.inOrder.Subperm gl.pending.inOrder) :
    gl'.Forwarding hostId remoteHost horizon n where
  find := (hhosts.find hostId).trans h.find
  eventHorizon := (hhosts.eventHorizon h.find).trans h.eventHorizon
  below := (horder.countP_le _).trans h.below

theorem GLog.Forwarding.gLogEvent (hcoherent : gl.Coherent) (shape : Shape) (event : Event)
    (hhost : event.causeHost = hostId) (hseq : event.causeSeqNo = horizon)
    (hknown : (gl.hostList.host event.host).isSome) :
    ∃ err gl', Merge.gLogEvent shape gl event = .ok (err, gl') ∧ gl'.Coherent ∧
      gl'.Forwarding hostId remoteHost horizon n := by
  -- the host of the cause is known, so the call begins with the global log as it is
  have hcause : (gl.hostList.host event.causeHost).isSome := by
    rw [hhost, host_of_find h.find]
    rfl
  refine gLogEvent_rule hcoherent ?_ ?_ ?_ ?_ ?_ h
  · intro gl' hmeets
    rw [hmeets.hosts.new] at hcause
    cases hcause
  · intro gl₁ gl' hmet hadmits
    have hnew := hadmits.hosts.new
    rw [hmet.eq_of_isSome hcause] at hnew
    rw [hnew] at hknown
    cases hknown
  · intro gl₁ gl' _ hwaits h₁
    refine ⟨hwaits.hosts ▸ h₁.find, hwaits.hosts ▸ h₁.eventHorizon, ?_⟩
    rw [hwaits.pending.inOrder.countP_eq, List.countP_cons_of_neg (by simp [causedBelow, hseq])]
    exact h₁.below
  · intro gl₁ gl' _ hcommits h₁
    exact h₁.raises hcommits.hosts hcommits.inOrder
  · intro gl₁ gl' ev _ hreleases h₁
    exact h₁.raises hreleases.hosts ((List.sublist_cons_self ev _).subperm.trans
      hreleases.pending.inOrder.symm.subperm)

end

theorem belowHorizon_spec (hcoherent : gl.Coherent) {node : Int × Nat}
    (hnode : belowHorizon gl remoteHost = some node) :
    (eventKey (gl.pending.events node.2), node.2) ∈ gl.pending.alive ∧
      (gl.pending.events node.2).causeHost = (gl.hostList.hash remoteHost).hostId ∧
      (gl.pending.events node.2).causeSeqNo < (gl.hostList.hash remoteHost).eventHorizon := by
  have hmem := List.mem_of_find?_eq_some hnode
  have hbelow := List.find?_some hnode
  exact ⟨(hcoherent.pending.alive node hmem).2.2 ▸ hmem, by simpa using hbelow⟩

def PassKeeps (shape : Shape) (hostId : Nat) (I : GLog → Prop) : Prop :=
  ∀ gl remoteHost node err gl', gl.Coherent → hostListFind gl.hostList hostId = some remoteHost →
    belowHorizon gl remoteHost = some node →
    logResolveHorizon shape gl (gl.pending.events node.2) = .ok (err, gl') → I gl → I gl'

section

variable (hcoherent : gl.Coherent) (shape : Shape)
  (hfind : hostListFind gl.hostList hostId = some remoteHost)
include hcoherent hfind

theorem logResolveHorizon_eq {node : Int × Nat}
    (hnode : belowHorizon gl remoteHost = some node) :
    (gl.pending.events node.2).causeHost = hostId ∧
      (gl.pending.events node.2).causeSeqNo < (gl.hostList.hash remoteHost).eventHorizon ∧
      ∃ pending, gl.pending.Removes (gl.pending.events node.2) pending ∧
        logResolveHorizon shape gl (gl.pending.events node.2) = (do
          let logged ← gLogEvent shape { gl with pending := pending }
            (horizonEvent (gl.pending.events node.2) (gl.hostList.hash remoteHost))
          return (if logged.1 < 0 then -1 else 1, logged.2)) := by
  obtain ⟨hmem, hhost, hbelow⟩ := belowHorizon_spec hcoherent hnode
  rw [(hostListFind_spec hfind).2] at hhost
  have hsearch : pendingFindEvent gl.pending (gl.pending.events node.2).host
      (gl.pending.events node.2).seqNo = some node.2 := (findEvent_eq_some hcoherent.pending).2 hmem
  obtain ⟨pending, hremove, hremoves⟩ := pendingRemoveEvent_spec hcoherent.pending hmem
  refine ⟨hhost, hbelow, pending, hremoves, ?_⟩
  simp [logResolveHorizon, hhost, host_of_find hfind, hsearch, if_pos hbelow, hremove,
    show ¬ (1 : Int) < 0 by decide]

theorem GLog.Coherent.pass {node : Int × Nat} (hnode : belowHorizon gl remoteHost = some node) :
    ∃ err gl', logResolveHorizon shape gl (gl.pending.events node.2) = .ok (err, gl') ∧
      gl'.Coherent ∧ hostListFind gl'.hostList hostId = some remoteHost ∧
      gl'.below remoteHost < gl.below remoteHost := by
  obtain ⟨hhost, hbelow, pending, hremoves, hresolve⟩ :=
    logResolveHorizon_eq hcoherent shape hfind hnode
  have hid := (hostListFind_spec hfind).2
  have hmem := (belowHorizon_spec hcoherent hnode).1
  have hcount : gl.below remoteHost = pending.inOrder.countP
      (causedBelow hostId (gl.hostList.hash remoteHost).eventHorizon) + 1 := by
    rw [GLog.below, hid, hremoves.inOrder.countP_eq,
      List.countP_cons_of_pos (by simp [causedBelow, hhost, hbelow])]
  have hremoved := hcoherent.of_removes hremoves
  have hforwarding : GLog.Forwarding { gl with pending := pending } hostId remoteHost
      (gl.hostList.hash remoteHost).eventHorizon _ := ⟨hfind, rfl, le_rfl⟩
  obtain ⟨err, gl', hcall, hcoherent', hforwarding'⟩ := hforwarding.gLogEvent hremoved shape
    (horizonEvent (gl.pending.events node.2) (gl.hostList.hash remoteHost)) hid rfl
    (hcoherent.known _ _ (waiting_of_mem hcoherent.pending hmem)).1
  refine ⟨if err < 0 then -1 else 1, gl', ?_, hcoherent', hforwarding'.find, ?_⟩
  · rw [hresolve, hcall]
    rfl
  · rw [hforwarding'.below_eq, hcount]
    exact Nat.lt_succ_of_le hforwarding'.below

theorem GLog.Coherent.forwardShrinks (fuel : Nat) : ForwardShrinks shape remoteHost fuel gl := by
  induction fuel generalizing gl with
  | zero => trivial
  | succ fuel ih =>
    intro node err gl' hnode hresolve _
    obtain ⟨err', gl'', heq, hcoherent', hfind', hless⟩ := hcoherent.pass shape hfind hnode
    rw [hresolve] at heq
    cases heq
    exact ⟨hless, ih hcoherent' hfind'⟩

theorem GLog.Coherent.fastForwardTurns {I : GLog → Prop} (hpass : PassKeeps shape hostId I)
    {fuel : Nat} (hfuel : gl.below remoteHost < fuel) (hI : I gl) :
    ∃ err gl', Merge.fastForwardTurns shape remoteHost fuel gl = .ok (err, gl') ∧
      gl'.Coherent ∧ I gl' := by
  induction fuel generalizing gl with
  | zero => omega
  | succ fuel ih =>
    rw [Merge.fastForwardTurns]
    cases hnode : belowHorizon gl remoteHost with
    | none => exact ⟨1, gl, rfl, hcoherent, hI⟩
    | some node =>
      obtain ⟨err, gl', heq, hcoherent', hfind', hless⟩ := hcoherent.pass shape hfind hnode
      have hI' := hpass gl remoteHost node err gl' hcoherent hfind hnode heq hI
      simp only [heq, Exec.ok_bind]
      by_cases herr : err < 0
      · rw [if_pos herr]
        exact ⟨-1, gl', rfl, hcoherent', hI'⟩
      · rw [if_neg herr]
        exact ih hcoherent' hfind' (by omega) hI'

end

/-- A fast forward returns, with what every pass keeps. -/
theorem gLogFastForward_rule {I : GLog → Prop} {shape : Shape} (hpass : PassKeeps shape hostId I)
    (hcoherent : gl.Coherent) (hI : I gl) :
    ∃ err gl', gLogFastForward shape gl hostId = .ok (err, gl') ∧ gl'.Coherent ∧ I gl' := by
  unfold gLogFastForward
  cases hfind : hostListFind gl.hostList hostId with
  | none => exact ⟨1, gl, rfl, hcoherent, hI⟩
  | some remoteHost =>
    have hfew : gl.below remoteHost ≤ gl.pending.inOrder.length := List.countP_le_length
    rw [Pending.length_inOrder] at hfew
    dsimp only
    split
    · exact ⟨1, gl, rfl, hcoherent, hI⟩
    · exact hcoherent.fastForwardTurns shape hfind hpass (by omega) hI

theorem passKeeps_true (shape : Shape) (hostId : Nat) : PassKeeps shape hostId fun _ => True :=
  fun _ _ _ _ _ _ _ _ _ _ => trivial

theorem GLog.Coherent.gLogFastForward (hcoherent : gl.Coherent) (shape : Shape)
    (hostId : Nat) :
    ∃ err gl', Merge.gLogFastForward shape gl hostId = .ok (err, gl') ∧ gl'.Coherent := by
  obtain ⟨err, gl', heq, hcoherent', -⟩ :=
    gLogFastForward_rule (passKeeps_true shape hostId) hcoherent trivial
  exact ⟨err, gl', heq, hcoherent'⟩

end Forward

/-! ## Local logs -/

/-- The logs of a host, as `LogAdd` and `LogEvent` make them; every event names a cause. -/
inductive LocalLog : Log → Prop
  | create (hostId : Nat) {size : Nat} (hsize : size < Word.modulus) :
      LocalLog (logCreate hostId size)
  | add {log log' : Log} {event : Event} (h : LocalLog log) (hcause : event.causeHost ≠ 0)
      (hadd : logAdd log event = .ok log') : LocalLog log'
  | event {log log' : Log} {event : Event} {seqNo : Nat} (h : LocalLog log)
      (hcause : event.causeHost ≠ 0) (hevent : logEvent log event = .ok (seqNo, log')) :
      LocalLog log'

/-- There is such an event in every live slot. -/
structure Stocked (P : Event → Prop) (log : Log) : Prop where
  bounded : log.Bounded
  held : ∀ k, 0 < k → k ≤ log.liveCount →
    ∃ ev, log.events ((log.tail + k) % log.size) = some ev ∧ P ev

section Local

variable {log log' : Log} {event : Event} {P : Event → Prop}

theorem stocked_create (P : Event → Prop) (hostId : Nat) {size : Nat} (hpos : 0 < size)
    (hsize : size < Word.modulus) : Stocked P (logCreate hostId size) := by
  refine ⟨logCreate_bounded hostId hpos hsize, ?_⟩
  intro k hk hle
  have hzero : (logCreate hostId size).liveCount = 0 := by simp [Log.liveCount, logCreate]
  omega

theorem Stocked.logAdd (h : Stocked P log) (hevent : P event)
    (hadd : Cspot.logAdd log event = .ok log') : Stocked P log' := by
  have hb := h.bounded
  have htail := hb.tail
  have hlt := hb.liveCount_lt
  by_cases hfull : (log.head + 1) % log.size = log.tail
  · rw [hb.logAdd_of_full hfull] at hadd
    cases hadd
    refine ⟨⟨hb.size_pos, hb.size_lt, Nat.mod_lt _ hb.size_pos, Nat.mod_lt _ hb.size_pos⟩, ?_⟩
    intro k hpos hk
    -- the slot of the old tail is the only one that was not live
    have hall : log.liveCount = log.size - 1 := by
      by_contra hne
      exact hb.room_of_liveCount (by omega) hfull
    have hk' : k < log.size := Nat.lt_of_le_of_lt hk (Nat.mod_lt _ hb.size_pos)
    show ∃ ev, Function.update log.events ((log.head + 1) % log.size) (some event)
      (((log.tail + 1) % log.size + k) % log.size) = some ev ∧ _
    rw [hfull, Nat.mod_add_mod, Nat.add_assoc, Nat.add_comm 1]
    by_cases hlast : k + 1 = log.size
    · rw [hlast, Nat.add_mod_right, Nat.mod_eq_of_lt htail, Function.update_self]
      exact ⟨event, rfl, hevent⟩
    · have hne : (log.tail + (k + 1)) % log.size ≠ log.tail := by
        rw [← Nat.mod_eq_of_lt htail, Nat.mod_add_mod]
        exact (Ring.mod_ne_of_window (by omega) (by omega)).symm
      rw [Function.update_of_ne hne]
      exact h.held (k + 1) (by omega) (by omega)
  · rw [hb.logAdd_of_room hfull] at hadd
    cases hadd
    refine ⟨hb.push event, ?_⟩
    intro k hpos hk
    rw [hb.liveCount_push hfull] at hk
    show ∃ ev, Function.update log.events ((log.head + 1) % log.size) (some event)
      ((log.tail + k) % log.size) = some ev ∧ _
    rw [hb.next_eq]
    by_cases hlast : k = log.liveCount + 1
    · rw [hlast, Nat.add_assoc, Nat.add_comm 1, Function.update_self]
      exact ⟨event, rfl, hevent⟩
    · have hne : (log.tail + k) % log.size ≠ (log.tail + 1 + log.liveCount) % log.size :=
        Ring.mod_ne_of_window (by omega) (by omega)
      rw [Function.update_of_ne hne]
      exact h.held k hpos (by omega)

theorem Stocked.numbered (h : Stocked P log) (mutex : Int) (seqNo : Nat) :
    Stocked P { log with mutex := mutex, seqNo := seqNo } :=
  ⟨⟨h.bounded.size_pos, h.bounded.size_lt, h.bounded.head, h.bounded.tail⟩, h.held⟩

theorem logAdd_of_size_zero (hsize : log.size = 0) (event : Event) :
    Cspot.logAdd log event = .error .divideByZero := by
  simp [Cspot.logAdd, remU, Word.rem, hsize]

theorem LocalLog.stocked (h : LocalLog log) :
    (log.size = 0 ∧ log.head = log.tail) ∨ Stocked (fun ev => ev.causeHost ≠ 0) log := by
  induction h with
  | create hostId hsize =>
    rename_i size
    rcases Nat.eq_zero_or_pos size with rfl | hpos
    · exact .inl ⟨rfl, rfl⟩
    · exact .inr (stocked_create _ hostId hpos hsize)
  | add _ hcause hadd ih =>
    rcases ih with ⟨hsize, -⟩ | hstocked
    · rw [logAdd_of_size_zero hsize] at hadd
      cases hadd
    · exact .inr (hstocked.logAdd hcause hadd)
  | event _ hcause hevent ih =>
    obtain ⟨mutex, -, hrest⟩ := Exec.bind_eq_ok.1 hevent
    obtain ⟨added, hadd, hdone⟩ := Exec.bind_eq_ok.1 hrest
    cases hdone
    rcases ih with ⟨hsize, -⟩ | hstocked
    · rw [logAdd_of_size_zero (by exact hsize)] at hadd
      cases hadd
    · exact .inr (((hstocked.numbered mutex _).logAdd (by exact hcause) hadd).numbered _ _)

theorem Stocked.liveCount_pos (h : Stocked P log) (hne : log.head ≠ log.tail) :
    0 < log.liveCount := by
  by_contra hzero
  have hround := h.bounded.tail_add_liveCount
  rw [show log.liveCount = 0 by omega, Nat.add_zero, Nat.mod_eq_of_lt h.bounded.tail] at hround
  exact hne hround.symm

theorem Stocked.prevSlot (h : Stocked P log) {k : Nat} (hk : 0 < k) :
    Cspot.prevSlot log.size ((log.tail + k) % log.size) = (log.tail + (k - 1)) % log.size ∧
      (k = 1 → Cspot.prevSlot log.size ((log.tail + k) % log.size) = log.tail) := by
  have hprev := prevSlot_mod h.bounded.size_pos h.bounded.size_lt (show 0 < log.tail + k by omega)
  rw [Nat.add_sub_assoc hk] at hprev
  refine ⟨hprev, ?_⟩
  rintro rfl
  rw [hprev, Nat.sub_self, Nat.add_zero, Nat.mod_eq_of_lt h.bounded.tail]

theorem Stocked.logTailTurns (h : Stocked P log) (count earliest maxSize : Nat) {fuel k : Nat}
    {target : Log} (htarget : Stocked P target) (hk : 0 < k) (hlive : k ≤ log.liveCount)
    (hfuel : k ≤ fuel) :
    ∃ lt, Cspot.logTailTurns log earliest maxSize fuel ((log.tail + k) % log.size) count target =
      .ok lt ∧ Stocked P lt := by
  induction fuel generalizing k count target with
  | zero => omega
  | succ fuel ih =>
    obtain ⟨ev, hev, hcause⟩ := h.held k hk hlive
    obtain ⟨hprev, hend⟩ := h.prevSlot hk
    rw [Cspot.logTailTurns, hev]
    dsimp only
    by_cases hold : ev.seqNo < earliest
    · rw [if_pos hold]
      exact ⟨target, rfl, htarget⟩
    · obtain ⟨target', hadd, -⟩ := htarget.bounded.logAdd_spec ev
      have htarget' := htarget.logAdd hcause hadd
      rw [if_neg hold, hadd, Exec.ok_bind]
      by_cases hlast : maxSize ≤ count + 1 ∨
          Cspot.prevSlot log.size ((log.tail + k) % log.size) = log.tail
      · rw [if_pos hlast]
        exact ⟨target', rfl, htarget'⟩
      · rw [if_neg hlast, hprev]
        exact ih (count + 1) htarget' (by omega) (by omega) (by omega)

theorem Stocked.logTail (h : Stocked P log) (earliest : Nat) :
    Cspot.logTail log earliest log.size = .ok none ∨
      ∃ lt, Cspot.logTail log earliest log.size = .ok (some lt) ∧ Stocked P lt := by
  unfold Cspot.logTail
  by_cases hne : log.head = log.tail
  · rw [if_pos hne]
    exact .inl rfl
  · right
    have hcreated := stocked_create P 0 h.bounded.size_pos h.bounded.size_lt
    have hbound := h.bounded.liveCount_lt
    obtain ⟨lt, heq, hlt⟩ := h.logTailTurns 0 earliest log.size hcreated (h.liveCount_pos hne)
      le_rfl (Nat.le_of_lt hbound)
    rw [h.bounded.tail_add_liveCount] at heq
    rw [if_neg hne, heq]
    exact ⟨lt, rfl, hlt⟩

theorem LocalLog.logTail (h : LocalLog log) (earliest : Nat) :
    Cspot.logTail log earliest log.size = .ok none ∨
      ∃ lt, Cspot.logTail log earliest log.size = .ok (some lt) ∧
        Stocked (fun ev => ev.causeHost ≠ 0) lt := by
  rcases h.stocked with ⟨-, heq⟩ | hstocked
  · exact .inl (if_pos heq)
  · exact hstocked.logTail earliest

end Local

/-! ## The import -/

def SubmitKeeps (shape : Shape) (P : Event → Prop) (I : GLog → Prop) : Prop :=
  ∀ gl event err gl', gl.Coherent → P event → gLogEvent shape gl event = .ok (err, gl') →
    I gl → I gl'

section Import

variable {gl : GLog} {lt ll : Log} {shape : Shape} {P : Event → Prop} {I J : GLog → Prop}

theorem GLog.Coherent.setEventHorizon (h : gl.Coherent) (slot seqNo : Nat) :
    GLog.Coherent { gl with hostList := gl.hostList.setEventHorizon slot seqNo } where
  log := h.log
  hosts := h.hosts.setEventHorizon slot seqNo
  pending := h.pending
  known key ev hwait := by
    rw [host_isSome, host_isSome, hostListFind_setEventHorizon, hostListFind_setEventHorizon,
      ← host_isSome, ← host_isSome]
    exact h.known key ev hwait

theorem GLog.Coherent.importHorizon (h : gl.Coherent) (hlt : Stocked P lt)
    (hne : lt.head ≠ lt.tail) (hpass : PassKeeps shape ll.hostId I)
    (hraise : ∀ slot seqNo,
      I { gl with hostList := gl.hostList.setEventHorizon slot seqNo }) (hI : I gl) :
    ∃ err gl', Merge.importHorizon shape gl ll lt = .ok (err, gl') ∧ gl'.Coherent ∧ I gl' := by
  obtain ⟨first, hfirst, -⟩ := hlt.held lt.liveCount (hlt.liveCount_pos hne) le_rfl
  rw [hlt.bounded.tail_add_liveCount] at hfirst
  unfold Merge.importHorizon
  cases hostListFind gl.hostList ll.hostId with
  | none => exact ⟨1, gl, rfl, h, hI⟩
  | some host =>
    simp only [hfirst]
    split
    · exact gLogFastForward_rule hpass (h.setEventHorizon host first.seqNo) (hraise _ _)
    · exact gLogFastForward_rule hpass h hI

theorem GLog.Coherent.importTurns (h : gl.Coherent) (hlt : Stocked P lt)
    (hsubmit : SubmitKeeps shape P I) (earliest : Nat) {fuel k : Nat} (hk : 0 < k)
    (hlive : k ≤ lt.liveCount) (hfuel : k ≤ fuel) (hI : I gl) :
    ∃ err gl', Merge.importTurns shape lt earliest fuel gl ((lt.tail + k) % lt.size) =
      .ok (err, gl') ∧ gl'.Coherent ∧ I gl' := by
  induction fuel generalizing gl k with
  | zero => omega
  | succ fuel ih =>
    obtain ⟨ev, hev, hP⟩ := hlt.held k hk hlive
    obtain ⟨hprev, hend⟩ := hlt.prevSlot hk
    rw [Merge.importTurns, hev]
    dsimp only
    by_cases hold : ev.seqNo < earliest
    · rw [if_pos hold]
      exact ⟨1, gl, rfl, h, hI⟩
    · obtain ⟨err, gl', heq, h'⟩ := h.gLogEvent shape ev
      have hI' := hsubmit gl ev err gl' h hP heq hI
      rw [if_neg hold, heq, Exec.ok_bind]
      by_cases herr : err < 0
      · rw [if_pos herr]
        exact ⟨0, gl', rfl, h', hI'⟩
      · rw [if_neg herr]
        by_cases hlast : prevSlot lt.size ((lt.tail + k) % lt.size) = lt.tail
        · rw [if_pos hlast]
          exact ⟨1, gl', rfl, h', hI'⟩
        · rw [if_neg hlast, hprev]
          exact ih h' (by omega) (by omega) (by omega) hI'

/-- An import returns.  What its fast forward keeps gives what its submissions keep. -/
theorem importLogTail_rule (h : gl.Coherent)
    (htail : logTail ll (gl.earliest ll.hostId) ll.size = .ok none ∨
      ∃ lt, logTail ll (gl.earliest ll.hostId) ll.size = .ok (some lt) ∧ Stocked P lt)
    (hpass : PassKeeps shape ll.hostId I)
    (hraise : ∀ slot seqNo, I { gl with hostList := gl.hostList.setEventHorizon slot seqNo })
    (hsubmit : SubmitKeeps shape P J) (hforwarded : ∀ gl, I gl → J gl) (hI : I gl) :
    ∃ err gl', importLogTail shape gl ll = .ok (err, gl') ∧ gl'.Coherent ∧ J gl' := by
  unfold importLogTail
  rcases htail with heq | ⟨lt, heq, hlt⟩
  · rw [heq]
    exact ⟨0, gl, rfl, h, hforwarded gl hI⟩
  · rw [heq, Exec.ok_bind]
    dsimp only
    by_cases hne : lt.head = lt.tail
    · rw [if_pos hne]
      exact ⟨0, gl, rfl, h, hforwarded gl hI⟩
    · obtain ⟨err, gl', hforward, h', hI'⟩ := h.importHorizon hlt hne hpass hraise hI
      rw [if_neg hne, hforward, Exec.ok_bind]
      by_cases herr : err < 0
      · rw [if_pos herr]
        exact ⟨-1, gl', rfl, h', hforwarded gl' hI'⟩
      · have hbound := hlt.bounded.liveCount_lt
        have hturns := h'.importTurns hlt hsubmit (gl.earliest ll.hostId) (hlt.liveCount_pos hne)
          le_rfl (Nat.le_of_lt hbound) (hforwarded gl' hI')
        rw [hlt.bounded.tail_add_liveCount] at hturns
        rw [if_neg herr]
        exact hturns

theorem GLog.Coherent.importLogTail (h : gl.Coherent) (shape : Shape) (hll : LocalLog ll) :
    ∃ err gl', Merge.importLogTail shape gl ll = .ok (err, gl') ∧ gl'.Coherent := by
  obtain ⟨err, gl', heq, hcoherent, -⟩ := importLogTail_rule (J := fun _ => True) h
    (hll.logTail (gl.earliest ll.hostId)) (passKeeps_true shape ll.hostId)
    (fun _ _ => trivial) (fun _ _ _ _ _ _ _ _ => trivial) (fun _ _ => trivial) trivial
  exact ⟨err, gl', heq, hcoherent⟩

end Import

/-! ## All runs -/

/-- The global logs of a run: between two calls, and inside a call where the horizon of a host
has been raised or an event has been taken off the pending list. -/
inductive Reached (shape : Shape) (size : Nat) : GLog → Prop
  | create : Reached shape size (gLogCreate size)
  | event {gl gl' : GLog} {event : Event} {err : Int} (h : Reached shape size gl)
      (hcause : event.causeHost ≠ 0) (hcall : gLogEvent shape gl event = .ok (err, gl')) :
      Reached shape size gl'
  | fastForward {gl gl' : GLog} {hostId : Nat} {err : Int} (h : Reached shape size gl)
      (hcall : gLogFastForward shape gl hostId = .ok (err, gl')) : Reached shape size gl'
  | importTail {gl gl' : GLog} {ll : Log} {err : Int} (h : Reached shape size gl)
      (hll : LocalLog ll) (hid : ll.hostId ≠ 0)
      (hcall : importLogTail shape gl ll = .ok (err, gl')) : Reached shape size gl'
  | horizon {gl : GLog} {hostId slot : Nat} (h : Reached shape size gl) (hid : hostId ≠ 0)
      (hfind : hostListFind gl.hostList hostId = some slot) (seqNo : Nat) :
      Reached shape size { gl with hostList := gl.hostList.setEventHorizon slot seqNo }
  | removed {gl : GLog} {node : Int × Nat} (h : Reached shape size gl)
      (hmem : node ∈ gl.pending.alive) :
      Reached shape size { gl with
        pending := (pendingRemoveEvent gl.pending (gl.pending.events node.2)).2 }

/-- The call returns; in a global log without slots it may stop at a division by the size. -/
def Ends (size : Nat) (call : Exec (Int × GLog)) : Prop :=
  (∃ err gl, call = .ok (err, gl)) ∨ (size = 0 ∧ call = .error .divideByZero)

section Runs

variable {shape : Shape} {size : Nat} {gl : GLog}

theorem Reached.coherent (h : Reached shape size gl) (hpos : 0 < size)
    (hsize : size < Word.modulus) : gl.Coherent := by
  induction h with
  | create => exact gLogCreate_coherent hpos hsize
  | event _ _ hcall ih =>
    obtain ⟨err, gl', heq, hcoherent⟩ := ih.gLogEvent shape _
    rw [hcall] at heq
    cases heq
    exact hcoherent
  | fastForward _ hcall ih =>
    obtain ⟨err, gl', heq, hcoherent⟩ := ih.gLogFastForward shape _
    rw [hcall] at heq
    cases heq
    exact hcoherent
  | importTail _ hll _ hcall ih =>
    obtain ⟨err, gl', heq, hcoherent⟩ := ih.importLogTail shape hll
    rw [hcall] at heq
    cases heq
    exact hcoherent
  | horizon _ _ _ seqNo ih => exact ih.setEventHorizon _ seqNo
  | removed _ hmem ih =>
    have hkey := (ih.pending.alive _ hmem).2.2
    obtain ⟨pending, hremove, hremoves⟩ := pendingRemoveEvent_spec ih.pending
      (by rwa [← hkey])
    rw [hremove]
    exact ih.of_removes hremoves

/-! Without slots nothing can be logged. -/

theorem hostListFind_create {hostId : Nat} (hid : hostId ≠ 0) :
    hostListFind hostListCreate hostId = none := by
  cases hfind : hostListFind hostListCreate hostId with
  | none => rfl
  | some slot => exact absurd (hostListFind_spec hfind).2.symm hid

theorem gLogSubmit_size_zero (shape : Shape) {event : Event} (hcause : event.causeHost ≠ 0) :
    gLogSubmit shape (gLogCreate 0) event = .error .divideByZero := by
  have hfind : hostListFind (gLogCreate 0).hostList event.causeHost = none :=
    hostListFind_create hcause
  have hhashed : (gLogCreate 0).hostList.Hashed := hostListCreate_hashed
  rcases hostListAdd_cases hhashed hfind with ⟨hfull, -⟩ | ⟨slot, hl', hadd, hslot, -⟩
  · exact absurd hfull (by decide)
  · simp [gLogSubmit, gLogCauseHost, hfind, hadd, hslot, show ¬ (1 : Int) < 0 by decide,
      @logAdd_of_size_zero (gLogCreate 0).log rfl]

theorem gLogEvent_size_zero (shape : Shape) {event : Event} (hcause : event.causeHost ≠ 0) :
    gLogEvent shape (gLogCreate 0) event = .error .divideByZero := by
  rw [gLogEvent, gLogSubmit_size_zero shape hcause]
  rfl

theorem gLogFastForward_size_zero (shape : Shape) (hostId : Nat) :
    gLogFastForward shape (gLogCreate 0) hostId = .ok (1, gLogCreate 0) := by
  have hgood (slot : Nat) : ((gLogCreate 0).hostList.hash slot).eventHorizon ≤
      ((gLogCreate 0).hostList.hash slot).maxSeen := Nat.zero_le _
  unfold gLogFastForward
  split
  · rfl
  · rw [if_pos (hgood _)]

theorem importLogTail_size_zero (shape : Shape) {ll : Log} (hll : LocalLog ll)
    (hid : ll.hostId ≠ 0) :
    importLogTail shape (gLogCreate 0) ll = .ok (0, gLogCreate 0) ∨
      importLogTail shape (gLogCreate 0) ll = .error .divideByZero := by
  have hfind : hostListFind (gLogCreate 0).hostList ll.hostId = none := hostListFind_create hid
  have hearliest : (gLogCreate 0).earliest ll.hostId = 0 := by
    simp [GLog.earliest, HostList.host, hfind]
  unfold importLogTail
  rw [hearliest]
  rcases hll.logTail 0 with heq | ⟨lt, heq, hlt⟩
  · rw [heq]
    exact .inl rfl
  · rw [heq, Exec.ok_bind]
    dsimp only
    by_cases hne : lt.head = lt.tail
    · rw [if_pos hne]
      exact .inl rfl
    · obtain ⟨ev, hev, hcause⟩ := hlt.held lt.liveCount (hlt.liveCount_pos hne) le_rfl
      rw [hlt.bounded.tail_add_liveCount] at hev
      obtain ⟨fuel, hfuel⟩ := Nat.exists_eq_succ_of_ne_zero (Nat.ne_of_gt hlt.bounded.size_pos)
      have hcall := gLogEvent_size_zero shape hcause
      right
      have hturns : importTurns shape lt 0 lt.size (gLogCreate 0) lt.head =
          .error .divideByZero := by
        rw [hfuel, importTurns, hev]
        simp [hcall]
      simp [if_neg hne, importHorizon, hfind, show ¬ (1 : Int) < 0 by decide, hturns]

theorem Reached.eq_create (h : Reached shape 0 gl) : gl = gLogCreate 0 := by
  induction h with
  | create => rfl
  | event _ hcause hcall ih =>
    rw [ih, gLogEvent_size_zero shape hcause] at hcall
    cases hcall
  | fastForward _ hcall ih =>
    rw [ih, gLogFastForward_size_zero] at hcall
    cases hcall
    rfl
  | importTail _ hll hid hcall ih =>
    rw [ih] at hcall
    rcases importLogTail_size_zero shape hll hid with heq | heq
    · rw [heq] at hcall
      cases hcall
      rfl
    · rw [heq] at hcall
      cases hcall
  | horizon _ hid hfind _ ih =>
    rw [ih] at hfind
    cases (hostListFind_create hid).symm.trans hfind
  | removed _ hmem ih =>
    rw [ih] at hmem
    cases hmem

/-- In every run every call ends: each turn of a walk that goes on has removed a pending event,
and each pass of a fast forward that goes on leaves fewer pending events with a cause below the
horizon. -/
theorem merge_terminates (shape : Shape) {size : Nat} (hsize : size < Word.modulus) {gl : GLog}
    (h : Reached shape size gl) :
    (∀ event, event.causeHost ≠ 0 →
        Ends size (gLogEvent shape gl event) ∧ EventShrinks shape gl event) ∧
      (∀ hostId, Ends size (gLogFastForward shape gl hostId) ∧
        ∀ remoteHost, hostListFind gl.hostList hostId = some remoteHost →
          ForwardShrinks shape remoteHost (gl.pending.alive.length + 1) gl) ∧
      ∀ ll, LocalLog ll → ll.hostId ≠ 0 → Ends size (importLogTail shape gl ll) := by
  rcases Nat.eq_zero_or_pos size with rfl | hpos
  · obtain rfl := h.eq_create
    refine ⟨?_, ?_, ?_⟩
    · intro event hcause
      refine ⟨.inr ⟨rfl, gLogEvent_size_zero shape hcause⟩, ?_⟩
      intro gl' thisEvent hsubmit
      rw [gLogSubmit_size_zero shape hcause] at hsubmit
      cases hsubmit
    · intro hostId
      refine ⟨.inl ⟨1, _, gLogFastForward_size_zero shape hostId⟩, ?_⟩
      intro remoteHost _ node err gl' hnode
      cases hnode
    · intro ll hll hid
      rcases importLogTail_size_zero shape hll hid with heq | heq
      · exact .inl ⟨0, _, heq⟩
      · exact .inr ⟨rfl, heq⟩
  · have hcoherent := h.coherent hpos hsize
    refine ⟨?_, ?_, ?_⟩
    · intro event _
      obtain ⟨err, gl', heq, -⟩ := hcoherent.gLogEvent shape event
      exact ⟨.inl ⟨err, gl', heq⟩, hcoherent.eventShrinks shape event⟩
    · intro hostId
      obtain ⟨err, gl', heq, -⟩ := hcoherent.gLogFastForward shape hostId
      refine ⟨.inl ⟨err, gl', heq⟩, ?_⟩
      intro remoteHost hfind
      exact hcoherent.forwardShrinks shape hfind _
    · intro ll hll _
      obtain ⟨err, gl', heq, -⟩ := hcoherent.importLogTail shape hll
      exact .inl ⟨err, gl', heq⟩

/-- An event of host 2 waits for event 5 of host 1 when the horizon of host 1 comes to 7. -/
theorem merge_terminates_waiting :
    ∃ gl, Reached firstMet 4 gl ∧ gl.pending.alive.length = 1 ∧ gl.below 1 = 1 ∧
      Ends 4 (gLogFastForward firstMet gl 1) ∧ ForwardShrinks firstMet 1 2 gl := by
  have hmet := @Reached.event firstMet 4 _ _ (appended 1 1 1 1) _ .create (by decide) rfl
  have hadmitted := @Reached.event firstMet 4 _ _ (appended 2 1 1 1) _ hmet (by decide) rfl
  have hwaiting := @Reached.event firstMet 4 _ _ (appended 2 2 1 5) _ hadmitted (by decide) rfl
  have hraised := @Reached.horizon firstMet 4 _ 1 1 hwaiting (by decide) rfl 7
  have hends := (merge_terminates firstMet (by decide) hraised).2.1 1
  exact ⟨_, hraised, rfl, rfl, hends.1, hends.2 1 rfl⟩

end Runs

end Cspot.Merge
