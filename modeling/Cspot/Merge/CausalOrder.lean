import Cspot.Merge.Moves

/-!
# The order of causes in the global log

An event that has been checked stands in the log behind its cause, or its cause never comes:
what has been seen of the cause's host is past it and it is not pending.  The first event of
a host is not checked that way, and the walk goes by what has been seen only, so both can come
first.  With the events of each host logged in their order what has been seen is not pending.
-/

namespace Cspot.Merge

def eventId (ev : Event) : Nat × Nat := (ev.host, ev.seqNo)

def causeId (ev : Event) : Nat × Nat := (ev.causeHost, ev.causeSeqNo)

def gLogEvents (shape : Shape) : List Event → GLog → Exec GLog
  | [], gl => .ok gl
  | event :: rest, gl => do
      let logged ← gLogEvent shape gl event
      gLogEvents shape rest logged.2

def GLog.HasRoom (gl : GLog) : Prop := logFull gl.log = .ok false ∧ gl.pending.Room

def Throughout (P : GLog → Prop) (shape : Shape) : List Event → GLog → Prop
  | [], gl => P gl
  | event :: rest, gl =>
    P gl ∧ ∀ logged, gLogEvent shape gl event = .ok logged →
      Throughout P shape rest logged.2

def CausallyOrdered (log : List Event) : Prop :=
  ∀ i ev, log[i]? = some ev → causeId ev ≠ eventId ev → causeId ev ∈ log.map eventId →
    causeId ev ∈ (log.take i).map eventId

/-! ## The condition -/

def GLog.Seen (gl : GLog) (id : Nat × Nat) : Prop :=
  ∃ record, gl.hostList.host id.1 = some record ∧ id.2 ≤ record.maxSeen

def GLog.Holds (gl : GLog) (id : Nat × Nat) : Prop :=
  ∃ ev ∈ gl.pending.inOrder, eventId ev = id

/-- The cause is in the log, or it has been seen and is not pending. -/
def GLog.Settled (gl : GLog) (event : Event) : Prop :=
  causeId event ∈ gl.log.live.map eventId ∨
    (gl.Seen (causeId event) ∧ ¬ gl.Holds (causeId event))

/-- `later` waits for an event of the host of `earlier` that does not come before it. -/
def WaitsBehind (later earlier : Event) : Prop :=
  isAnchor later = false ∧ later.causeHost = earlier.host ∧ earlier.seqNo ≤ later.causeSeqNo

/-- The first event of a host has a cause that has been seen, and of two events of one host that
neither have been seen the later one waits behind the other. -/
structure KeepsHostOrder (gl : GLog) (event : Event) : Prop where
  host : event.host ≠ 0
  first : gl.hostList.host event.host = none → event.causeHost ≠ 0 →
    (gl.hostList.host event.causeHost).isSome → gl.Seen (causeId event)
  pending : ¬ gl.Seen (eventId event) → ∀ x ∈ gl.pending.inOrder, x.host = event.host →
    ¬ gl.Seen (eventId x) →
    (x.seqNo < event.seqNo → WaitsBehind event x) ∧ (event.seqNo < x.seqNo → WaitsBehind x event)

def CallsMeet (P : GLog → Event → Prop) (shape : Shape) : List Event → GLog → Prop
  | [], _ => True
  | event :: rest, gl =>
    P gl event ∧ ∀ logged, gLogEvent shape gl event = .ok logged →
      CallsMeet P shape rest logged.2

/-! ## The invariant -/

/-- The event is not in the log and cannot come into it. -/
def GLog.Never (gl : GLog) (id : Nat × Nat) : Prop :=
  id ∉ gl.log.live.map eventId ∧ (id.1 = 0 ∨ (gl.Seen id ∧ ¬ gl.Holds id))

structure Ordered (gl : GLog) : Prop where
  blank : gl.hostList.Blank
  horizon : ∀ id record, gl.hostList.host id = some record → record.eventHorizon = 0
  logged : ∀ ev ∈ gl.log.live, ev.host ≠ 0 ∧ gl.Seen (eventId ev)
  pending : ∀ ev ∈ gl.pending.inOrder, ev.host ≠ 0
  seen : ∀ ev ∈ gl.pending.inOrder, gl.Seen (eventId ev) → eventId ev ∈ gl.log.live.map eventId
  behind : ∀ x ∈ gl.pending.inOrder, ∀ y ∈ gl.pending.inOrder, x.host = y.host →
    x.seqNo < y.seqNo → gl.Seen (eventId x) ∨ WaitsBehind y x
  ordered : ∀ i ev, gl.log.live[i]? = some ev → causeId ev ≠ eventId ev →
    causeId ev ∈ (gl.log.live.take i).map eventId ∨ gl.Never (causeId ev)

theorem Ordered.causallyOrdered {gl : GLog} (h : Ordered gl) : CausallyOrdered gl.log.live := by
  intro i ev hev hne hmem
  rcases h.ordered i ev hev hne with hbefore | hnever
  · exact hbefore
  · exact absurd hmem hnever.1

theorem ordered_create (size : Nat) : Ordered (gLogCreate size) where
  blank := hostListCreate_blank
  horizon id record hhost := by
    obtain ⟨slot, -, rfl⟩ := Option.map_eq_some_iff.1 hhost
    rfl
  logged ev hev := by
    rw [gLogCreate, logCreate_live] at hev
    cases hev
  pending _ hev := by cases hev
  seen _ hev := by cases hev
  behind _ hx := by cases hx
  ordered i ev hev := by
    rw [gLogCreate, logCreate_live] at hev
    cases hev

section Append

variable {gl gl' : GLog} {ev : Event}

theorem Ordered.append (h : Ordered gl) (hblank : gl'.hostList.Blank)
    (hhorizon : ∀ id record, gl'.hostList.host id = some record → record.eventHorizon = 0)
    (hlive : gl'.log.live = gl.log.live ++ [ev]) (hhost : ev.host ≠ 0)
    (hseen : ∀ id, id.1 ≠ 0 → gl.Seen id → gl'.Seen id) (hnew : gl'.Seen (eventId ev))
    (hpending : gl'.pending.inOrder ⊆ gl.pending.inOrder)
    (hpassed : ∀ x ∈ gl'.pending.inOrder, gl'.Seen (eventId x) →
      gl.Seen (eventId x) ∨ eventId x = eventId ev)
    (hcan : ¬ gl.Never (eventId ev))
    (hcause : causeId ev ≠ eventId ev →
      causeId ev ∈ gl.log.live.map eventId ∨ gl.Never (causeId ev)) : Ordered gl' := by
  have hids (id : Nat × Nat) :
      id ∈ gl'.log.live.map eventId ↔ id ∈ gl.log.live.map eventId ∨ id = eventId ev := by
    rw [hlive, List.map_append, List.mem_append]
    simp
  have hnever (id : Nat × Nat) (hid : gl.Never id) : gl'.Never id := by
    refine ⟨?_, ?_⟩
    · rw [hids]
      rintro (hold | hlast)
      · exact hid.1 hold
      · exact hcan (hlast ▸ hid)
    · by_cases hzero : id.1 = 0
      · exact .inl hzero
      · obtain ⟨hold, hno⟩ := hid.2.resolve_left hzero
        refine .inr ⟨hseen id hzero hold, ?_⟩
        rintro ⟨x, hx, hxid⟩
        exact hno ⟨x, hpending hx, hxid⟩
  refine ⟨hblank, hhorizon, ?_, ?_, ?_, ?_, ?_⟩
  · intro x hx
    rw [hlive, List.mem_append, List.mem_singleton] at hx
    rcases hx with hx | rfl
    · obtain ⟨hne, hold⟩ := h.logged x hx
      exact ⟨hne, hseen _ hne hold⟩
    · exact ⟨hhost, hnew⟩
  · intro x hx
    exact h.pending x (hpending hx)
  · intro x hx hxseen
    rw [hids]
    exact (hpassed x hx hxseen).imp_left (h.seen x (hpending hx))
  · intro x hx y hy hsame hlt
    exact (h.behind x (hpending hx) y (hpending hy) hsame hlt).imp_left
      (hseen _ (h.pending x (hpending hx)))
  · intro i x hx hne
    rw [hlive] at hx ⊢
    rcases Nat.lt_or_ge i gl.log.live.length with hlt | hge
    · rw [List.getElem?_append_left hlt] at hx
      rw [List.take_append_of_le_length (Nat.le_of_lt hlt)]
      exact (h.ordered i x hx hne).imp_right (hnever _)
    · have hi : i = gl.log.live.length ∧ ev = x := by
        rw [List.getElem?_append_right hge, List.getElem?_singleton] at hx
        split at hx
        · exact ⟨by omega, by simpa using hx⟩
        · cases hx
      obtain ⟨rfl, rfl⟩ := hi
      rw [List.take_left]
      exact (hcause hne).imp_right (hnever _)

end Append

/-! ## The moves keep the order -/

section Moves

variable {gl gl' : GLog} {event : Event} {id : Nat × Nat} {hostId seqNo : Nat}

theorem GLog.Settled.before_or_never (h : gl.Settled event) :
    causeId event ∈ gl.log.live.map eventId ∨ gl.Never (causeId event) := by
  by_cases hmem : causeId event ∈ gl.log.live.map eventId
  · exact .inl hmem
  · exact .inr ⟨hmem, .inr (h.resolve_left hmem)⟩

theorem Ordered.never_zero (h : Ordered gl) (hid : id.1 = 0) : gl.Never id := by
  refine ⟨?_, .inl hid⟩
  intro hmem
  obtain ⟨ev, hev, rfl⟩ := List.mem_map.1 hmem
  exact (h.logged ev hev).1 hid

section

variable (h : NewHost gl.hostList hostId seqNo gl'.hostList)
include h

theorem NewHost.seen (hid : id.1 ≠ 0) (hseen : gl.Seen id) : gl'.Seen id := by
  obtain ⟨record, hrecord, hle⟩ := hseen
  have hne : id.1 ≠ hostId := by
    intro heq
    rw [heq, h.new] at hrecord
    cases hrecord
  exact ⟨record, (h.others id.1 hid hne).trans hrecord, hle⟩

theorem NewHost.seen_or_eq (hid : id.1 ≠ 0) (hseen : gl'.Seen id) :
    gl.Seen id ∨ id.1 = hostId := by
  by_cases hne : id.1 = hostId
  · exact .inr hne
  · obtain ⟨record, hrecord, hle⟩ := hseen
    exact .inl ⟨record, (h.others id.1 hid hne).symm.trans hrecord, hle⟩

theorem NewHost.seen_self : gl'.Seen (hostId, seqNo) := by
  obtain ⟨slot, -, hhost⟩ := h.host
  exact ⟨_, hhost, Nat.le_refl _⟩

theorem NewHost.not_never (n : Nat) : ¬ gl.Never (hostId, n) := by
  intro hnever
  obtain ⟨record, hrecord, -⟩ := (hnever.2.resolve_left h.ne_zero).1
  rw [h.new] at hrecord
  cases hrecord

theorem NewHost.horizon (hord : Ordered gl) :
    ∀ id record, gl'.hostList.host id = some record → record.eventHorizon = 0 := by
  intro id record hrecord
  by_cases hzero : id = 0
  · -- the record found for id zero is a free one
    subst hzero
    obtain ⟨slot, hfind, rfl⟩ := Option.map_eq_some_iff.1 hrecord
    rw [h.blank hord.blank slot (hostListFind_spec hfind).2]
  · by_cases hne : id = hostId
    · obtain ⟨slot, hfree, hhost⟩ := h.host
      rw [hne, hhost] at hrecord
      cases hrecord
      rw [hord.blank slot hfree]
    · rw [h.others id hzero hne] at hrecord
      exact hord.horizon id record hrecord

end

section

variable (h : Raises gl.hostList hostId seqNo gl'.hostList)
include h

theorem Raises.seen (hseen : gl.Seen id) : gl'.Seen id := by
  obtain ⟨record, hrecord, hle⟩ := hseen
  obtain ⟨old, hold, hhost⟩ := h.host
  by_cases heq : id.1 = hostId
  · rw [heq, hold, Option.some.injEq] at hrecord
    subst hrecord
    refine ⟨{ old with maxSeen := max old.maxSeen seqNo }, ?_, ?_⟩
    · rw [hhost, heq, Function.update_self]
    · exact Nat.le_trans hle (Nat.le_max_left _ _)
  · exact ⟨record, by rw [hhost, Function.update_of_ne heq, hrecord], hle⟩

theorem Raises.seen_or_le (hseen : gl'.Seen id) :
    gl.Seen id ∨ (id.1 = hostId ∧ id.2 ≤ seqNo) := by
  obtain ⟨record, hrecord, hle⟩ := hseen
  obtain ⟨old, hold, hhost⟩ := h.host
  by_cases heq : id.1 = hostId
  · rw [hhost, heq, Function.update_self, Option.some.injEq] at hrecord
    subst hrecord
    rcases le_max_iff.1 hle with hle | hle
    · exact .inl ⟨old, heq ▸ hold, hle⟩
    · exact .inr ⟨heq, hle⟩
  · rw [hhost, Function.update_of_ne heq] at hrecord
    exact .inl ⟨record, hrecord, hle⟩

theorem Raises.seen_self : gl'.Seen (hostId, seqNo) := by
  obtain ⟨old, -, hhost⟩ := h.host
  refine ⟨{ old with maxSeen := max old.maxSeen seqNo }, ?_, Nat.le_max_right _ _⟩
  rw [hhost, Function.update_self]

theorem Raises.horizon (hord : Ordered gl) :
    ∀ id record, gl'.hostList.host id = some record → record.eventHorizon = 0 := by
  intro id record hrecord
  obtain ⟨old, hold, hhost⟩ := h.host
  rw [hhost] at hrecord
  by_cases heq : id = hostId
  · rw [heq, Function.update_self] at hrecord
    cases hrecord
    exact hord.horizon hostId old hold
  · rw [Function.update_of_ne heq] at hrecord
    exact hord.horizon id record hrecord

end

theorem WaitsBehind.seen {later earlier : Event} (h : WaitsBehind later earlier)
    (hseen : gl.Seen (causeId later)) : gl.Seen (eventId earlier) := by
  obtain ⟨record, hrecord, hle⟩ := hseen
  exact ⟨record, (congrArg gl.hostList.host h.2.1).symm.trans hrecord, Nat.le_trans h.2.2 hle⟩

/-- A cause that has been seen is settled: if it is pending, it is in the log too. -/
theorem Ordered.settled_of_seen (h : Ordered gl) (hseen : gl.Seen (causeId event)) :
    gl.Settled event := by
  by_cases hholds : gl.Holds (causeId event)
  · obtain ⟨x, hx, hxid⟩ := hholds
    left
    rw [← hxid] at hseen ⊢
    exact h.seen x hx hseen
  · exact .inr ⟨hseen, hholds⟩

theorem Ordered.admits (h : Ordered gl) (hcoherent : gl.Coherent) (hadmits : Admits gl event gl')
    (hcause : event.causeHost ≠ 0 → gl.Settled event) (hroom : logFull gl'.log = .ok false) :
    Ordered gl' := by
  apply h.append (hadmits.hosts.blank h.blank) (hadmits.hosts.horizon h)
    (hadmits.log.live hroom).2 hadmits.hosts.ne_zero (fun id hid => hadmits.hosts.seen hid)
    hadmits.hosts.seen_self
  · rw [hadmits.pending]
    exact List.Subset.refl _
  · -- the host of a pending event is known, so it is not the new one
    intro x hx hxseen
    rw [hadmits.pending] at hx
    refine .inl ((hadmits.hosts.seen_or_eq (h.pending x hx) hxseen).resolve_right ?_)
    intro hsame
    have hknown := hcoherent.known_of_mem hx
    rw [show x.host = event.host from hsame, hadmits.hosts.new] at hknown
    cases hknown
  · exact hadmits.hosts.not_never _
  · intro _
    by_cases hzero : event.causeHost = 0
    · exact .inr (h.never_zero hzero)
    · exact (hcause hzero).before_or_never

theorem Ordered.meets (h : Ordered gl) (hcoherent : gl.Coherent) (hmeets : Meets gl event gl')
    (hroom : logFull gl'.log = .ok false) : Ordered gl' := by
  -- the stand-in for the cause is admitted, and has no cause itself
  have hadmits : Admits gl (firstEvent event.causeHost event.causeSeqNo) gl' :=
    ⟨hmeets.coherent, hmeets.hosts, hmeets.log, hmeets.pending⟩
  exact h.admits hcoherent hadmits (absurd rfl) hroom

theorem GLog.Unseen.not_seen (h : gl.Unseen event) : ¬ gl.Seen (eventId event) := by
  intro ⟨record, hrecord, hle⟩
  obtain ⟨old, hold, hlt⟩ := h
  rw [show (eventId event).1 = event.host from rfl, hold] at hrecord
  cases hrecord
  exact absurd hle (Nat.not_le_of_lt hlt)

theorem Ordered.waits (h : Ordered gl) (hwaits : Waits gl event gl')
    (hcall : KeepsHostOrder gl event) : Ordered gl' := by
  have hunseen := hwaits.unseen.not_seen
  have hseen (id : Nat × Nat) : gl'.Seen id ↔ gl.Seen id := by
    unfold GLog.Seen
    rw [hwaits.hosts]
  have hmem (x : Event) : x ∈ gl'.pending.inOrder ↔ x = event ∨ x ∈ gl.pending.inOrder := by
    rw [hwaits.pending.inOrder.mem_iff, List.mem_cons]
  refine ⟨?_, ?_, ?_, ?_, ?_, ?_, ?_⟩
  · rw [hwaits.hosts]
    exact h.blank
  · rw [hwaits.hosts]
    exact h.horizon
  · rw [hwaits.log]
    intro ev hev
    rw [hseen]
    exact h.logged ev hev
  · intro ev hev
    rcases (hmem ev).1 hev with rfl | hold
    · exact hcall.host
    · exact h.pending ev hold
  · intro ev hev hevseen
    rw [hseen] at hevseen
    rw [hwaits.log]
    rcases (hmem ev).1 hev with rfl | hold
    · exact absurd hevseen hunseen
    · exact h.seen ev hold hevseen
  · intro x hx y hy hsame hlt
    rw [hseen]
    by_cases hxseen : gl.Seen (eventId x)
    · exact .inl hxseen
    rcases (hmem x).1 hx with rfl | hxold
    · rcases (hmem y).1 hy with rfl | hyold
      · omega
      · -- an unseen event before `y`, so `y` has not been seen either
        have hyseen : ¬ gl.Seen (eventId y) := by
          intro ⟨record, hrecord, hle⟩
          exact hxseen ⟨record, (congrArg gl.hostList.host hsame).trans hrecord,
            Nat.le_trans (Nat.le_of_lt hlt) hle⟩
        exact .inr ((hcall.pending hunseen y hyold hsame.symm hyseen).2 hlt)
    · rcases (hmem y).1 hy with rfl | hyold
      · exact .inr ((hcall.pending hunseen x hxold hsame hxseen).1 hlt)
      · exact h.behind x hxold y hyold hsame hlt
  · intro i ev hev hne
    rw [hwaits.log] at hev ⊢
    refine (h.ordered i ev hev hne).imp_right ?_
    rintro ⟨hout, hno⟩
    refine ⟨by rwa [hwaits.log], hno.imp_right ?_⟩
    rintro ⟨hcause, hholds⟩
    refine ⟨(hseen _).2 hcause, ?_⟩
    -- the new pending event has not been seen, so it is not this cause
    rintro ⟨x, hx, hxid⟩
    rcases (hmem x).1 hx with rfl | hold
    · exact hunseen (hxid ▸ hcause)
    · exact hholds ⟨x, hold, hxid⟩

theorem Raises.passes {x : Event} (h : Raises gl.hostList event.host event.seqNo gl'.hostList)
    (hfront : x.host = event.host → x.seqNo < event.seqNo →
      gl.Seen (eventId x) ∨ (WaitsBehind event x ∧ gl.Seen (causeId event)))
    (hseen : gl'.Seen (eventId x)) : gl.Seen (eventId x) ∨ eventId x = eventId event := by
  rcases h.seen_or_le hseen with hold | ⟨hsame, hle⟩
  · exact .inl hold
  · rcases Nat.lt_or_eq_of_le hle with hlt | heq
    · rcases hfront hsame hlt with hold | ⟨hbehind, hcause⟩
      · exact .inl hold
      · exact .inl (hbehind.seen hcause)
    · exact .inr (Prod.ext hsame heq)

theorem Commits.seen_cause (h : Commits gl event gl') (hord : Ordered gl)
    (hanchor : isAnchor event = false) : gl.Seen (causeId event) := by
  rcases h.checked with hself | ⟨-, record, hrecord, hle⟩
  · rw [hanchor] at hself
    cases hself
  · have hzero := hord.horizon event.causeHost record hrecord
    exact ⟨record, hrecord, by show event.causeSeqNo ≤ record.maxSeen; omega⟩

theorem Ordered.commits (h : Ordered gl) (hcommits : Commits gl event gl')
    (hcall : KeepsHostOrder gl event) (hroom : logFull gl'.log = .ok false) : Ordered gl' := by
  apply h.append (hcommits.hosts.blank hcall.host h.blank) (hcommits.hosts.horizon h)
    (hcommits.log.live hroom).2 hcall.host (fun id _ => hcommits.hosts.seen)
    hcommits.hosts.seen_self hcommits.inOrder.subset
  · intro x hx
    apply hcommits.hosts.passes
    intro hsame hlt
    by_cases hxseen : gl.Seen (eventId x)
    · exact .inl hxseen
    · have hbehind := (hcall.pending hcommits.unseen.not_seen x (hcommits.inOrder.subset hx) hsame
        hxseen).1 hlt
      exact .inr ⟨hbehind, hcommits.seen_cause h hbehind.1⟩
  · intro hnever
    exact hcommits.unseen.not_seen (hnever.2.resolve_left hcall.host).1
  · intro hne
    have hanchor : isAnchor event = false := by
      rw [Bool.eq_false_iff]
      intro hself
      have heq : event.host = event.causeHost ∧ event.seqNo = event.causeSeqNo := by
        simpa [isAnchor] using hself
      exact hne (Prod.ext heq.1.symm heq.2.symm)
    exact (h.settled_of_seen (hcommits.seen_cause h hanchor)).before_or_never

theorem Ordered.releases (h : Ordered gl) (hreleases : Releases gl event gl')
    (hroom : logFull gl'.log = .ok false) : Ordered gl' := by
  have horder := hreleases.pending.inOrder
  have hheld : event ∈ gl.pending.inOrder := horder.mem_iff.2 List.mem_cons_self
  have hsub : gl'.pending.inOrder ⊆ gl.pending.inOrder :=
    fun x hx => horder.mem_iff.2 (List.mem_cons_of_mem _ hx)
  have hhost := h.pending event hheld
  apply h.append (hreleases.hosts.blank hhost h.blank) (hreleases.hosts.horizon h)
    (hreleases.log.live hroom).2 hhost (fun id _ => hreleases.hosts.seen)
    hreleases.hosts.seen_self hsub
  · intro x hx
    apply hreleases.hosts.passes
    intro hsame hlt
    exact (h.behind x (hsub hx) event hheld hsame hlt).imp_right fun hbehind =>
      ⟨hbehind, hreleases.seen⟩
  · intro hnever
    exact (hnever.2.resolve_left hhost).2 ⟨event, hheld, rfl⟩
  · intro _
    exact (h.settled_of_seen hreleases.seen).before_or_never

theorem KeepsHostOrder.met {gl₁ : GLog} (h : KeepsHostOrder gl event) (hmet : Met gl event gl₁)
    (hknown : gl₁.hostList.host event.host ≠ none) : KeepsHostOrder gl₁ event := by
  rcases hmet with ⟨-, rfl⟩ | hmeets
  · exact h
  · refine ⟨h.host, fun hnone => absurd hnone hknown, ?_⟩
    intro hunseen x hx hsame hxseen
    rw [hmeets.pending] at hx
    have hzero : x.host ≠ 0 := hsame ▸ h.host
    exact h.pending (fun hseen => hunseen (hmeets.hosts.seen h.host hseen)) x hx hsame
      (fun hseen => hxseen (hmeets.hosts.seen hzero hseen))

theorem KeepsHostOrder.settled_of_met {gl₁ : GLog} (h : KeepsHostOrder gl event)
    (hmet : Met gl event gl₁) (hord : Ordered gl₁) (hroom : logFull gl₁.log = .ok false)
    (hnew : gl₁.hostList.host event.host = none) (hzero : event.causeHost ≠ 0) :
    gl₁.Settled event := by
  rcases hmet with ⟨hknown, rfl⟩ | hmeets
  · exact hord.settled_of_seen (h.first hnew hzero hknown)
  · left
    rw [(hmeets.log.live hroom).2, List.map_append]
    exact List.mem_append_right _ List.mem_cons_self

theorem Met.coherent {gl₁ : GLog} (h : Met gl event gl₁) (hcoherent : gl.Coherent) :
    gl₁.Coherent := by
  rcases h with ⟨-, rfl⟩ | hmeets
  · exact hcoherent
  · exact hmeets.coherent

theorem GLog.Unseen.known (h : gl.Unseen event) : gl.hostList.host event.host ≠ none := by
  obtain ⟨record, hrecord, -⟩ := h
  rw [hrecord]
  exact Option.some_ne_none record

/-- A call that keeps the order of its host keeps the order of causes, as long as the ring does
not fill. -/
theorem gLogEvent_ordered {shape : Shape} (hcoherent : gl.Coherent)
    (hcall : KeepsHostOrder gl event) (hord : logFull gl.log = .ok false → Ordered gl) :
    ∃ err gl', gLogEvent shape gl event = .ok (err, gl') ∧ gl'.Coherent ∧
      (logFull gl'.log = .ok false → Ordered gl') := by
  apply gLogEvent_rule hcoherent
  · intro gl' hmeets h hroom
    exact (h (hmeets.log.live hroom).1).meets hcoherent hmeets hroom
  · intro gl₁ gl' hmet hadmits h hroom
    have hroom₁ := (hadmits.log.live hroom).1
    exact (h hroom₁).admits (hmet.coherent hcoherent) hadmits
      (hcall.settled_of_met hmet (h hroom₁) hroom₁ hadmits.hosts.new) hroom
  · intro gl₁ gl' hmet hwaits h hroom
    rw [hwaits.log] at hroom
    exact (h hroom).waits hwaits (hcall.met hmet hwaits.unseen.known)
  · intro gl₁ gl' hmet hcommits h hroom
    exact (h (hcommits.log.live hroom).1).commits hcommits
      (hcall.met hmet hcommits.unseen.known) hroom
  · intro gl₁ gl' ev _ hreleases h hroom
    exact (h (hreleases.log.live hroom).1).releases hreleases hroom
  · exact hord

end Moves

/-! ## Runs -/

theorem gLogEvents_ordered {shape : Shape} {events : List Event} {gl : GLog}
    (hcoherent : gl.Coherent) (hcalls : CallsMeet KeepsHostOrder shape events gl)
    (hord : logFull gl.log = .ok false → Ordered gl) :
    ∃ gl', gLogEvents shape events gl = .ok gl' ∧
      (logFull gl'.log = .ok false → Ordered gl') := by
  induction events generalizing gl with
  | nil => exact ⟨gl, rfl, hord⟩
  | cons event rest ih =>
    obtain ⟨hfirst, hrest⟩ := hcalls
    obtain ⟨err, gl₁, heq, hcoherent₁, hord₁⟩ := gLogEvent_ordered hcoherent hfirst hord
    obtain ⟨gl', heq', hord'⟩ := ih hcoherent₁ (hrest _ heq) hord₁
    refine ⟨gl', ?_, hord'⟩
    rw [gLogEvents, heq]
    exact heq'

/-- In every run of `GLogEvent` calls on a new global log that keep the order of each host, and
whose ring has not filled, a cause stands before its event. -/
theorem gLogEvents_causallyOrdered (shape : Shape) {size : Nat} (hsize : 0 < size)
    (hlt : size < Word.modulus) (events : List Event)
    (hcalls : CallsMeet KeepsHostOrder shape events (gLogCreate size)) :
    ∃ gl, gLogEvents shape events (gLogCreate size) = .ok gl ∧
      (logFull gl.log = .ok false → CausallyOrdered gl.log.live) := by
  obtain ⟨gl, heq, hord⟩ := gLogEvents_ordered (gLogCreate_coherent hsize hlt) hcalls
    fun _ => ordered_create size
  exact ⟨gl, heq, fun hroom => (hord hroom).causallyOrdered⟩

def appended (host seqNo causeHost causeSeqNo : Nat) : Event :=
  { eventSetCause (eventCreate .append host) causeHost causeSeqNo with seqNo := seqNo }

def firstMet : Shape := fun _ => 0

/-- The fifth event releases the third, which has been waiting for it, and that the fourth. -/
theorem gLogEvents_causallyOrdered_released :
    ∃ gl, gLogEvents firstMet [appended 1 1 1 1, appended 2 1 1 1, appended 2 2 1 2,
      appended 2 3 2 2, appended 1 2 1 1] (gLogCreate 16) = .ok gl ∧
      (logFull gl.log = .ok false → CausallyOrdered gl.log.live) := by
  apply gLogEvents_causallyOrdered firstMet (by decide) (by decide)
  refine ⟨⟨by decide, ?_, ?_⟩, ?_⟩
  · intro _ _ hknown
    cases hknown
  · intro _ x hx
    cases hx
  intro _ hlogged
  cases hlogged
  refine ⟨⟨by decide, fun _ _ _ => ⟨_, rfl, by decide⟩, ?_⟩, ?_⟩
  · intro _ x hx
    cases hx
  intro _ hlogged
  cases hlogged
  refine ⟨⟨by decide, ?_, ?_⟩, ?_⟩
  · intro hnew
    cases hnew
  · intro _ x hx
    cases hx
  intro _ hlogged
  cases hlogged
  refine ⟨⟨by decide, ?_, ?_⟩, ?_⟩
  · intro hnew
    cases hnew
  · intro _ x hx _ _
    obtain rfl : x = appended 2 2 1 2 := List.mem_singleton.1 hx
    exact ⟨fun _ => ⟨by decide, by decide, by decide⟩, fun hlt => absurd hlt (by decide)⟩
  intro _ hlogged
  cases hlogged
  refine ⟨⟨by decide, ?_, ?_⟩, fun _ _ => trivial⟩
  · intro hnew
    cases hnew
  · -- the pending events are of the other host
    intro _ x hx hsame
    have hx : x ∈ [appended 2 2 1 2, appended 2 3 2 2] := hx
    simp only [List.mem_cons, List.not_mem_nil, or_false] at hx
    rcases hx with rfl | rfl <;> exact absurd hsame (by decide)

/-- The first event of host 2 is logged though its cause has not been seen; the cause comes
behind it. -/
theorem first_event_before_its_cause :
    ∃ gl, gLogEvents firstMet [appended 1 1 1 1, appended 2 1 1 5, appended 1 5 1 1]
        (gLogCreate 16) = .ok gl ∧
      Throughout GLog.HasRoom firstMet [appended 1 1 1 1, appended 2 1 1 5, appended 1 5 1 1]
        (gLogCreate 16) ∧
      ¬ CausallyOrdered gl.log.live := by
  have hroom (i : Nat) (hi : i < 80) {gl : GLog} (hsize : gl.pending.size = 80)
      (hfree : (gl.pending.events i).seqNo = 0) : gl.pending.Room := ⟨i, hsize ▸ hi, hfree⟩
  refine ⟨_, rfl, ?_, ?_⟩
  · refine ⟨⟨rfl, hroom 0 (by decide) rfl rfl⟩, ?_⟩
    intro _ hlogged
    cases hlogged
    refine ⟨⟨rfl, hroom 0 (by decide) rfl rfl⟩, ?_⟩
    intro _ hlogged
    cases hlogged
    refine ⟨⟨rfl, hroom 0 (by decide) rfl rfl⟩, ?_⟩
    intro _ hlogged
    cases hlogged
    exact ⟨rfl, hroom 0 (by decide) rfl rfl⟩
  · intro hordered
    have hbefore := hordered 1 (appended 2 1 1 5) rfl (by decide) (by decide)
    exact absurd hbefore (by decide)

/-- The walk goes by what has been seen of host 2 and logs event 2 of host 3 while its cause,
event 2 of host 2, is still pending. -/
example : (gLogEvents firstMet [appended 1 1 1 1, appended 2 1 2 1, appended 3 1 3 1,
    appended 2 2 1 5, appended 3 2 2 2, appended 2 3 2 1, appended 3 4 1 2, appended 1 2 1 1,
    appended 1 5 1 1] (gLogCreate 16)).map (fun gl => gl.log.live.map eventId) =
    .ok [(1, 1), (2, 1), (3, 1), (2, 3), (1, 2), (3, 4), (3, 2), (1, 5), (2, 2)] := by
  rfl

end Cspot.Merge
