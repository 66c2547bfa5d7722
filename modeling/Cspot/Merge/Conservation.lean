import Cspot.Merge.PendingCalls
import Cspot.Merge.Termination

/-!
# What becomes of pending events

An event leaves the pending list for the log.  When the horizon has passed its cause it is
taken off the list and submitted again, and if another event of its host has been logged in the
meantime it is taken for one that has been seen: it is then neither pending nor in the log.
-/

namespace Cspot.Merge

/-! ## Calls -/

inductive Call
  | event (ev : Event)
  | fastForward (hostId : Nat)
  | importTail (ll : Log)

def Call.run (shape : Shape) (gl : GLog) : Call → Exec (Int × GLog)
  | .event ev => gLogEvent shape gl ev
  | .fastForward hostId => gLogFastForward shape gl hostId
  | .importTail ll => importLogTail shape gl ll

def Call.Legal : Call → Prop
  | .importTail ll => LocalLog ll
  | _ => True

/-- An event with this host and number is pending or in the log. -/
def GLog.Has (gl : GLog) (id : Nat × Nat) : Prop := gl.Holds id ∨ id ∈ gl.log.live.map eventId

/-- These events are pending or in the log, unless the ring has filled. -/
def GLog.Keeps (gl : GLog) (ids : Set (Nat × Nat)) : Prop :=
  logFull gl.log = .ok false → ∀ id ∈ ids, gl.Has id

/-- A key has room for host and number. -/
def Keyed (event : Event) : Prop := event.host < 2 ^ 32 ∧ event.seqNo < 2 ^ 32

/-- A pending event that waits for the host is above what has been seen of its own host, and is
the only pending event of that. -/
def GLog.Lone (gl : GLog) (hostId : Nat) : Prop :=
  ∀ x ∈ gl.pending.inOrder, x.causeHost = hostId →
    gl.Unseen x ∧ ∀ y ∈ gl.pending.inOrder, y.host = x.host → y = x

/-- What keeps a call from losing events: keys that tell them apart, and no event that could be
overtaken by another one of its host where the horizon is resolved. -/
def Call.Spares (gl : GLog) : Call → Prop
  | .event ev => Keyed ev
  | .fastForward hostId => gl.Lone hostId
  | .importTail ll => (∀ slot ev, ll.events slot = some ev → Keyed ev) ∧ gl.Lone ll.hostId

/-! ## The moves -/

theorem mem_inOrder_iff {pending : Pending} (h : pending.Coherent) {event : Event} :
    event ∈ pending.inOrder ↔ pending.waiting (eventKey event) = some event := by
  rw [h.waiting_eq_some, Pending.inOrder, List.mem_map]
  constructor
  · rintro ⟨node, hmem, rfl⟩
    exact ⟨node.2, (h.alive node hmem).2.2 ▸ hmem, rfl⟩
  · rintro ⟨slot, hmem, heq⟩
    exact ⟨_, hmem, heq⟩

theorem Pending.Removes.mem_iff {pending pending' : Pending} {event x : Event}
    (h : pending.Removes event pending') :
    x ∈ pending.inOrder ↔ x = event ∨ x ∈ pending'.inOrder := by
  rw [h.inOrder.mem_iff, List.mem_cons]

theorem Pending.Removes.notMem {pending pending' : Pending} {event : Event}
    (h : pending.Removes event pending') : event ∉ pending'.inOrder := by
  rw [mem_inOrder_iff h.coherent, h.waiting, Function.update_self]
  exact Option.some_ne_none event ∘ Eq.symm

theorem Keyed.eventId_eq {x y : Event} (hx : Keyed x) (hy : Keyed y)
    (hkey : eventKey x = eventKey y) : eventId x = eventId y := by
  obtain ⟨hhost, hseq⟩ := (indexKey_eq_iff hx.2 hy.2).1 hkey
  rw [Nat.mod_eq_of_lt hx.1, Nat.mod_eq_of_lt hy.1] at hhost
  exact Prod.ext hhost hseq

/-- The invariant of all calls. -/
structure GLog.Carries (gl : GLog) (ids : Set (Nat × Nat)) : Prop where
  keyed : ∀ x ∈ gl.pending.inOrder, Keyed x
  keeps : gl.Keeps ids

section Moves

variable {gl gl' : GLog} {event : Event} {ids : Set (Nat × Nat)} {hostId : Nat} {shape : Shape}

theorem GLog.Keeps.grow (h : gl.Keeps ids) (hlog : gl'.log = gl.log)
    (hpending : ∀ x ∈ gl.pending.inOrder, gl'.Holds (eventId x)) : gl'.Keeps ids := by
  intro hroom id hid
  rw [hlog] at hroom
  rcases h hroom id hid with ⟨x, hx, rfl⟩ | hlogged
  · exact .inl (hpending x hx)
  · right
    rwa [hlog]

theorem GLog.Keeps.append (h : gl.Keeps ids) (hlog : Appends gl.log event gl'.log)
    (hpending : ∀ x ∈ gl.pending.inOrder, gl'.Holds (eventId x) ∨ eventId x = eventId event) :
    gl'.Keeps ids := by
  intro hroom id hid
  obtain ⟨hbefore, hlive⟩ := hlog.live hroom
  have hids : gl'.log.live.map eventId = gl.log.live.map eventId ++ [eventId event] := by
    rw [hlive, List.map_append, List.map_singleton]
  rcases h hbefore id hid with ⟨x, hx, rfl⟩ | hlogged
  · refine (hpending x hx).imp_right fun heq => ?_
    rw [hids, heq]
    exact List.mem_append_right _ (List.mem_singleton_self _)
  · right
    rw [hids]
    exact List.mem_append_left _ hlogged

theorem Commits.holds_or_eq (h : Commits gl event gl') (hgl : gl.Coherent)
    (hkeyed : ∀ x ∈ gl.pending.inOrder, Keyed x) (hevent : Keyed event) {x : Event}
    (hx : x ∈ gl.pending.inOrder) : gl'.Holds (eventId x) ∨ eventId x = eventId event := by
  by_cases hanchor : isAnchor event = true ∧ eventKey x = eventKey event
  · exact .inr ((hkeyed x hx).eventId_eq hevent hanchor.2)
  · left
    refine ⟨x, (mem_inOrder_iff h.coherent.pending).2 ?_, rfl⟩
    rw [mem_inOrder_iff hgl.pending] at hx
    rw [h.waiting]
    split
    · rename_i hself
      rwa [Function.update_of_ne fun heq => hanchor ⟨hself, heq⟩]
    · exact hx

theorem GLog.Carries.releases (h : gl.Carries ids) (hreleases : Releases gl event gl') :
    gl'.Carries ids where
  keyed x hx := h.keyed x (hreleases.pending.mem_iff.2 (.inr hx))
  keeps := by
    refine h.keeps.append hreleases.log fun x hx => ?_
    rcases hreleases.pending.mem_iff.1 hx with rfl | hstays
    · exact .inr rfl
    · exact .inl ⟨x, hstays, rfl⟩

theorem submitKeeps_carries (shape : Shape) (ids : Set (Nat × Nat)) :
    SubmitKeeps shape Keyed fun gl => gl.Carries ids := by
  intro gl event err gl' hgl hevent hcall h
  -- what is pending stays so while an event is admitted or met
  have hadmits {gl₁ gl' : GLog} {ev : Event} (hlog : Appends gl₁.log ev gl'.log)
      (hsame : gl'.pending = gl₁.pending) (h₁ : gl₁.Carries ids) : gl'.Carries ids := by
    refine ⟨hsame ▸ h₁.keyed, h₁.keeps.append hlog fun x hx => .inl ⟨x, ?_, rfl⟩⟩
    rwa [hsame]
  obtain ⟨err', gl'', hcall', -, h'⟩ := gLogEvent_rule (I := fun gl => gl.Carries ids) hgl
    (fun _ hmeets => hadmits hmeets.log hmeets.pending)
    (fun _ _ _ hadmitted => hadmits hadmitted.log hadmitted.pending)
    (fun gl₁ gl' _ hwaits h₁ => by
      have hmem (x : Event) : x ∈ gl'.pending.inOrder ↔ x = event ∨ x ∈ gl₁.pending.inOrder := by
        rw [hwaits.pending.inOrder.mem_iff, List.mem_cons]
      refine ⟨fun x hx => ?_, h₁.keeps.grow hwaits.log fun x hx => ⟨x, (hmem x).2 (.inr hx), rfl⟩⟩
      rcases (hmem x).1 hx with rfl | hold
      · exact hevent
      · exact h₁.keyed x hold)
    (fun gl₁ gl' hmet hcommits h₁ =>
      ⟨fun x hx => h₁.keyed x (hcommits.inOrder.subset hx), h₁.keeps.append hcommits.log
        fun x hx => hcommits.holds_or_eq (hmet.coherent hgl) h₁.keyed hevent hx⟩)
    (fun _ _ _ _ hreleases h₁ => h₁.releases hreleases) h
  cases hcall.symm.trans hcall'
  exact h'

/-! ## The fast forward -/

theorem Raises.unseen {seqNo : Nat} {x : Event} (h : Raises gl.hostList hostId seqNo gl'.hostList)
    (hne : x.host ≠ hostId) (hx : gl.Unseen x) : gl'.Unseen x := by
  obtain ⟨record, hrecord, hlt⟩ := hx
  obtain ⟨old, -, hhost⟩ := h.host
  exact ⟨record, by rw [hhost, Function.update_of_ne hne, hrecord], hlt⟩

theorem GLog.Lone.leaves {seqNo : Nat} (h : gl.Lone hostId) (hevent : event ∈ gl.pending.inOrder)
    (hout : event ∉ gl'.pending.inOrder) (hsub : gl'.pending.inOrder ⊆ gl.pending.inOrder)
    (hhosts : Raises gl.hostList event.host seqNo gl'.hostList) : gl'.Lone hostId := by
  intro x hx hcause
  obtain ⟨hunseen, halone⟩ := h x (hsub hx) hcause
  refine ⟨hhosts.unseen ?_ hunseen, fun y hy => halone y (hsub hy)⟩
  intro hsame
  exact hout (halone event hevent hsame.symm ▸ hx)

theorem GLog.Lone.waits {pending : Pending} {again : Event} (h : gl.Lone hostId)
    (hcause : event.causeHost = hostId) (hremoves : gl.pending.Removes event pending)
    (hwaits : Waits { gl with pending := pending } again gl')
    (hhost : again.host = event.host) : gl'.Lone hostId := by
  have hevent : event ∈ gl.pending.inOrder := hremoves.mem_iff.2 (.inl rfl)
  have hmem (x : Event) : x ∈ gl'.pending.inOrder ↔ x = again ∨ x ∈ pending.inOrder := by
    rw [hwaits.pending.inOrder.mem_iff, List.mem_cons]
  have hunseen (x : Event) (hx : gl.Unseen x) : gl'.Unseen x := by
    obtain ⟨record, hrecord, hlt⟩ := hx
    exact ⟨record, by rwa [hwaits.hosts], hlt⟩
  intro x hx hxcause
  rcases (hmem x).1 hx with rfl | hxold
  · refine ⟨hunseen x hwaits.unseen, fun y hy hsame => ?_⟩
    rcases (hmem y).1 hy with rfl | hyold
    · rfl
    · have heq := (h event hevent hcause).2 y (hremoves.mem_iff.2 (.inr hyold))
        (hsame.trans hhost)
      exact absurd (heq ▸ hyold) hremoves.notMem
  · obtain ⟨hxunseen, halone⟩ := h x (hremoves.mem_iff.2 (.inr hxold)) hxcause
    refine ⟨hunseen x hxunseen, fun y hy hsame => ?_⟩
    rcases (hmem y).1 hy with rfl | hyold
    · have heq := halone event hevent (hhost.symm.trans hsame)
      exact absurd (heq ▸ hxold) hremoves.notMem
    · exact halone y (hremoves.mem_iff.2 (.inr hyold)) hsame

theorem gLogEvent_accepts {I : GLog → Prop} (hgl : gl.Coherent)
    (hcause : (gl.hostList.host event.causeHost).isSome) (hunseen : gl.Unseen event)
    (hfresh : gl.pending.waiting (eventKey event) = none) (hroom : gl.pending.Room)
    (wait : ∀ gl', Waits gl event gl' → I gl') (commit : ∀ gl', Commits gl event gl' → I gl')
    (release : ∀ gl gl' ev, gl.Coherent → Releases gl ev gl' → I gl → I gl') :
    ∃ err gl', gLogEvent shape gl event = .ok (err, gl') ∧ I gl' := by
  unfold gLogEvent
  rcases gLogSubmit_outcome hgl shape event with ⟨hnone, -, -⟩ | ⟨gl₁, result, hmet, heq, hout⟩
  · rw [hnone] at hcause
    cases hcause
  · obtain rfl := hmet.eq_of_isSome hcause
    cases hout with
    | noRoom hnew _ => exact absurd hnew hunseen.known
    | admitted hadmits => exact absurd hadmits.hosts.new hunseen.known
    | stale hhost hold => exact absurd ⟨_, hhost, hold⟩ hunseen.not_seen
    | refused _ _ hwhy =>
      rcases hwhy with hheld | hfull
      · exact absurd hfresh hheld
      · exact absurd hroom hfull
    | waits hwaits => exact ⟨1, _, by rw [heq]; rfl, wait _ hwaits⟩
    | committed hcommits hthis =>
      obtain ⟨gl', hwalked, -, hI⟩ := gLogWalk_rule release hcommits.coherent hthis
        (Nat.le_of_eq (List.length_map _)) (commit _ hcommits)
      exact ⟨1, gl', by rw [heq]; exact hwalked, hI⟩

theorem passKeeps_carries (shape : Shape) (hostId : Nat) (ids : Set (Nat × Nat)) :
    PassKeeps shape hostId fun gl => gl.Carries ids ∧ gl.Lone hostId := by
  intro gl remoteHost node err gl' hgl hfind hnode hcall ⟨hcarries, hlone⟩
  obtain ⟨hcause, -, pending, hremoves, hresolve⟩ := logResolveHorizon_eq hgl shape hfind hnode
  generalize gl.pending.events node.2 = event at *
  have hid := (hostListFind_spec hfind).2
  have hevent : event ∈ gl.pending.inOrder := hremoves.mem_iff.2 (.inl rfl)
  have hsub : pending.inOrder ⊆ gl.pending.inOrder := fun x hx => hremoves.mem_iff.2 (.inr hx)
  have hagain : Keyed (horizonEvent event (gl.hostList.hash remoteHost)) :=
    hcarries.keyed event hevent
  have hlogged : ∃ err gl', gLogEvent shape { gl with pending := pending }
      (horizonEvent event (gl.hostList.hash remoteHost)) = .ok (err, gl') ∧
        gl'.Carries ids ∧ gl'.Lone hostId := by
    apply gLogEvent_accepts (hgl.of_removes hremoves)
    · show (gl.hostList.host (gl.hostList.hash remoteHost).hostId).isSome
      rw [hid, host_of_find hfind]
      rfl
    · exact (hlone event hevent hcause).1
    · show pending.waiting (eventKey event) = none
      rw [hremoves.waiting, Function.update_self]
    · exact hremoves.room
    · intro gl' hwaits
      have hmem (x : Event) : x ∈ gl'.pending.inOrder ↔
          x = horizonEvent event (gl.hostList.hash remoteHost) ∨ x ∈ pending.inOrder := by
        rw [hwaits.pending.inOrder.mem_iff, List.mem_cons]
      refine ⟨⟨fun x hx => ?_, hcarries.keeps.grow hwaits.log fun x hx => ?_⟩,
        hlone.waits hcause hremoves hwaits rfl⟩
      · rcases (hmem x).1 hx with rfl | hold
        · exact hagain
        · exact hcarries.keyed x (hsub hold)
      · rcases hremoves.mem_iff.1 hx with rfl | hold
        · exact ⟨_, (hmem _).2 (.inl rfl), rfl⟩
        · exact ⟨x, (hmem x).2 (.inr hold), rfl⟩
    · intro gl' hcommits
      have hrest := hcommits.inOrder.subset
      refine ⟨⟨fun x hx => hcarries.keyed x (hsub (hrest hx)),
        hcarries.keeps.append hcommits.log fun x hx => ?_⟩,
        hlone.leaves hevent (fun hin => hremoves.notMem (hrest hin)) (fun x hx => hsub (hrest hx))
          hcommits.hosts⟩
      rcases hremoves.mem_iff.1 hx with rfl | hold
      · exact .inr rfl
      · exact hcommits.holds_or_eq (hgl.of_removes hremoves)
          (fun x hx => hcarries.keyed x (hsub hx)) hagain hold
    · intro gl gl' ev _ hreleases ⟨hcarries, hlone⟩
      exact ⟨hcarries.releases hreleases, hlone.leaves (hreleases.pending.mem_iff.2 (.inl rfl))
        hreleases.pending.notMem (fun x hx => hreleases.pending.mem_iff.2 (.inr hx))
        hreleases.hosts⟩
  obtain ⟨err', gl'', heq, h''⟩ := hlogged
  rw [hcall, heq] at hresolve
  cases hresolve
  exact h''

theorem GLog.Lone.setEventHorizon (h : gl.Lone hostId) (slot seqNo : Nat) :
    GLog.Lone { gl with hostList := gl.hostList.setEventHorizon slot seqNo } hostId := by
  intro x hx hcause
  obtain ⟨⟨record, hrecord, hlt⟩, halone⟩ := h x hx hcause
  obtain ⟨i, hfind, rfl⟩ := Option.map_eq_some_iff.1 hrecord
  refine ⟨⟨_, host_of_find ((hostListFind_setEventHorizon slot seqNo x.host).trans hfind), ?_⟩,
    halone⟩
  by_cases hi : i = slot
  · subst hi
    simpa [HostList.setEventHorizon] using hlt
  · simpa [HostList.setEventHorizon, hi] using hlt

end Moves

/-! ## Calls -/

def thirdOnly : Log :=
  (((logCreate 1 2).record (appended 1 0 1 1)).record (appended 1 0 1 1)).record
    (appended 1 0 1 1)

theorem localLog_thirdOnly : LocalLog thirdOnly := by
  have hcreate := LocalLog.create 1 (show 2 < Word.modulus by decide)
  have hfirst := @LocalLog.event _ _ (appended 1 0 1 1) _ hcreate (by decide) rfl
  have hsecond := @LocalLog.event _ _ (appended 1 0 1 1) _ hfirst (by decide) rfl
  exact @LocalLog.event _ _ (appended 1 0 1 1) _ hsecond (by decide) rfl

theorem keyed_thirdOnly (slot : Nat) (ev : Event) (hev : thirdOnly.events slot = some ev) :
    Keyed ev := by
  have hslots : thirdOnly.events = Function.update (Function.update (Function.update
      (fun _ => none) 1 (some (appended 1 1 1 1))) 0 (some (appended 1 2 1 1))) 1
      (some (appended 1 3 1 1)) := rfl
  rw [hslots] at hev
  by_cases hone : slot = 1
  · subst hone
    cases hev
    exact ⟨by decide, by decide⟩
  · by_cases hzero : slot = 0
    · subst hzero
      cases hev
      exact ⟨by decide, by decide⟩
    · simp [hone, hzero] at hev

end Cspot.Merge
