import Cspot.Runtime.Forker

/-!
# Firing records

A claim section logs a TRIGGER_FIRING record with the slot of the trigger as its cause, and a
walk through the log looks for the numbers of the triggers among these causes.  Slot and number
are the same until the log wraps.  Until then every record names its trigger, and also a forker
that was woken for nothing, and walks through the whole log, claims no trigger twice.
-/

namespace Cspot

/-! ## Runs with any wakeups -/

/-- A TRIGGER_FIRING record as it was logged, and what was in the slot it claims. -/
structure Firing where
  record : Event
  claimed : Option Event
deriving Repr, DecidableEq

/-- The log with its threads: the appenders that have to post, the forkers that came through
`tail_wait`, and the firings so far. -/
structure Forking where
  log : Log
  tCache : RB Nat
  pending : Nat
  awake : Nat
  firings : List Firing

def Forking.start (hostId size : Nat) : Forking where
  log := logCreate hostId size
  tCache := []
  pending := 0
  awake := 0
  firings := []

/-- One action of one thread: an event other than a firing is logged, an appender posts,
`WooFShutdown` posts, a forker comes through `tail_wait`, or it claims. -/
inductive ForkAction
  | logged (ev : Event)
  | post
  | shutdown
  | wait
  | claim (fuel : Nat)

section Steps

variable (nameId : Nat) (wooFNamespace : Bytes)

def Forking.firing (d : Forking) (slot : Nat) : Firing where
  record := { firingEvent nameId wooFNamespace slot with seqNo := d.log.seqNo }
  claimed := d.log.events slot

/-- `none` when the thread cannot go on. -/
def Forking.step (d : Forking) : ForkAction → Option Forking
  | .logged ev =>
    if ev.type = .triggerFiring then none
    else match logEvent d.log ev with
      | .error _ => none
      | .ok (_, log) => some { d with
          log := log
          pending := if ev.type = .trigger then d.pending + 1 else d.pending }
  | .post =>
    if d.pending = 0 then none
    else some { d with
      log := { d.log with tailWait := semV d.log.tailWait }
      pending := d.pending - 1 }
  | .shutdown =>
    -- `WooFShutdown` stops when it sees a positive value
    if 0 < d.log.tailWait then none
    else some { d with log := { d.log with tailWait := semV d.log.tailWait } }
  | .wait =>
    match semP d.log.tailWait with
    | .error _ => none
    | .ok tailWait => some { d with
        log := { d.log with tailWait := tailWait }
        awake := d.awake + 1 }
  | .claim fuel =>
    if d.awake = 0 then none
    else match wooFForkerClaim nameId wooFNamespace fuel d.log d.tCache with
      | some (.ok (slot, log, tCache)) => some { d with
          log := log
          tCache := tCache
          awake := d.awake - 1
          firings := d.firings ++ (slot.map (d.firing nameId wooFNamespace)).toList }
      | _ => none

/-- A run whose actions are all taken in states with `P`. -/
def Forking.run (P : Forking → Prop) [DecidablePred P] : List ForkAction → Forking →
    Option Forking
  | [], d => some d
  | action :: actions, d =>
    if P d then (d.step nameId wooFNamespace action).bind (run P actions) else none

end Steps

/-! ## What firing records are to tell -/

/-- The record names the trigger it claims. -/
def Firing.Identifies (f : Firing) : Prop :=
  ∃ ev, f.claimed = some ev ∧ ev.type = .trigger ∧ f.record.causeSeqNo = ev.seqNo

/-- Every record names its trigger, and no trigger was claimed twice. -/
structure Forking.Identified (d : Forking) : Prop where
  cause : ∀ f ∈ d.firings, f.Identifies
  once : (d.firings.map fun f => f.claimed.map Event.seqNo).Nodup

/-- The next event does not go over another one, and its number is an `int`. -/
def Forking.Unwrapped (d : Forking) : Prop := d.log.seqNo < d.log.size ∧ d.log.seqNo < 2 ^ 31

instance : DecidablePred Forking.Unwrapped := fun d =>
  inferInstanceAs (Decidable (d.log.seqNo < d.log.size ∧ d.log.seqNo < 2 ^ 31))

/-! ## The invariant -/

namespace Forking

/-- A trigger in the slot of its number that no record names. -/
structure Open (d : Forking) (t : Nat) : Prop where
  pos : 0 < t
  lt : t < d.log.seqNo
  trigger : ∃ ev, d.log.events t = some ev ∧ ev.type = .trigger ∧ ev.seqNo = t
  unclaimed : ∀ f ∈ d.firings, f.record.causeSeqNo ≠ t

/-- A firing, with its record in the log behind the trigger. -/
structure Recorded (d : Forking) (f : Firing) : Prop where
  identifies : f.Identifies
  type : f.record.type = .triggerFiring
  after : f.record.causeSeqNo < f.record.seqNo
  lt : f.record.seqNo < d.log.seqNo
  inLog : d.log.events f.record.seqNo = some f.record

/-- The nodes of the cache for open triggers, in the order of their numbers. -/
def Caches (d : Forking) (low : Nat) (tCache : RB Nat) (ts : List Nat) : Prop :=
  tCache = ts.map (fun t : Nat => ((t : Int), t)) ∧ ts.Pairwise (· < ·) ∧
    ∀ t ∈ ts, low < t ∧ d.Open t

structure Inv (d : Forking) : Prop where
  mutex : d.log.mutex = 1
  numbered : d.log.Numbered
  size : d.log.seqNo ≤ d.log.size
  number : d.log.seqNo ≤ 2 ^ 31
  held : ∀ s, 0 < s → s < d.log.seqNo → ∃ ev, d.log.events s = some ev ∧ ev.seqNo = s
  recorded : ∀ f ∈ d.firings, d.Recorded f
  once : (d.firings.map fun f => f.record.causeSeqNo).Nodup
  cached : ∃ ts, d.Caches 0 d.tCache ts

theorem start_inv (hostId : Nat) {size : Nat} (hsize : 0 < size) : (start hostId size).Inv where
  mutex := rfl
  numbered := logCreate_numbered hostId hsize
  size := hsize
  number := (by decide : 1 ≤ 2 ^ 31)
  held s hpos hlt := by
    simp only [start, logCreate] at hlt
    omega
  recorded f hf := nomatch hf
  once := .nil
  cached := ⟨[], rfl, .nil, by simp⟩

theorem Inv.identified {d : Forking} (h : d.Inv) : d.Identified where
  cause f hf := (h.recorded f hf).identifies
  once := by
    have hsame : d.firings.map (fun f => f.claimed.map Event.seqNo) =
        (d.firings.map fun f => f.record.causeSeqNo).map some := by
      rw [List.map_map]
      refine List.map_congr_left fun f hf => ?_
      obtain ⟨ev, hev, -, hcause⟩ := (h.recorded f hf).identifies
      simp [hev, hcause]
    rw [hsame]
    exact h.once.map (Option.some_injective _)

section Record

variable {d : Forking} {s t awake : Nat} {d' : Forking}

theorem Unwrapped.events_record_new (hun : d.Unwrapped) (ev : Event) :
    (d.log.record ev).events d.log.seqNo = some { ev with seqNo := d.log.seqNo } := by
  simp [Log.record, Nat.mod_eq_of_lt hun.1]

theorem Unwrapped.events_record_old (hun : d.Unwrapped) (ev : Event) (hs : s < d.log.seqNo) :
    (d.log.record ev).events s = d.log.events s := by
  simp only [Log.record, Nat.mod_eq_of_lt hun.1]
  exact Function.update_of_ne (Nat.ne_of_lt hs) _ _

theorem Inv.held_record (h : d.Inv) (hun : d.Unwrapped) (ev : Event) (hpos : 0 < s)
    (hs : s < d.log.seqNo + 1) :
    ∃ ev', (d.log.record ev).events s = some ev' ∧ ev'.seqNo = s := by
  rcases Nat.lt_or_eq_of_le (Nat.le_of_lt_succ hs) with hlt | rfl
  · rw [hun.events_record_old ev hlt]
    exact h.held s hpos hlt
  · exact ⟨_, hun.events_record_new ev, rfl⟩

theorem Recorded.record {f : Firing} (hf : d.Recorded f) (hun : d.Unwrapped) (ev : Event)
    (hlog : d'.log.events = (d.log.record ev).events) (hseq : d'.log.seqNo = d.log.seqNo + 1) :
    d'.Recorded f where
  identifies := hf.identifies
  type := hf.type
  after := hf.after
  lt := by
    rw [hseq]
    exact Nat.lt_succ_of_lt hf.lt
  inLog := by
    rw [hlog, hun.events_record_old ev hf.lt]
    exact hf.inLog

theorem Open.record (ht : d.Open t) (hun : d.Unwrapped) (ev : Event)
    (hlog : d'.log.events = (d.log.record ev).events) (hseq : d'.log.seqNo = d.log.seqNo + 1)
    (hfirings : ∀ f ∈ d'.firings, f.record.causeSeqNo ≠ t) : d'.Open t where
  pos := ht.pos
  lt := by
    rw [hseq]
    exact Nat.lt_succ_of_lt ht.lt
  trigger := by
    rw [hlog, hun.events_record_old ev ht.lt]
    exact ht.trigger
  unclaimed := hfirings

theorem Inv.room (h : d.Inv) : d.log.seqNo + 1 < Word.modulus := by
  have hnumber := h.number
  unfold Word.modulus
  omega

theorem Inv.logged (h : d.Inv) (hun : d.Unwrapped) (ev : Event) (pending : Nat) :
    Inv { d with log := d.log.record ev, pending := pending } where
  mutex := h.mutex
  numbered := h.numbered.record ev
  size := hun.1
  number := hun.2
  held s hpos hs := h.held_record hun ev hpos hs
  recorded f hf := (h.recorded f hf).record hun ev rfl rfl
  once := h.once
  cached := by
    obtain ⟨ts, hcache, hsorted, hopen⟩ := h.cached
    refine ⟨ts, hcache, hsorted, fun t ht => ⟨(hopen t ht).1, ?_⟩⟩
    exact (hopen t ht).2.record hun ev rfl rfl (hopen t ht).2.unclaimed

theorem Inv.unlogged (h : d.Inv) {tailWait : Int} {lastChecked pending : Nat} {tCache : RB Nat}
    (htCache : tCache = d.tCache ∨ tCache = []) :
    Inv { d with
      log := { d.log with tailWait := tailWait, lastChecked := lastChecked }
      tCache := tCache
      pending := pending
      awake := awake } where
  mutex := h.mutex
  numbered := ⟨h.numbered.size_pos, h.numbered.seqNo_pos, h.numbered.head_eq, h.numbered.tail_eq⟩
  size := h.size
  number := h.number
  held := h.held
  recorded f hf := ⟨(h.recorded f hf).identifies, (h.recorded f hf).type,
    (h.recorded f hf).after, (h.recorded f hf).lt, (h.recorded f hf).inLog⟩
  once := h.once
  cached := by
    rcases htCache with rfl | rfl
    · obtain ⟨ts, hcache, hsorted, hopen⟩ := h.cached
      refine ⟨ts, hcache, hsorted, fun t ht => ⟨(hopen t ht).1, ?_⟩⟩
      exact ⟨(hopen t ht).2.pos, (hopen t ht).2.lt, (hopen t ht).2.trigger,
        (hopen t ht).2.unclaimed⟩
    · exact ⟨[], rfl, .nil, by simp⟩

theorem Inv.claimed (h : d.Inv) (hun : d.Unwrapped) (nameId : Nat) (wooFNamespace : Bytes)
    {ts : List Nat} (hsorted : (t :: ts).Pairwise (· < ·)) (hopen : ∀ u ∈ t :: ts, d.Open u) :
    Inv { d with
      log := { d.log.record (firingEvent nameId wooFNamespace t) with lastChecked := t }
      tCache := ts.map fun t : Nat => ((t : Int), t)
      awake := awake
      firings := d.firings ++ [d.firing nameId wooFNamespace t] } where
  mutex := h.mutex
  numbered := by
    have hrecord := h.numbered.record (firingEvent nameId wooFNamespace t)
    exact ⟨hrecord.size_pos, hrecord.seqNo_pos, hrecord.head_eq, hrecord.tail_eq⟩
  size := hun.1
  number := hun.2
  held s hpos hs := h.held_record hun _ hpos hs
  recorded f hf := by
    rcases List.mem_append.1 hf with hf | hf
    · exact (h.recorded f hf).record hun _ rfl rfl
    · obtain rfl := List.mem_singleton.1 hf
      have ht := hopen t List.mem_cons_self
      obtain ⟨ev, hev, htype, hseq⟩ := ht.trigger
      exact ⟨⟨ev, hev, htype, hseq.symm⟩, rfl, ht.lt, Nat.lt_succ_self _,
        hun.events_record_new _⟩
  once := by
    rw [List.map_append, List.nodup_append]
    refine ⟨h.once, List.nodup_singleton _, ?_⟩
    intro c hc c' hc' heq
    obtain ⟨f, hf, rfl⟩ := List.mem_map.1 hc
    have htrigger : c' = t := List.mem_singleton.1 hc'
    exact (hopen t List.mem_cons_self).unclaimed f hf (heq.trans htrigger)
  cached := by
    rw [List.pairwise_cons] at hsorted
    refine ⟨ts, rfl, hsorted.2, fun u hu => ?_⟩
    have hu' := hopen u (List.mem_cons_of_mem t hu)
    refine ⟨hu'.pos, hu'.record hun _ rfl rfl fun f hf => ?_⟩
    rcases List.mem_append.1 hf with hf | hf
    · exact hu'.unclaimed f hf
    · obtain rfl := List.mem_singleton.1 hf
      exact Nat.ne_of_lt (hsorted.1 u hu)

end Record

/-! ## The walk -/

/-- What the walk has gathered once it has seen every event above `s`. -/
structure Seen (d : Forking) (s : Nat) (scan : Scan) : Prop where
  listed : ∀ r ev, s < r → r < d.log.seqNo → d.log.events r = some ev →
    ev.type = .triggerFiring → ∃ node ∈ scan.evList, node.1 = Word.toInt64 ev.causeSeqNo
  cached : ∃ ts, d.Caches s scan.tCache ts ∧ scan.earliest = ts.head?

section Walk

variable {d : Forking} {s : Nat} {scan : Scan}

/-- A trigger the walk does not find on its list is open: a record that names it would stand
above it. -/
theorem Seen.unclaimed (h : d.Inv) (hseen : d.Seen s scan)
    (hlist : (rbFindI64 scan.evList s).isSome = false) :
    ∀ f ∈ d.firings, f.record.causeSeqNo ≠ s := by
  intro f hf hcause
  have hrec := h.recorded f hf
  obtain ⟨node, hnode, hkey⟩ := hseen.listed f.record.seqNo f.record (hcause ▸ hrec.after)
    hrec.lt hrec.inLog hrec.type
  rw [hcause] at hkey
  have hfound : (rbFindI64 scan.evList s).isSome = true :=
    List.find?_isSome.2 ⟨node, hnode, by simpa using hkey⟩
  rw [hlist] at hfound
  cases hfound

theorem Seen.visit (h : d.Inv) (hseen : d.Seen (s + 1) scan) (hlt : s + 1 < d.log.seqNo) :
    d.Seen s (scan.visit d.log (s + 1)) := by
  obtain ⟨ev, hev, hseq⟩ := h.held (s + 1) (Nat.succ_pos s) hlt
  obtain ⟨ts, ⟨hcache, hsorted, hopen⟩, hearliest⟩ := hseen.cached
  have hnumber := h.number
  have hkey : Word.toInt64 (s + 1) = (s + 1 : Nat) := Word.toInt64_of_lt (by omega)
  -- what the walk has gathered stays, unless the event is a trigger it takes
  have hlower : ∃ ts, d.Caches s scan.tCache ts ∧ scan.earliest = ts.head? :=
    ⟨ts, ⟨hcache, hsorted, fun t ht => ⟨Nat.lt_of_succ_lt (hopen t ht).1, (hopen t ht).2⟩⟩,
      hearliest⟩
  have hlisted : ev.type ≠ .triggerFiring → ∀ r ev', s < r → r < d.log.seqNo →
      d.log.events r = some ev' → ev'.type = .triggerFiring →
      ∃ node ∈ scan.evList, node.1 = Word.toInt64 ev'.causeSeqNo := by
    intro htype r ev' hr hrlt hev' htype'
    rcases Nat.lt_or_eq_of_le hr with hr | rfl
    · exact hseen.listed r ev' hr hrlt hev' htype'
    · rw [hev] at hev'
      rw [Option.some.inj hev'] at htype
      exact absurd htype' htype
  simp only [Scan.visit, hev]
  by_cases hfire : ev.type = .triggerFiring
  · rw [if_pos hfire]
    refine ⟨fun r ev' hr hrlt hev' htype' => ?_, hlower⟩
    simp only [rbInsertI64, List.mem_orderedInsert]
    rcases Nat.lt_or_eq_of_le hr with hr | rfl
    · obtain ⟨node, hnode, hcause⟩ := hseen.listed r ev' hr hrlt hev' htype'
      exact ⟨node, .inr hnode, hcause⟩
    · rw [hev] at hev'
      exact ⟨_, .inl rfl, by rw [Option.some.inj hev']⟩
  · rw [if_neg hfire]
    by_cases htype : ev.type = .trigger
    · rw [if_pos htype, hseq]
      cases hlist : (rbFindI64 scan.evList (s + 1)).isSome with
      | true => exact ⟨hlisted hfire, hlower⟩
      | false =>
        have habove : ∀ node ∈ scan.tCache, ((s + 1 : Nat) : Int) < node.1 := by
          intro node hnode
          rw [hcache] at hnode
          obtain ⟨t, ht, rfl⟩ := List.mem_map.1 hnode
          exact Int.ofNat_lt.2 (hopen t ht).1
        have hcached : rbFindI64 scan.tCache (s + 1) = none := by
          refine rbFindI64_eq_none fun node hnode => ?_
          rw [hkey]
          exact (habove node hnode).ne'
        have hinsert : rbInsertI64 scan.tCache (s + 1) (s + 1) =
            (((s + 1 : Nat) : Int), s + 1) :: scan.tCache := by
          rw [← hkey]
          exact rbInsertI64_first fun node hnode => hkey ▸ (habove node hnode).le
        refine ⟨hlisted hfire, (s + 1) :: ts, ⟨?_, ?_, ?_⟩, rfl⟩
        · simp only [hcached, Option.isSome_none, Bool.false_eq_true, if_false]
          rw [hinsert, hcache]
          rfl
        · exact List.pairwise_cons.2 ⟨fun t ht => (hopen t ht).1, hsorted⟩
        · intro t ht
          rcases List.mem_cons.1 ht with rfl | ht
          · exact ⟨Nat.lt_succ_self s, Nat.succ_pos s, hlt, ⟨ev, hev, htype, hseq⟩,
              hseen.unclaimed h hlist⟩
          · exact ⟨Nat.lt_of_succ_lt (hopen t ht).1, (hopen t ht).2⟩
    · rw [if_neg htype]
      exact ⟨hlisted hfire, hlower⟩

theorem Inv.stepBack (h : d.Inv) (hlt : s + 1 < d.log.seqNo) :
    Cspot.stepBack d.log.size (s + 1) = s := by
  have hnumber := h.number
  have hsub : Word.sub (s + 1) 1 = s := by
    rw [Word.sub_of_le (by omega) (by unfold Word.modulus; omega), Nat.add_sub_cancel]
  simp only [Cspot.stepBack, hsub, Word.toInt32_of_lt (show s < 2 ^ 31 by omega)]
  rw [if_neg (by omega)]

theorem Inv.tail_eq (h : d.Inv) : d.log.tail = 0 := by
  rw [h.numbered.tail_eq, Nat.sub_eq_zero_of_le h.size, Nat.zero_mod]

theorem Inv.head_eq (h : d.Inv) : d.log.head = d.log.seqNo - 1 := by
  have hpos := h.numbered.seqNo_pos
  have hsize := h.size
  rw [h.numbered.head_eq, Nat.mod_eq_of_lt (by omega)]

theorem Inv.scanBack (h : d.Inv) {fuel : Nat} {scan' : Scan} (hseen : d.Seen s scan)
    (hlt : s < d.log.seqNo) (hscan : Cspot.scanBack d.log fuel s scan = some scan') :
    ∃ s', d.Seen s' scan' := by
  induction fuel generalizing s scan with
  | zero => cases hscan
  | succ fuel ih =>
    rw [Cspot.scanBack, h.tail_eq] at hscan
    cases s with
    | zero =>
      exact ⟨0, Option.some.inj hscan ▸ hseen⟩
    | succ s =>
      have hvisit := hseen.visit h hlt
      simp only [h.stepBack hlt] at hscan
      by_cases hchecked : s = d.log.lastChecked
      · rw [if_pos hchecked] at hscan
        exact ⟨s, Option.some.inj hscan ▸ hvisit⟩
      · rw [if_neg hchecked] at hscan
        exact ih hvisit (by omega) hscan

end Walk

/-! ## Claims and runs -/

section Runs

variable {d d' : Forking} {nameId : Nat} {wooFNamespace : Bytes}

/-- Whatever a claim section chooses is an open trigger, and open triggers stay in the cache. -/
theorem Inv.chooseTrigger (h : d.Inv) {fuel : Nat} {slot : Option Nat} {rest : RB Nat}
    (hchoose : Cspot.chooseTrigger fuel d.log d.tCache = some (slot, rest)) :
    ∃ ts : List Nat, ts.Pairwise (· < ·) ∧ (∀ t ∈ ts, d.Open t) ∧ slot = ts.head? ∧
      rest = ts.tail.map fun t : Nat => ((t : Int), t) := by
  obtain ⟨ts, hcache, hsorted, hopen⟩ := h.cached
  cases ts with
  | cons t ts =>
    rw [hcache] at hchoose
    obtain ⟨rfl, rfl⟩ := Prod.mk.inj (Option.some.inj hchoose)
    exact ⟨t :: ts, hsorted, fun u hu => (hopen u hu).2, rfl, rfl⟩
  | nil =>
    rw [hcache, List.map_nil, Cspot.chooseTrigger, Option.map_eq_some_iff] at hchoose
    obtain ⟨scan, hscan, hresult⟩ := hchoose
    obtain ⟨rfl, rfl⟩ := Prod.mk.inj hresult
    have hpos := h.numbered.seqNo_pos
    have hstart : d.Seen d.log.head ⟨[], [], none⟩ := by
      rw [h.head_eq]
      refine ⟨fun r ev hr hlt => ?_, [], ⟨rfl, .nil, by simp⟩, rfl⟩
      omega
    have hlt : d.log.head < d.log.seqNo := by
      rw [h.head_eq]
      omega
    obtain ⟨s, hseen⟩ := h.scanBack hstart hlt hscan
    obtain ⟨ts, ⟨htCache, hsorted, hopen⟩, hearliest⟩ := hseen.cached
    refine ⟨ts, hsorted, fun t ht => (hopen t ht).2, hearliest, ?_⟩
    rw [htCache, List.map_tail]

theorem Inv.step (h : d.Inv) (hun : d.Unwrapped) {action : ForkAction}
    (hstep : d.step nameId wooFNamespace action = some d') : d'.Inv := by
  cases action with
  | logged ev =>
    simp only [Forking.step, h.numbered.logEvent h.mutex h.room ev] at hstep
    split at hstep
    · cases hstep
    · rw [← Option.some.inj hstep]
      exact h.logged hun ev _
  | post | shutdown | wait =>
    simp only [Forking.step] at hstep
    split at hstep
    · cases hstep
    · rw [← Option.some.inj hstep]
      exact h.unlogged (.inl rfl)
  | claim fuel =>
    simp only [Forking.step, wooFForkerClaim] at hstep
    split at hstep
    · cases hstep
    · cases hchoose : Cspot.chooseTrigger fuel d.log d.tCache with
      | none => simp [hchoose] at hstep
      | some choice =>
        obtain ⟨slot, rest⟩ := choice
        obtain ⟨ts, hsorted, hopen, rfl, rfl⟩ := h.chooseTrigger hchoose
        cases ts with
        | nil =>
          simp [hchoose, claimTrigger_none h.mutex] at hstep
          rw [← hstep]
          exact h.unlogged (.inr rfl)
        | cons t ts =>
          simp [hchoose, h.numbered.claimTrigger_some h.mutex h.room] at hstep
          rw [← hstep]
          exact h.claimed hun nameId wooFNamespace hsorted hopen

theorem Inv.run (h : d.Inv) {actions : List ForkAction}
    (hrun : d.run nameId wooFNamespace Unwrapped actions = some d') : d'.Inv := by
  induction actions generalizing d with
  | nil => exact Option.some.inj hrun ▸ h
  | cons action actions ih =>
    rw [Forking.run] at hrun
    split at hrun
    · rename_i hun
      obtain ⟨next, hstep, hrest⟩ := Option.bind_eq_some_iff.1 hrun
      exact ih (h.step hun hstep) hrest
    · cases hrun

end Runs

end Forking

/-- As long as the log has not wrapped, every firing record names its trigger and no trigger is
claimed twice, whoever posts `tail_wait`. -/
theorem firings_identified {nameId hostId size : Nat} {wooFNamespace : Bytes}
    {actions : List ForkAction} {d : Forking}
    (hrun : (Forking.start hostId size).run nameId wooFNamespace Forking.Unwrapped actions =
      some d) : d.Identified := by
  cases actions with
  | nil =>
    rw [← Option.some.inj hrun]
    exact ⟨by simp [Forking.start], .nil⟩
  | cons action actions =>
    have hsize : 0 < size := by
      rw [Forking.run] at hrun
      split at hrun
      · rename_i hun
        exact Nat.zero_lt_of_lt hun.1
      · cases hrun
    exact ((Forking.start_inv hostId hsize).run hrun).identified

def quietRun : List ForkAction :=
  [.logged (eventCreate .trigger 7), .post, .wait, .claim 9, .shutdown, .wait, .claim 9,
    .shutdown, .wait, .claim 9]

theorem firings_identified_quiet :
    ∃ d, (Forking.start 7 8).run 7 [] Forking.Unwrapped quietRun = some d ∧
      d.firings.length = 1 ∧ d.Identified := by
  have hends : (((Forking.start 7 8).run 7 [] Forking.Unwrapped quietRun).map fun d =>
      d.firings.length) = some 1 := by decide +kernel
  obtain ⟨d, hrun, hlength⟩ := Option.map_eq_some_iff.1 hends
  exact ⟨d, hrun, hlength, firings_identified hrun⟩

def wrappedRun : List ForkAction :=
  [.logged (eventCreate .trigger 7), .post, .wait, .claim 9, .logged (eventCreate .append 7),
    .logged (eventCreate .trigger 7), .post, .wait, .claim 9, .shutdown, .wait, .claim 9,
    .shutdown, .wait, .claim 9]

/-- In a log of three slots trigger 4 is in slot 1, and its record names number 1.  The first
forker woken by `WooFShutdown` then finds nothing, and the second one, which walks through the
whole log, claims trigger 4 again. -/
theorem firings_wrapped :
    ∃ d, (Forking.start 7 3).run 7 [] (fun _ => True) wrappedRun = some d ∧
      (d.firings.map fun f => (f.record.causeSeqNo, f.claimed.map Event.seqNo)) =
        [(1, some 1), (1, some 4), (1, some 4)] ∧
      ¬ d.Identified := by
  have hends : (((Forking.start 7 3).run 7 [] (fun _ => True) wrappedRun).map fun d =>
      d.firings.map fun f => (f.record.causeSeqNo, f.claimed.map Event.seqNo)) =
      some [(1, some 1), (1, some 4), (1, some 4)] := by decide +kernel
  obtain ⟨d, hrun, hfirings⟩ := Option.map_eq_some_iff.1 hends
  refine ⟨d, hrun, hfirings, fun hident => ?_⟩
  have hnumbers : (d.firings.map fun f => f.claimed.map Event.seqNo) =
      [some 1, some 4, some 4] := by
    have hsnd := congrArg (List.map Prod.snd) hfirings
    rw [List.map_map] at hsnd
    exact hsnd
  have honce := hident.once
  rw [hnumbers] at honce
  exact absurd honce (by decide)

end Cspot
