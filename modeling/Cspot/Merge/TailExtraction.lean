import Cspot.Merge.LogTail

/-!
# What the tail of a log holds

`LogTail` walks back from the head and adds every event it passes to a ring of `max_size`
slots.  A ring keeps one slot free, so the tail holds what was copied as long as fewer than
`max_size` events were; with `max_size` of them the first one copied, the newest, is pushed
out again.
-/

namespace Cspot

def logEvents (log : Log) : List Event → Exec Log
  | [] => .ok log
  | event :: events => do
      let (_, log) ← logEvent log event
      logEvents log events

/-! ## Logs that were only added to -/

/-- Every event behind the last `size` is in the slot of its number. -/
structure Log.Filled (log : Log) : Prop where
  numbered : log.Numbered
  held : log.Holds fun _ _ => True

theorem logCreate_filled (hostId : Nat) {size : Nat} (hsize : 0 < size) :
    (logCreate hostId size).Filled where
  numbered := logCreate_numbered hostId hsize
  held := by
    intro s hpos hlt
    have : s < 1 := hlt
    omega

theorem Log.Filled.logEvents {log : Log} (h : log.Filled) (hmutex : log.mutex = 1)
    (events : List Event) (hroom : log.seqNo + events.length < Word.modulus) :
    ∃ log', Cspot.logEvents log events = .ok log' ∧ log'.Filled ∧ log'.size = log.size := by
  induction events generalizing log with
  | nil => exact ⟨log, rfl, h, rfl⟩
  | cons event events ih =>
    rw [List.length_cons] at hroom
    have hnext : (log.record event).Filled :=
      ⟨h.numbered.record event, h.held.record event (fun _ _ _ _ => trivial) trivial⟩
    obtain ⟨log', hlog', hfilled, hsize⟩ := ih hnext hmutex
      (show log.seqNo + 1 + events.length < _ by omega)
    refine ⟨log', ?_, hfilled, hsize⟩
    rw [Cspot.logEvents, h.numbered.logEvent hmutex (by omega) event, Exec.ok_bind]
    exact hlog'

/-! ## The newest events -/

/-- The events numbered `s`, `s - 1` and so on, `n` of them. -/
def Log.newest (log : Log) : (s n : Nat) → List Event
  | _, 0 => []
  | s, n + 1 =>
    match log.events (s % log.size) with
    | none => []
    | some ev => ev :: newest log (s - 1) n

theorem Log.take_newest (log : Log) (s : Nat) {k n : Nat} (hle : k ≤ n) :
    (log.newest s n).take k = log.newest s k := by
  induction n generalizing s k with
  | zero =>
    obtain rfl : k = 0 := by omega
    rfl
  | succ n ih =>
    cases k with
    | zero => rfl
    | succ k =>
      rw [newest, newest]
      cases log.events (s % log.size) with
      | none => rfl
      | some ev => rw [List.take_succ_cons, ih (s - 1) (by omega)]

namespace Log.Filled

variable {log : Log}

theorem event_at (h : log.Filled) {s : Nat} (hlow : log.seqNo - log.size < s)
    (hhigh : s < log.seqNo) : ∃ ev, log.events (s % log.size) = some ev ∧ ev.seqNo = s := by
  obtain ⟨ev, hev, hseq, -⟩ := h.held s (by omega) hhigh (by omega)
  exact ⟨ev, hev, hseq⟩

theorem countP_newest (h : log.Filled) (earliest : Nat) {s n : Nat}
    (hlow : log.seqNo - log.size + n ≤ s) (hhigh : s < log.seqNo) :
    (log.newest s n).countP (fun ev => earliest ≤ ev.seqNo) = min n (s + 1 - earliest) := by
  induction n generalizing s with
  | zero => simp [newest]
  | succ n ih =>
    obtain ⟨ev, hev, hseq⟩ := h.event_at (s := s) (by omega) hhigh
    have hrest := ih (s := s - 1) (by omega) (by omega)
    rw [newest, hev]
    simp only [List.countP_cons, hrest, hseq, decide_eq_true_eq]
    split <;> omega

section

variable (h : log.Filled) (hsize : log.size < Word.modulus)
include h hsize

theorem bounded : log.Bounded where
  size_pos := h.numbered.size_pos
  size_lt := hsize
  head := h.numbered.head_eq ▸ Nat.mod_lt _ h.numbered.size_pos
  tail := h.numbered.tail_eq ▸ Nat.mod_lt _ h.numbered.size_pos

theorem liveCount_eq : log.liveCount = log.seqNo - 1 - (log.seqNo - log.size) := by
  have hround := (h.bounded hsize).tail_add_liveCount
  have hlt := (h.bounded hsize).liveCount_lt
  rw [h.numbered.tail_eq, h.numbered.head_eq, Nat.mod_add_mod] at hround
  -- two numbers of one slot that are less than a round apart
  by_contra hne
  rcases Nat.lt_or_gt_of_ne hne with hless | hmore
  · exact Ring.mod_ne_of_window (by omega) (by omega) hround
  · exact Ring.mod_ne_of_window (by omega) (by omega) hround.symm

theorem live_reverse : log.live.reverse = log.newest (log.seqNo - 1) log.liveCount := by
  have hpos := h.numbered.seqNo_pos
  have hcap := h.numbered.size_pos
  have hfront : ∀ n, log.seqNo - log.size + n < log.seqNo →
      ((List.range n).filterMap fun j => log.events ((log.tail + 1 + j) % log.size)).reverse =
        log.newest (log.seqNo - log.size + n) n := by
    intro n hn
    induction n with
    | zero => rfl
    | succ n ih =>
      obtain ⟨ev, hev, -⟩ := h.event_at (s := log.seqNo - log.size + (n + 1)) (by omega) hn
      have hslot : (log.tail + 1 + n) % log.size =
          (log.seqNo - log.size + (n + 1)) % log.size := by
        rw [h.numbered.tail_eq, Nat.add_assoc, Nat.mod_add_mod, Nat.add_comm 1]
      rw [List.range_succ, List.filterMap_append, List.reverse_append, ih (by omega), newest, hev]
      simp [hslot, hev]
  have hcount := h.liveCount_eq hsize
  rw [Log.live, hfront log.liveCount (by omega),
    show log.seqNo - log.size + log.liveCount = log.seqNo - 1 by omega]

end

end Log.Filled

/-! ## The walk -/

/-- The walk adds the newest events, up to the count, the oldest live event or `earliest`. -/
theorem Log.Filled.logTailTurns_eq {log : Log} (h : log.Filled) (hsize : log.size < Word.modulus)
    (earliest maxSize fuel : Nat) {s count : Nat} (target : Log)
    (hlow : log.seqNo - log.size < s) (hhigh : s < log.seqNo)
    (hfuel : s - (log.seqNo - log.size) ≤ fuel) (hcount : count < maxSize) :
    logTailTurns log earliest maxSize fuel (s % log.size) count target =
      (log.newest s (min (maxSize - count)
        (min (s - (log.seqNo - log.size)) (s + 1 - earliest)))).foldlM logAdd target := by
  have hcap := h.numbered.size_pos
  induction fuel generalizing s count target with
  | zero => omega
  | succ fuel ih =>
    obtain ⟨ev, hev, hseq⟩ := h.event_at hlow hhigh
    rw [logTailTurns, hev]
    simp only [hseq]
    by_cases hold : s < earliest
    · have hnone : min (maxSize - count)
          (min (s - (log.seqNo - log.size)) (s + 1 - earliest)) = 0 := by omega
      rw [if_pos hold, hnone]
      rfl
    · obtain ⟨n, hn⟩ : ∃ n, min (maxSize - count)
          (min (s - (log.seqNo - log.size)) (s + 1 - earliest)) = n + 1 :=
        ⟨_, (Nat.succ_pred (by omega)).symm⟩
      have hend : prevSlot log.size (s % log.size) = log.tail ↔
          s - 1 = log.seqNo - log.size := by
        rw [prevSlot_mod hcap hsize (by omega), h.numbered.tail_eq]
        constructor
        · intro heq
          by_contra hne
          exact Ring.mod_ne_of_window (by omega) (by omega) heq.symm
        · exact fun heq => by rw [heq]
      rw [if_neg hold, hn, Log.newest, hev, List.foldlM_cons]
      congr 1
      funext added
      by_cases hlast : maxSize ≤ count + 1 ∨ s - 1 = log.seqNo - log.size
      · obtain rfl : n = 0 := by omega
        rw [if_pos (by rwa [hend])]
        rfl
      · have hrest := @ih (s - 1) (count + 1) added (by omega) (by omega) (by omega) (by omega)
        rw [if_neg (by rwa [hend]), prevSlot_mod hcap hsize (by omega), hrest]
        congr 2
        omega

/-! ## The ring it fills -/

namespace Log.Bounded

variable {log : Log}

theorem foldlM_logAdd (h : log.Bounded) (events : List Event) :
    ∃ log', events.foldlM logAdd log = .ok log' ∧ log'.Bounded ∧ log'.size = log.size ∧
      (log.liveCount + events.length < log.size → log'.live = log.live ++ events) := by
  induction events generalizing log with
  | nil => exact ⟨log, rfl, h, rfl, fun _ => (List.append_nil _).symm⟩
  | cons event events ih =>
    rw [List.foldlM_cons]
    by_cases hfull : (log.head + 1) % log.size = log.tail
    · have hbounded : Log.Bounded { log.push event with tail := (log.tail + 1) % log.size } :=
        ⟨h.size_pos, h.size_lt, Nat.mod_lt _ h.size_pos, Nat.mod_lt _ h.size_pos⟩
      obtain ⟨log', hlog', hbounded', hsize, -⟩ := ih hbounded
      rw [h.logAdd_of_full hfull event, Exec.ok_bind]
      refine ⟨log', hlog', hbounded', hsize, fun hroom => ?_⟩
      rw [List.length_cons] at hroom
      exact absurd hfull (h.room_of_liveCount (by omega))
    · obtain ⟨log', hlog', hbounded', hsize, hlive⟩ := ih (h.push event)
      rw [h.logAdd_of_room hfull event, Exec.ok_bind]
      refine ⟨log', hlog', hbounded', hsize, fun hroom => ?_⟩
      rw [List.length_cons] at hroom
      have hcount := h.liveCount_push hfull event
      rw [hlive (show (log.push event).liveCount + _ < log.size by omega),
        h.live_push hfull event, List.append_assoc, List.singleton_append]

theorem length_live_lt (h : log.Bounded) : log.live.length < log.size := by
  have hle : log.live.length ≤ (List.range log.liveCount).length := List.length_filterMap_le ..
  rw [List.length_range] at hle
  exact Nat.lt_of_le_of_lt hle h.liveCount_lt

end Log.Bounded

/-! ## The tail -/

/-- The newest live events with a number of at least `earliest`, no more than `maxSize`, newest
first. -/
def Log.tailOf (log : Log) (earliest maxSize : Nat) : List Event :=
  log.live.reverse.take (min maxSize (log.live.countP fun ev => earliest ≤ ev.seqNo))

theorem Log.Filled.logTail_eq {log : Log} (h : log.Filled) (hsize : log.size < Word.modulus)
    (earliest : Nat) {maxSize : Nat} (hmax : 0 < maxSize) (hne : log.head ≠ log.tail) :
    logTail log earliest maxSize =
      some <$> (log.tailOf earliest maxSize).foldlM logAdd (logCreate 0 maxSize) := by
  have hcount := h.liveCount_eq hsize
  have hlive : 0 < log.liveCount := by
    by_contra hzero
    have hround := (h.bounded hsize).tail_add_liveCount
    rw [show log.liveCount = 0 by omega, Nat.add_zero,
      Nat.mod_eq_of_lt (h.bounded hsize).tail] at hround
    exact hne hround.symm
  have hrecent : log.live.countP (fun ev => earliest ≤ ev.seqNo) =
      min log.liveCount (log.seqNo - 1 + 1 - earliest) := by
    rw [← List.countP_reverse, h.live_reverse hsize]
    exact h.countP_newest earliest (by omega) (by omega)
  rw [logTail, if_neg hne, h.numbered.head_eq,
    h.logTailTurns_eq hsize earliest maxSize log.size (logCreate 0 maxSize) (by omega) (by omega)
      (by omega) hmax,
    Log.tailOf, h.live_reverse hsize, log.take_newest _ (by omega), hrecent]
  congr 3
  omega

/-- The tail holds the newest events exactly if there are fewer of them than `maxSize`. -/
theorem logTail_extracts_iff {hostId size earliest maxSize : Nat} {events : List Event}
    {log : Log} (hsize : 2 ≤ size) (hword : size < Word.modulus) (hmax : 1 ≤ maxSize)
    (hmaxWord : maxSize < Word.modulus) (hevents : events.length + 1 < Word.modulus)
    (hlog : logEvents (logCreate hostId size) events = .ok log) (hne : log.head ≠ log.tail) :
    (∃ tail, logTail log earliest maxSize = .ok (some tail) ∧
        tail.live = log.tailOf earliest maxSize) ↔
      log.live.countP (fun ev => earliest ≤ ev.seqNo) < maxSize := by
  obtain ⟨log', hlog', hfilled, hsame⟩ := (logCreate_filled hostId
    (show 0 < size by omega)).logEvents rfl events (show 1 + events.length < _ by omega)
  obtain rfl : log' = log := Except.ok.inj (hlog'.symm.trans hlog)
  have hsame' : log'.size = size := hsame
  have heq := hfilled.logTail_eq (hsame' ▸ hword) earliest hmax hne
  obtain ⟨tail, htail, hbounded, htailSize, hlive⟩ :=
    (logCreate_bounded 0 hmax hmaxWord).foldlM_logAdd (log'.tailOf earliest maxSize)
  have hlength : (log'.tailOf earliest maxSize).length =
      min maxSize (log'.live.countP fun ev => earliest ≤ ev.seqNo) := by
    rw [Log.tailOf, List.length_take, List.length_reverse]
    have := log'.live.countP_le_length (p := fun ev => earliest ≤ ev.seqNo)
    omega
  rw [htail] at heq
  constructor
  · rintro ⟨tail', htail', hlive'⟩
    obtain rfl : tail = tail' := by simpa using heq.symm.trans htail'
    have hlt := hbounded.length_live_lt
    rw [hlive', hlength, htailSize] at hlt
    have : (logCreate 0 maxSize).size = maxSize := rfl
    omega
  · intro hfew
    refine ⟨tail, heq, ?_⟩
    have hempty : (logCreate 0 maxSize).liveCount = 0 := by simp [Log.liveCount, logCreate]
    have hroom : (logCreate 0 maxSize).liveCount + (log'.tailOf earliest maxSize).length <
        maxSize := by
      omega
    rw [hlive hroom, logCreate_live, List.nil_append]

def plainTrigger : Event := eventCreate .trigger 0

/-- Two of three events, in a ring of three slots. -/
theorem logTail_extracts_two :
    ∃ log, logEvents (logCreate 1 8) [plainTrigger, plainTrigger, plainTrigger] = .ok log ∧
      ∃ tail, logTail log 2 3 = .ok (some tail) ∧ tail.live = log.tailOf 2 3 ∧
        tail.live.map (·.seqNo) = [3, 2] := by
  obtain ⟨log, hlog, -⟩ := (logCreate_filled 1 (show 0 < 8 by decide)).logEvents rfl
    [plainTrigger, plainTrigger, plainTrigger] (by decide)
  have hfacts : (logEvents (logCreate 1 8) [plainTrigger, plainTrigger, plainTrigger]).map
      (fun log => (log.head, log.tail, log.live.countP (fun ev => 2 ≤ ev.seqNo),
        (log.tailOf 2 3).map (·.seqNo))) = .ok (3, 0, 2, [3, 2]) := by decide
  rw [hlog] at hfacts
  simp only [Except.map, Except.ok.injEq, Prod.mk.injEq] at hfacts
  obtain ⟨hhead, htail, hcount, hnumbers⟩ := hfacts
  have hfew : log.live.countP (fun ev => 2 ≤ ev.seqNo) < 3 := by omega
  obtain ⟨tail, hcall, hlive⟩ := (logTail_extracts_iff (by decide) (by decide) (by decide)
    (by decide) (by decide) hlog (by omega)).2 hfew
  exact ⟨log, hlog, tail, hcall, hlive, by rw [hlive, hnumbers]⟩

/-- Asked for two events, the tail has only the older one. -/
theorem logTail_loses_newest :
    ∃ log tail, logEvents (logCreate 1 8) [plainTrigger, plainTrigger, plainTrigger] = .ok log ∧
      log.head ≠ log.tail ∧ logTail log 1 2 = .ok (some tail) ∧
      (log.tailOf 1 2).map (·.seqNo) = [3, 2] ∧ tail.live.map (·.seqNo) = [2] := by
  obtain ⟨log, hlog, -⟩ := (logCreate_filled 1 (show 0 < 8 by decide)).logEvents rfl
    [plainTrigger, plainTrigger, plainTrigger] (by decide)
  have hfacts : (logEvents (logCreate 1 8) [plainTrigger, plainTrigger, plainTrigger]).map
      (fun log => (log.head, log.tail, (log.tailOf 1 2).map (·.seqNo),
        (logTail log 1 2).toOption.bind fun tail => tail.map fun tail =>
          tail.live.map (·.seqNo))) = .ok (3, 0, [3, 2], some [2]) := by decide
  rw [hlog] at hfacts
  simp only [Except.map, Except.ok.injEq, Prod.mk.injEq] at hfacts
  obtain ⟨hhead, htail, hexpected, htailLive⟩ := hfacts
  cases hcall : logTail log 1 2 with
  | error e => simp [hcall, Except.toOption] at htailLive
  | ok found =>
    cases found with
    | none => simp [hcall, Except.toOption] at htailLive
    | some tail =>
      rw [hcall] at htailLive
      exact ⟨log, tail, hlog, by omega, hcall, hexpected, Option.some.inj htailLive⟩

end Cspot
