import Cspot.Runtime.Forker

/-!
# Triggers are claimed once and in order

The claims of a run are the first triggers logged, in the order of their numbers, and the
cache holds the next few.  A walk through the log stops at the trigger claimed last, so
whatever trigger it meets is unclaimed, and it meets all that are.
-/

namespace Cspot

/-! ## Increasing lists of numbers -/

variable {l : List Nat}

theorem filter_lt_succ (hl : l.Pairwise (· < ·)) (r : Nat) :
    l.filter (r < ·) = (if r + 1 ∈ l then [r + 1] else []) ++ l.filter (r + 1 < ·) := by
  induction l with
  | nil => rfl
  | cons a l ih =>
    rw [List.pairwise_cons] at hl
    obtain ⟨habove, hl⟩ := hl
    have hrest := ih hl
    rcases Nat.lt_trichotomy a (r + 1) with hlt | rfl | hgt
    · have hne : r + 1 ≠ a := by omega
      simp [hne, show ¬ r < a by omega, show ¬ r + 1 < a by omega, hrest]
    · have hnot : r + 1 ∉ l := fun hmem => Nat.lt_irrefl _ (habove _ hmem)
      rw [if_neg hnot, List.nil_append] at hrest
      simp [hrest]
    · have hnot : r + 1 ∉ l := fun hmem => by
        have hlt := habove _ hmem
        omega
      have hne : r + 1 ≠ a := by omega
      simp [hne, hnot, show r < a by omega, hgt, hrest]

theorem filter_lt_eq_drop {k b : Nat} (hlow : ∀ a ∈ l.take k, a ≤ b)
    (hhigh : ∀ a ∈ l.drop k, b < a) :
    l.filter (b < ·) = l.drop k := by
  conv_lhs => rw [← List.take_append_drop k l]
  have hnone : (l.take k).filter (b < ·) = [] := by
    rw [List.filter_eq_nil_iff]
    intro a ha
    have hle := hlow a ha
    simpa using hle
  have hall : (l.drop k).filter (b < ·) = l.drop k := by
    rw [List.filter_eq_self]
    intro a ha
    simpa using hhigh a ha
  rw [List.filter_append, hnone, hall, List.nil_append]

/-! ## The invariant -/

namespace Dispatch

/-- What the event numbered `s` is: a trigger if one was logged under this number, and a
firing only of a trigger that was claimed. -/
def Describes (d : Dispatch) (s : Nat) (ev : Event) : Prop :=
  (ev.type = .trigger ↔ s ∈ d.logged) ∧
  (ev.type = .triggerFiring → ∃ t, some t ∈ d.claimed ∧ ev.causeSeqNo = t % d.log.size)

def node (d : Dispatch) (u : Nat) : Int × Nat := (Word.toInt64 u, u % d.log.size)

/-- The number of the trigger claimed last, zero before the first claim. -/
def lastClaimed (d : Dispatch) : Nat := (d.claimed.getLast?.join).getD 0

structure Inv (d : Dispatch) : Prop where
  mutex : d.log.mutex = 1
  numbered : d.log.Numbered
  held : d.log.Holds d.Describes
  sorted : d.logged.Pairwise (· < ·)
  range : ∀ s ∈ d.logged, 0 < s ∧ s < d.log.seqNo
  order : d.claimed = (d.logged.take d.claimed.length).map some
  cached : ∃ j, d.tCache = ((d.logged.drop d.claimed.length).take j).map d.node
  checked : d.log.lastChecked =
    if d.claimed = [] then Word.allOnes else d.lastClaimed % d.log.size
  credit : d.claimed.length + d.awake + d.log.tailWait.toNat + d.pending ≤ d.logged.length

/-- The walk works: the `int` test sees the wrap and nothing else, and the numbers are in
order as signed integers. -/
structure Safe (d : Dispatch) : Prop where
  walk : d.log.size ≤ 2 ^ 31 + 1 ∨ d.log.seqNo ≤ 2 ^ 31 + 1
  numbers : d.log.seqNo < 2 ^ 63

theorem start_inv (hostId : Nat) {size : Nat} (hsize : 0 < size) : (start hostId size).Inv where
  mutex := rfl
  numbered := logCreate_numbered hostId hsize
  held := by
    intro s hpos hlt
    simp only [start, logCreate] at hlt
    omega
  sorted := .nil
  range := by simp [start]
  order := rfl
  cached := ⟨0, rfl⟩
  checked := rfl
  credit := by simp [start, logCreate, initSem]

section Order

variable {d : Dispatch} {t : Nat} {u : Nat}

theorem Inv.some_mem_claimed (h : d.Inv) :
    some t ∈ d.claimed ↔ t ∈ d.logged.take d.claimed.length := by
  conv_lhs => rw [h.order]
  simp only [List.mem_map, Option.some.injEq, exists_eq_right]

theorem Inv.claimed_lt_of_unclaimed (h : d.Inv) (ht : some t ∈ d.claimed)
    (hu : u ∈ d.logged.drop d.claimed.length) : t < u := by
  have hsorted := h.sorted
  rw [← List.take_append_drop d.claimed.length d.logged, List.pairwise_append] at hsorted
  exact hsorted.2.2 t (h.some_mem_claimed.mp ht) u hu

theorem Inv.unclaimed_iff (h : d.Inv) : d.Unclaimed u ↔ u ∈ d.logged.drop d.claimed.length := by
  constructor
  · rintro ⟨hmem, hnot⟩
    rw [← List.take_append_drop d.claimed.length d.logged, List.mem_append] at hmem
    exact hmem.resolve_left fun htake => hnot (h.some_mem_claimed.mpr htake)
  · intro hdrop
    refine ⟨List.mem_of_mem_drop hdrop, fun hclaimed => ?_⟩
    exact Nat.lt_irrefl _ (h.claimed_lt_of_unclaimed hclaimed hdrop)

theorem Inv.claimed_le_lastClaimed (h : d.Inv) (ht : some t ∈ d.claimed) : t ≤ d.lastClaimed := by
  have hsorted := h.sorted.sublist (List.take_sublist d.claimed.length d.logged)
  have hmem := h.some_mem_claimed.mp ht
  have hlast : d.claimed.getLast? = (d.logged.take d.claimed.length).getLast?.map some := by
    conv_lhs => rw [h.order]
    rw [List.getLast?_map]
  generalize d.logged.take d.claimed.length = l at hsorted hmem hlast
  rcases List.eq_nil_or_concat' l with rfl | ⟨init, last, rfl⟩
  · cases hmem
  · rw [List.getLast?_concat] at hlast
    rw [lastClaimed, hlast]
    rw [List.pairwise_append] at hsorted
    rw [List.mem_append, List.mem_singleton] at hmem
    rcases hmem with hinit | rfl
    · exact Nat.le_of_lt (hsorted.2.2 t hinit last (List.mem_singleton_self last))
    · exact Nat.le_refl _

theorem Inv.lastClaimed_mem (h : d.Inv) (hne : d.claimed ≠ []) :
    some d.lastClaimed ∈ d.claimed ∧ d.claimed.getLast? = some (some d.lastClaimed) := by
  have hlast := List.getLast?_eq_some_getLast hne
  have hmem : d.claimed.getLast hne ∈ (d.logged.take d.claimed.length).map some := by
    rw [← h.order]
    exact List.getLast_mem hne
  obtain ⟨t, -, ht⟩ := List.mem_map.mp hmem
  rw [← ht] at hlast
  have heq : d.lastClaimed = t := by
    rw [lastClaimed, hlast]
    rfl
  rw [heq]
  exact ⟨List.mem_of_getLast? hlast, hlast⟩

end Order

/-! ## The walk -/

/-- What the walk has gathered once it has seen every event above `s`. -/
structure Seen (d : Dispatch) (s : Nat) (scan : Scan) : Prop where
  evList : ∀ node ∈ scan.evList, ∃ t, some t ∈ d.claimed ∧ node.1 = Word.toInt64 (t % d.log.size)
  tCache : scan.tCache = (d.logged.filter (s < ·)).map d.node
  earliest : scan.earliest = (d.logged.filter (s < ·)).head?.map (· % d.log.size)

section Walk

variable {d : Dispatch} {s : Nat} {scan : Scan} {r : Nat}

section

variable (h : d.Inv) (hsafe : d.Safe) (hseen : d.Seen (s + 1) scan)
include h hsafe hseen

/-- An event above the trigger claimed last is not on the list: the causes there are slots of
earlier triggers. -/
theorem Seen.not_listed (hlt : s + 1 < d.log.seqNo) (habove : d.lastClaimed ≤ s) :
    rbFindI64 scan.evList (s + 1) = none := by
  have hnumbers := hsafe.numbers
  apply rbFindI64_eq_none
  intro node hnode
  obtain ⟨t, ht, hcause⟩ := hseen.evList node hnode
  have hle := h.claimed_le_lastClaimed ht
  have hslot : t % d.log.size ≤ t := Nat.mod_le _ _
  rw [hcause, Word.toInt64_of_lt (show s + 1 < 2 ^ 63 by omega), Word.toInt64_of_lt (by omega)]
  omega

theorem Seen.cached_later : ∀ node ∈ scan.tCache, ((s + 1 : Nat) : Int) < node.1 := by
  have hnumbers := hsafe.numbers
  intro node hnode
  rw [hseen.tCache, List.mem_map] at hnode
  obtain ⟨u, hu, rfl⟩ := hnode
  rw [List.mem_filter, decide_eq_true_iff] at hu
  have hrange := h.range u hu.1
  rw [Dispatch.node, Word.toInt64_of_lt (by omega)]
  omega

theorem Seen.visit (hlt : s + 1 < d.log.seqNo) (hheld : d.log.seqNo ≤ s + 1 + d.log.size)
    (habove : d.lastClaimed ≤ s) :
    d.Seen s (scan.visit d.log ((s + 1) % d.log.size)) := by
  obtain ⟨ev, hev, hseq, htrigger, hfiring⟩ := h.held (s + 1) (Nat.succ_pos s) hlt hheld
  have hnumbers := hsafe.numbers
  have hfilter := filter_lt_succ h.sorted s
  have hkey : Word.toInt64 (s + 1) = (s + 1 : Nat) := Word.toInt64_of_lt (by omega)
  simp only [Scan.visit, hev]
  by_cases hfire : ev.type = .triggerFiring
  · -- a firing puts its cause on the list
    have hnot : s + 1 ∉ d.logged := fun hmem => by
      have htype := htrigger.mpr hmem
      rw [hfire] at htype
      cases htype
    rw [if_neg hnot, List.nil_append] at hfilter
    rw [if_pos hfire]
    refine ⟨?_, by rw [hfilter]; exact hseen.tCache, by rw [hfilter]; exact hseen.earliest⟩
    intro node hnode
    rw [rbInsertI64, List.mem_orderedInsert] at hnode
    rcases hnode with rfl | hnode
    · obtain ⟨t, ht, hcause⟩ := hfiring hfire
      exact ⟨t, ht, by rw [hcause]⟩
    · exact hseen.evList node hnode
  · rw [if_neg hfire]
    by_cases htype : ev.type = .trigger
    · have hmem : s + 1 ∈ d.logged := htrigger.mp htype
      rw [if_pos hmem] at hfilter
      have hlisted := hseen.not_listed h hsafe hlt habove
      have hlater := hseen.cached_later h hsafe
      have hcached : rbFindI64 scan.tCache (s + 1) = none := by
        apply rbFindI64_eq_none
        intro node hnode
        rw [hkey]
        exact (hlater node hnode).ne'
      rw [if_pos htype, hseq, hlisted, hcached]
      refine ⟨hseen.evList, ?_, ?_⟩
      · rw [rbInsertI64_first (fun node hnode => by rw [hkey]; exact (hlater node hnode).le),
          hseen.tCache, hfilter]
        rfl
      · rw [hfilter]
        rfl
    · have hnot : s + 1 ∉ d.logged := fun hmem => htype (htrigger.mpr hmem)
      rw [if_neg hnot, List.nil_append] at hfilter
      rw [if_neg htype]
      exact ⟨hseen.evList, by rw [hfilter]; exact hseen.tCache,
        by rw [hfilter]; exact hseen.earliest⟩

end

theorem Safe.stepBack (h : d.Inv) (hsafe : d.Safe) (hlt : s + 1 < d.log.seqNo) :
    Cspot.stepBack d.log.size ((s + 1) % d.log.size) = s % d.log.size := by
  have hsize := h.numbered.size_pos
  have hnumbers := hsafe.numbers
  have hslot : (s + 1) % d.log.size < d.log.size := Nat.mod_lt _ hsize
  have hle : (s + 1) % d.log.size ≤ s + 1 := Nat.mod_le _ _
  have hback : s % d.log.size + 1 = (s + 1) % d.log.size ∨
      (s + 1) % d.log.size = 0 ∧ s % d.log.size = d.log.size - 1 := by
    have hprev : s % d.log.size < d.log.size := Nat.mod_lt _ hsize
    rw [Nat.add_mod s 1 d.log.size]
    rcases Nat.lt_or_ge (s % d.log.size + 1) d.log.size with hfit | hwrap
    · left
      have hone : 1 % d.log.size = 1 := Nat.mod_eq_of_lt (by omega)
      rw [hone, Nat.mod_eq_of_lt hfit]
    · right
      have heq : s % d.log.size = d.log.size - 1 := by omega
      refine ⟨?_, heq⟩
      rw [← Nat.add_mod, ← Nat.mod_add_mod, heq, Nat.sub_add_cancel hsize, Nat.mod_self]
  rcases hback with hback | ⟨hzero, htop⟩
  · have hsub : Word.sub ((s + 1) % d.log.size) 1 = s % d.log.size := by
      rw [Word.sub_of_le (by omega) (by unfold Word.modulus; omega)]
      omega
    have hsmall : s % d.log.size < 2 ^ 31 := by
      rcases hsafe.walk with hwalk | hwalk <;> omega
    simp only [Cspot.stepBack, hsub, Word.toInt32_of_lt hsmall]
    rw [if_neg (by omega)]
  · -- only a log of a round or more wraps
    have hround : d.log.size ≤ s + 1 := by
      by_contra hlt
      rw [Nat.mod_eq_of_lt (by omega)] at hzero
      omega
    have hneg : Word.toInt32 (Word.sub 0 1) < 0 := by decide
    simp only [Cspot.stepBack, hzero]
    rw [if_pos hneg, Word.sub_of_le hsize (by unfold Word.modulus; omega), htop]

/-- Where the walk stops: at the trigger claimed last, or at the tail if that is nearer. -/
def stop (d : Dispatch) : Nat := max d.lastClaimed (d.log.seqNo - d.log.size)

theorem Inv.ne_tail (h : d.Inv) (hlow : d.stop < r) (hhigh : r < d.log.seqNo) :
    r % d.log.size ≠ d.log.tail := by
  rw [h.numbered.tail_eq]
  unfold stop at hlow
  exact (Ring.mod_ne_of_window (by omega) (by omega)).symm

theorem Inv.ne_lastChecked (h : d.Inv) (hsafe : d.Safe) (hintime : d.InTime) (hlow : d.stop < r)
    (hhigh : r + 1 < d.log.seqNo) : r % d.log.size ≠ d.log.lastChecked := by
  rw [h.checked]
  have hnumbers := hsafe.numbers
  split
  · have hle : r % d.log.size ≤ r := Nat.mod_le _ _
    unfold Word.allOnes Word.modulus
    omega
  · rename_i hne
    have hchecked := hintime.checked _ (h.lastClaimed_mem hne).2
    unfold stop at hlow
    exact (Ring.mod_ne_of_window (by omega) (by omega)).symm

theorem Inv.stop_eq (h : d.Inv) :
    d.stop % d.log.size = d.log.tail ∨ d.stop % d.log.size = d.log.lastChecked := by
  unfold stop
  rcases Nat.le_total d.lastClaimed (d.log.seqNo - d.log.size) with hle | hle
  · left
    rw [Nat.max_eq_right hle, h.numbered.tail_eq]
  · rw [Nat.max_eq_left hle]
    by_cases hne : d.claimed = []
    · left
      have hzero : d.lastClaimed = 0 := by
        rw [lastClaimed, hne]
        rfl
      rw [h.numbered.tail_eq, hzero, show d.log.seqNo - d.log.size = 0 by omega]
    · right
      rw [h.checked, if_neg hne]

/-- Run lemma: the walk ends and has seen everything above its stop. -/
theorem Inv.scanBack (h : d.Inv) (hsafe : d.Safe) (hintime : d.InTime) (hseen : d.Seen s scan)
    (hlow : d.stop < s) (hhigh : s < d.log.seqNo) :
    ∃ fuel scan', Cspot.scanBack d.log fuel (s % d.log.size) scan = some scan' ∧
      d.Seen d.stop scan' := by
  induction hdist : s - d.stop generalizing s scan with
  | zero => omega
  | succ n ih =>
    obtain ⟨r, rfl⟩ : ∃ r, s = r + 1 := ⟨s - 1, by omega⟩
    have hvisit : d.Seen r (scan.visit d.log ((r + 1) % d.log.size)) := by
      unfold stop at hlow
      exact hseen.visit h hsafe hhigh (by omega) (by omega)
    have hback := hsafe.stepBack h hhigh
    have htail := h.ne_tail hlow hhigh
    rcases Nat.lt_or_eq_of_le (Nat.le_of_lt_succ hlow) with hmore | heq
    · obtain ⟨fuel, scan', hrun, hend⟩ := ih hvisit hmore (by omega) (by omega)
      have hchecked := h.ne_lastChecked hsafe hintime hmore (by omega)
      refine ⟨fuel + 1, scan', ?_, hend⟩
      rw [Cspot.scanBack, if_neg htail]
      simp only [hback]
      rw [if_neg hchecked, hrun]
    · -- the walk has reached its stop
      have hstop := h.stop_eq
      rw [heq] at hstop ⊢
      by_cases hchecked : r % d.log.size = d.log.lastChecked
      · refine ⟨1, _, ?_, hvisit⟩
        rw [Cspot.scanBack, if_neg htail]
        simp [hback, if_pos hchecked]
      · refine ⟨2, _, ?_, hvisit⟩
        rw [Cspot.scanBack, if_neg htail]
        simp [hback, Cspot.scanBack, if_pos (hstop.resolve_right hchecked)]

end Walk

/-! ## The claim -/

section Claim

variable {d : Dispatch} {nameId : Nat} {wooFNamespace : Bytes} {u fuel : Nat} {rest : List Nat}
  {log : Log}

theorem Inv.filter_stop (h : d.Inv) (hintime : d.InTime) :
    d.logged.filter (d.stop < ·) = d.logged.drop d.claimed.length := by
  apply filter_lt_eq_drop
  · intro t ht
    exact Nat.le_trans (h.claimed_le_lastClaimed (h.some_mem_claimed.mpr ht)) (Nat.le_max_left _ _)
  · intro u hu
    have hseen := hintime.unclaimed u (h.unclaimed_iff.mpr hu)
    have hrange := h.range u (List.mem_of_mem_drop hu)
    have hlast : d.lastClaimed < u := by
      by_cases hne : d.claimed = []
      · rw [lastClaimed, hne]
        exact hrange.1
      · exact h.claimed_lt_of_unclaimed (h.lastClaimed_mem hne).1 hu
    unfold stop
    omega

theorem Inv.chooseTrigger (h : d.Inv) (hsafe : d.Safe) (hintime : d.InTime)
    (hnext : d.logged.drop d.claimed.length = u :: rest) :
    ∃ fuel j, Cspot.chooseTrigger fuel d.log d.tCache =
      some (some (u % d.log.size), (rest.take j).map d.node) := by
  obtain ⟨j, hcached⟩ := h.cached
  rw [hnext] at hcached
  cases j with
  | succ j =>
    refine ⟨0, j, ?_⟩
    rw [hcached]
    rfl
  | zero =>
    have hmem : u ∈ d.logged.drop d.claimed.length := hnext ▸ List.mem_cons_self
    have hrange := h.range u (List.mem_of_mem_drop hmem)
    have hfilter := h.filter_stop hintime
    have habove : d.stop < u := by
      rw [← hfilter, List.mem_filter, decide_eq_true_iff] at hmem
      exact hmem.2
    -- before the first turn nothing is above the newest event
    have hstart : d.Seen (d.log.seqNo - 1) ⟨[], [], none⟩ := by
      have hnone : d.logged.filter (d.log.seqNo - 1 < ·) = [] := by
        rw [List.filter_eq_nil_iff]
        intro s hs
        have hlt := (h.range s hs).2
        simp only [decide_eq_true_eq]
        omega
      refine ⟨by simp, ?_, ?_⟩
      · rw [hnone]
        rfl
      · rw [hnone]
        rfl
    obtain ⟨fuel, scan, hrun, hend⟩ := h.scanBack hsafe hintime hstart (by omega) (by omega)
    refine ⟨fuel, rest.length, ?_⟩
    have hearliest := hend.earliest
    have htCache := hend.tCache
    rw [hfilter, hnext] at hearliest htCache
    rw [hcached]
    simp [Cspot.chooseTrigger, h.numbered.head_eq, hrun, hearliest, htCache]

theorem scanBack_mono {more curr : Nat} {scan result : Scan}
    (h : Cspot.scanBack log fuel curr scan = some result) (hle : fuel ≤ more) :
    Cspot.scanBack log more curr scan = some result := by
  induction fuel generalizing more curr scan with
  | zero => cases h
  | succ fuel ih =>
    obtain ⟨more, rfl⟩ : ∃ n, more = n + 1 := ⟨more - 1, by omega⟩
    rw [Cspot.scanBack] at h ⊢
    split at h
    · rename_i htail
      rw [if_pos htail]
      exact h
    · rename_i htail
      rw [if_neg htail]
      simp only at h ⊢
      split at h
      · rename_i hchecked
        rw [if_pos hchecked]
        exact h
      · rename_i hchecked
        rw [if_neg hchecked]
        exact ih h (by omega)

theorem chooseTrigger_unique {fuel' : Nat} {tCache : RB Nat} {x y : Option Nat × RB Nat}
    (hx : Cspot.chooseTrigger fuel log tCache = some x)
    (hy : Cspot.chooseTrigger fuel' log tCache = some y) : x = y := by
  cases tCache with
  | cons node rest => exact Option.some.inj (hx.symm.trans hy)
  | nil =>
    simp only [Cspot.chooseTrigger, Option.map_eq_some_iff] at hx hy
    obtain ⟨scan, hscan, rfl⟩ := hx
    obtain ⟨scan', hscan', rfl⟩ := hy
    have hmax := scanBack_mono hscan (Nat.le_max_left fuel fuel')
    have hmax' := scanBack_mono hscan' (Nat.le_max_right fuel fuel')
    rw [Option.some.inj (hmax.symm.trans hmax')]

theorem Inv.claimTrigger (h : d.Inv) (hsafe : d.Safe) (slot : Nat) :
    Cspot.claimTrigger nameId wooFNamespace d.log (some slot) =
      .ok { d.log.record (firingEvent nameId wooFNamespace slot) with lastChecked := slot } := by
  have hnumbers := hsafe.numbers
  exact h.numbered.claimTrigger_some h.mutex (by unfold Word.modulus; omega) slot

/-- A claim section ends, and every way it ends is the claim of the next trigger. -/
theorem Inv.wooFForkerClaim (h : d.Inv) (hsafe : d.Safe) (hintime : d.InTime) (nameId : Nat)
    (wooFNamespace : Bytes) (hnext : d.logged.drop d.claimed.length = u :: rest) :
    ∃ j, (∃ fuel, Cspot.wooFForkerClaim nameId wooFNamespace fuel d.log d.tCache ≠ none) ∧
      ∀ fuel r, Cspot.wooFForkerClaim nameId wooFNamespace fuel d.log d.tCache = some r →
        r = .ok (some (u % d.log.size),
          { d.log.record (firingEvent nameId wooFNamespace (u % d.log.size)) with
            lastChecked := u % d.log.size },
          (rest.take j).map d.node) := by
  obtain ⟨fuel, j, hchoose⟩ := h.chooseTrigger hsafe hintime hnext
  refine ⟨j, ⟨fuel, by simp [Cspot.wooFForkerClaim, hchoose]⟩, ?_⟩
  intro fuel' r hclaim
  rw [Cspot.wooFForkerClaim, Option.map_eq_some_iff] at hclaim
  obtain ⟨choice, hchoose', rfl⟩ := hclaim
  rw [← chooseTrigger_unique hchoose hchoose']
  simp [h.claimTrigger hsafe]

end Claim

/-! ## Steps -/

section Preserved

variable {d : Dispatch} {nameId : Nat} {wooFNamespace : Bytes} {u : Nat} {rest : List Nat}

theorem Inv.room (h : d.Inv) (hsafe : d.Safe) (event : Event) :
    logEvent d.log event = .ok (d.log.seqNo, d.log.record event) := by
  have hnumbers := hsafe.numbers
  exact h.numbered.logEvent h.mutex (by unfold Word.modulus; omega) event

theorem Inv.claimed_length_le (h : d.Inv) : d.claimed.length ≤ d.logged.length := by
  have hcredit := h.credit
  omega

theorem Inv.trigger (h : d.Inv) (ev : Event) (htype : ev.type = .trigger) :
    Inv { d with
      log := d.log.record ev
      pending := d.pending + 1
      logged := d.logged ++ [d.log.seqNo] } where
  mutex := h.mutex
  numbered := h.numbered.record ev
  held := by
    refine h.held.record ev ?_ ?_
    · rintro s hlt ev ⟨htrigger, hfiring⟩
      refine ⟨?_, hfiring⟩
      rw [htrigger, List.mem_append, List.mem_singleton]
      exact ⟨.inl, fun hmem => hmem.resolve_right (by omega)⟩
    · refine ⟨by simp [htype], fun hfire => ?_⟩
      rw [htype] at hfire
      cases hfire
  sorted := by
    rw [List.pairwise_append]
    refine ⟨h.sorted, List.pairwise_singleton _ _, ?_⟩
    intro s hs t ht
    rw [List.mem_singleton.mp ht]
    exact (h.range s hs).2
  range := by
    intro s hs
    have hpos := h.numbered.seqNo_pos
    simp only [Log.record]
    rcases List.mem_append.mp hs with hs | hs
    · have hrange := h.range s hs
      omega
    · rw [List.mem_singleton.mp hs]
      omega
  order := by
    rw [List.take_append_of_le_length h.claimed_length_le]
    exact h.order
  cached := by
    obtain ⟨j, hcached⟩ := h.cached
    refine ⟨min j (d.logged.drop d.claimed.length).length, ?_⟩
    rw [List.drop_append_of_le_length h.claimed_length_le,
      List.take_append_of_le_length (Nat.min_le_right _ _), ← List.take_eq_take_min]
    exact hcached
  checked := h.checked
  credit := by
    have hcredit := h.credit
    simp only [Log.record, List.length_append, List.length_singleton]
    omega

theorem Inv.other (h : d.Inv) {ev : Event} (htype : ev.type ≠ .trigger)
    (hfiring : ev.type ≠ .triggerFiring) : Inv { d with log := d.log.record ev } where
  mutex := h.mutex
  numbered := h.numbered.record ev
  held := by
    refine h.held.record ev (fun s _ ev hdesc => hdesc) ?_
    refine ⟨?_, fun hfire => (hfiring hfire).elim⟩
    exact ⟨fun h => (htype h).elim, fun hmem => (Nat.lt_irrefl _ (h.range _ hmem).2).elim⟩
  sorted := h.sorted
  range := by
    intro s hs
    have hrange := h.range s hs
    simp only [Log.record]
    omega
  order := h.order
  cached := h.cached
  checked := h.checked
  credit := h.credit

theorem Inv.credits (h : d.Inv) {tailWait : Int} {pending awake : Nat}
    (hcredit : awake + tailWait.toNat + pending ≤ d.awake + d.log.tailWait.toNat + d.pending) :
    Inv { d with
      log := { d.log with tailWait := tailWait }
      pending := pending
      awake := awake } where
  mutex := h.mutex
  numbered := ⟨h.numbered.size_pos, h.numbered.seqNo_pos, h.numbered.head_eq, h.numbered.tail_eq⟩
  held := h.held
  sorted := h.sorted
  range := h.range
  order := h.order
  cached := h.cached
  checked := h.checked
  credit := by
    have hall := h.credit
    show d.claimed.length + awake + tailWait.toNat + pending ≤ d.logged.length
    omega

theorem take_succ_of_drop_eq_cons {k : Nat} (h : l.drop k = u :: rest) :
    l.take (k + 1) = l.take k ++ [u] ∧ l.drop (k + 1) = rest := by
  constructor
  · rw [List.take_add, h]
    rfl
  · rw [← List.drop_drop, h]
    rfl

theorem Inv.numberAt_next (h : d.Inv) (hintime : d.InTime) (hu : d.Unclaimed u) :
    ∃ ev, d.log.events (u % d.log.size) = some ev ∧ ev.seqNo = u ∧ ev.type = .trigger := by
  have hrange := h.range u hu.1
  have hseen := hintime.unclaimed u hu
  obtain ⟨ev, hev, hseq, htype, -⟩ := h.held u hrange.1 hrange.2 (by omega)
  exact ⟨ev, hev, hseq, htype.mpr hu.1⟩

theorem Inv.claim (h : d.Inv) {j : Nat} (hnext : d.logged.drop d.claimed.length = u :: rest)
    (hawake : 0 < d.awake) :
    Inv { d with
      log := { d.log.record (firingEvent nameId wooFNamespace (u % d.log.size)) with
        lastChecked := u % d.log.size }
      tCache := (rest.take j).map d.node
      awake := d.awake - 1
      claimed := d.claimed ++ [some u] } where
  mutex := h.mutex
  numbered := by
    have hrecord := h.numbered.record (firingEvent nameId wooFNamespace (u % d.log.size))
    exact ⟨hrecord.size_pos, hrecord.seqNo_pos, hrecord.head_eq, hrecord.tail_eq⟩
  held := by
    refine h.held.record (firingEvent nameId wooFNamespace (u % d.log.size)) ?_ ?_
    · rintro s - ev ⟨htrigger, hfiring⟩
      refine ⟨htrigger, fun hfire => ?_⟩
      obtain ⟨t, ht, hcause⟩ := hfiring hfire
      exact ⟨t, List.mem_append_left _ ht, hcause⟩
    · refine ⟨?_, fun _ => ⟨u, List.mem_append_right _ (List.mem_singleton_self _), rfl⟩⟩
      constructor
      · intro htype
        cases htype
      · exact fun hmem => (Nat.lt_irrefl _ (h.range _ hmem).2).elim
  sorted := h.sorted
  range := by
    intro s hs
    have hrange := h.range s hs
    simp only [Log.record]
    omega
  order := by
    rw [List.length_append, List.length_singleton, (take_succ_of_drop_eq_cons hnext).1,
      List.map_append, ← h.order]
    rfl
  cached := by
    refine ⟨j, ?_⟩
    rw [List.length_append, List.length_singleton, (take_succ_of_drop_eq_cons hnext).2]
    rfl
  checked := by simp [lastClaimed, Log.record]
  credit := by
    have hcredit := h.credit
    have hlength : 0 < (d.logged.drop d.claimed.length).length := by
      rw [hnext]
      exact Nat.succ_pos _
    simp only [Log.record, List.length_append, List.length_singleton]
    omega

theorem Inv.exists_next (h : d.Inv) (hawake : 0 < d.awake) :
    ∃ u rest, d.logged.drop d.claimed.length = u :: rest := by
  have hcredit := h.credit
  cases hdrop : d.logged.drop d.claimed.length with
  | nil =>
    rw [List.drop_eq_nil_iff] at hdrop
    omega
  | cons u rest => exact ⟨u, rest, rfl⟩

theorem semV_toNat_le (value : Int) : (semV value).toNat ≤ value.toNat + 1 := by
  unfold semV
  split <;> omega

theorem Step.inv {d' : Dispatch} (hstep : Step nameId wooFNamespace d d') (h : d.Inv)
    (hsafe : d.Safe) : d'.Inv := by
  cases hstep with
  | @trigger ev seqNo log htype hlog =>
    rw [h.room hsafe ev] at hlog
    obtain ⟨rfl, rfl⟩ := Prod.mk.inj (Except.ok.inj hlog)
    exact h.trigger ev htype
  | @other ev seqNo log htype hfiring hlog =>
    rw [h.room hsafe ev] at hlog
    obtain ⟨rfl, rfl⟩ := Prod.mk.inj (Except.ok.inj hlog)
    exact h.other htype hfiring
  | post hpending =>
    have hle := semV_toNat_le d.log.tailWait
    exact h.credits (by omega)
  | wait hwait =>
    obtain ⟨hpos, rfl⟩ := semP_eq_ok.mp hwait
    exact h.credits (by omega)
  | @claim fuel slot log tCache hawake hintime hclaim =>
    obtain ⟨u, rest, hnext⟩ := h.exists_next hawake
    obtain ⟨j, -, hends⟩ := h.wooFForkerClaim hsafe hintime nameId wooFNamespace hnext
    have hresult := Except.ok.inj (hends fuel _ hclaim)
    obtain ⟨rfl, rfl, rfl⟩ := hresult
    obtain ⟨ev, hev, hseq, -⟩ := h.numberAt_next hintime
      (h.unclaimed_iff.mpr (hnext ▸ List.mem_cons_self))
    have hnumber : (some (u % d.log.size)).bind d.log.numberAt = some u := by
      simp [Log.numberAt, hev, hseq]
    rw [hnumber]
    exact h.claim hnext hawake

theorem Reachable.inv {hostId size : Nat} (hsize : 0 < size)
    (h : Reachable nameId wooFNamespace hostId size Safe d) : d.Inv := by
  induction h with
  | start => exact start_inv hostId hsize
  | step _ hsafe hstep ih => exact hstep.inv ih hsafe

end Preserved

/-! ## Whole runs -/

section Runs

variable {nameId hostId size : Nat} {wooFNamespace : Bytes} {d : Dispatch}

/-- The claims so far have all found a trigger and never the same twice; as many claims as
triggers leave none; and the forker that comes through next claims the unclaimed trigger
with the smallest number. -/
structure Exact (nameId : Nat) (wooFNamespace : Bytes) (d : Dispatch) : Prop where
  found : none ∉ d.claimed
  once : d.claimed.Nodup
  complete : d.claimed.length = d.logged.length → ∀ u, ¬ d.Unclaimed u
  next : 0 < d.awake → d.InTime → d.Safe →
    (∃ fuel, Cspot.wooFForkerClaim nameId wooFNamespace fuel d.log d.tCache ≠ none) ∧
    ∀ fuel r, Cspot.wooFForkerClaim nameId wooFNamespace fuel d.log d.tCache = some r →
      ∃ slot log tCache ev, r = .ok (some slot, log, tCache) ∧ d.log.events slot = some ev ∧
        ev.type = .trigger ∧ IsLeast {u | d.Unclaimed u} ev.seqNo

theorem Inv.exact (h : d.Inv) : d.Exact nameId wooFNamespace where
  found := by
    rw [h.order, List.mem_map]
    rintro ⟨t, -, ht⟩
    cases ht
  once := by
    rw [h.order]
    apply List.Nodup.map (Option.some_injective _)
    have hsorted := h.sorted.sublist (List.take_sublist d.claimed.length d.logged)
    exact hsorted.imp Nat.ne_of_lt
  complete := by
    intro hlength u hu
    have hmem := h.unclaimed_iff.mp hu
    rw [hlength, List.drop_length] at hmem
    cases hmem
  next := by
    intro hawake hintime hsafe
    obtain ⟨u, rest, hnext⟩ := h.exists_next hawake
    have hu : d.Unclaimed u := h.unclaimed_iff.mpr (hnext ▸ List.mem_cons_self)
    obtain ⟨ev, hev, hseq, htype⟩ := h.numberAt_next hintime hu
    obtain ⟨j, hends, hall⟩ := h.wooFForkerClaim hsafe hintime nameId wooFNamespace hnext
    refine ⟨hends, fun fuel r hclaim => ⟨_, _, _, ev, hall fuel r hclaim, hev, htype, ?_⟩⟩
    rw [hseq]
    refine ⟨hu, fun v hv => ?_⟩
    have hsorted := h.sorted.sublist (List.drop_sublist d.claimed.length d.logged)
    have hmem := h.unclaimed_iff.mp hv
    rw [hnext] at hsorted hmem
    rcases List.mem_cons.mp hmem with rfl | hmem
    · exact Nat.le_refl _
    · exact Nat.le_of_lt ((List.pairwise_cons.mp hsorted).1 v hmem)

theorem Reachable.eq_start {P : Dispatch → Prop} (h : Reachable nameId wooFNamespace hostId 0 P d) :
    d = Dispatch.start hostId 0 := by
  have hfull (ev : Event) (r : Nat × Log) : logEvent (Dispatch.start hostId 0).log ev ≠ .ok r := by
    intro hlog
    cases hlog
  induction h with
  | start => rfl
  | step _ _ hstep ih =>
    subst ih
    cases hstep with
    | trigger _ hlog => exact (hfull _ _ hlog).elim
    | other _ _ hlog => exact (hfull _ _ hlog).elim
    | post hpending => exact (Nat.lt_irrefl 0 hpending).elim
    | wait hwait =>
      obtain ⟨hpos, -⟩ := semP_eq_ok.mp hwait
      exact (Int.lt_irrefl 0 hpos).elim
    | claim hawake => exact (Nat.lt_irrefl 0 hawake).elim

/-- In every run whose actions are all taken in safe states, triggers are claimed once and in
order. -/
theorem dispatch_exact {d : Dispatch}
    (h : Reachable nameId wooFNamespace hostId size Safe d) : d.Exact nameId wooFNamespace := by
  rcases Nat.eq_zero_or_pos size with rfl | hsize
  · rw [h.eq_start]
    refine ⟨by simp [Dispatch.start], .nil, ?_, fun hawake => (Nat.lt_irrefl 0 hawake).elim⟩
    rintro - u ⟨hmem, -⟩
    cases hmem
  · exact (h.inv hsize).exact

theorem exists_awake (nameId hostId : Nat) (wooFNamespace : Bytes) (P : Dispatch → Prop) {n : Nat}
    (hsize : 0 < size) (hn : n + 3 < Word.modulus)
    (hP : ∀ d : Dispatch, d.log.size = size → d.log.seqNo ≤ n + 2 → P d) :
    ∃ d, Reachable nameId wooFNamespace hostId size P d ∧ d.Inv ∧ d.log.size = size ∧
      d.log.seqNo = n + 2 ∧ d.logged = [n + 1] ∧ d.claimed = [] ∧ d.tCache = [] ∧ d.awake = 1 := by
  have hothers : ∀ k ≤ n, ∃ d, Reachable nameId wooFNamespace hostId size P d ∧ d.Inv ∧
      d.log.size = size ∧ d.log.seqNo = k + 1 ∧ d.log.tailWait = 0 ∧ d.logged = [] ∧
      d.claimed = [] ∧ d.tCache = [] ∧ d.awake = 0 ∧ d.pending = 0 := by
    intro k hk
    induction k with
    | zero => exact ⟨_, .start, start_inv hostId hsize, rfl, rfl, rfl, rfl, rfl, rfl, rfl, rfl⟩
    | succ k ih =>
      obtain ⟨d, hreach, hinv, hsized, hseq, hrest⟩ := ih (by omega)
      have hlog := hinv.numbered.logEvent hinv.mutex (by omega) (eventCreate .append 0)
      refine ⟨_, hreach.step (hP d hsized (by omega)) (.other ?_ ?_ hlog),
        hinv.other ?_ ?_, hsized, ?_, hrest⟩
      · decide
      · decide
      · decide
      · decide
      · exact congrArg (· + 1) hseq
  obtain ⟨d, hreach, hinv, hsized, hseq, hwait, hlogged, hclaimed, hcache, hawake, hpending⟩ :=
    hothers n (Nat.le_refl n)
  have hlog := hinv.numbered.logEvent hinv.mutex (by omega) (eventCreate .trigger 0)
  have htrigger := hreach.step (hP d hsized (by omega)) (.trigger rfl hlog)
  have hposted := htrigger.step (hP _ hsized (by simp [Log.record, hseq])) (.post (Nat.succ_pos _))
  have hcount : semP (semV (d.log.record (eventCreate .trigger 0)).tailWait) = .ok 0 := by
    simp [Log.record, hwait, semV, intMax, semP]
  have hwoken := hposted.step (hP _ hsized (by simp [Log.record, hseq])) (.wait hcount)
  refine ⟨_, hwoken, ?_, hsized, by simp [Log.record, hseq], by simp [hlogged, hseq], hclaimed,
    hcache, by simp [hawake]⟩
  exact (hinv.trigger (eventCreate .trigger 0) rfl).credits (by simp [hpending])

theorem dispatch_exact_four :
    ∃ d, Reachable 7 [] 7 4 Safe d ∧ d.logged = [1] ∧ 0 < d.awake ∧ d.Exact 7 [] := by
  obtain ⟨d, hreach, -, -, -, hlogged, -, -, hawake⟩ :=
    exists_awake 7 7 [] Safe (n := 0) (show 0 < 4 by decide) (by decide)
      (fun d hsize hseq => ⟨by omega, by omega⟩)
  exact ⟨d, hreach, hlogged, by omega, dispatch_exact hreach⟩

/-- A slot near the top of the `int` range looks negative: the walk is thrown back to the last
slot again and again. -/
theorem scanBack_last_slot {log : Log} (hsize : log.size = 2 ^ 31 + 10) (htail : log.tail = 0)
    (hchecked : log.lastChecked = Word.allOnes) (fuel : Nat) (scan : Scan) :
    Cspot.scanBack log fuel (2 ^ 31 + 9) scan = none := by
  have hback : Cspot.stepBack (2 ^ 31 + 10) (2 ^ 31 + 9) = 2 ^ 31 + 9 := by decide
  induction fuel generalizing scan with
  | zero => rfl
  | succ fuel ih =>
    rw [Cspot.scanBack, if_neg (by omega)]
    simp only [hsize, hback, hchecked]
    exact ih _

/-- On a log with more than `2 ^ 31 + 1` slots a forker can be woken for a trigger and never
come out of the walk that looks for it. -/
theorem claim_never_ends :
    ∃ d, Reachable 7 [] 7 (2 ^ 31 + 10) (fun _ => True) d ∧ 0 < d.awake ∧ d.InTime ∧
      d.Unclaimed (2 ^ 31 + 2) ∧
      ∀ fuel, Cspot.wooFForkerClaim 7 [] fuel d.log d.tCache = none := by
  obtain ⟨d, hreach, hinv, hsize, hseq, hlogged, hclaimed, hcache, hawake⟩ :=
    exists_awake 7 7 [] (fun _ => True) (n := 2 ^ 31 + 1) (show 0 < 2 ^ 31 + 10 by decide)
      (by decide) (fun _ _ _ => trivial)
  have hunclaimed : ∀ u, d.Unclaimed u ↔ u = 2 ^ 31 + 2 := by
    intro u
    simp [Unclaimed, hlogged, hclaimed]
  have hhead : d.log.head = 2 ^ 31 + 2 := by
    rw [hinv.numbered.head_eq, hseq, hsize]
    decide
  have htail : d.log.tail = 0 := by
    rw [hinv.numbered.tail_eq, hseq, hsize]
    decide
  have hchecked : d.log.lastChecked = Word.allOnes := by
    rw [hinv.checked, if_pos hclaimed]
  refine ⟨d, hreach, by omega, ⟨?_, ?_⟩, (hunclaimed _).mpr rfl, ?_⟩
  · intro u hu
    rw [(hunclaimed u).mp hu]
    omega
  · intro t ht
    rw [hclaimed] at ht
    cases ht
  · intro fuel
    have hback : Cspot.stepBack (2 ^ 31 + 10) (2 ^ 31 + 2) = 2 ^ 31 + 9 := by decide
    rw [hcache, Cspot.wooFForkerClaim, Cspot.chooseTrigger, hhead]
    cases fuel with
    | zero => rfl
    | succ fuel =>
      rw [Cspot.scanBack, if_neg (by omega)]
      simp only [hsize, hback, hchecked]
      rw [if_neg (by decide), scanBack_last_slot hsize htail hchecked]
      rfl

end Runs

end Dispatch

end Cspot
