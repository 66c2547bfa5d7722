import Cspot.Monitor.Basic

/-!
# One handler at a time

In every run one process holds the monitor.  Its place in the code says how far the pool has
been worked off: the done count, and what became of every item up to it.
-/

namespace Cspot.Monitor

/-! ## What became of the items -/

/-- The item is one that may be skipped: it is marked, and a later one of the first `length`
items with the same handler is marked too. -/
def State.Superseded (m : State) (number length : Nat) : Prop :=
  ∃ item later later', m.queued[number - 1]? = some item ∧ item.idempotent ≠ 0 ∧
    number < later ∧ later ≤ length ∧ m.queued[later - 1]? = some later' ∧
    later'.handler = item.handler ∧ later'.idempotent ≠ 0

/-- The first `n` items of the pool were started or skipped, in order and each once. -/
structure State.Accounts (m : State) (n : Nat) : Prop where
  started : m.started.Pairwise (· < ·)
  skipped : (m.skipped.map Prod.fst).Pairwise (· < ·)
  started_le : ∀ k ∈ m.started, k ≤ n
  skipped_le : ∀ k ∈ m.skipped.map Prod.fst, k ≤ n
  settled : ∀ k, 0 < k → k ≤ n → (k ∈ m.started ↔ k ∉ m.skipped.map Prod.fst)
  superseded : ∀ k ∈ m.skipped, k.2 ≤ m.queued.length ∧ m.Superseded k.1 k.2

section Accounts

variable {m m' : State} {n : Nat}

theorem State.Superseded.mono {length : Nat} (h : m.Superseded n length)
    (hqueued : ∃ more, m'.queued = m.queued ++ more) : m'.Superseded n length := by
  obtain ⟨item, later, later', hitem, hflag, hlt, hle, hlater, hsame, hflag'⟩ := h
  obtain ⟨more, hmore⟩ := hqueued
  have hkeep {k : Nat} {x : PoolItem} (hx : m.queued[k]? = some x) : m'.queued[k]? = some x := by
    rw [hmore, List.getElem?_append_left (List.getElem?_eq_some_iff.1 hx).1]
    exact hx
  exact ⟨item, later, later', hkeep hitem, hflag, hlt, hle, hkeep hlater, hsame, hflag'⟩

theorem State.Accounts.congr (h : m.Accounts n) (hstarted : m'.started = m.started)
    (hskipped : m'.skipped = m.skipped) (hqueued : ∃ more, m'.queued = m.queued ++ more) :
    m'.Accounts n := by
  refine ⟨hstarted ▸ h.started, hskipped ▸ h.skipped, hstarted ▸ h.started_le,
    hskipped ▸ h.skipped_le, by rw [hstarted, hskipped]; exact h.settled, ?_⟩
  intro k hk
  rw [hskipped] at hk
  obtain ⟨hle, hsuper⟩ := h.superseded k hk
  refine ⟨?_, hsuper.mono hqueued⟩
  obtain ⟨more, hmore⟩ := hqueued
  rw [hmore, List.length_append]
  omega

theorem State.Accounts.start (h : m.Accounts n) :
    { m with started := m.started ++ [n + 1] }.Accounts (n + 1) := by
  refine ⟨?_, h.skipped, ?_, ?_, ?_, h.superseded⟩
  · rw [List.pairwise_append]
    refine ⟨h.started, List.pairwise_singleton _ _, ?_⟩
    intro k hk next hnext
    rw [List.mem_singleton] at hnext
    have hle := h.started_le k hk
    omega
  · intro k hk
    rcases List.mem_append.1 hk with hk | hk
    · have hle := h.started_le k hk
      omega
    · rw [List.mem_singleton] at hk
      omega
  · intro k hk
    have hle := h.skipped_le k hk
    omega
  · intro k hpos hle
    rw [List.mem_append, List.mem_singleton]
    by_cases hk : k = n + 1
    · have hnot : k ∉ m.skipped.map Prod.fst := fun hmem => by
        have hle := h.skipped_le k hmem
        omega
      exact iff_of_true (.inr hk) hnot
    · rw [← h.settled k hpos (by omega)]
      exact or_iff_left hk

theorem State.Accounts.skip (h : m.Accounts n)
    (hsuper : m.Superseded (n + 1) m.queued.length) :
    { m with
        done := m.done.append ()
        skipped := m.skipped ++ [(n + 1, m.queued.length)] }.Accounts (n + 1) := by
  have hnumbers : (m.skipped ++ [(n + 1, m.queued.length)]).map Prod.fst =
      m.skipped.map Prod.fst ++ [n + 1] := by
    rw [List.map_append]
    rfl
  refine ⟨h.started, ?_, ?_, ?_, ?_, ?_⟩
  · rw [hnumbers, List.pairwise_append]
    refine ⟨h.skipped, List.pairwise_singleton _ _, ?_⟩
    intro k hk next hnext
    rw [List.mem_singleton] at hnext
    have hle := h.skipped_le k hk
    omega
  · intro k hk
    have hle := h.started_le k hk
    omega
  · rw [hnumbers]
    intro k hk
    rcases List.mem_append.1 hk with hk | hk
    · have hle := h.skipped_le k hk
      omega
    · rw [List.mem_singleton] at hk
      omega
  · intro k hpos hle
    rw [hnumbers, List.mem_append, List.mem_singleton]
    by_cases hk : k = n + 1
    · have hnot : k ∉ m.started := fun hmem => by
        have hle := h.started_le k hmem
        omega
      exact iff_of_false hnot (fun hno => hno (.inr hk))
    · rw [h.settled k hpos (by omega), or_iff_left hk]
  · intro k hk
    rcases List.mem_append.1 hk with hk | hk
    · exact h.superseded k hk
    · rw [List.mem_singleton] at hk
      rw [hk]
      exact ⟨Nat.le_refl _, hsuper⟩

end Accounts

/-! ## The holder -/

def State.Copies (m : State) (lastDone : Nat) (items : List PoolItem) : Prop :=
  ∀ i < items.length, items[i]? = m.queued[lastDone + i]?

def State.Stands (m : State) : Proc → Prop
  | .invoker .scheduled => m.Accounts m.done.latest
  | .invoker (.counted lastDone) => lastDone = m.done.latest ∧ m.Accounts lastDone
  | .invoker (.fetching lastDone count items) =>
    lastDone = m.done.latest ∧ m.Accounts lastDone ∧ 0 < count ∧
      lastDone + count ≤ m.queued.length ∧ items.length ≤ count ∧ m.Copies lastDone items
  | .invoker (.choosing lastDone items i) =>
    m.done.latest = lastDone + i ∧ m.Accounts (lastDone + i) ∧ i < items.length ∧
      lastDone + items.length ≤ m.queued.length ∧ m.Copies lastDone items
  | .invoker .idle => m.Accounts m.done.latest
  | .invoker .returning => False
  | .handler number item .scheduled =>
    number = m.done.latest + 1 ∧ m.Accounts m.done.latest ∧ item.monitorName = m.name
  | .handler number item .running =>
    number = m.done.latest + 1 ∧ m.Accounts number ∧ item.monitorName = m.name
  | .handler number item .exiting =>
    number = m.done.latest ∧ m.Accounts number ∧ item.monitorName = m.name
  | .handler _ _ .left => False

structure State.Inv (m : State) : Prop where
  items : ∀ item ∈ m.queued, item.monitorName = m.name
  held : ∃ holder, m.procs.filter Proc.holds = [holder] ∧ m.Stands holder

theorem Enqueues.monitorName {name : Bytes} {item : PoolItem} (h : Enqueues name item) :
    item.monitorName = name := by
  cases h <;> rfl

section Steps

variable {m m' : State} {lastDone : Nat} {items : List PoolItem} {p : Proc}

theorem State.pool_latest (m : State) : m.pool.latest = m.queued.length := by
  rw [State.pool, Window.latest_appendAll_empty]
  omega

theorem State.Outstanding.read (hout : m.Outstanding) {n : Nat} (hlow : m.done.latest < n) :
    m.pool.read n = m.queued[n - 1]? := by
  unfold State.Outstanding historyLength at hout
  rw [State.pool, Window.read_appendAll_empty, if_pos]
  unfold historyLength
  omega

theorem State.Copies.concat {item : PoolItem} (h : m.Copies lastDone items)
    (hitem : m.queued[lastDone + items.length]? = some item) :
    m.Copies lastDone (items ++ [item]) := by
  intro i hi
  rw [List.length_append, List.length_singleton] at hi
  rcases Nat.lt_succ_iff_lt_or_eq.1 hi with hlt | rfl
  · rw [List.getElem?_append_left hlt]
    exact h i hlt
  · rw [List.getElem?_concat_length, hitem]

theorem State.Copies.superseded {i : Nat} {item : PoolItem} (h : m.Copies lastDone items)
    (hlen : lastDone + items.length ≤ m.queued.length) (hitem : items[i]? = some item)
    (hskip : skips items i item = true) :
    i + 1 < items.length ∧ m.Superseded (lastDone + i + 1) m.queued.length := by
  have hi := (List.getElem?_eq_some_iff.1 hitem).1
  rw [skips, Bool.and_eq_true, decide_eq_true_iff, List.any_eq_true] at hskip
  obtain ⟨hflag, later, hmem, hlater⟩ := hskip
  rw [Bool.and_eq_true, decide_eq_true_iff, decide_eq_true_iff] at hlater
  obtain ⟨j, hj⟩ := List.mem_iff_getElem?.1 hmem
  rw [List.getElem?_drop] at hj
  have hlt := (List.getElem?_eq_some_iff.1 hj).1
  refine ⟨by omega, item, lastDone + (i + 1 + j) + 1, later, ?_, hflag, by omega, by omega, ?_,
    hlater⟩
  · rw [Nat.add_sub_cancel, ← h i hi, hitem]
  · rw [Nat.add_sub_cancel, ← h _ hlt, hj]

/-- Step lemma: what the holder does leaves one holder. -/
theorem State.Stands.advance (h : m.Stands p) (hout : m.Outstanding)
    (hitems : ∀ item ∈ m.queued, item.monitorName = m.name) :
    ∃ m₁ procs p', m.advance p = (m₁, procs) ∧ procs.filter Proc.holds = [p'] ∧ m₁.Stands p' ∧
      m₁.name = m.name ∧ m₁.queued = m.queued := by
  cases p with
  | invoker phase =>
    cases phase with
    | scheduled => exact ⟨m, _, _, rfl, rfl, ⟨rfl, h⟩, rfl, rfl⟩
    | counted lastDone =>
      obtain ⟨rfl, hacc⟩ := h
      by_cases hmore : m.done.latest + 1 ≤ m.pool.latest
      · have hlatest := m.pool_latest
        exact ⟨m, _, _, if_pos hmore, rfl,
          ⟨rfl, hacc, by omega, by omega, Nat.zero_le _, nofun⟩, rfl, rfl⟩
      · exact ⟨m, _, .invoker .idle, if_neg hmore, rfl, hacc, rfl, rfl⟩
    | fetching lastDone count items =>
      obtain ⟨hdone, hacc, hpos, hle, hlen, hcopies⟩ := h
      by_cases hlt : items.length < count
      · have hget := List.getElem?_eq_getElem
          (show lastDone + items.length < m.queued.length by omega)
        have hread := hout.read (show m.done.latest < lastDone + 1 + items.length by omega)
        rw [show lastDone + 1 + items.length - 1 = lastDone + items.length by omega,
          hget] at hread
        refine ⟨m, _, .invoker (.fetching lastDone count (items ++ [m.queued[_]])),
          (if_pos hlt).trans (by rw [hread]), rfl,
          ⟨hdone, hacc, hpos, hle, ?_, hcopies.concat hget⟩, rfl, rfl⟩
        rw [List.length_append, List.length_singleton]
        omega
      · exact ⟨m, _, .invoker (.choosing lastDone items 0), if_neg hlt, rfl,
          ⟨hdone.symm, hacc, by omega, by omega, hcopies⟩, rfl, rfl⟩
    | choosing lastDone items i =>
      obtain ⟨hdone, hacc, hi, hle, hcopies⟩ := h
      have hget := List.getElem?_eq_getElem hi
      simp only [State.advance, State.monitorInvoker, hget]
      rw [show lastDone + 1 + i = lastDone + i + 1 by omega]
      by_cases hskip : skips items i items[i] = true
      · obtain ⟨hnext, hsuper⟩ := hcopies.superseded hle hget hskip
        refine ⟨_, _, .invoker (.choosing lastDone items (i + 1)), if_pos hskip, rfl,
          ⟨?_, hacc.skip hsuper, hnext, hle, hcopies⟩, rfl, rfl⟩
        rw [Window.latest_append, hdone]
        omega
      · have hname : items[i].monitorName = m.name := by
          rw [hcopies i hi] at hget
          exact hitems _ (List.mem_of_getElem? hget)
        exact ⟨m, _, .handler (lastDone + i + 1) items[i] .scheduled, if_neg hskip, rfl,
          ⟨by omega, hdone ▸ hacc, hname⟩, rfl, rfl⟩
    | idle => exact ⟨m, _, .invoker .scheduled, rfl, rfl, h, rfl, rfl⟩
    | returning => exact h.elim
  | handler number item phase =>
    cases phase with
    | scheduled =>
      obtain ⟨rfl, hacc, hname⟩ := h
      exact ⟨_, _, .handler _ item .running, rfl, rfl, ⟨rfl, hacc.start, hname⟩, rfl, rfl⟩
    | running =>
      obtain ⟨hnumber, hacc, hname⟩ := h
      refine ⟨{ m with done := m.done.append () }, [.handler number item .exiting],
        .handler number item .exiting, ?_, rfl,
        ⟨?_, hacc.congr rfl rfl ⟨[], (List.append_nil _).symm⟩, hname⟩, rfl, rfl⟩
      · rw [State.advance, State.runHandler, if_pos hname]
      · rw [Window.latest_append]
        exact hnumber
    | exiting =>
      obtain ⟨rfl, hacc, hname⟩ := h
      refine ⟨m, [.invoker .scheduled, .handler m.done.latest item .left], .invoker .scheduled,
        ?_, rfl, hacc, rfl, rfl⟩
      rw [State.advance, State.runHandler, if_pos hname]
      rfl
    | left => exact h.elim

theorem State.advance_of_not_holds (m : State) (h : p.holds = false) : m.advance p = (m, []) := by
  cases p with
  | invoker phase => cases phase <;> first | rfl | cases h
  | handler number item phase => cases phase <;> first | rfl | cases h

theorem State.Copies.mono {more : List PoolItem} (h : m.Copies lastDone items)
    (hle : lastDone + items.length ≤ m.queued.length) (hmore : m'.queued = m.queued ++ more) :
    m'.Copies lastDone items := by
  intro i hi
  rw [hmore, List.getElem?_append_left (by omega)]
  exact h i hi

theorem State.Stands.mono (h : m.Stands p) (more : List PoolItem) (procs : List Proc) :
    { m with queued := m.queued ++ more, procs := procs }.Stands p := by
  have hkeep {n : Nat} (hacc : m.Accounts n) :
      { m with queued := m.queued ++ more, procs := procs }.Accounts n :=
    hacc.congr rfl rfl ⟨_, rfl⟩
  have hlen : (m.queued ++ more).length = m.queued.length + more.length := List.length_append
  cases p with
  | invoker phase =>
    cases phase with
    | scheduled => exact hkeep h
    | counted lastDone => exact ⟨h.1, hkeep h.2⟩
    | fetching lastDone count items =>
      obtain ⟨hdone, hacc, hpos, hle, hcount, hcopies⟩ := h
      exact ⟨hdone, hkeep hacc, hpos, by dsimp only; omega, hcount,
        hcopies.mono (by omega) rfl⟩
    | choosing lastDone items i =>
      obtain ⟨hdone, hacc, hi, hle, hcopies⟩ := h
      exact ⟨hdone, hkeep hacc, hi, by dsimp only; omega, hcopies.mono hle rfl⟩
    | idle => exact hkeep h
    | returning => exact h.elim
  | handler number item phase =>
    cases phase with
    | scheduled => exact ⟨h.1, hkeep h.2.1, h.2.2⟩
    | running => exact ⟨h.1, hkeep h.2.1, h.2.2⟩
    | exiting => exact ⟨h.1, hkeep h.2.1, h.2.2⟩
    | left => exact h.elim

theorem State.Stands.procs (h : m.Stands p) (procs : List Proc) :
    { m with procs := procs }.Stands p := by
  have hmono := h.mono [] procs
  rwa [List.append_nil] at hmono

theorem filter_holds_split {before after : List Proc} {holder : Proc}
    (h : (before ++ p :: after).filter Proc.holds = [holder]) (hp : p.holds = true) :
    p = holder ∧ before.filter Proc.holds = [] ∧ after.filter Proc.holds = [] := by
  rw [List.filter_append, List.filter_cons_of_pos hp, List.append_eq_singleton_iff] at h
  rcases h with ⟨hbefore, hafter⟩ | ⟨_, hafter⟩
  · rw [List.cons.injEq] at hafter
    exact ⟨hafter.1, hbefore, hafter.2⟩
  · cases hafter

theorem State.Inv.step (h : m.Inv) (hout : m.Outstanding) (hstep : Step m m') : m'.Inv := by
  obtain ⟨holder, hholder, hstands⟩ := h.held
  cases hstep with
  | put item hitem =>
    refine ⟨?_, holder, hholder, hstands.mono [item] m.procs⟩
    intro x hx
    rcases List.mem_append.1 hx with hx | hx
    · exact h.items x hx
    · rw [List.mem_singleton.1 hx]
      exact hitem.monitorName
  | run before after proc hprocs =>
    rw [hprocs] at hholder
    by_cases hp : proc.holds = true
    · obtain ⟨rfl, hbefore, hafter⟩ := filter_holds_split hholder hp
      obtain ⟨m₁, procs, p', hadvance, hfilter, hstands', hname, hqueued⟩ :=
        hstands.advance hout h.items
      rw [hadvance]
      refine ⟨?_, p', ?_, hstands'.procs _⟩
      · rw [hname, hqueued]
        exact h.items
      · simp [hbefore, hafter, hfilter]
    · rw [Bool.not_eq_true] at hp
      rw [m.advance_of_not_holds hp]
      refine ⟨h.items, holder, ?_, hstands.procs _⟩
      rw [List.filter_append, List.filter_cons_of_neg (by simp [hp])] at hholder
      simpa using hholder

end Steps

/-! ## Runs -/

/-- One process holds the monitor, the handlers started in the order of the pool, and every
item up to the done count was started once, or skipped for a later item that was already
queued. -/
structure State.Orderly (m : State) : Prop where
  holder : ∃ holder, m.procs.filter Proc.holds = [holder]
  order : m.started.Pairwise (· < ·)
  settled : ∀ n, 0 < n → n ≤ m.done.latest →
    (m.started.count n = 1 ∧ n ∉ m.skipped.map Prod.fst) ∨
      (n ∉ m.started ∧ ∃ length, (n, length) ∈ m.skipped ∧ length ≤ m.queued.length ∧
        m.Superseded n length)

variable {m : State}

theorem State.Accounts.orderly {m : State} {n : Nat} (h : m.Accounts n)
    (hn : m.done.latest ≤ n) {holder : Proc} (hholder : m.procs.filter Proc.holds = [holder]) :
    m.Orderly := by
  refine ⟨⟨holder, hholder⟩, h.started, ?_⟩
  intro k hpos hle
  have hsettled := h.settled k hpos (Nat.le_trans hle hn)
  by_cases hstarted : k ∈ m.started
  · have hnodup : m.started.Nodup := h.started.imp Nat.ne_of_lt
    exact .inl ⟨List.count_eq_one_of_mem hnodup hstarted, hsettled.1 hstarted⟩
  · have hskipped : k ∈ m.skipped.map Prod.fst := by
      by_contra hnot
      exact hstarted (hsettled.2 hnot)
    obtain ⟨⟨k', length⟩, hmem, rfl⟩ := List.mem_map.1 hskipped
    exact .inr ⟨hstarted, length, hmem, h.superseded _ hmem⟩

theorem State.Inv.orderly (h : m.Inv) : m.Orderly := by
  obtain ⟨holder, hholder, hstands⟩ := h.held
  cases holder with
  | invoker phase =>
    cases phase with
    | scheduled => exact State.Accounts.orderly hstands (Nat.le_refl _) hholder
    | counted lastDone => exact hstands.2.orderly (Nat.le_of_eq hstands.1.symm) hholder
    | fetching lastDone count items =>
      exact hstands.2.1.orderly (Nat.le_of_eq hstands.1.symm) hholder
    | choosing lastDone items i =>
      exact hstands.2.1.orderly (Nat.le_of_eq hstands.1) hholder
    | idle => exact State.Accounts.orderly hstands (Nat.le_refl _) hholder
    | returning => exact hstands.elim
  | handler number item phase =>
    cases phase with
    | scheduled => exact hstands.2.1.orderly (Nat.le_refl _) hholder
    | running => exact hstands.2.1.orderly (by rw [hstands.1]; omega) hholder
    | exiting => exact hstands.2.1.orderly (Nat.le_of_eq hstands.1.symm) hholder
    | left => exact hstands.elim

theorem monitorCreate_inv (name : Bytes) : (monitorCreate name).Inv := by
  refine ⟨nofun, .invoker .scheduled, rfl, ?_⟩
  refine ⟨.nil, .nil, nofun, nofun, ?_, nofun⟩
  intro k hpos hle
  have hzero : (monitorCreate name).done.latest = 0 := rfl
  omega

/-- Run lemma: the invariant, and the bound on the items that are waiting. -/
theorem Reachable.inv {name : Bytes} (h : Reachable name m) : m.Inv ∧ m.Outstanding := by
  induction h with
  | created => exact ⟨monitorCreate_inv name, Nat.zero_lt_succ _⟩
  | step _ hstep hout ih => exact ⟨ih.1.step ih.2 hstep, hout⟩

/-- In every run in which the pool does not overflow, whatever clients put and in whatever
order the processes go on. -/
theorem reachable_orderly {name : Bytes} {m : State} (h : Reachable name m) : m.Orderly :=
  h.inv.1.orderly

/-- Two items with the same handler: the first is skipped, the second runs. -/
theorem reachable_orderly_skipped :
    ∃ m, Reachable [1] m ∧ m.started = [2] ∧ m.skipped = [(1, 2)] ∧ m.Orderly := by
  have hput (m : State) (hm : Reachable [1] m) (hname : m.name = [1])
      (hout : State.Outstanding { m with queued := m.queued ++ [monitorPut [1] [] [7] 1 1] }) :=
    hm.step (.put (monitorPut [1] [] [7] 1 1) (hname ▸ .put [] [7] 1 1)) hout
  have hqueued := hput _ (hput _ .created rfl (by decide)) rfl (by decide)
  have hcounted := hqueued.step (.run [] [] _ rfl) (by decide)
  have hfetching := hcounted.step (.run [] [] _ rfl) (by decide)
  have hfirst := hfetching.step (.run [] [] _ rfl) (by decide)
  have hsecond := hfirst.step (.run [] [] _ rfl) (by decide)
  have hchoosing := hsecond.step (.run [] [] _ rfl) (by decide)
  have hskipped := hchoosing.step (.run [] [] _ rfl) (by decide)
  have hchosen := hskipped.step (.run [] [] _ rfl) (by decide)
  have hstarted := hchosen.step (.run [] _ _ rfl) (by decide)
  exact ⟨_, hstarted, rfl, rfl, reachable_orderly hstarted⟩

end Cspot.Monitor
