import Cspot.Woof.History

/-!
# Reading the tail

The backward walk of `WooFReadTail` against the entries of the window, newest first.
The walk is right as long as it stays between the newest slot and slot zero.  Past
slot zero it never reaches the upper half of a wrapped ring.
-/

namespace Cspot

section Walk

variable {wf : WooF} {ndx : Nat}

theorem readTailWalk_zero_succ (hsize : wf.historySize ≤ Word.allOnes) (count : Nat) :
    readTailWalk wf (count + 1) 0 =
      if wf.tail = Word.allOnes ∨ wf.tail = 0 then [(wf.slots 0).element]
      else (wf.slots 0).element :: readTailWalk wf count 0 := by
  have hbelow : Word.sub 0 1 = Word.allOnes := by decide
  simp only [readTailWalk, hbelow, ge_iff_le, if_pos hsize]
  by_cases hones : wf.tail = Word.allOnes
  · simp [hones]
  · by_cases hzero : wf.tail = 0
    · simp [hzero]
    · simp [hones, hzero, Ne.symm hzero]

theorem readTailWalk_descend (hndx : ndx < wf.historySize) (hmod : wf.historySize < Word.modulus)
    (a b : Nat) (ha : a ≤ ndx) (htail : ∀ i, i < a → ndx - 1 - i ≠ wf.tail) :
    readTailWalk wf (a + b) ndx =
      (List.range a).map (fun i => (wf.slots (ndx - i)).element) ++
        readTailWalk wf b (ndx - a) := by
  induction a generalizing ndx with
  | zero => simp
  | succ a ih =>
    have hbelow : Word.sub ndx 1 = ndx - 1 := Word.sub_of_le (by omega) (by omega)
    have hne : ndx - 1 ≠ wf.tail := by simpa using htail 0 (by omega)
    have hrest := @ih (ndx - 1) (by omega) (by omega) (fun i hi => by
      have := htail (i + 1) (by omega)
      rwa [show ndx - 1 - (i + 1) = ndx - 1 - 1 - i by omega] at this)
    have hshift : (List.range a).map (fun i => (wf.slots (ndx - 1 - i)).element) =
        (List.range a).map ((fun i => (wf.slots (ndx - i)).element) ∘ Nat.succ) := by
      apply List.map_congr_left
      intro i _
      rw [Function.comp_apply, show ndx - 1 - i = ndx - i.succ by omega]
    rw [show a + 1 + b = a + b + 1 by omega, readTailWalk]
    simp only [hbelow, ge_iff_le, if_neg hne]
    rw [if_neg (by omega), hrest, hshift, List.range_succ_eq_map, List.map_cons, List.map_map,
      List.cons_append, Nat.sub_zero, show ndx - 1 - a = ndx - (a + 1) by omega]

/-- Once at slot zero of a wrapped ring the walk stays there. -/
theorem readTailWalk_stuck (hsize : wf.historySize ≤ Word.allOnes)
    (hones : wf.tail ≠ Word.allOnes) (hzero : wf.tail ≠ 0) (count : Nat) :
    readTailWalk wf count 0 = List.replicate count (wf.slots 0).element := by
  induction count with
  | zero => rfl
  | succ count ih =>
    rw [readTailWalk_zero_succ hsize, if_neg (by simp [hones, hzero]), ih, List.replicate_succ]

/-- The walk stops below this slot, whatever it was asked for. -/
def WooF.WalkEndsAt (wf : WooF) (ndx : Nat) : Prop :=
  if Word.sub ndx 1 ≥ wf.historySize then wf.tail = Word.allOnes ∨ wf.tail = 0
  else Word.sub ndx 1 = wf.tail

theorem readTailWalk_succ (wf : WooF) (count ndx : Nat) : ∃ below,
    (wf.WalkEndsAt ndx → readTailWalk wf (count + 1) ndx = [(wf.slots ndx).element]) ∧
    (¬ wf.WalkEndsAt ndx → readTailWalk wf (count + 1) ndx =
      (wf.slots ndx).element :: readTailWalk wf count below) := by
  simp only [readTailWalk, WooF.WalkEndsAt]
  by_cases hlow : Word.sub ndx 1 ≥ wf.historySize
  · refine ⟨0, ?_⟩
    simp only [if_pos hlow]
    by_cases hones : wf.tail = Word.allOnes
    · simp [hones]
    · by_cases hzero : wf.tail = 0
      · simp [hzero]
      · simp [hones, hzero, Ne.symm hzero]
  · refine ⟨Word.sub ndx 1, ?_⟩
    simp only [if_neg hlow]
    by_cases htail : Word.sub ndx 1 = wf.tail
    · simp [htail]
    · simp [htail]

theorem length_readTailWalk_le (count ndx : Nat) : (readTailWalk wf count ndx).length ≤ count := by
  induction count generalizing ndx with
  | zero => exact Nat.le_refl 0
  | succ count ih =>
    obtain ⟨below, hends, hgoes⟩ := readTailWalk_succ wf count ndx
    by_cases h : wf.WalkEndsAt ndx
    · simp [hends h]
    · rw [hgoes h, List.length_cons]
      exact Nat.succ_le_succ (ih below)

theorem readTailWalk_succ_ne_nil (count ndx : Nat) : readTailWalk wf (count + 1) ndx ≠ [] := by
  obtain ⟨below, hends, hgoes⟩ := readTailWalk_succ wf count ndx
  by_cases h : wf.WalkEndsAt ndx
  · simp [hends h]
  · simp [hgoes h]

theorem mem_readTailWalk {count : Nat} {element : Bytes}
    (hmem : element ∈ readTailWalk wf count ndx) : ∃ i, element = (wf.slots i).element := by
  induction count generalizing ndx with
  | zero => cases hmem
  | succ count ih =>
    obtain ⟨below, hends, hgoes⟩ := readTailWalk_succ wf count ndx
    by_cases h : wf.WalkEndsAt ndx
    · rw [hends h] at hmem
      exact ⟨ndx, List.mem_singleton.1 hmem⟩
    · rw [hgoes h] at hmem
      rcases List.mem_cons.1 hmem with hmem | hmem
      · exact ⟨ndx, hmem⟩
      · exact ih hmem

theorem length_readTailWalk_eq_one_iff (count ndx : Nat) :
    (readTailWalk wf (count + 1) ndx).length = 1 ↔ count = 0 ∨ wf.WalkEndsAt ndx := by
  obtain ⟨below, hends, hgoes⟩ := readTailWalk_succ wf count ndx
  by_cases h : wf.WalkEndsAt ndx
  · simp [hends h, h]
  · rw [hgoes h, List.length_cons]
    cases count with
    | zero => simp [readTailWalk]
    | succ count =>
      obtain ⟨below', hends', hgoes'⟩ := readTailWalk_succ wf count below
      by_cases h' : wf.WalkEndsAt below
      · simp [hends' h', h]
      · simp [hgoes' h', h]

end Walk

/-! ## The walk and the window -/

section Newest

variable {wf : WooF} {W : Window Bytes} {a : Nat} {α : Type} {l : List α}

theorem WooF.Shows.take_newest (h : wf.Shows W) (hhead : a ≤ wf.head + 1)
    (hlen : a ≤ W.held.length) :
    W.held.reverse.take a = (List.range a).map fun i => (wf.slots (wf.head - i)).element := by
  apply List.ext_getElem (by simp; omega)
  intro i hi _
  have hfits := W.fits
  have hlt := h.head_lt
  simp only [List.length_take, List.length_reverse] at hi
  have hplace : Ring.place W.cap wf.head W.held.length (W.held.length - 1 - i) = wf.head - i := by
    unfold Ring.place
    rw [show wf.head + (W.cap - W.held.length) + (W.held.length - 1 - i) + 1 =
      wf.head - i + W.cap by omega, Nat.add_mod_right, Nat.mod_eq_of_lt (by omega)]
  have hcell := h.slots (W.held.length - 1 - i) _ (List.getElem?_eq_getElem (by omega))
  rw [hplace] at hcell
  simp only [List.getElem_take, List.getElem_reverse, List.getElem_map, List.getElem_range]
  exact hcell.symm

theorem WooF.Shows.take_newest_succ (h : wf.Shows W) (hhead : a ≤ wf.head)
    (hlen : a < W.held.length) :
    W.held.reverse.take (a + 1) =
      W.held.reverse.take a ++ [(wf.slots (wf.head - a)).element] := by
  rw [h.take_newest (by omega) hlen, h.take_newest (by omega) (by omega), List.range_succ,
    List.map_append, List.map_singleton]

theorem WooF.Shows.historySize_lt (h : wf.Shows W) : wf.historySize < Word.allOnes := by
  have hlimit : historyLimit < Word.allOnes := by decide
  have hcap := h.cap_lt
  rw [h.cap]
  omega

theorem WooF.Shows.walk_descend (h : wf.Shows W) (b : Nat) (hhead : a ≤ wf.head)
    (hlen : a ≤ W.held.length) (htail : ∀ i, i < a → wf.head - 1 - i ≠ wf.tail) :
    readTailWalk wf (a + b) wf.head =
      W.held.reverse.take a ++ readTailWalk wf b (wf.head - a) := by
  have hsize := h.historySize_lt
  have hhead' := h.head_lt
  have hones : Word.allOnes < Word.modulus := by decide
  rw [readTailWalk_descend (by rw [h.cap]; exact hhead') (by omega) a b hhead htail,
    h.take_newest (by omega) hlen]

theorem WooF.Shows.walk_short (h : wf.Shows W) (hhead : a ≤ wf.head) (hlen : a ≤ W.held.length)
    (htail : ∀ i, i < a → wf.head - 1 - i ≠ wf.tail) :
    readTailWalk wf a wf.head = W.held.reverse.take a := by
  have hwalk := h.walk_descend 0 hhead hlen htail
  simpa only [readTailWalk, Nat.add_zero, List.append_nil] using hwalk

theorem replicate_eq_take_iff {b : Nat} {x : α} :
    List.replicate b x = l.take b ↔ b ≤ l.length ∧ ∀ i, i < b → l[i]? = some x := by
  constructor
  · intro heq
    have hlen : b = min b l.length := by simpa using congrArg List.length heq
    refine ⟨by omega, fun i hi => ?_⟩
    have hget := congrArg (fun r => r[i]?) heq
    simpa [List.getElem?_replicate, List.getElem?_take, hi] using hget.symm
  · rintro ⟨hlen, hall⟩
    apply List.ext_getElem?
    intro i
    by_cases hi : i < b
    · simp [hi, hall i hi]
    · simp [hi]

theorem take_ne_of_length {r : List α} {c : Nat} (hlen : l.length ≠ min c r.length) :
    l ≠ r.take c := by
  intro heq
  rw [heq, List.length_take] at hlen
  exact hlen rfl

/-- Before the first wrap the walk also gives slot zero, which holds no entry. -/
theorem WooF.Shows.walk_unwrapped_iff (h : wf.Shows W) (hlt : W.held.length < W.cap) (c : Nat) :
    readTailWalk wf c wf.head = W.held.reverse.take c ↔ c ≤ W.held.length := by
  have hhead := h.head_unwrapped hlt
  have htail : wf.tail = Word.allOnes := by rw [h.tail, if_pos hlt]
  have hsize := h.historySize_lt
  have hcap := h.cap
  have hnot : ∀ a i, i < a → wf.head - 1 - i ≠ wf.tail := by
    intro a i _
    omega
  by_cases hc : c ≤ W.held.length
  · exact iff_of_true (h.walk_short (by omega) hc (hnot c)) hc
  · obtain ⟨b, rfl⟩ : ∃ b, c = wf.head + (b + 1) := ⟨c - wf.head - 1, by omega⟩
    refine iff_of_false (take_ne_of_length ?_) hc
    rw [h.walk_descend (b + 1) (Nat.le_refl _) (by omega) (hnot wf.head), Nat.sub_self,
      readTailWalk_zero_succ (by omega), if_pos (.inl htail), List.length_append]
    simp
    omega

theorem WooF.Shows.walk_one_slot (h : wf.Shows W) (hfull : W.held.length = W.cap)
    (hone : W.cap = 1) (htail : wf.tail = 0) (c : Nat) :
    readTailWalk wf c wf.head = W.held.reverse.take c := by
  have hsize := h.historySize_lt
  have hlt := h.head_lt
  have hzero : wf.head = 0 := by omega
  cases c with
  | zero => rfl
  | succ c =>
    have hnewest := h.take_newest (a := 1) (by omega) (by omega)
    have hall : W.held.reverse.take (c + 1) = W.held.reverse.take 1 := by
      rw [List.take_of_length_le (by simp; omega), List.take_of_length_le (by simp; omega)]
    rw [hall, hnewest, hzero, readTailWalk_zero_succ (by omega), if_pos (.inr htail)]
    simp

/-- With the tail in slot zero the walk stops one entry short. -/
theorem WooF.Shows.walk_tail_zero_iff (h : wf.Shows W) (hfull : W.held.length = W.cap)
    (hhead : wf.head + 1 = W.cap) (c : Nat) :
    readTailWalk wf c wf.head = W.held.reverse.take c ↔ W.cap = 1 ∨ c < W.cap := by
  have htail : wf.tail = 0 := by
    rw [h.tail, if_neg (by omega), Ring.next, hhead, Nat.mod_self]
  have hcap := h.cap
  have hsub : Word.sub 1 1 = 0 := by decide
  have hnot : ∀ a, a < wf.head → ∀ i, i < a → wf.head - 1 - i ≠ wf.tail := by
    intro a ha i hi
    omega
  by_cases hone : W.cap = 1
  · exact iff_of_true (h.walk_one_slot hfull hone htail c) (.inl hone)
  · -- one step above slot zero the walk meets the tail
    have hlast : ∀ b, readTailWalk wf (b + 1) 1 = [(wf.slots 1).element] := by
      intro b
      have hpos : ¬ 0 ≥ wf.historySize := by omega
      simp [readTailWalk, hsub, htail]
    have hwalk : ∀ b, readTailWalk wf (wf.head - 1 + (b + 1)) wf.head =
        W.held.reverse.take (wf.head - 1 + 1) := by
      intro b
      rw [h.walk_descend (b + 1) (by omega) (by omega) (hnot _ (by omega)),
        h.take_newest_succ (by omega) (by omega), show wf.head - (wf.head - 1) = 1 by omega, hlast]
    rcases Nat.lt_trichotomy c wf.head with hc | rfl | hc
    · have hshort := h.walk_short (Nat.le_of_lt hc) (by omega) (hnot c hc)
      exact iff_of_true hshort (.inr (by omega))
    · have hexact := hwalk 0
      rw [show wf.head - 1 + (0 + 1) = wf.head by omega] at hexact
      exact iff_of_true hexact (.inr (by omega))
    · obtain ⟨b, rfl⟩ : ∃ b, c = wf.head - 1 + (b + 1) := ⟨c - wf.head, by omega⟩
      refine iff_of_false (take_ne_of_length ?_) (by omega)
      rw [hwalk, List.length_take, List.length_reverse]
      omega

/-- With the tail above the head the walk repeats slot zero where older entries should
follow. -/
theorem WooF.Shows.walk_wrapped_iff (h : wf.Shows W) (hfull : W.held.length = W.cap)
    (hhead : wf.head + 1 < W.cap) (c : Nat) :
    readTailWalk wf c wf.head = W.held.reverse.take c ↔
      c ≤ wf.head + 1 ∨ c ≤ W.cap ∧
        ∀ i, wf.head < i → i < c → W.held.reverse[i]? = W.held.reverse[wf.head]? := by
  have htail : wf.tail = wf.head + 1 := by
    rw [h.tail, if_neg (by omega), Ring.next, Nat.mod_eq_of_lt hhead]
  have hsize := h.historySize_lt
  have hcap := h.cap
  have hnot : ∀ a i, i < a → wf.head - 1 - i ≠ wf.tail := by
    intro a i _
    omega
  by_cases hc : c ≤ wf.head
  · exact iff_of_true (h.walk_short hc (by omega) (hnot c)) (.inl (by omega))
  · obtain ⟨b, rfl⟩ : ∃ b, c = wf.head + 1 + b := ⟨c - wf.head - 1, by omega⟩
    have hnewest : W.held.reverse[wf.head]? = some (wf.slots 0).element := by
      have hget := congrArg (fun r => r[wf.head]?) (h.take_newest (Nat.le_refl _) (by omega))
      simpa [List.getElem?_take, List.getElem?_range] using hget
    have hwalk : readTailWalk wf (wf.head + 1 + b) wf.head =
        W.held.reverse.take (wf.head + 1) ++ List.replicate b (wf.slots 0).element := by
      rw [Nat.add_assoc, h.walk_descend (1 + b) (Nat.le_refl _) (by omega) (hnot wf.head),
        Nat.sub_self, readTailWalk_stuck (by omega) (by omega) (by omega),
        h.take_newest_succ (Nat.le_refl _) (by omega), Nat.sub_self, List.append_assoc,
        Nat.add_comm 1 b, List.replicate_succ, List.singleton_append]
    have hsplit : W.held.reverse.take (wf.head + 1 + b) =
        W.held.reverse.take (wf.head + 1) ++ (W.held.reverse.drop (wf.head + 1)).take b :=
      List.take_add
    rw [hwalk, hsplit, List.append_cancel_left_eq, replicate_eq_take_iff, hnewest]
    simp only [List.length_drop, List.length_reverse, List.getElem?_drop]
    constructor
    · rintro ⟨hroom, hall⟩
      rcases Nat.eq_zero_or_pos b with rfl | hb
      · exact .inl (by omega)
      · refine .inr ⟨by omega, fun i hlow hhigh => ?_⟩
        have := hall (i - (wf.head + 1)) (by omega)
        rwa [show wf.head + 1 + (i - (wf.head + 1)) = i by omega] at this
    · rintro (hb | ⟨hroom, hall⟩)
      · exact ⟨by omega, fun i hi => by omega⟩
      · exact ⟨by omega, fun i hi => hall (wf.head + 1 + i) (by omega) (by omega)⟩

end Newest

/-! ## Tail reads after a history of appends -/

/-- A tail read gives as many elements as were asked for, are held and fit, and each of
them is what a read of its number gives. -/
def TailReadExact (wf : WooF) (h k c : Nat) : Prop :=
  ∃ elements, wooFReadTail wf c = .ok ((elements.length : Int), elements, wf) ∧
    elements.length = min c (min k h) ∧
    ∀ i e, elements[i]? = some e →
      wooFReadWithCause wf (wooFLatestSeqno wf - i) = .ok (some e, wf)

/-- When the walk is right, for the elements appended to a new WooF of `h` slots.  Past
slot zero of a wrapped ring it is right only if the older elements asked for happen to
equal the one in slot zero. -/
def TailSafe (h c : Nat) (elements : List Bytes) : Prop :=
  let k := elements.length
  if k < h then c ≤ k
  else if k % h + 1 = h then h = 1 ∨ c < h
  else c ≤ k % h + 1 ∨ c ≤ h ∧
    ∀ i, k % h < i → i < c → elements.reverse[i]? = elements.reverse[k % h]?

variable {wf : WooF} {W : Window Bytes}

theorem wooFReadTail_eq (hmutex : wf.mutex = 1) (c : Nat) :
    wooFReadTail wf c =
      .ok (((readTailWalk wf c wf.head).length : Int), readTailWalk wf c wf.head, wf) := by
  simp [wooFReadTail, hmutex, WooF.release_mutex hmutex]

theorem WooF.Shows.read_latest_sub (h : wf.Shows W) (hmutex : wf.mutex = 1) {i : Nat}
    (hi : i < W.held.length) :
    wooFReadWithCause wf (wooFLatestSeqno wf - i) = .ok (W.held.reverse[i]?, wf) := by
  have hnum := W.numbered
  rw [h.wooFLatestSeqno_eq]
  unfold Window.latest
  rw [h.reads.wooFReadWithCause_eq hmutex (by omega), Window.read, Window.earliest,
    if_pos (by omega), List.getElem?_reverse hi]
  congr 3
  omega

theorem WooF.Shows.tailReadExact_iff (hshows : wf.Shows W) (hmutex : wf.mutex = 1) {h k : Nat}
    (hlen : W.held.length = min k h) (c : Nat) :
    TailReadExact wf h k c ↔ readTailWalk wf c wf.head = W.held.reverse.take c := by
  have hcall := wooFReadTail_eq hmutex c
  constructor
  · rintro ⟨elements, htail, hcount, hall⟩
    simp only [hcall, Except.ok.injEq, Prod.mk.injEq] at htail
    rw [htail.2.1]
    apply List.ext_getElem?
    intro i
    by_cases hi : i < elements.length
    · have helement := hall i elements[i] (List.getElem?_eq_getElem hi)
      rw [hshows.read_latest_sub hmutex (by omega)] at helement
      simp only [Except.ok.injEq, Prod.mk.injEq, and_true] at helement
      rw [List.getElem?_take, if_pos (by omega), helement, List.getElem?_eq_getElem hi]
    · rw [List.getElem?_eq_none (by omega), List.getElem?_eq_none]
      simp
      omega
  · intro hwalk
    refine ⟨readTailWalk wf c wf.head, hcall, ?_, ?_⟩
    · rw [hwalk, List.length_take, List.length_reverse, hlen]
    · intro i e he
      rw [hwalk, List.getElem?_take] at he
      split at he
      · have hi : i < W.held.length := by
          by_contra hge
          rw [List.getElem?_eq_none (by simp; omega)] at he
          cases he
        rw [hshows.read_latest_sub hmutex hi, he]
      · cases he

/-- For every history of appends and every count, the tail read is exact in precisely
the safe cases. -/
theorem tailReadExact_iff_safe (name : Bytes) (es h ino : Nat) (hh : 1 ≤ h)
    (hspace : wooFSpace es h < Word.modulus) (g g' : Globals) (wf' : WooF)
    (calls : List AppendCall) (numbers : List Nat) (hroom : 1 + calls.length < Word.modulus)
    (hlog : g.nameLog.Accepts calls.length) (helems : ∀ c ∈ calls, c.element.length = es)
    (hrun : appendAll g (wooFCreate name es h ino) calls = .ok (numbers, g', wf')) (c : Nat) :
    TailReadExact wf' h calls.length c ↔ TailSafe h c (calls.map AppendCall.element) := by
  obtain ⟨hshows, hmutex, hhead⟩ := appendAll_create_shows hh (historySize_lt_of_space hspace)
    hroom hlog helems hrun
  have hheld := Window.held_appendAll_empty h 1 hh Nat.one_pos (calls.map AppendCall.element)
  have hcap : ((Window.empty h 1 hh Nat.one_pos).appendAll
      (calls.map AppendCall.element)).cap = h := Window.appendAll_cap _ _
  have hlen : ((Window.empty h 1 hh Nat.one_pos).appendAll
      (calls.map AppendCall.element)).held.length = min calls.length h := by
    rw [hheld, List.length_drop, List.length_map]
    omega
  have hmod := Nat.mod_lt calls.length hh
  rw [hshows.tailReadExact_iff hmutex hlen, TailSafe]
  simp only [List.length_map]
  split
  · rw [hshows.walk_unwrapped_iff (by omega), hlen]
    omega
  · split
    · rw [hshows.walk_tail_zero_iff (by omega) (by omega), hcap]
    · have hnewest : ∀ i, i < h → ((Window.empty h 1 hh Nat.one_pos).appendAll
          (calls.map AppendCall.element)).held.reverse[i]? =
            (calls.map AppendCall.element).reverse[i]? := by
        intro i hi
        rw [hheld, List.reverse_drop, List.getElem?_take, List.length_map, if_pos (by omega)]
      rw [hshows.walk_wrapped_iff (by omega) (by omega), hcap, hhead]
      refine or_congr_right (and_congr_right fun hc => forall_congr' fun i => ?_)
      refine imp_congr_right fun _ => imp_congr_right fun hi => ?_
      rw [hnewest i (by omega), hnewest _ (by omega)]

theorem tailReadExact_iff_safe_two :
    ∃ numbers g' wf', appendAll ⟨0, [], 0, logCreate 0 2⟩ (wooFCreate [] 1 2 0)
        [⟨none, [7], 0, 0⟩] = .ok (numbers, g', wf') ∧
      (TailReadExact wf' 2 1 1 ↔ TailSafe 2 1 [[7]]) := by
  have hlog : (logCreate 0 2).Accepts 1 := ⟨by decide, by decide, by decide, by decide⟩
  have helems : ∀ c ∈ [(⟨none, [7], 0, 0⟩ : AppendCall)], c.element.length = 1 := by simp
  have hroom : 1 + 1 < Word.modulus := by decide
  obtain ⟨g', wf', hrun, -⟩ := appendAll_shows (g := ⟨0, [], 0, logCreate 0 2⟩)
    [⟨none, [7], 0, 0⟩] (wooFCreate_shows Nat.two_pos (by decide) [] 1 0)
    (wooFCreate_unlocked [] 1 0 (by decide) Nat.two_pos) helems hroom hlog
  exact ⟨_, g', wf', hrun, tailReadExact_iff_safe [] 1 2 0 (by decide) (by decide) _ g' wf'
    [⟨none, [7], 0, 0⟩] _ hroom hlog helems hrun 1⟩

/-- An empty WooF yields an element; a full ring whose tail is in slot zero yields one
too few; and one wrapped further gives slot zero twice. -/
theorem wooFReadTail_diverges :
    (wooFReadTail (wooFCreate [] 1 4 0) 1).map (fun r => (r.1, r.2.1)) = .ok (1, [[0]]) ∧
    (appendAll ⟨0, [], 0, logCreate 0 2⟩ (wooFCreate [] 1 2 0)
        [⟨none, [1], 0, 0⟩, ⟨none, [2], 0, 0⟩, ⟨none, [3], 0, 0⟩] >>= fun r =>
        (wooFReadTail r.2.2 2).map fun tail => tail.2.1) = .ok [[3]] ∧
    (appendAll ⟨0, [], 0, logCreate 0 2⟩ (wooFCreate [] 1 2 0)
        [⟨none, [1], 0, 0⟩, ⟨none, [2], 0, 0⟩] >>= fun r =>
        (wooFReadTail r.2.2 2).map fun tail => tail.2.1) = .ok [[2], [2]] :=
  ⟨by decide, by decide, by decide⟩

end Cspot
