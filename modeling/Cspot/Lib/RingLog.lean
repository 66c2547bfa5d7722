import Cspot.Lib.Ring
import Cspot.Lib.Word
import Mathlib.Data.List.Induction

/-!
# A numbered log in a ring of slots

Entries are numbered from one and written to the slots in turn, slot zero last.  Before the
first round is over there is no tail, afterwards the tail is the oldest slot.  Cutting the log
back moves the head alone, and emptying it leaves a tail of zero, so a log that has been cut
need not be one that appends alone could have left: `Sound` is the shape the appends keep.
-/

structure RingLog (α : Type*) where
  size : Nat
  slots : Nat → α
  head : Nat
  /-- The oldest slot, none before the first round is over. -/
  tail : Option Nat
  /-- The number of the entry in slot `head`, zero for none. -/
  latest : Nat
  size_pos : 0 < size

namespace RingLog

variable {α : Type*} {r r' : RingLog α} {a b : α} {s : Nat}

/-! ## Operations -/

def empty (size : Nat) (blank : α) (h : 0 < size) : RingLog α :=
  ⟨size, fun _ => blank, 0, none, 0, h⟩

def filled (size : Nat) (slots : Nat → α) (latest : Nat) (h : 0 < size) : RingLog α where
  size := size
  slots := slots
  head := latest % size
  tail := if latest < size then none else some ((latest + 1) % size)
  latest := latest
  size_pos := h

def append (r : RingLog α) (a : α) : RingLog α :=
  let next := Ring.next r.size r.head
  { r with
    slots := Function.update r.slots next a
    head := next
    tail := match r.tail with
      | none => if next = 0 then some (1 % r.size) else none
      | some t => some (if next = t then Ring.next r.size t else t)
    latest := r.latest + 1 }

def appendAll (r : RingLog α) (as : List α) : RingLog α := as.foldl append r

/-- The slot of number `s`.  With a tail the oldest number is computed without a sign, and a
log shorter than the ring by more than one shows nothing. -/
def ndx (r : RingLog α) (s : Nat) : Option Nat :=
  if s = 0 ∨ r.latest < s then none
  else
    match r.tail with
    | none =>
      if s + r.head ≤ r.latest then none
      else some ((1 + r.size + (s + r.head - (r.latest + 1))) % r.size)
    | some t =>
      if r.latest + 1 < r.size ∨ s + r.size ≤ r.latest then none
      else some ((t + (s + r.size - (r.latest + 1))) % r.size)

def read (r : RingLog α) (s : Nat) : Option α := (r.ndx s).map r.slots

/-- Number zero stands for the latest. -/
def get (r : RingLog α) (s : Nat) : Option α := r.read (if s = 0 then r.latest else s)

/-- What a number is compared with before the log is cut there: a slot. -/
def lowest (r : RingLog α) : Nat :=
  match r.tail with
  | none => 0
  | some t => Ring.next r.size t

/-- Cut the log back to number `s`, or refuse to. -/
def truncate (r : RingLog α) (s : Nat) : Option (RingLog α) :=
  if s = 0 then some { r with head := 0, tail := some 0, latest := 0 }
  else if s < r.lowest then none
  else some { r with head := Word.sub (r.head + r.size) (r.latest - s) % r.size, latest := s }

/-- The oldest number that a log filled by appends alone still shows. -/
def earliest (r : RingLog α) : Nat := max 1 (r.latest + 1 - r.size)

/-- One log holds what the other held and what has been appended since. -/
def Extends (r r' : RingLog α) : Prop := ∃ as, r' = r.appendAll as

/-- Head and tail are where appends alone put them. -/
structure Sound (r : RingLog α) : Prop where
  head : r.head = r.latest % r.size
  tail : r.tail = if r.latest < r.size then none else some ((r.latest + 1) % r.size)

/-! ## Appending -/

@[simp] theorem append_size (r : RingLog α) (a : α) : (r.append a).size = r.size := rfl

@[simp] theorem latest_append (r : RingLog α) (a : α) : (r.append a).latest = r.latest + 1 := rfl

@[simp] theorem appendAll_nil (r : RingLog α) : r.appendAll [] = r := rfl

theorem appendAll_concat (r : RingLog α) (as : List α) (a : α) :
    r.appendAll (as ++ [a]) = (r.appendAll as).append a := by
  simp [appendAll]

@[simp] theorem appendAll_size (r : RingLog α) (as : List α) :
    (r.appendAll as).size = r.size := by
  induction as using List.reverseRecOn with
  | nil => rfl
  | append_singleton as a ih => rw [appendAll_concat, append_size, ih]

@[simp] theorem latest_appendAll (r : RingLog α) (as : List α) :
    (r.appendAll as).latest = r.latest + as.length := by
  induction as using List.reverseRecOn with
  | nil => rfl
  | append_singleton as a ih =>
    rw [appendAll_concat, latest_append, ih, List.length_append, List.length_singleton]
    omega

theorem Extends.refl (r : RingLog α) : r.Extends r := ⟨[], rfl⟩

theorem Extends.append (r : RingLog α) (a : α) : r.Extends (r.append a) := ⟨[a], rfl⟩

theorem Extends.size (h : r.Extends r') : r'.size = r.size := by
  obtain ⟨as, rfl⟩ := h
  exact appendAll_size r as

theorem Extends.latest_le (h : r.Extends r') : r.latest ≤ r'.latest := by
  obtain ⟨as, rfl⟩ := h
  rw [latest_appendAll]
  omega

theorem Extends.earliest_le (h : r.Extends r') : r.earliest ≤ r'.earliest := by
  have hsize := h.size
  have hlatest := h.latest_le
  unfold earliest
  omega

theorem slots_appendAll (r : RingLog α) (as : List α) (i : Nat) :
    (r.appendAll as).slots i = r.slots i ∨ (r.appendAll as).slots i ∈ as := by
  induction as using List.reverseRecOn with
  | nil => exact .inl rfl
  | append_singleton as a ih =>
    rw [appendAll_concat]
    by_cases hi : i = Ring.next (r.appendAll as).size (r.appendAll as).head
    · refine .inr (List.mem_append_right _ ?_)
      rw [hi]
      simp [append]
    · have hkept : ((r.appendAll as).append a).slots i = (r.appendAll as).slots i :=
        Function.update_of_ne hi _ _
      rw [hkept]
      exact ih.imp_right (List.mem_append_left _)

/-! ## Reading -/

theorem exists_slot_of_get (h : r.get s = some a) : ∃ i, r.slots i = a := by
  obtain ⟨i, -, hi⟩ := Option.map_eq_some_iff.1 h
  exact ⟨i, hi⟩

theorem get_of_pos (r : RingLog α) (hs : 0 < s) : r.get s = r.read s := by
  rw [get, if_neg (by omega)]

theorem le_latest_of_read (h : r.read s = some a) : 0 < s ∧ s ≤ r.latest := by
  obtain ⟨i, hi, -⟩ := Option.map_eq_some_iff.1 h
  unfold ndx at hi
  split at hi
  · cases hi
  · omega

theorem Sound.empty (size : Nat) (blank : α) (h : 0 < size) :
    (RingLog.empty size blank h).Sound :=
  ⟨(Nat.zero_mod size).symm, (if_pos h).symm⟩

theorem Sound.filled (size : Nat) (slots : Nat → α) (latest : Nat) (h : 0 < size) :
    (RingLog.filled size slots latest h).Sound := ⟨rfl, rfl⟩

theorem Sound.read_eq (h : r.Sound) (s : Nat) :
    r.read s =
      if r.earliest ≤ s ∧ s ≤ r.latest then some (r.slots (s % r.size)) else none := by
  have hsize := r.size_pos
  unfold read ndx earliest
  by_cases hout : s = 0 ∨ r.latest < s
  · rw [if_pos hout, if_neg (by omega), Option.map_none]
  rw [if_neg hout]
  by_cases hround : r.latest < r.size
  · have hslot : 1 + r.size + (s + r.latest - (r.latest + 1)) = s + r.size := by omega
    rw [h.tail, if_pos hround, h.head, Nat.mod_eq_of_lt hround]
    dsimp only
    rw [if_neg (by omega), if_pos (by omega), hslot, Nat.add_mod_right, Option.map_some]
  · rw [h.tail, if_neg hround]
    dsimp only
    by_cases hgone : s + r.size ≤ r.latest
    · rw [if_pos (by omega), if_neg (by omega), Option.map_none]
    · have hslot : r.latest + 1 + (s + r.size - (r.latest + 1)) = s + r.size := by omega
      rw [if_neg (by omega), if_pos (by omega), Nat.mod_add_mod, hslot, Nat.add_mod_right,
        Option.map_some]

theorem Sound.exists_read (h : r.Sound) (hlow : r.earliest ≤ s) (hhigh : s ≤ r.latest) :
    ∃ a, r.read s = some a :=
  ⟨_, by rw [h.read_eq, if_pos ⟨hlow, hhigh⟩]⟩

theorem Sound.exists_read_latest (h : r.Sound) (hne : 0 < r.latest) :
    ∃ a, r.read r.latest = some a := by
  have hsize := r.size_pos
  apply h.exists_read _ (Nat.le_refl _)
  unfold earliest
  omega

theorem Sound.append (h : r.Sound) (a : α) : (r.append a).Sound := by
  have hsize := r.size_pos
  have hnext : Ring.next r.size r.head = (r.latest + 1) % r.size := by
    rw [Ring.next, h.head, Nat.mod_add_mod]
  refine ⟨hnext, ?_⟩
  simp only [RingLog.append, hnext, h.tail]
  by_cases hround : r.latest < r.size
  · simp only [if_pos hround]
    by_cases hlast : r.latest + 1 = r.size
    · rw [hlast, Nat.mod_self, if_pos rfl, if_neg (Nat.lt_irrefl _), Nat.add_mod_left]
    · rw [Nat.mod_eq_of_lt (by omega), if_neg (by omega), if_pos (by omega)]
  · simp only [if_neg hround, if_true, Ring.next, Nat.mod_add_mod]
    rw [if_neg (by omega)]

theorem Sound.appendAll (h : r.Sound) (as : List α) : (r.appendAll as).Sound := by
  induction as using List.reverseRecOn with
  | nil => exact h
  | append_singleton as a ih =>
    rw [appendAll_concat]
    exact ih.append a

theorem Sound.extends (h : r.Sound) (hext : r.Extends r') : r'.Sound := by
  obtain ⟨as, rfl⟩ := hext
  exact h.appendAll as

theorem Sound.read_append (h : r.Sound) (a : α) :
    (r.append a).read s =
      if s = r.latest + 1 then some a
      else if (r.append a).earliest ≤ s then r.read s else none := by
  have hsize := r.size_pos
  have hhead : Ring.next r.size r.head = (r.latest + 1) % r.size := by
    rw [Ring.next, h.head, Nat.mod_add_mod]
  rw [(h.append a).read_eq]
  by_cases hnew : s = r.latest + 1
  · have hin : (r.append a).earliest ≤ s ∧ s ≤ (r.append a).latest := by
      simp only [earliest, latest_append, append_size]
      omega
    rw [if_pos hin, if_pos hnew, hnew]
    simp [RingLog.append, hhead]
  · rw [if_neg hnew, h.read_eq]
    by_cases hlow : (r.append a).earliest ≤ s
    · rw [if_pos hlow]
      by_cases hhigh : s ≤ r.latest
      · have hin : r.earliest ≤ s ∧ s ≤ r.latest := by
          simp only [earliest, latest_append, append_size] at hlow ⊢
          omega
        have hne : s % r.size ≠ (r.latest + 1) % r.size := by
          simp only [earliest, latest_append, append_size] at hlow
          exact Ring.mod_ne_of_window (by omega) (by omega)
        rw [if_pos ⟨hlow, by rw [latest_append]; omega⟩, if_pos hin]
        simp only [RingLog.append, hhead]
        rw [Function.update_of_ne hne]
      · rw [if_neg (by rw [latest_append]; omega), if_neg (by omega)]
    · rw [if_neg (by omega), if_neg hlow]

theorem Sound.read_extends (h : r.Sound) (hext : r.Extends r') (hread : r.read s = some a) :
    r'.read s = some a ∨ s < r'.earliest := by
  obtain ⟨as, rfl⟩ := hext
  have hle := (le_latest_of_read hread).2
  induction as using List.reverseRecOn with
  | nil => exact .inl hread
  | append_singleton as b ih =>
    rw [appendAll_concat, (h.appendAll as).read_append, latest_appendAll, if_neg (by omega)]
    by_cases hlow : ((r.appendAll as).append b).earliest ≤ s
    · rw [if_pos hlow]
      rcases ih with hread' | hgone
      · exact .inl hread'
      · have hgrown := (Extends.append (r.appendAll as) b).earliest_le
        omega
    · exact .inr (by omega)

/-! ## Cutting back -/

theorem truncate_slots (h : r.truncate s = some r') : r'.slots = r.slots := by
  unfold truncate at h
  split at h
  · obtain rfl := Option.some.inj h
    rfl
  · split at h
    · cases h
    · obtain rfl := Option.some.inj h
      rfl

/-- In the first round a cut at a number of the log is right: the entries up to it stay. -/
theorem Sound.truncate (h : r.Sound) (hround : r.latest < r.size) (hpos : 0 < s)
    (hle : s ≤ r.latest) (hmod : 2 * r.size ≤ Word.modulus) :
    ∃ r', r.truncate s = some r' ∧ r'.Sound ∧ r'.latest = s ∧ r'.size = r.size ∧
      ∀ t, r'.read t = if t ≤ s then r.read t else none := by
  have htail : r.tail = none := by rw [h.tail, if_pos hround]
  have hhead : Word.sub (r.head + r.size) (r.latest - s) % r.size = s % r.size := by
    have hkept : r.latest + r.size - (r.latest - s) = s + r.size := by omega
    rw [h.head, Nat.mod_eq_of_lt hround, Word.sub_of_le (by omega) (by omega), hkept,
      Nat.add_mod_right]
  have hcut : Sound { r with head := s % r.size, latest := s } :=
    ⟨rfl, by rw [if_pos (by dsimp only; omega)]; exact htail⟩
  refine ⟨{ r with head := s % r.size, latest := s }, ?_, hcut, rfl, rfl, ?_⟩
  · have hlowest : r.lowest = 0 := by rw [lowest, htail]
    rw [RingLog.truncate, if_neg (by omega), hlowest, if_neg (Nat.not_lt_zero s), hhead]
  · intro t
    have hlow : r.earliest = 1 := by
      unfold earliest
      omega
    have hlow' : earliest { r with head := s % r.size, latest := s } = 1 := by
      simp only [earliest]
      omega
    rw [hcut.read_eq, h.read_eq, hlow, hlow']
    by_cases ht : t ≤ s
    · rw [if_pos ht]
      by_cases hone : 1 ≤ t
      · rw [if_pos ⟨hone, ht⟩, if_pos ⟨hone, Nat.le_trans ht hle⟩]
      · rw [if_neg (by omega), if_neg (by omega)]
    · rw [if_neg ht, if_neg (fun hin => ht hin.2)]

end RingLog
