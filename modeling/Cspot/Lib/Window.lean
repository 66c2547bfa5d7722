import Mathlib.Data.List.Induction
import Mathlib.Tactic.Common

/-!
# Sliding windows over a numbered log

A log numbers its entries consecutively and keeps only the most recent ones.  The
window is what a reader can still see: the retained entries, oldest first, and the
number the next entry will get.  The bounds are fields, so a window that holds more
than its capacity, or whose oldest entry would have number zero, cannot be written
down.
-/

structure Window (α : Type*) where
  cap : Nat
  next : Nat
  held : List α
  cap_pos : 0 < cap
  fits : held.length ≤ cap
  numbered : held.length < next

namespace Window

variable {α : Type*} {s : Nat} {e : α} {W W' : Window α}

def empty (cap next : Nat) (hcap : 0 < cap) (hnext : 0 < next) : Window α where
  cap := cap
  next := next
  held := []
  cap_pos := hcap
  fits := Nat.zero_le _
  numbered := by simpa using hnext

def latest (W : Window α) : Nat := W.next - 1

def earliest (W : Window α) : Nat := W.next - W.held.length

def read (W : Window α) (s : Nat) : Option α :=
  if W.earliest ≤ s then W.held[s - W.earliest]? else none

def readLatest (W : Window α) : Option α := W.held.getLast?

def get (W : Window α) (s : Nat) : Option α := if s = 0 then W.readLatest else W.read s

/-- Add an entry; a full window loses its oldest one. -/
def append (W : Window α) (e : α) : Window α where
  cap := W.cap
  next := W.next + 1
  held := (W.held ++ [e]).drop (W.held.length + 1 - W.cap)
  cap_pos := W.cap_pos
  fits := by have := W.fits; simp; omega
  numbered := by have := W.numbered; simp; omega

/-- Forget every entry numbered above `s`. -/
def truncate (W : Window α) (s : Nat) : Window α where
  cap := W.cap
  next := s + 1
  held := W.held.take (s + 1 - W.earliest)
  cap_pos := W.cap_pos
  fits := by have := W.fits; simp; omega
  numbered := by have := W.numbered; simp [earliest]; omega

def appendAll (W : Window α) (es : List α) : Window α := es.foldl append W

/-! ## What is held -/

section

variable (W : Window α)

theorem sub_earliest_lt (hlow : W.earliest ≤ s) (hhigh : s < W.next) :
    s - W.earliest < W.held.length := by
  unfold earliest at *
  omega

theorem exists_read (hlow : W.earliest ≤ s) (hhigh : s < W.next) :
    ∃ e, W.held[s - W.earliest]? = some e ∧ W.read s = some e := by
  have hentry := List.getElem?_eq_getElem (W.sub_earliest_lt hlow hhigh)
  exact ⟨_, hentry, by rw [read, if_pos hlow, hentry]⟩

theorem read_eq_none (h : ¬ (W.earliest ≤ s ∧ s < W.next)) : W.read s = none := by
  unfold read
  split
  · apply List.getElem?_eq_none
    have hnum := W.numbered
    unfold earliest at *
    omega
  · rfl

theorem latest_pos (hne : W.held ≠ []) : 0 < W.latest := by
  have hlen : 0 < W.held.length := List.length_pos_iff.mpr hne
  have hnum := W.numbered
  unfold latest
  omega

theorem read_latest (hne : W.held ≠ []) : W.read W.latest = W.readLatest := by
  have hlen : 0 < W.held.length := List.length_pos_iff.mpr hne
  have hlow : W.earliest ≤ W.latest := by
    unfold earliest latest
    omega
  have hindex : W.latest - W.earliest = W.held.length - 1 := by
    have hnum := W.numbered
    unfold earliest latest
    omega
  rw [read, if_pos hlow, hindex, readLatest, List.getLast?_eq_getElem?]

theorem mem_held_of_get (h : W.get s = some e) : e ∈ W.held := by
  rw [get] at h
  split at h
  · exact List.mem_of_getLast? h
  · rw [read] at h
    split at h
    · exact List.mem_of_getElem? h
    · cases h

end

/-! ## One append -/

@[simp] theorem append_cap (W : Window α) (e : α) : (W.append e).cap = W.cap := rfl

@[simp] theorem append_next (W : Window α) (e : α) : (W.append e).next = W.next + 1 := rfl

section

variable (W : Window α) (e : α)

theorem latest_append : (W.append e).latest = W.latest + 1 := by
  have hnum := W.numbered
  rw [latest, latest, append_next]
  omega

theorem append_held : (W.append e).held = (W.held ++ [e]).drop (W.held.length + 1 - W.cap) := rfl

theorem append_held_of_lt (h : W.held.length < W.cap) : (W.append e).held = W.held ++ [e] := by
  have hdrop : W.held.length + 1 - W.cap = 0 := by omega
  rw [append_held, hdrop, List.drop_zero]

theorem append_held_of_full (h : W.held.length = W.cap) :
    (W.append e).held = W.held.tail ++ [e] := by
  have hdrop : W.held.length + 1 - W.cap = 1 := by omega
  have hne : W.held ≠ [] := by
    intro hnil
    have := W.cap_pos
    simp [hnil] at h
    omega
  obtain ⟨x, xs, hx⟩ := List.exists_cons_of_ne_nil hne
  rw [append_held, hdrop, hx]
  rfl

theorem append_held_length : (W.append e).held.length = min (W.held.length + 1) W.cap := by
  simp [append]
  omega

theorem append_earliest : (W.append e).earliest = W.earliest + (W.held.length + 1 - W.cap) := by
  have hnum := W.numbered
  rw [earliest, append_held_length, append_next, earliest]
  omega

theorem read_append_next : (W.append e).read W.next = some e := by
  have hnum := W.numbered
  have hcap := W.cap_pos
  have hlow : (W.append e).earliest ≤ W.next := by
    rw [append_earliest, earliest]
    omega
  have hindex : W.held.length + 1 - W.cap + (W.next - (W.append e).earliest) =
      W.held.length := by
    rw [append_earliest, earliest]
    omega
  rw [read, if_pos hlow, append_held, List.getElem?_drop, hindex]
  simp

theorem read_append_of_ne (hlow : (W.append e).earliest ≤ s) (hne : s ≠ W.next) :
    (W.append e).read s = W.read s := by
  have hnum := W.numbered
  have hlow' : W.earliest ≤ s := by
    rw [append_earliest] at hlow
    omega
  have hindex : W.held.length + 1 - W.cap + (s - (W.append e).earliest) = s - W.earliest := by
    rw [append_earliest] at hlow ⊢
    omega
  rw [read, if_pos hlow, append_held, List.getElem?_drop, hindex, read, if_pos hlow']
  rcases Nat.lt_or_ge s W.next with hlt | hge
  · exact List.getElem?_append_left (W.sub_earliest_lt hlow' hlt)
  · have hbehind : W.held.length + 1 ≤ s - W.earliest := by
      unfold earliest
      omega
    rw [List.getElem?_eq_none (by simpa using hbehind), List.getElem?_eq_none (by omega)]

theorem append_held_ne_nil : (W.append e).held ≠ [] := by
  have hcap := W.cap_pos
  have hlen := W.append_held_length e
  intro hnil
  rw [hnil, List.length_nil] at hlen
  omega

theorem readLatest_append : (W.append e).readLatest = some e := by
  have hnum := W.numbered
  have hlatest : (W.append e).latest = W.next := by
    rw [latest_append, latest]
    omega
  rw [← read_latest _ (W.append_held_ne_nil e), hlatest, read_append_next]

theorem read_append_latest (hcap : 2 ≤ W.cap) (hne : W.held ≠ []) :
    (W.append e).read W.latest = W.readLatest := by
  have hlen : 0 < W.held.length := List.length_pos_iff.2 hne
  have hnum := W.numbered
  rw [← W.read_latest hne]
  apply read_append_of_ne
  · rw [append_earliest, earliest, latest]
    omega
  · rw [latest]
    omega

end

/-! ## Truncation -/

@[simp] theorem truncate_cap (W : Window α) (s : Nat) : (W.truncate s).cap = W.cap := rfl

@[simp] theorem truncate_next (W : Window α) (s : Nat) : (W.truncate s).next = s + 1 := rfl

theorem truncate_held (W : Window α) (s : Nat) :
    (W.truncate s).held = W.held.take (s + 1 - W.earliest) := rfl

theorem truncate_held_length (W : Window α) (hs : s < W.next) :
    (W.truncate s).held.length = s + 1 - W.earliest := by
  rw [truncate_held, List.length_take]
  unfold earliest
  omega

theorem truncate_earliest (W : Window α) (hlow : W.earliest ≤ s) (hs : s < W.next) :
    (W.truncate s).earliest = W.earliest := by
  rw [earliest, truncate_held_length W hs, truncate_next]
  omega

theorem truncate_latest (W : Window α) : W.truncate W.latest = W := by
  have hnum := W.numbered
  have hnext : W.latest + 1 = W.next := by
    unfold latest
    omega
  have hheld : W.held.take (W.latest + 1 - W.earliest) = W.held := by
    apply List.take_of_length_le
    unfold latest earliest
    omega
  cases W
  simp only [truncate, mk.injEq, true_and]
  exact ⟨hnext, hheld⟩

theorem read_truncate (W : Window α) (hlow : W.earliest ≤ s) (hs : s < W.next) (t : Nat) :
    (W.truncate s).read t = if W.earliest ≤ t ∧ t ≤ s then W.read t else none := by
  rw [read, W.truncate_earliest hlow hs, truncate_held]
  by_cases ht : W.earliest ≤ t
  · rw [if_pos ht, List.getElem?_take, read, if_pos ht]
    by_cases hle : t ≤ s
    · rw [if_pos (by omega), if_pos ⟨ht, hle⟩]
    · rw [if_neg (by omega), if_neg (by omega)]
  · rw [if_neg ht, if_neg (by omega)]

/-! ## Whole runs of appends -/

@[simp] theorem appendAll_nil (W : Window α) : W.appendAll [] = W := rfl

theorem appendAll_concat (W : Window α) (es : List α) (e : α) :
    W.appendAll (es ++ [e]) = (W.appendAll es).append e := by
  simp [appendAll]

@[simp] theorem appendAll_cap (W : Window α) (es : List α) : (W.appendAll es).cap = W.cap := by
  induction es using List.reverseRecOn with
  | nil => rfl
  | append_singleton es e ih => rw [appendAll_concat, append_cap, ih]

@[simp] theorem appendAll_next (W : Window α) (es : List α) :
    (W.appendAll es).next = W.next + es.length := by
  induction es using List.reverseRecOn with
  | nil => rfl
  | append_singleton es e ih =>
    rw [appendAll_concat, append_next, ih]
    simp
    omega

section FromEmpty

variable (cap first : Nat) (hcap : 0 < cap) (hfirst : 0 < first)

theorem held_appendAll_empty (es : List α) :
    ((empty cap first hcap hfirst).appendAll es).held = es.drop (es.length - cap) := by
  induction es using List.reverseRecOn with
  | nil => simp [empty]
  | append_singleton es e ih =>
    rw [appendAll_concat, append_held, ih]
    -- dropping in two stages drops the sum, and the second stage never reaches `e`
    have hcap' : ((empty cap first hcap hfirst).appendAll es).cap = cap := appendAll_cap _ es
    simp only [hcap', List.length_drop, List.length_append, List.length_singleton]
    rw [← List.drop_append_of_le_length (by omega), List.drop_drop]
    congr 1
    omega

theorem earliest_appendAll_empty (es : List α) :
    ((empty cap first hcap hfirst).appendAll es).earliest =
      max first (first + es.length - cap) := by
  rw [earliest, held_appendAll_empty, appendAll_next, List.length_drop]
  simp only [empty]
  omega

/-- Reading a log started empty: number `s` belongs to entry `s - first`, and it is
visible exactly while fewer than `cap` entries came after it. -/
theorem read_appendAll_empty (es : List α) (s : Nat) :
    ((empty cap first hcap hfirst).appendAll es).read s =
      if max first (first + es.length - cap) ≤ s then es[s - first]? else none := by
  rw [read, earliest_appendAll_empty, held_appendAll_empty]
  split
  · rw [List.getElem?_drop]
    congr 1
    omega
  · rfl

theorem latest_appendAll_empty (es : List α) :
    ((empty cap first hcap hfirst).appendAll es).latest = first + es.length - 1 := by
  rw [latest, appendAll_next]
  rfl

theorem readLatest_appendAll_empty (es : List α) :
    ((empty cap first hcap hfirst).appendAll es).readLatest = es.getLast? := by
  rw [readLatest, held_appendAll_empty, List.getLast?_drop]
  split
  · have hnil : es = [] := List.eq_nil_of_length_eq_zero (by omega)
    simp [hnil]
  · rfl

end FromEmpty

end Window
