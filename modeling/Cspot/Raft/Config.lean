import Cspot.Lib.Decimal
import Cspot.Lib.Sorting
import Mathlib.Data.Finset.Card

/-!
# Configurations

The servers of a cluster are known by the names of their WooFs.  A server keeps the names in
an array with a slot for every member and, behind those, one for every observer; a free slot
holds the empty name.  A change of the configuration goes through the sorted union of the
old and the new members.
-/

namespace Cspot.Raft

abbrev Name := Bytes

scoped instance : LawfulBEq Name := inferInstance

def raftMaxMembers : Nat := 8

def raftMaxObservers : Nat := 2

def slots (memberWoofs : List Name) : List Name :=
  memberWoofs ++ List.replicate (raftMaxMembers + raftMaxObservers - memberWoofs.length) []

/-- The slot of a name, none for the result -1. -/
def memberId (woofName : Name) (memberWoofs : List Name) : Option Nat :=
  memberWoofs.findIdx? (· = woofName)

/-! ## The text of a configuration -/

def semicolon : UInt8 := 59

def encodeConfig (memberWoofs : List Name) : Bytes :=
  Decimal.ofNat memberWoofs.length ++ [semicolon] ++ memberWoofs.flatMap (· ++ [semicolon])

/-- The next token of a text, and the text behind it. -/
def strtok (src : Bytes) : Option (Bytes × Bytes) :=
  let text := src.dropWhile (· = semicolon)
  if text = [] then none
  else some (text.takeWhile (· ≠ semicolon), (text.dropWhile (· ≠ semicolon)).drop 1)

/-- The loop over the members: their names and the length of what it has read. -/
def decodeMembers : Nat → Bytes → Option (List Name × Nat)
  | 0, _ => some ([], 0)
  | members + 1, src =>
    match strtok src with
    | none => none
    | some (token, src) =>
      match decodeMembers members src with
      | none => none
      | some (memberWoofs, len) => some (token :: memberWoofs, token.length + 1 + len)

/-- None where the source returns -1, runs out of tokens or reads a negative count. -/
def decodeConfig (src : Bytes) : Option (List Name × Nat) :=
  match strtok src with
  | none => none
  | some (token, src) =>
    let members := (Decimal.strtol token).1.toNat
    if members = 0 then none
    else
      match decodeMembers members src with
      | none => none
      | some (memberWoofs, len) => some (memberWoofs, token.length + 1 + len)

/-! ## The joint configuration -/

/-- The loop that removes duplicates in place: `count` names are left from number `i` on, and
the first `tail` slots are done. -/
def removeDuplicates : (count i tail : Nat) → List Name → Nat × List Name
  | 0, _, tail, woofs => (tail, woofs)
  | count + 1, i, tail, woofs =>
    if 0 < tail ∧ woofs[i]? = woofs[tail - 1]? then removeDuplicates count (i + 1) tail woofs
    else
      let woofs := if tail ≠ i then woofs.set tail (woofs.getD i []) else woofs
      removeDuplicates count (i + 1) (tail + 1) woofs

/-- How many members the joint configuration has, and its array; none for the result -1. -/
def computeJointConfig (oldMemberWoofs newMemberWoofs : List Name) :
    Option (Nat × List Name) :=
  if raftMaxMembers < oldMemberWoofs.length + newMemberWoofs.length then none
  else
    let sorted := qsort Bytes.strcmp (oldMemberWoofs ++ newMemberWoofs)
    some (removeDuplicates (oldMemberWoofs.length + newMemberWoofs.length) 0 0 (slots sorted))

/-! ## What the joint configuration holds -/

/-- The names that the loop keeps of `rest` behind those it has kept. -/
def keepNew : List Name → List Name → List Name
  | kept, [] => kept
  | kept, woof :: rest =>
    if kept.getLast? = some woof then keepNew kept rest else keepNew (kept ++ [woof]) rest

theorem removeDuplicates_eq_keepNew (rest : List Name) (kept gap free : List Name) :
    ∃ gap', removeDuplicates rest.length (kept.length + gap.length) kept.length
        (kept ++ gap ++ rest ++ free) =
      ((keepNew kept rest).length, keepNew kept rest ++ gap' ++ free) := by
  induction rest generalizing kept gap with
  | nil => exact ⟨gap, by simp [removeDuplicates, keepNew]⟩
  | cons woof rest ih =>
    have hcur : (kept ++ gap ++ woof :: rest ++ free)[kept.length + gap.length]? =
        some woof := by
      simp
    have hlast : 0 < kept.length →
        (kept ++ gap ++ woof :: rest ++ free)[kept.length - 1]? = kept.getLast? := by
      intro hpos
      rw [List.getLast?_eq_getElem?, List.append_assoc, List.append_assoc,
        List.getElem?_append_left (by omega)]
    rw [List.length_cons, removeDuplicates, keepNew]
    by_cases hdup : kept.getLast? = some woof
    · have hpos : 0 < kept.length := by
        rw [List.length_pos_iff]
        rintro rfl
        simp at hdup
      rw [if_pos ⟨hpos, by rw [hcur, hlast hpos, hdup]⟩, if_pos hdup]
      -- the duplicate stays where it is, between the names kept and the rest
      obtain ⟨gap', hgap⟩ := ih kept (gap ++ [woof])
      refine ⟨gap', ?_⟩
      rw [← hgap]
      simp [Nat.add_assoc]
    · have hnew : ¬ (0 < kept.length ∧ (kept ++ gap ++ woof :: rest ++ free)[kept.length +
          gap.length]? = (kept ++ gap ++ woof :: rest ++ free)[kept.length - 1]?) := by
        rintro ⟨hpos, heq⟩
        rw [hcur, hlast hpos] at heq
        exact hdup heq.symm
      rw [if_neg hnew, if_neg hdup]
      cases gap with
      | nil =>
        obtain ⟨gap', hgap⟩ := ih (kept ++ [woof]) []
        refine ⟨gap', ?_⟩
        rw [← hgap]
        simp
      | cons g gap =>
        obtain ⟨gap', hgap⟩ := ih (kept ++ [woof]) (gap ++ [woof])
        refine ⟨gap', ?_⟩
        rw [← hgap, if_pos (by simp), List.getD_eq_getElem?_getD, hcur]
        simp only [Option.getD_some, List.append_assoc]
        simp [Nat.add_assoc, Nat.add_comm 1]

theorem keepNew_spec {kept rest : List Name}
    (hkept : kept.Pairwise fun a b => Bytes.strcmp a b < 0)
    (hrest : rest.Pairwise fun a b => Bytes.strcmp a b ≤ 0)
    (hcross : ∀ a ∈ kept, ∀ b ∈ rest, Bytes.strcmp a b ≤ 0) :
    (keepNew kept rest).Pairwise (fun a b => Bytes.strcmp a b < 0) ∧
      ∀ woof, woof ∈ keepNew kept rest ↔ woof ∈ kept ∨ woof ∈ rest := by
  induction rest generalizing kept with
  | nil => exact ⟨hkept, by simp [keepNew]⟩
  | cons woof rest ih =>
    obtain ⟨hwoof, hrest⟩ := List.pairwise_cons.1 hrest
    rw [keepNew]
    by_cases hdup : kept.getLast? = some woof
    · have hmem : woof ∈ kept := List.mem_of_getLast? hdup
      obtain ⟨hsorted, hiff⟩ := ih hkept hrest fun a ha b hb =>
        hcross a ha b (List.mem_cons_of_mem _ hb)
      rw [if_pos hdup]
      refine ⟨hsorted, fun x => ?_⟩
      rw [hiff, List.mem_cons]
      constructor
      · rintro (hx | hx)
        · exact .inl hx
        · exact .inr (.inr hx)
      · rintro (hx | rfl | hx)
        · exact .inl hx
        · exact .inl hmem
        · exact .inr hx
    · have hnew : ∀ a ∈ kept, Bytes.strcmp a woof < 0 := by
        intro a ha
        refine Bytes.strcmp_neg (hcross a ha woof (List.mem_cons_self ..)) ?_
        rintro rfl
        -- nothing kept comes after `a`, so `a` is the last name kept
        obtain ⟨front, last, rfl⟩ := List.eq_nil_or_concat kept |>.resolve_left
          (List.ne_nil_of_mem ha)
        rw [List.concat_eq_append] at hkept ha hcross hdup
        rw [List.getLast?_concat] at hdup
        rcases List.mem_append.1 ha with ha | ha
        · have hlt : Bytes.strcmp a last < 0 :=
            (List.pairwise_append.1 hkept).2.2 a ha last (List.mem_singleton_self _)
          have hle : Bytes.strcmp last a ≤ 0 := hcross last (by simp) a (by simp)
          have heq := Bytes.strcmp_antisymm (Int.le_of_lt hlt) hle
          exact hdup (by rw [heq])
        · exact hdup (by rw [List.mem_singleton.1 ha])
      obtain ⟨hsorted, hiff⟩ := ih
        (List.pairwise_append.2 ⟨hkept, List.pairwise_singleton _ _, fun a ha b hb => by
          rw [List.mem_singleton.1 hb]
          exact hnew a ha⟩) hrest
        (fun a ha b hb => by
          rcases List.mem_append.1 ha with ha | ha
          · exact hcross a ha b (List.mem_cons_of_mem _ hb)
          · rw [List.mem_singleton.1 ha]
            exact hwoof b hb)
      rw [if_neg hdup]
      refine ⟨hsorted, fun x => ?_⟩
      rw [hiff, List.mem_append, List.mem_singleton, List.mem_cons, or_assoc]

/-- The joint configuration is the union of the two, each name once and in order. -/
theorem computeJointConfig_eq {old new : List Name} (hfit : old.length + new.length ≤ 8) :
    ∃ joint behind, computeJointConfig old new = some (joint.length, joint ++ behind) ∧
      joint.Pairwise (fun a b => Bytes.strcmp a b < 0) ∧
      ∀ woof, woof ∈ joint ↔ woof ∈ old ∨ woof ∈ new := by
  have hlen : (qsort Bytes.strcmp (old ++ new)).length = old.length + new.length := by simp
  have hsorted : (qsort Bytes.strcmp (old ++ new)).Pairwise fun a b => Bytes.strcmp a b ≤ 0 :=
    qsort.pairwise (fun a _ b _ => Bytes.strcmp_total a b)
      (fun _ _ _ _ _ _ hab hbc => Bytes.strcmp_trans hab hbc)
  obtain ⟨hjoint, hiff⟩ := keepNew_spec (List.Pairwise.nil) hsorted (by simp)
  obtain ⟨gap, hremove⟩ := removeDuplicates_eq_keepNew (qsort Bytes.strcmp (old ++ new)) [] []
    (List.replicate (raftMaxMembers + raftMaxObservers -
      (qsort Bytes.strcmp (old ++ new)).length) [])
  refine ⟨_, gap ++ List.replicate (raftMaxMembers + raftMaxObservers -
    (qsort Bytes.strcmp (old ++ new)).length) [], ?_, hjoint, fun woof => ?_⟩
  · have hok : ¬ raftMaxMembers < old.length + new.length := by
      unfold raftMaxMembers
      omega
    rw [computeJointConfig, if_neg hok, ← hlen]
    simp only [List.length_nil, Nat.add_zero, List.nil_append, List.append_assoc] at hremove
    exact congrArg some hremove
  · rw [hiff, (qsort.perm Bytes.strcmp (old ++ new)).mem_iff]
    simp

end Cspot.Raft
