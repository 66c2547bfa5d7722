import Cspot.Raft.ConfigEntry

/-!
# The joint configuration in its array

`compute_joint_config` works in the array it is given.  The names of both configurations are
copied into cleared rows, the rows are sorted, and a name that stands in the row before is passed
over while the others move up.  Seen as strings, the rows go through what the names go through.
-/

namespace Cspot.Raft

/-! ## Arrays of names -/

/-- An array of the size that the functions on configurations declare. -/
structure WoofArray where
  rows : List Bytes
  length_eq : rows.length = configRows
  row_length : ∀ row ∈ rows, row.length = raftNameLength

/-- An array with a string in each of its first rows. -/
structure MemberArray extends WoofArray where
  members : Nat
  members_le : members ≤ configRows
  terminated : ∀ row ∈ rows.take members, 0 ∈ row

def MemberArray.names (a : MemberArray) : List Name := (a.rows.take a.members).map Bytes.cstr

/-- `strcpy` of a row into row `i`. -/
def strcpyRow (rows : List Bytes) (i : Nat) (src : Bytes) : Exec (List Bytes) :=
  match rows[i]? with
  | none => .error .outOfBounds
  | some dst =>
    match CText.write dst 0 (Bytes.cstr src) with
    | none => .error .outOfBounds
    | some row => .ok (rows.set i row)

/-- A loop that copies `count` names, from row `i` of `woofs` on, to the rows behind `base`. -/
def copyNames (woofs : List Bytes) (base : Nat) : (count i : Nat) → List Bytes →
    Exec (List Bytes)
  | 0, _, rows => .ok rows
  | count + 1, i, rows =>
    match woofs[i]? with
    | none => .error .outOfBounds
    | some woof => do
        let rows ← strcpyRow rows (base + i) woof
        copyNames woofs base count (i + 1) rows

def qsortStrcmp (a b : Bytes) : Int := Bytes.strcmp (Bytes.cstr a) (Bytes.cstr b)

/-- The loop that removes duplicates, with its names in rows. -/
def removeDuplicatesAt : (count i tail : Nat) → List Bytes → Exec (Nat × List Bytes)
  | 0, _, tail, rows => .ok (tail, rows)
  | count + 1, i, tail, rows =>
    match rows[i]? with
    | none => .error .outOfBounds
    | some woof =>
      if 0 < tail ∧ rows[tail - 1]?.any fun last =>
          Bytes.strcmp (Bytes.cstr woof) (Bytes.cstr last) = 0 then
        removeDuplicatesAt count (i + 1) tail rows
      else do
        let rows ← if tail ≠ i then strcpyRow rows tail woof else .ok rows
        removeDuplicatesAt count (i + 1) (tail + 1) rows

/-- The result, and what the last two parameters point to behind the call. -/
def computeJointConfigAt (oldMembers : Nat) (oldMemberWoofs : List Bytes) (newMembers : Nat)
    (newMemberWoofs : List Bytes) (jointMembers : Int) (jointMemberWoofs : List Bytes) :
    Exec (Int × Int × List Bytes) :=
  if raftMaxMembers < Word.toInt32 (oldMembers + newMembers) then
    .ok (-1, jointMembers, jointMemberWoofs)
  else if jointMemberWoofs.length < configRows then .error .outOfBounds
  else do
    let cleared := List.replicate configRows (List.replicate raftNameLength 0)
    let rows := cleared ++ jointMemberWoofs.drop configRows
    let rows ← copyNames oldMemberWoofs 0 oldMembers 0 rows
    let rows ← copyNames newMemberWoofs oldMembers newMembers 0 rows
    let count := oldMembers + newMembers
    let rows := qsort qsortStrcmp (rows.take count) ++ rows.drop count
    let (tail, rows) ← removeDuplicatesAt count 0 0 rows
    return (0, tail, rows)

/-! ## Rows and the names in them -/

/-- The rows hold these names, each with its end. -/
structure Spells (rows : List Bytes) (names : List Name) : Prop where
  names_eq : rows.map Bytes.cstr = names
  row_length : ∀ row ∈ rows, row.length = raftNameLength
  terminated : ∀ row ∈ rows, 0 ∈ row

section Rows

variable {rows : List Bytes} {names : List Name} {src : Bytes} {i : Nat}

theorem cstr_length_lt (hsrc : 0 ∈ src) : (Bytes.cstr src).length < src.length := by
  have hprefix : Bytes.cstr src <+: src := List.takeWhile_prefix _
  refine Nat.lt_of_le_of_ne hprefix.length_le fun hlength => ?_
  rw [← hprefix.eq_of_length hlength] at hsrc
  exact Bytes.cstr_ne_zero src 0 hsrc rfl

section

variable (h : Spells rows names)
include h

theorem Spells.length_eq : rows.length = names.length := by
  rw [← h.names_eq, List.length_map]

theorem Spells.getElem? (i : Nat) : rows[i]?.map Bytes.cstr = names[i]? := by
  rw [← h.names_eq, List.getElem?_map]

theorem Spells.append {more : List Bytes} {moreNames : List Name} (hmore : Spells more moreNames) :
    Spells (rows ++ more) (names ++ moreNames) where
  names_eq := by rw [List.map_append, h.names_eq, hmore.names_eq]
  row_length row hrow := (List.mem_append.1 hrow).elim (h.row_length row) (hmore.row_length row)
  terminated row hrow := (List.mem_append.1 hrow).elim (h.terminated row) (hmore.terminated row)

theorem Spells.of_subset {some : List Bytes} (hsome : some ⊆ rows) :
    Spells some (some.map Bytes.cstr) where
  names_eq := rfl
  row_length row hrow := h.row_length row (hsome hrow)
  terminated row hrow := h.terminated row (hsome hrow)

theorem Spells.strcpyRow (hi : i < rows.length) (hlength : src.length = raftNameLength)
    (hsrc : 0 ∈ src) :
    ∃ rows', strcpyRow rows i src = .ok rows' ∧ Spells rows' (names.set i (Bytes.cstr src)) := by
  have hrow := List.getElem?_eq_getElem hi
  have hfit : 0 + (Bytes.cstr src).length < rows[i].length := by
    rw [h.row_length _ (List.getElem_mem hi), ← hlength, Nat.zero_add]
    exact cstr_length_lt hsrc
  have hwrite : CText.write rows[i] 0 (Bytes.cstr src) = some (Bytes.cstr src ++
      0 :: rows[i].drop ((Bytes.cstr src).length + 1)) := by
    rw [CText.write, if_pos hfit, Nat.zero_add]
    rfl
  have hcopy : Raft.strcpyRow rows i src = .ok (rows.set i (Bytes.cstr src ++
      0 :: rows[i].drop ((Bytes.cstr src).length + 1))) := by
    simp [Raft.strcpyRow, hrow, hwrite]
  refine ⟨_, hcopy, ?_, ?_, ?_⟩
  · rw [List.map_set, h.names_eq, Bytes.cstr_append_zero (Bytes.cstr_ne_zero src)]
  · intro row hmem
    rcases List.mem_or_eq_of_mem_set hmem with hold | rfl
    · exact h.row_length row hold
    · rw [← h.row_length _ (List.getElem_mem hi)]
      simp
      omega
  · intro row hmem
    rcases List.mem_or_eq_of_mem_set hmem with hold | rfl
    · exact h.terminated row hold
    · simp

end

theorem Spells.copyNames {base : Nat} {src : List Bytes} (done more : List Bytes)
    {pre free srcNames : List Name} (h : Spells rows (pre ++ free)) (hsrc : Spells src srcNames)
    (hpre : pre.length = base + done.length) (hfit : src.length ≤ free.length) :
    ∃ rows', copyNames (done ++ src ++ more) base src.length done.length rows = .ok rows' ∧
      Spells rows' (pre ++ srcNames ++ free.drop src.length) := by
  induction src generalizing rows done pre free srcNames with
  | nil =>
    rw [← hsrc.names_eq]
    exact ⟨rows, rfl, by simpa using h⟩
  | cons woof src ih =>
    obtain ⟨name, free, rfl⟩ : ∃ name rest, free = name :: rest :=
      List.exists_cons_of_length_pos (Nat.lt_of_lt_of_le (Nat.succ_pos _) hfit)
    have hget : (done ++ woof :: src ++ more)[done.length]? = some woof := by simp
    have hi : base + done.length < rows.length := by
      rw [h.length_eq, List.length_append, List.length_cons]
      omega
    obtain ⟨rows₁, hcopy, hrows₁⟩ := h.strcpyRow hi (hsrc.row_length woof List.mem_cons_self)
      (hsrc.terminated woof List.mem_cons_self)
    rw [← hpre, List.set_append_right _ _ (Nat.le_refl _), Nat.sub_self, List.set_cons_zero,
      List.append_cons] at hrows₁
    obtain ⟨rows₂, hrest, hrows₂⟩ := ih (done ++ [woof]) hrows₁
      (hsrc.of_subset (List.subset_cons_self woof src)) (by simp [hpre, Nat.add_assoc])
      (Nat.le_of_succ_le_succ hfit)
    refine ⟨rows₂, ?_, ?_⟩
    · rw [List.length_cons, Raft.copyNames, hget]
      dsimp only
      rw [hcopy, Exec.ok_bind]
      simpa using hrest
    · rw [← hsrc.names_eq]
      simpa using hrows₂

theorem strcmp_eq_zero_iff {s t : Bytes} : Bytes.strcmp s t = 0 ↔ s = t := by
  constructor
  · intro heq
    by_contra hne
    have hlt := Bytes.strcmp_neg (Int.le_of_eq heq) hne
    omega
  · rintro rfl
    exact Bytes.strcmp_self s

theorem Spells.sorted (h : Spells rows names) :
    Spells (qsort qsortStrcmp rows) (qsort Bytes.strcmp names) := by
  have hmap := List.map_insertionSort (r := fun a b => qsortStrcmp a b ≤ 0)
    (s := fun a b => Bytes.strcmp a b ≤ 0) Bytes.cstr rows fun _ _ _ _ => Iff.rfl
  have hspells := h.of_subset (qsort.perm qsortStrcmp rows).subset
  have hnames : (qsort qsortStrcmp rows).map Bytes.cstr = qsort Bytes.strcmp names := by
    rw [← h.names_eq]
    exact hmap
  rwa [hnames] at hspells

theorem Spells.sort_front {front behind : List Name} (h : Spells rows (front ++ behind)) :
    Spells (qsort qsortStrcmp (rows.take front.length) ++ rows.drop front.length)
      (qsort Bytes.strcmp front ++ behind) := by
  have hfront := h.of_subset (List.take_subset front.length rows)
  have hbehind := h.of_subset (List.drop_subset front.length rows)
  rw [List.map_take, h.names_eq, List.take_left] at hfront
  rw [List.map_drop, h.names_eq, List.drop_left] at hbehind
  exact hfront.sorted.append hbehind

theorem Spells.removeDuplicates (count : Nat) {tail : Nat} (h : Spells rows names)
    (htail : tail ≤ i) (hfit : i + count ≤ rows.length) :
    ∃ rows', removeDuplicatesAt count i tail rows =
        .ok ((removeDuplicates count i tail names).1, rows') ∧
      rows'.length = rows.length ∧ Spells rows' (removeDuplicates count i tail names).2 := by
  induction count generalizing rows names i tail with
  | zero => exact ⟨rows, rfl, rfl, h⟩
  | succ count ih =>
    have hi : i < rows.length := by omega
    have hrow := List.getElem?_eq_getElem hi
    have hname := h.getElem? i
    rw [hrow, Option.map_some] at hname
    have hsame : (0 < tail ∧ (rows[tail - 1]?.any fun last =>
        Bytes.strcmp (Bytes.cstr rows[i]) (Bytes.cstr last) = 0) = true) ↔
        0 < tail ∧ names[i]? = names[tail - 1]? := by
      have hlast := List.getElem?_eq_getElem (show tail - 1 < rows.length by omega)
      rw [← hname, ← h.getElem? (tail - 1), hlast]
      simp [strcmp_eq_zero_iff]
    rw [removeDuplicatesAt, Raft.removeDuplicates, hrow]
    dsimp only
    by_cases hdup : 0 < tail ∧ names[i]? = names[tail - 1]?
    · rw [if_pos (hsame.2 hdup), if_pos hdup]
      exact ih h (by omega) (by omega)
    · rw [if_neg (mt hsame.1 hdup), if_neg hdup]
      by_cases hmoved : tail ≠ i
      · obtain ⟨rows₁, hcopy, hrows₁⟩ := h.strcpyRow (show tail < rows.length by omega)
          (h.row_length _ (List.getElem_mem hi)) (h.terminated _ (List.getElem_mem hi))
        have hlength := hrows₁.length_eq.trans (List.length_set.trans h.length_eq.symm)
        rw [if_pos hmoved, if_pos hmoved, hcopy, Exec.ok_bind, List.getD_eq_getElem?_getD,
          ← hname]
        rw [← hlength]
        exact ih hrows₁ (by omega) (by omega)
      · rw [if_neg hmoved, if_neg hmoved, Exec.ok_bind]
        exact ih h (by omega) (by omega)

end Rows

/-! ## The call -/

section Call

variable {rows : List Bytes} {pre free : List Name}

theorem MemberArray.spells (a : MemberArray) : Spells (a.rows.take a.members) a.names :=
  ⟨rfl, fun row hrow => a.row_length row (List.mem_of_mem_take hrow), a.terminated⟩

theorem MemberArray.length_take (a : MemberArray) :
    (a.rows.take a.members).length = a.members := by
  rw [List.length_take, a.length_eq, Nat.min_eq_left a.members_le]

theorem MemberArray.length_names (a : MemberArray) : a.names.length = a.members := by
  rw [← a.spells.length_eq, a.length_take]

theorem length_slots {memberWoofs : List Name} (h : memberWoofs.length ≤ configRows) :
    (slots memberWoofs).length = configRows := by
  rw [slots, List.length_append, List.length_replicate]
  exact Nat.add_sub_of_le h

def MemberArray.ofNames (names : List Name) (hrows : names.length ≤ configRows)
    (hnames : ∀ name ∈ names, name.length < raftNameLength ∧ 0 ∉ name) : MemberArray where
  rows := (slots names).map fun name => name ++ List.replicate (raftNameLength - name.length) 0
  length_eq := by rw [List.length_map, length_slots hrows]
  row_length := by
    rw [List.forall_mem_map, slots, List.forall_mem_append]
    refine ⟨fun name hname => ?_, fun name hname => ?_⟩
    · rw [List.length_append, List.length_replicate]
      exact Nat.add_sub_of_le (hnames name hname).1.le
    · rw [List.eq_of_mem_replicate hname, List.nil_append, List.length_replicate]
      exact Nat.sub_zero _
  members := names.length
  members_le := hrows
  terminated := by
    rw [← List.map_take, slots, List.take_left, List.forall_mem_map]
    intro name hname
    refine List.mem_append_right _ (List.mem_replicate.2 ⟨?_, rfl⟩)
    exact Nat.sub_ne_zero_of_lt (hnames name hname).1

theorem MemberArray.names_ofNames {names : List Name} (hrows : names.length ≤ configRows)
    (hnames : ∀ name ∈ names, name.length < raftNameLength ∧ 0 ∉ name) :
    (MemberArray.ofNames names hrows hnames).names = names := by
  show (((slots names).map _).take names.length).map Bytes.cstr = names
  rw [← List.map_take, slots, List.take_left, List.map_map]
  refine (List.map_congr_left fun name hname => ?_).trans (List.map_id names)
  obtain ⟨hshort, hplain⟩ := hnames name hname
  obtain ⟨more, hmore⟩ : ∃ more, raftNameLength - name.length = more + 1 :=
    Nat.exists_eq_succ_of_ne_zero (Nat.sub_ne_zero_of_lt hshort)
  rw [Function.comp_apply, hmore, List.replicate_succ,
    Bytes.cstr_append_zero (Bytes.ne_zero_of_notMem hplain)]
  rfl

theorem MemberArray.copyNames (a : MemberArray) (h : Spells rows (pre ++ free))
    (hfit : a.members ≤ free.length) :
    ∃ rows', copyNames a.rows pre.length a.members 0 rows = .ok rows' ∧
      Spells rows' (pre ++ a.names ++ free.drop a.members) := by
  have hcopy := h.copyNames [] (a.rows.drop a.members) a.spells rfl (by rwa [a.length_take])
  rwa [List.nil_append, List.take_append_drop, a.length_take] at hcopy

theorem spells_cleared : Spells (List.replicate configRows (List.replicate raftNameLength 0))
    (List.replicate configRows []) where
  names_eq := by
    rfl
  row_length row hrow := by rw [List.eq_of_mem_replicate hrow, List.length_replicate]
  terminated row hrow := by
    rw [List.eq_of_mem_replicate hrow]
    exact List.mem_replicate.2 ⟨by decide, rfl⟩

/-- The call computes in its array what `computeJointConfig` computes of the names. -/
theorem computeJointConfigAt_eq (old new : MemberArray) (jointMembers : Int) (joint : WoofArray)
    (hfit : old.members + new.members ≤ raftMaxMembers) :
    ∃ result rows, computeJointConfig old.names new.names = some result ∧
      computeJointConfigAt old.members old.rows new.members new.rows jointMembers joint.rows =
        .ok (0, result.1, rows) ∧ rows.length = configRows ∧ Spells rows result.2 := by
  have hrows : old.members + new.members ≤ configRows := Nat.le_trans hfit (Nat.le_add_right _ _)
  have hcount : (old.names ++ new.names).length = old.members + new.members := by
    rw [List.length_append, old.length_names, new.length_names]
  have hcleared : Spells (List.replicate configRows (List.replicate raftNameLength 0))
      ([] ++ List.replicate configRows []) := spells_cleared
  obtain ⟨rows₁, hcopy₁, hrows₁⟩ := old.copyNames hcleared (by simp; omega)
  rw [List.nil_append] at hrows₁
  obtain ⟨rows₂, hcopy₂, hrows₂⟩ := new.copyNames hrows₁ (by simp; omega)
  rw [old.length_names] at hcopy₂
  have hsorted := hrows₂.sort_front
  have hslots : qsort Bytes.strcmp (old.names ++ new.names) ++
      ((List.replicate configRows []).drop old.members).drop new.members =
      slots (qsort Bytes.strcmp (old.names ++ new.names)) := by
    rw [slots, qsort.length_eq, hcount, List.drop_drop, List.drop_replicate]
    rfl
  rw [hslots, hcount] at hsorted
  have hlength := hsorted.length_eq.trans (length_slots (by rwa [qsort.length_eq, hcount]))
  obtain ⟨rows₃, hremove, hlength₃, hrows₃⟩ := hsorted.removeDuplicates
    (old.members + new.members) (Nat.le_refl 0) (by omega)
  refine ⟨removeDuplicates _ _ _ _, rows₃, ?_, ?_, hlength₃.trans hlength, hrows₃⟩
  · rw [computeJointConfig, old.length_names, new.length_names, if_neg (Nat.not_lt.2 hfit)]
  · have hint : ¬ (raftMaxMembers : Int) < Word.toInt32 (old.members + new.members) := by
      unfold Word.toInt32 raftMaxMembers at *
      omega
    have hdrop : joint.rows.drop configRows = [] := by
      rw [← joint.length_eq, List.drop_length]
    rw [List.length_nil] at hcopy₁
    rw [computeJointConfigAt, if_neg hint, if_neg (by rw [joint.length_eq]; exact Nat.lt_irrefl _)]
    simp [hdrop, hcopy₁, hcopy₂, hremove]

/-- The joint configuration that an array holds is the union of the two others, each name once
and in order.  Without room for both, the array and the count stay as they are. -/
theorem computeJointConfigAt_union (old new : MemberArray) (jointMembers : Int)
    (joint : WoofArray) :
    (old.members + new.members ≤ raftMaxMembers →
      ∃ result : MemberArray,
        computeJointConfigAt old.members old.rows new.members new.rows jointMembers joint.rows =
          .ok (0, result.members, result.rows) ∧
        result.names.Pairwise (fun a b => Bytes.strcmp a b < 0) ∧
        ∀ name, name ∈ result.names ↔ name ∈ old.names ∨ name ∈ new.names) ∧
      (raftMaxMembers < old.members + new.members →
        computeJointConfigAt old.members old.rows new.members new.rows jointMembers joint.rows =
          .ok (-1, jointMembers, joint.rows)) := by
  constructor
  · intro hfit
    obtain ⟨_, rows, hconfig, hcall, hlength, hrows⟩ :=
      computeJointConfigAt_eq old new jointMembers joint hfit
    rw [← old.length_names, ← new.length_names] at hfit
    obtain ⟨names, behind, heq, hsorted, hunion⟩ := computeJointConfig_eq hfit
    obtain rfl := Option.some.inj (hconfig.symm.trans heq)
    have hle : names.length ≤ configRows := by
      rw [← hlength, hrows.length_eq, List.length_append]
      exact Nat.le_add_right _ _
    have hnames : (rows.take names.length).map Bytes.cstr = names := by
      rw [List.map_take, hrows.names_eq, List.take_left]
    refine ⟨⟨⟨rows, hlength, hrows.row_length⟩, names.length, hle,
      fun row hrow => hrows.terminated row (List.mem_of_mem_take hrow)⟩, hcall, ?_, ?_⟩
    · rwa [MemberArray.names, hnames]
    · rwa [MemberArray.names, hnames]
  · intro hmore
    have hint : (raftMaxMembers : Int) < Word.toInt32 (old.members + new.members) := by
      have hold := old.members_le
      have hnew := new.members_le
      unfold configRows raftMaxObservers raftMaxMembers at hold hnew
      unfold Word.toInt32 raftMaxMembers at *
      omega
    rw [computeJointConfigAt, if_pos hint]

def twiceNamed : MemberArray := .ofNames [[98], [97], [98]] (by decide) (by decide)

def pairNamed : MemberArray := .ofNames [[99], [97]] (by decide) (by decide)

def fullyNamed : MemberArray := .ofNames (List.replicate 8 [97]) (by decide) (by decide)

/-- Names that are given twice are joined once, and ten names are too many. -/
theorem computeJointConfigAt_union_twice :
    (∃ result : MemberArray,
      computeJointConfigAt twiceNamed.members twiceNamed.rows pairNamed.members pairNamed.rows 0
        fullyNamed.rows = .ok (0, result.members, result.rows) ∧
      result.names.Pairwise (fun a b => Bytes.strcmp a b < 0) ∧
      ∀ name, name ∈ result.names ↔ name = [97] ∨ name = [98] ∨ name = [99]) ∧
      computeJointConfigAt fullyNamed.members fullyNamed.rows pairNamed.members pairNamed.rows 7
        twiceNamed.rows = .ok (-1, 7, twiceNamed.rows) := by
  constructor
  · obtain ⟨result, hcall, hsorted, hunion⟩ :=
      (computeJointConfigAt_union twiceNamed pairNamed 0 fullyNamed.toWoofArray).1 (by decide)
    refine ⟨result, hcall, hsorted, fun name => ?_⟩
    rw [hunion, twiceNamed, pairNamed, MemberArray.names_ofNames, MemberArray.names_ofNames]
    simp only [List.mem_cons, List.not_mem_nil, or_false]
    constructor
    · rintro ((rfl | rfl | rfl) | rfl | rfl) <;> simp
    · rintro (rfl | rfl | rfl) <;> simp
  · exact (computeJointConfigAt_union fullyNamed pairNamed 7 twiceNamed.toWoofArray).2 (by decide)

end Call

end Cspot.Raft
