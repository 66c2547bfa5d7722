import Cspot.Lib.Chain
import Cspot.Net.Client

/-!
# Frame lists in memory

The frames of a message are linked from the first to the last.  A list knows both, and how many
there are.  A frame that is popped keeps its link to the one behind it, so that a list to which
it is appended goes on into the list it came from.
-/

namespace Cspot.CmqFrame

structure FrameRec where
  data : Bytes
  next : Option Nat
deriving Repr, DecidableEq

structure ListRec where
  head : Option Nat
  tail : Option Nat
  count : Nat
  maxSize : Nat
deriving Repr, DecidableEq

/-- A hint to speed buffer handling. -/
def ListRec.grow (list : ListRec) (size : Nat) : ListRec :=
  if list.maxSize < size then { list with maxSize := size } else list

@[simp] theorem ListRec.grow_head (list : ListRec) (size : Nat) :
    (list.grow size).head = list.head := by
  unfold ListRec.grow
  split <;> rfl

@[simp] theorem ListRec.grow_tail (list : ListRec) (size : Nat) :
    (list.grow size).tail = list.tail := by
  unfold ListRec.grow
  split <;> rfl

@[simp] theorem ListRec.grow_count (list : ListRec) (size : Nat) :
    (list.grow size).count = list.count := by
  unfold ListRec.grow
  split <;> rfl

structure FrameHeap where
  frames : List FrameRec
  lists : List ListRec
deriving Repr, DecidableEq

namespace FrameHeap

def empty : FrameHeap := ⟨[], []⟩

def cmqFrameListCreate (h : FrameHeap) : Nat × FrameHeap :=
  (h.lists.length, { h with lists := h.lists ++ [⟨none, none, 0, 0⟩] })

def cmqFrameCreate (h : FrameHeap) (data : Bytes) : Nat × FrameHeap :=
  (h.frames.length, { h with frames := h.frames ++ [⟨data, none⟩] })

/-- The frame popped, none for the result -1. -/
def cmqFramePop (h : FrameHeap) (fl : Nat) : Exec (Option Nat × FrameHeap) :=
  match h.lists[fl]? with
  | none => .error .outOfBounds
  | some list =>
    if list.count = 0 then .ok (none, h)
    else
      match list.head with
      | none => .ok (none, h)
      | some f =>
        match h.frames[f]? with
        | none => .error .outOfBounds
        | some frame =>
          let list := { list with head := frame.next, count := list.count - 1 }
          let list :=
            if list.count = 0 then { list with head := none, tail := none } else list
          .ok (some f, { h with lists := h.lists.set fl list })

def cmqFrameAppend (h : FrameHeap) (fl f : Nat) : Exec FrameHeap :=
  match h.lists[fl]?, h.frames[f]? with
  | some list, some frame =>
    match list.head with
    | none =>
      let list := { list with head := some f, tail := some f, count := 1 }
      .ok { h with lists := h.lists.set fl (ListRec.grow list frame.data.length) }
    | some _ =>
      match list.tail with
      | none => .error .outOfBounds
      | some t =>
        match h.frames[t]? with
        | none => .error .outOfBounds
        | some last =>
          let list := { list with tail := some f, count := (list.count + 1) % 2 ^ 32 }
          .ok { frames := h.frames.set t { last with next := some f }
                lists := h.lists.set fl (ListRec.grow list frame.data.length) }
  | _, _ => .error .outOfBounds

/-! ## Well-formed lists -/

def next (h : FrameHeap) (f : Nat) : Option (Option Nat) := h.frames[f]?.map FrameRec.next

/-- The frames that one meets from the head of each list on: as many as the list counts, the
last of them at its tail, and none of them in another list. -/
structure Paths (h : FrameHeap) (paths : Nat → List Nat) : Prop where
  linked : ∀ fl (list : ListRec), h.lists[fl]? = some list →
    Chain.Linked h.next list.head (paths fl)
  count : ∀ fl (list : ListRec), h.lists[fl]? = some list → list.count = (paths fl).length
  tail : ∀ fl (list : ListRec), h.lists[fl]? = some list → list.tail = (paths fl).getLast?
  disjoint : ∀ fl < h.lists.length, ∀ fl' < h.lists.length, fl ≠ fl' →
    (paths fl).Disjoint (paths fl')

def WellFormed (h : FrameHeap) : Prop := ∃ paths, h.Paths paths

def Loose (h : FrameHeap) (f : Nat) : Prop :=
  ∀ (fl : Nat) (list : ListRec) path, h.lists[fl]? = some list →
    Chain.Linked h.next list.head path → f ∉ path

section Lists

variable {h : FrameHeap} {paths : Nat → List Nat} {fl f : Nat} {list : ListRec} {frame : FrameRec}
  {path : List Nat}

theorem Paths.path_eq (hp : h.Paths paths) (hlist : h.lists[fl]? = some list)
    (hlinked : Chain.Linked h.next list.head path) : path = paths fl :=
  hlinked.unique (hp.linked fl list hlist)

theorem Paths.loose (hp : h.Paths paths) (hloose : h.Loose f) {fl' : Nat}
    (hfl : fl' < h.lists.length) : f ∉ paths fl' := by
  have hlist := List.getElem?_eq_getElem hfl
  exact hloose fl' _ _ hlist (hp.linked fl' _ hlist)

def Held (next : Nat → Option (Option Nat)) (list : ListRec) (path : List Nat) : Prop :=
  Chain.Linked next list.head path ∧ list.count = path.length ∧ list.tail = path.getLast?

theorem Paths.held (hp : h.Paths paths) (hlist : h.lists[fl]? = some list) :
    Held h.next list (paths fl) :=
  ⟨hp.linked fl list hlist, hp.count fl list hlist, hp.tail fl list hlist⟩

theorem Paths.of_held
    (hheld : ∀ fl (list : ListRec), h.lists[fl]? = some list → Held h.next list (paths fl))
    (hdisjoint : ∀ fl < h.lists.length, ∀ fl' < h.lists.length, fl ≠ fl' →
      (paths fl).Disjoint (paths fl')) : h.Paths paths where
  linked fl list hlist := (hheld fl list hlist).1
  count fl list hlist := (hheld fl list hlist).2.1
  tail fl list hlist := (hheld fl list hlist).2.2
  disjoint := hdisjoint

theorem Paths.frame_of_mem (hp : h.Paths paths) (hlist : h.lists[fl]? = some list)
    (hf : f ∈ paths fl) : ∃ frame, h.frames[f]? = some frame := by
  have hsome := (hp.linked fl list hlist).isSome hf
  rwa [FrameHeap.next, Option.isSome_map, Option.isSome_iff_exists] at hsome

theorem Paths.set (hp : h.Paths paths) (frames : List FrameRec)
    (hheld : Held (FrameHeap.next ⟨frames, h.lists.set fl list⟩) list path)
    (hother : ∀ fl' < h.lists.length, fl' ≠ fl → ∀ a ∈ paths fl',
      frames[a]?.map FrameRec.next = h.next a ∧ a ∉ path) :
    FrameHeap.Paths ⟨frames, h.lists.set fl list⟩ (Function.update paths fl path) := by
  refine Paths.of_held ?_ ?_
  · intro fl' list' hlist'
    by_cases hfl : fl' = fl
    · subst hfl
      rw [List.getElem?_set_self'] at hlist'
      obtain ⟨_, -, rfl⟩ := Option.map_eq_some_iff.1 hlist'
      rwa [Function.update_self]
    · rw [List.getElem?_set_ne (Ne.symm hfl)] at hlist'
      obtain ⟨hlinked, hlength⟩ := hp.held hlist'
      rw [Function.update_of_ne hfl]
      refine ⟨hlinked.congr fun a ha => ?_, hlength⟩
      exact (hother fl' (List.getElem?_eq_some_iff.1 hlist').1 hfl a ha).1
  · intro a ha b hb hab
    rw [List.length_set] at ha hb
    by_cases hafl : a = fl
    · subst hafl
      rw [Function.update_self, Function.update_of_ne (Ne.symm hab)]
      intro x hx hx'
      exact (hother b hb (Ne.symm hab) x hx').2 hx
    · rw [Function.update_of_ne hafl]
      by_cases hbfl : b = fl
      · subst hbfl
        rw [Function.update_self]
        intro x hx hx'
        exact (hother a ha hafl x hx).2 hx'
      · rw [Function.update_of_ne hbfl]
        exact hp.disjoint a ha b hb hab

theorem Paths.append_eq (hp : h.Paths paths) (hlist : h.lists[fl]? = some list)
    (hframe : h.frames[f]? = some frame) :
    paths fl = [] ∧ h.cmqFrameAppend fl f = .ok { h with
        lists := h.lists.set fl (ListRec.grow
          { list with head := some f, tail := some f, count := 1 } frame.data.length) } ∨
      ∃ before t last, paths fl = before ++ [t] ∧ h.frames[t]? = some last ∧
        h.cmqFrameAppend fl f = .ok
          { frames := h.frames.set t { last with next := some f }
            lists := h.lists.set fl (ListRec.grow
              { list with tail := some f, count := (list.count + 1) % 2 ^ 32 }
              frame.data.length) } := by
  have hlinked := hp.linked fl list hlist
  have htail := hp.tail fl list hlist
  rcases List.eq_nil_or_concat (paths fl) with hnil | ⟨before, t, hpath⟩
  · left
    have hhead : list.head = none := by
      rw [hlinked.head?, hnil]
      rfl
    refine ⟨hnil, ?_⟩
    simp [cmqFrameAppend, hlist, hframe, hhead]
  · right
    rw [List.concat_eq_append] at hpath
    rw [hpath, List.getLast?_concat] at htail
    obtain ⟨last, hlast⟩ := hp.frame_of_mem (f := t) hlist (by rw [hpath]; simp)
    refine ⟨before, t, last, hpath, hlast, ?_⟩
    have hhead : list.head ≠ none := by
      rw [hlinked.head?, hpath]
      simp
    obtain ⟨first, hfirst⟩ := Option.ne_none_iff_exists'.1 hhead
    simp [cmqFrameAppend, hlist, hframe, hfirst, htail, hlast]

/-- The heap after a loose frame has been appended.  The list ends at the frame if the link of the
frame is null. -/
structure Appended (h : FrameHeap) (paths : Nat → List Nat) (fl f : Nat) (list : ListRec)
    (h' : FrameHeap) (list' : ListRec) : Prop where
  lists : h'.lists = h.lists.set fl list'
  tail : list'.tail = some f
  count : list'.count = (list.count + 1) % 2 ^ 32
  next : h'.next f = h.next f
  linked : h.next f = some none → Chain.Linked h'.next list'.head (paths fl ++ [f])
  other : ∀ fl' < h.lists.length, fl' ≠ fl → ∀ a ∈ paths fl', h'.next a = h.next a

theorem Paths.appended (hp : h.Paths paths) (hloose : h.Loose f) (hlist : h.lists[fl]? = some list)
    (hframe : h.frames[f]? = some frame) :
    ∃ h' list', h.cmqFrameAppend fl f = .ok h' ∧ h.Appended paths fl f list h' list' := by
  have hlength := hp.count fl list hlist
  have hfl : fl < h.lists.length := (List.getElem?_eq_some_iff.1 hlist).1
  rcases hp.append_eq hlist hframe with ⟨hnil, happend⟩ | ⟨before, t, last, hpath, hlast, happend⟩
  · refine ⟨_, _, happend, rfl, ListRec.grow_tail _ _, ?_, rfl, ?_, fun _ _ _ _ _ => rfl⟩
    · rw [ListRec.grow_count, hlength, hnil]
      rfl
    · intro hnull
      rw [hnil, ListRec.grow_head]
      exact ⟨rfl, none, hnull, rfl⟩
  · have hft : f ≠ t := by
      intro heq
      apply hp.loose hloose hfl
      rw [hpath, heq]
      simp
    have htlt : t < h.frames.length := (List.getElem?_eq_some_iff.1 hlast).1
    have hset : ∀ a, a ≠ t →
        (h.frames.set t { last with next := some f })[a]?.map FrameRec.next = h.next a := by
      intro a hat
      rw [List.getElem?_set_ne (Ne.symm hat)]
      rfl
    refine ⟨_, _, happend, rfl, ListRec.grow_tail _ _, ListRec.grow_count _ _, hset f hft, ?_, ?_⟩
    · intro hnull
      have hlinked := hp.linked fl list hlist
      rw [hpath] at hlinked ⊢
      have hnodup := hlinked.nodup
      rw [ListRec.grow_head]
      refine hlinked.concat ?_ ?_ ((hset f hft).trans hnull)
      · intro c hc
        apply hset
        rintro rfl
        exact (List.nodup_append.1 hnodup).2.2 c hc c (List.mem_singleton_self c) rfl
      · show (h.frames.set t _)[t]?.map FrameRec.next = _
        rw [List.getElem?_set_self htlt]
        rfl
    · intro fl' hfl' hne a ha
      apply hset
      rintro rfl
      exact hp.disjoint fl' hfl' fl hfl hne ha (by rw [hpath]; simp)

section Append

variable {h' : FrameHeap} {list' : ListRec}

theorem Appended.keepsPaths (happended : h.Appended paths fl f list h' list') (hp : h.Paths paths)
    (hloose : h.Loose f) (hlist : h.lists[fl]? = some list) (hnull : h.next f = some none)
    (hcount : list.count + 1 < 2 ^ 32) :
    h'.Paths (Function.update paths fl (paths fl ++ [f])) := by
  have hfl : fl < h.lists.length := (List.getElem?_eq_some_iff.1 hlist).1
  have hheap : h' = ⟨h'.frames, h.lists.set fl list'⟩ := by
    rw [← happended.lists]
  rw [hheap]
  refine hp.set h'.frames ⟨?_, ?_, ?_⟩ ?_
  · exact (happended.linked hnull).congr fun _ _ => rfl
  · rw [happended.count, List.length_append, ← hp.count fl list hlist]
    exact Nat.mod_eq_of_lt hcount
  · rw [happended.tail]
    simp
  · intro fl' hfl' hne a ha
    refine ⟨happended.other fl' hfl' hne a ha, ?_⟩
    rw [List.mem_append, List.mem_singleton]
    rintro (hin | rfl)
    · exact hp.disjoint fl' hfl' fl hfl hne ha hin
    · exact hp.loose hloose hfl' ha

theorem Appended.not_wellFormed (happended : h.Appended paths fl f list h' list')
    (hp : h.Paths paths) (hlist : h.lists[fl]? = some list)
    (hbad : ¬ (h.next f = some none ∧ list.count + 1 < 2 ^ 32)) : ¬ h'.WellFormed := by
  rintro ⟨paths', hp'⟩
  have hfl : fl < h.lists.length := (List.getElem?_eq_some_iff.1 hlist).1
  have hlist' : h'.lists[fl]? = some list' := by
    rw [happended.lists, List.getElem?_set_self hfl]
  have hlast : (paths' fl).getLast? = some f := by
    rw [← hp'.tail fl list' hlist', happended.tail]
  have hlinked' := hp'.linked fl list' hlist'
  have hnull : h.next f = some none := by
    rw [← happended.next]
    exact (hlinked'.next_eq_none_iff (List.mem_of_getLast? hlast)).2 hlast
  have hpath := (happended.linked hnull).unique hlinked'
  have hcount := hp'.count fl list' hlist'
  rw [happended.count, ← hpath, List.length_append, List.length_singleton,
    ← hp.count fl list hlist] at hcount
  exact hbad ⟨hnull, by omega⟩

end Append

theorem Paths.pop (hp : h.Paths paths) (hfl : fl < h.lists.length) :
    ∃ f h', h.cmqFramePop fl = .ok (f, h') ∧
      h'.Paths (Function.update paths fl (paths fl).tail) := by
  have hlist := List.getElem?_eq_getElem hfl
  generalize h.lists[fl] = list at hlist
  have hlinked := hp.linked fl list hlist
  have hcount := hp.count fl list hlist
  have htail := hp.tail fl list hlist
  cases hpath : paths fl with
  | nil =>
    rw [hpath] at hcount
    refine ⟨none, h, ?_, ?_⟩
    · simp [cmqFramePop, hlist, hcount]
    · rwa [List.tail_nil, ← hpath, Function.update_eq_self]
  | cons f rest =>
    rw [hpath] at hlinked hcount htail
    obtain ⟨hhead, q, hq, hrest⟩ := hlinked
    obtain ⟨frame, hframe, rfl⟩ := Option.map_eq_some_iff.1 hq
    have hpos : list.count ≠ 0 := by
      rw [hcount]
      simp
    have hpop : h.cmqFramePop fl = .ok (some f, { h with
        lists := h.lists.set fl
          (if list.count - 1 = 0 then { list with head := none, tail := none, count := 0 }
            else { list with head := frame.next, count := list.count - 1 }) }) := by
      simp only [cmqFramePop, hlist, hpos, if_false, hhead, hframe]
      by_cases hone : list.count - 1 = 0 <;> simp [hone]
    refine ⟨_, _, hpop, ?_⟩
    rw [List.tail_cons]
    have hkept : ∀ fl' < h.lists.length, fl' ≠ fl → ∀ a ∈ paths fl',
        h.frames[a]?.map FrameRec.next = h.next a ∧ a ∉ rest := by
      intro fl' hfl' hne a ha
      refine ⟨rfl, fun hin => ?_⟩
      apply hp.disjoint fl' hfl' fl hfl hne ha
      rw [hpath]
      exact List.mem_cons_of_mem _ hin
    rw [List.length_cons] at hcount
    cases rest with
    | nil =>
      rw [if_pos (by simp [hcount])]
      exact hp.set h.frames ⟨rfl, rfl, rfl⟩ hkept
    | cons b rest =>
      rw [List.length_cons] at hcount
      rw [if_neg (by omega)]
      refine hp.set h.frames ⟨hrest, ?_, ?_⟩ hkept
      · rw [hcount, List.length_cons]
        rfl
      · rw [htail, List.getLast?_cons_cons]

theorem Paths.listCreate (hp : h.Paths paths) :
    h.cmqFrameListCreate.2.Paths (Function.update paths h.lists.length []) := by
  refine Paths.of_held ?_ ?_
  · intro fl list (hlist : (h.lists ++ [⟨none, none, 0, 0⟩])[fl]? = some list)
    rcases Nat.lt_trichotomy fl h.lists.length with hlt | rfl | hgt
    · rw [List.getElem?_append_left hlt] at hlist
      rw [Function.update_of_ne (Nat.ne_of_lt hlt)]
      obtain ⟨hlinked, hlength⟩ := hp.held hlist
      exact ⟨hlinked.congr fun _ _ => rfl, hlength⟩
    · rw [List.getElem?_concat_length, Option.some.injEq] at hlist
      rw [Function.update_self, ← hlist]
      exact ⟨rfl, rfl, rfl⟩
    · rw [List.getElem?_eq_none (by simp; omega)] at hlist
      cases hlist
  · intro a ha b hb hab
    have hlen : h.cmqFrameListCreate.2.lists.length = h.lists.length + 1 := by
      simp [cmqFrameListCreate]
    by_cases hanew : a = h.lists.length
    · rw [hanew, Function.update_self]
      exact List.disjoint_nil_left _
    · rw [Function.update_of_ne hanew]
      by_cases hbnew : b = h.lists.length
      · rw [hbnew, Function.update_self]
        exact List.disjoint_nil_right _
      · rw [Function.update_of_ne hbnew]
        exact hp.disjoint a (by omega) b (by omega) hab

theorem next_frameCreate {a : Nat} (data : Bytes) (ha : (h.next a).isSome) :
    (h.cmqFrameCreate data).2.next a = h.next a := by
  rw [FrameHeap.next, Option.isSome_map] at ha
  obtain ⟨frame, hframe⟩ := Option.isSome_iff_exists.1 ha
  show (h.frames ++ [⟨data, none⟩])[a]?.map FrameRec.next = _
  rw [List.getElem?_append_left (List.getElem?_eq_some_iff.1 hframe).1]
  rfl

theorem Paths.frameCreate (hp : h.Paths paths) (data : Bytes) :
    (h.cmqFrameCreate data).2.Paths paths where
  linked fl list hlist := by
    have hlinked := hp.linked fl list hlist
    exact hlinked.congr fun a ha => next_frameCreate data (hlinked.isSome ha)
  count := hp.count
  tail := hp.tail
  disjoint := hp.disjoint

theorem Paths.loose_create (hp : h.Paths paths) (data : Bytes) :
    (h.cmqFrameCreate data).2.Loose (h.cmqFrameCreate data).1 ∧
      (h.cmqFrameCreate data).2.next (h.cmqFrameCreate data).1 = some none := by
  constructor
  · intro fl list path hlist hlinked hmem
    have hpath : path = paths fl := (hp.frameCreate data).path_eq hlist hlinked
    rw [hpath] at hmem
    have hsome := (hp.linked fl list hlist).isSome hmem
    have hnone : h.next h.frames.length = none := by
      rw [FrameHeap.next, List.getElem?_eq_none (Nat.le_refl _)]
      rfl
    have hsame : (h.cmqFrameCreate data).1 = h.frames.length := rfl
    rw [hsame, hnone] at hsome
    cases hsome
  · show (h.frames ++ [⟨data, none⟩])[h.frames.length]?.map FrameRec.next = _
    rw [List.getElem?_concat_length]
    rfl

end Lists

/-! ## Runs -/

/-- A call with its arguments; `malloc` tells whether there is memory. -/
inductive FrameOp
  | listCreate (malloc : Bool)
  | frameCreate (data : Bytes) (malloc : Bool)
  | append (fl f : Nat)
  | pop (fl : Nat)

def apply (h : FrameHeap) : FrameOp → Exec FrameHeap
  | .listCreate malloc => .ok (if malloc then h.cmqFrameListCreate.2 else h)
  | .frameCreate data malloc => .ok (if malloc then (h.cmqFrameCreate data).2 else h)
  | .append fl f => h.cmqFrameAppend fl f
  | .pop fl => do
      let (_, h) ← h.cmqFramePop fl
      return h

def Allows (h : FrameHeap) : FrameOp → Prop
  | .listCreate _ => True
  | .frameCreate _ _ => True
  | .append fl f => fl < h.lists.length ∧ f < h.frames.length ∧ h.Loose f
  | .pop fl => fl < h.lists.length

def AllowsAll (h : FrameHeap) : List FrameOp → Prop
  | [] => True
  | op :: ops => h.Allows op ∧
      match h.apply op with
      | .ok h => h.AllowsAll ops
      | .error _ => True

def StaysWellFormed (h : FrameHeap) : List FrameOp → Prop
  | [] => h.WellFormed
  | op :: ops => h.WellFormed ∧
      match h.apply op with
      | .ok h => h.StaysWellFormed ops
      | .error _ => False

/-- The link of a frame that is appended is null, and the count has room for it. -/
def Detached (h : FrameHeap) : FrameOp → Prop
  | .append fl f => h.next f = some none ∧
      ∀ list : ListRec, h.lists[fl]? = some list → list.count + 1 < 2 ^ 32
  | _ => True

def AllDetached (h : FrameHeap) : List FrameOp → Prop
  | [] => True
  | op :: ops => h.Detached op ∧
      match h.apply op with
      | .ok h => h.AllDetached ops
      | .error _ => True

section Runs

variable {h : FrameHeap} {op : FrameOp} {ops : List FrameOp}

theorem WellFormed.apply (hwf : h.WellFormed) (hallows : h.Allows op) (hdetached : h.Detached op) :
    ∃ h', h.apply op = .ok h' ∧ h'.WellFormed := by
  obtain ⟨paths, hp⟩ := hwf
  cases op with
  | listCreate malloc =>
    cases malloc with
    | false => exact ⟨h, rfl, paths, hp⟩
    | true => exact ⟨_, rfl, _, hp.listCreate⟩
  | frameCreate data malloc =>
    cases malloc with
    | false => exact ⟨h, rfl, paths, hp⟩
    | true => exact ⟨_, rfl, _, hp.frameCreate data⟩
  | append fl f =>
    obtain ⟨hfl, hf, hloose⟩ := hallows
    have hlist := List.getElem?_eq_getElem hfl
    obtain ⟨h', list', happend, happended⟩ :=
      hp.appended hloose hlist (List.getElem?_eq_getElem hf)
    exact ⟨h', happend, _,
      happended.keepsPaths hp hloose hlist hdetached.1 (hdetached.2 _ hlist)⟩
  | pop fl =>
    obtain ⟨f, h', hpop, hp'⟩ := hp.pop hallows
    refine ⟨h', ?_, _, hp'⟩
    rw [FrameHeap.apply, hpop]
    rfl

theorem WellFormed.not_apply (hwf : h.WellFormed) (hallows : h.Allows op) (hbad : ¬ h.Detached op) :
    ∃ h', h.apply op = .ok h' ∧ ¬ h'.WellFormed := by
  obtain ⟨paths, hp⟩ := hwf
  cases op with
  | listCreate malloc => exact absurd trivial hbad
  | frameCreate data malloc => exact absurd trivial hbad
  | append fl f =>
    obtain ⟨hfl, hf, hloose⟩ := hallows
    have hlist := List.getElem?_eq_getElem hfl
    obtain ⟨h', list', happend, happended⟩ :=
      hp.appended hloose hlist (List.getElem?_eq_getElem hf)
    refine ⟨h', happend, happended.not_wellFormed hp hlist ?_⟩
    intro ⟨hnull, hcount⟩
    refine hbad ⟨hnull, fun list hlist' => ?_⟩
    rw [hlist, Option.some.injEq] at hlist'
    exact hlist' ▸ hcount
  | pop fl => exact absurd trivial hbad

theorem StaysWellFormed.wellFormed (hstays : h.StaysWellFormed ops) : h.WellFormed := by
  cases ops with
  | nil => exact hstays
  | cons op ops => exact hstays.1

theorem WellFormed.stays_iff (hwf : h.WellFormed) (hallows : h.AllowsAll ops) :
    h.StaysWellFormed ops ↔ h.AllDetached ops := by
  induction ops generalizing h with
  | nil => exact iff_of_true hwf trivial
  | cons op ops ih =>
    obtain ⟨hallowed, hrest⟩ := hallows
    rw [FrameHeap.StaysWellFormed, FrameHeap.AllDetached]
    by_cases hdetached : h.Detached op
    · obtain ⟨h', happly, hwf'⟩ := hwf.apply hallowed hdetached
      rw [happly] at hrest ⊢
      exact and_congr (iff_of_true hwf hdetached) (ih hwf' hrest)
    · obtain ⟨h', happly, hnot⟩ := hwf.not_apply hallowed hdetached
      rw [happly]
      constructor
      · intro hstays
        exact absurd hstays.2.wellFormed hnot
      · intro hall
        exact absurd hall.1 hdetached

theorem empty_wellFormed : empty.WellFormed := by
  refine ⟨fun _ => [], ?_, ?_, ?_, ?_⟩ <;> simp [empty]

end Runs

/-! ## Requests -/

/-- The frames of a message, created and appended one by one.  The variable that the frame is
created in holds the last one. -/
def appendFrames (h : FrameHeap) (fl : Nat) (f : Option Nat) :
    List Bytes → Exec (Option Nat × FrameHeap)
  | [] => .ok (f, h)
  | data :: rest => do
      let (f, h) := h.cmqFrameCreate data
      let h ← h.cmqFrameAppend fl f
      h.appendFrames fl (some f) rest

/-- The list that a client function passes to `cmq_pkt_send_msg`. -/
def buildRequest (h : FrameHeap) (call : Call) (header : List Bytes) :
    Exec (Nat × FrameHeap) := do
  let (fl, h) := h.cmqFrameListCreate
  let (f, h) ← h.appendFrames fl none header
  let h ←
    if call.appendsTwice then
      match f with
      | none => .error .outOfBounds
      | some f => h.cmqFrameAppend fl f
    else .ok h
  let (_, h) ← h.appendFrames fl f call.args
  return (fl, h)

def data (h : FrameHeap) (f : Nat) : Option Bytes := h.frames[f]?.map FrameRec.data

/-- What is sent of a list: the frames from its head on, under its count. -/
def Shows (h : FrameHeap) (fl : Nat) (sent : FrameList) : Prop :=
  ∃ (list : ListRec) (path : List Nat), h.lists[fl]? = some list ∧
    Chain.Linked h.next list.head path ∧ path.map h.data = sent.frames.map some ∧
    list.count = sent.count

section Requests

variable {h h' : FrameHeap} {paths : Nat → List Nat} {fl f : Nat} {list : ListRec}
  {sent : List Bytes}

theorem data_frameCreate {a : Nat} (bytes : Bytes) (ha : (h.next a).isSome) :
    (h.cmqFrameCreate bytes).2.data a = h.data a := by
  rw [FrameHeap.next, Option.isSome_map] at ha
  obtain ⟨frame, hframe⟩ := Option.isSome_iff_exists.1 ha
  show (h.frames ++ [⟨bytes, none⟩])[a]?.map FrameRec.data = _
  rw [List.getElem?_append_left (List.getElem?_eq_some_iff.1 hframe).1]
  rfl

theorem cmqFrameAppend_cases (happend : h.cmqFrameAppend fl f = .ok h') :
    ∃ list frame, h.lists[fl]? = some list ∧ h.frames[f]? = some frame ∧
      (list.head = none ∧ h' = { h with lists := h.lists.set fl (ListRec.grow
          { list with head := some f, tail := some f, count := 1 } frame.data.length) } ∨
        ∃ t last, list.tail = some t ∧ h.frames[t]? = some last ∧
          h' = { frames := h.frames.set t { last with next := some f }
                 lists := h.lists.set fl (ListRec.grow
                   { list with tail := some f, count := (list.count + 1) % 2 ^ 32 }
                   frame.data.length) }) := by
  unfold cmqFrameAppend at happend
  split at happend
  · rename_i list frame hlist hframe
    refine ⟨list, frame, hlist, hframe, ?_⟩
    cases hhead : list.head with
    | none =>
      simp only [hhead, Except.ok.injEq] at happend
      exact .inl ⟨rfl, happend.symm⟩
    | some first =>
      simp only [hhead] at happend
      split at happend
      · cases happend
      · rename_i t htail
        split at happend
        · cases happend
        · rename_i last hlast
          exact .inr ⟨t, last, htail, hlast, (Except.ok.inj happend).symm⟩
  · cases happend

theorem cmqFrameAppend_data (happend : h.cmqFrameAppend fl f = .ok h') (a : Nat) :
    h'.data a = h.data a ∧ (h'.next a).isSome = (h.next a).isSome := by
  obtain ⟨-, -, -, -, ⟨-, rfl⟩ | ⟨t, last, -, hlast, rfl⟩⟩ := cmqFrameAppend_cases happend
  · exact ⟨rfl, rfl⟩
  · simp only [FrameHeap.data, FrameHeap.next]
    by_cases hat : a = t
    · subst hat
      rw [List.getElem?_set_self (List.getElem?_eq_some_iff.1 hlast).1, hlast]
      exact ⟨rfl, rfl⟩
    · rw [List.getElem?_set_ne (Ne.symm hat)]
      exact ⟨rfl, rfl⟩

/-- A list after some frames have been created and appended. -/
structure Grown (h : FrameHeap) (paths : Nat → List Nat) (fl : Nat) (list : ListRec)
    (sent : List Bytes) (h' : FrameHeap) (new : List Nat) : Prop where
  paths : h'.Paths (Function.update paths fl (paths fl ++ new))
  data : new.map h'.data = sent.map some
  kept : ∀ a, (h.next a).isSome → h'.data a = h.data a ∧ (h'.next a).isSome
  list : ∃ list' : ListRec, h'.lists[fl]? = some list' ∧ list'.count = list.count + sent.length

theorem Paths.appendFrame (hp : h.Paths paths) (hlist : h.lists[fl]? = some list)
    (hcount : list.count + 1 < 2 ^ 32) (bytes : Bytes) :
    ∃ h', (h.cmqFrameCreate bytes).2.cmqFrameAppend fl h.frames.length = .ok h' ∧
      h.Grown paths fl list [bytes] h' [h.frames.length] := by
  obtain ⟨hloose, hnull⟩ := hp.loose_create bytes
  have hp' := hp.frameCreate bytes
  have hframe : (h.cmqFrameCreate bytes).2.frames[h.frames.length]? = some ⟨bytes, none⟩ :=
    List.getElem?_concat_length
  obtain ⟨h', list', happend, happended⟩ := hp'.appended hloose hlist hframe
  have hkept := cmqFrameAppend_data happend
  refine ⟨h', happend, happended.keepsPaths hp' hloose hlist hnull hcount, ?_, ?_, ?_⟩
  · rw [List.map_singleton, (hkept _).1, FrameHeap.data, hframe]
    rfl
  · intro a ha
    rw [(hkept a).1, (hkept a).2, data_frameCreate bytes ha, next_frameCreate bytes ha]
    exact ⟨rfl, ha⟩
  · refine ⟨list', ?_, ?_⟩
    · rw [happended.lists]
      exact List.getElem?_set_self (List.getElem?_eq_some_iff.1 hlist).1
    · rw [happended.count]
      exact Nat.mod_eq_of_lt hcount

theorem appendFrames_cons (f : Option Nat) (bytes : Bytes) (sent : List Bytes) :
    h.appendFrames fl f (bytes :: sent) = (do
      let h' ← (h.cmqFrameCreate bytes).2.cmqFrameAppend fl h.frames.length
      h'.appendFrames fl (some h.frames.length) sent) := rfl

theorem Paths.appendFrames (hp : h.Paths paths) (hlist : h.lists[fl]? = some list)
    (hcount : list.count + sent.length < 2 ^ 32) (f : Option Nat) :
    ∃ f' h' new, h.appendFrames fl f sent = .ok (f', h') ∧ h.Grown paths fl list sent h' new ∧
      f' = new.getLast?.or f := by
  induction sent generalizing h paths list f with
  | nil =>
    refine ⟨f, h, [], rfl, ⟨?_, rfl, fun a ha => ⟨rfl, ha⟩, list, hlist, rfl⟩, rfl⟩
    rwa [List.append_nil, Function.update_eq_self]
  | cons bytes sent ih =>
    rw [List.length_cons] at hcount
    obtain ⟨h₁, happend, hgrown⟩ := hp.appendFrame hlist (by omega) bytes
    obtain ⟨list₁, hlist₁, hcount₁⟩ := hgrown.list
    rw [List.length_singleton] at hcount₁
    obtain ⟨f', h₂, new, hrest, hgrown', hlast⟩ :=
      ih hgrown.paths hlist₁ (by omega) (some h.frames.length)
    obtain ⟨list₂, hlist₂, hcount₂⟩ := hgrown'.list
    have hnew : (h₁.next h.frames.length).isSome := by
      apply (hgrown.paths.linked fl list₁ hlist₁).isSome
      simp
    refine ⟨f', h₂, h.frames.length :: new, ?_, ⟨?_, ?_, ?_, list₂, hlist₂, ?_⟩, ?_⟩
    · rw [appendFrames_cons, happend, Exec.ok_bind, hrest]
    · have hpaths := hgrown'.paths
      rw [Function.update_self, Function.update_idem, List.append_assoc] at hpaths
      exact hpaths
    · have hfirst := hgrown.data
      rw [List.map_singleton, List.map_singleton, List.cons.injEq] at hfirst
      rw [List.map_cons, List.map_cons, hgrown'.data, (hgrown'.kept _ hnew).1, hfirst.1]
    · intro a ha
      obtain ⟨hdata, hsome⟩ := hgrown.kept a ha
      obtain ⟨hdata', hsome'⟩ := hgrown'.kept a hsome
      exact ⟨hdata'.trans hdata, hsome'⟩
    · rw [hcount₂, hcount₁, List.length_cons]
      omega
    · rw [hlast]
      cases new with
      | nil => rfl
      | cons a new =>
        rw [List.getLast?_cons_cons]
        cases hlast' : (a :: new).getLast? with
        | none => simp at hlast'
        | some b => rfl

/-- The first heap is the second one, but for one list that counts a frame more. -/
structure Ahead (fl : Nat) (h₁ h₂ : FrameHeap) : Prop where
  frames : h₁.frames = h₂.frames
  list : ∃ l₁ l₂ : ListRec, h₁.lists[fl]? = some l₁ ∧ h₂.lists[fl]? = some l₂ ∧
    l₁.head = l₂.head ∧ l₁.tail = l₂.tail ∧ l₂.head ≠ none ∧ l₁.count = (l₂.count + 1) % 2 ^ 32

section Ahead

variable {h₁ h₂ h₂' : FrameHeap}

theorem Ahead.append (hahead : Ahead fl h₁ h₂) (happend : h₂.cmqFrameAppend fl f = .ok h₂') :
    ∃ h₁', h₁.cmqFrameAppend fl f = .ok h₁' ∧ Ahead fl h₁' h₂' := by
  obtain ⟨hframes, l₁, l₂, hl₁, hl₂, hhead, htail, hne, hcount⟩ := hahead
  have hfl₁ := (List.getElem?_eq_some_iff.1 hl₁).1
  have hfl₂ := (List.getElem?_eq_some_iff.1 hl₂).1
  obtain ⟨list, frame, hlist, hframe, hcases⟩ := cmqFrameAppend_cases happend
  obtain rfl : l₂ = list := Option.some.inj (hl₂.symm.trans hlist)
  obtain ⟨hnone, -⟩ | ⟨t, last, ht, hlast, rfl⟩ := hcases
  · exact absurd hnone hne
  · obtain ⟨first, hfirst⟩ := Option.ne_none_iff_exists'.1 hne
    simp only [cmqFrameAppend, hframes, hl₁, hframe, hhead, hfirst, htail, ht, hlast]
    refine ⟨_, rfl, rfl, _, _, List.getElem?_set_self hfl₁, List.getElem?_set_self hfl₂, ?_, ?_,
      ?_, ?_⟩
    · rw [ListRec.grow_head, ListRec.grow_head]
    · rw [ListRec.grow_tail, ListRec.grow_tail]
    · rw [ListRec.grow_head]
      exact Option.some_ne_none first
    · simp [hcount]

theorem Ahead.create (hahead : Ahead fl h₁ h₂) (bytes : Bytes) :
    Ahead fl (h₁.cmqFrameCreate bytes).2 (h₂.cmqFrameCreate bytes).2 := by
  refine ⟨?_, hahead.list⟩
  show h₁.frames ++ _ = h₂.frames ++ _
  rw [hahead.frames]

theorem Ahead.appendFrames (hahead : Ahead fl h₁ h₂) {f f' : Option Nat}
    (happend : h₂.appendFrames fl f sent = .ok (f', h₂')) :
    ∃ h₁', h₁.appendFrames fl f sent = .ok (f', h₁') ∧ Ahead fl h₁' h₂' := by
  induction sent generalizing h₁ h₂ f with
  | nil =>
    cases happend
    exact ⟨h₁, rfl, hahead⟩
  | cons bytes sent ih =>
    obtain ⟨next₂, hfirst, hrest⟩ := Exec.bind_eq_ok.1 happend
    obtain ⟨next₁, hfirst₁, hahead'⟩ := (hahead.create bytes).append hfirst
    obtain ⟨h₁', hrest₁, hahead''⟩ := ih hahead' hrest
    refine ⟨h₁', ?_, hahead''⟩
    rw [appendFrames_cons, congrArg List.length hahead.frames, hfirst₁, Exec.ok_bind, hrest₁]

theorem next_congr (hframes : h₁.frames = h₂.frames) : h₁.next = h₂.next := by
  funext a
  rw [FrameHeap.next, FrameHeap.next, hframes]

theorem Ahead.not_wellFormed (hahead : Ahead fl h₁ h₂) (hp : h₂.Paths paths) :
    ¬ h₁.WellFormed := by
  rintro ⟨paths₁, hp₁⟩
  obtain ⟨hframes, l₁, l₂, hl₁, hl₂, hhead, -, -, hcount⟩ := hahead
  have hlinked := hp₁.linked fl l₁ hl₁
  rw [next_congr hframes, hhead] at hlinked
  have hpath := hp.path_eq hl₂ hlinked
  have hcount₁ := hp₁.count fl l₁ hl₁
  rw [hpath, ← hp.count fl l₂ hl₂, hcount] at hcount₁
  omega

theorem Paths.append_again (hp : h.Paths paths) (hlist : h.lists[fl]? = some list)
    {before : List Nat} (hpath : paths fl = before ++ [f]) {bytes : Bytes}
    (happend : (h.cmqFrameCreate bytes).2.cmqFrameAppend fl h.frames.length = .ok h₂) :
    ∃ again h₁, h.cmqFrameAppend fl f = .ok again ∧ again.frames.length = h.frames.length ∧
      (again.cmqFrameCreate bytes).2.cmqFrameAppend fl h.frames.length = .ok h₁ ∧
      Ahead fl h₁ h₂ := by
  have hlinked := hp.linked fl list hlist
  have hfl := (List.getElem?_eq_some_iff.1 hlist).1
  have htail : list.tail = some f := by
    rw [hp.tail fl list hlist, hpath, List.getLast?_concat]
  have hhead : list.head ≠ none := by
    rw [hlinked.head?, hpath]
    simp
  obtain ⟨first, hfirst⟩ := Option.ne_none_iff_exists'.1 hhead
  obtain ⟨last, hlast⟩ := hp.frame_of_mem (f := f) hlist (by rw [hpath]; simp)
  have hflt := (List.getElem?_eq_some_iff.1 hlast).1
  refine ⟨{ frames := h.frames.set f { last with next := some f }
            lists := h.lists.set fl (ListRec.grow { list with
              tail := some f, count := (list.count + 1) % 2 ^ 32 } last.data.length) },
    { frames := (h.frames ++ [FrameRec.mk bytes none]).set f
        { last with next := some h.frames.length }
      lists := h.lists.set fl (ListRec.grow { ListRec.grow { list with
          tail := some f, count := (list.count + 1) % 2 ^ 32 } last.data.length with
        tail := some h.frames.length
        count := ((list.count + 1) % 2 ^ 32 + 1) % 2 ^ 32 } bytes.length) },
    ?_, List.length_set, ?_, ?_⟩
  · simp [cmqFrameAppend, hlist, hfirst, htail, hlast]
  · have hnew : (h.frames.set f { last with next := some f } ++
        [FrameRec.mk bytes none])[h.frames.length]? = some (FrameRec.mk bytes none) := by
      simp
    have hold : (h.frames.set f { last with next := some f } ++ [FrameRec.mk bytes none])[f]? =
        some { last with next := some f } := by
      rw [List.getElem?_append_left (by simpa using hflt), List.getElem?_set_self hflt]
    have hset : (h.frames.set f { last with next := some f } ++ [FrameRec.mk bytes none]).set f
        { last with next := some h.frames.length } =
        (h.frames ++ [FrameRec.mk bytes none]).set f
          { last with next := some h.frames.length } := by
      rw [List.set_append_left _ _ (by simpa using hflt), List.set_set,
        List.set_append_left _ _ hflt]
    simp [cmqFrameAppend, cmqFrameCreate, List.getElem?_set_self hfl, ListRec.grow_head,
      ListRec.grow_tail, ListRec.grow_count, hfirst, hold, hset]
  · have hnew : (h.frames ++ [FrameRec.mk bytes none])[h.frames.length]? =
        some (FrameRec.mk bytes none) := List.getElem?_concat_length
    have hold : (h.frames ++ [FrameRec.mk bytes none])[f]? = some last := by
      rw [List.getElem?_append_left hflt, hlast]
    simp only [cmqFrameAppend, cmqFrameCreate, hlist, hnew, hfirst, htail, hold] at happend
    cases happend
    refine ⟨rfl, _, _, List.getElem?_set_self hfl, List.getElem?_set_self hfl, ?_, ?_, ?_, ?_⟩ <;>
      simp [hfirst]

end Ahead

/-- The list without the second append: its frames, and as many as it counts. -/
structure Built (h : FrameHeap) (fl : Nat) (sent : List Bytes) (paths : Nat → List Nat) : Prop where
  linked : h.Paths paths
  data : (paths fl).map h.data = sent.map some
  list : ∃ list : ListRec, h.lists[fl]? = some list ∧ list.count = sent.length

theorem Paths.built_create (hp : h.Paths paths) :
    h.cmqFrameListCreate.2.Built h.lists.length [] (Function.update paths h.lists.length []) := by
  refine ⟨hp.listCreate, ?_, ⟨none, none, 0, 0⟩, List.getElem?_concat_length, rfl⟩
  rw [Function.update_self]
  rfl

theorem Built.appendFrames (hb : h.Built fl sent paths) (more : List Bytes)
    (hcount : sent.length + more.length < 2 ^ 32) (f : Option Nat) :
    ∃ f' h' new, h.appendFrames fl f more = .ok (f', h') ∧
      h'.Built fl (sent ++ more) (Function.update paths fl (paths fl ++ new)) ∧
      new.length = more.length ∧ f' = new.getLast?.or f := by
  obtain ⟨list, hlist, hlength⟩ := hb.list
  obtain ⟨f', h', new, happend, hgrown, hlast⟩ :=
    hb.linked.appendFrames hlist (by rw [hlength]; exact hcount) f
  obtain ⟨list', hlist', hcount'⟩ := hgrown.list
  refine ⟨f', h', new, happend, ⟨hgrown.paths, ?_, list', hlist', ?_⟩, ?_, hlast⟩
  · have hold : (paths fl).map h'.data = (paths fl).map h.data := by
      apply List.map_congr_left
      intro a ha
      exact (hgrown.kept a ((hb.linked.linked fl list hlist).isSome ha)).1
    rw [Function.update_self, List.map_append, List.map_append, hold, hb.data, hgrown.data]
  · rw [hcount', hlength, List.length_append]
  · simpa using congrArg List.length hgrown.data

theorem Built.shows (hb : h.Built fl sent paths) : h.Shows fl ⟨sent, sent.length⟩ := by
  obtain ⟨list, hlist, hlength⟩ := hb.list
  exact ⟨list, paths fl, hlist, hb.linked.linked fl list hlist, hb.data, hlength⟩

theorem Ahead.shows {h₁ h₂ : FrameHeap} (hahead : Ahead fl h₁ h₂) (hb : h₂.Built fl sent paths)
    (hcount : sent.length + 1 < 2 ^ 32) :
    h₁.Shows fl ⟨sent, sent.length + 1⟩ := by
  obtain ⟨hframes, l₁, l₂, hl₁, hl₂, hhead, -, -, hahead⟩ := hahead
  obtain ⟨list, hlist, hlength⟩ := hb.list
  rw [hl₂] at hlist
  cases hlist
  have hdata : h₁.data = h₂.data := by
    funext a
    rw [FrameHeap.data, FrameHeap.data, hframes]
  refine ⟨l₁, paths fl, hl₁, ?_, ?_, ?_⟩
  · rw [next_congr hframes, hhead]
    exact hb.linked.linked fl l₂ hl₂
  · rw [hdata]
    exact hb.data
  · rw [hahead, hlength]
    exact Nat.mod_eq_of_lt hcount

/-- A client sends the frames of the call under their number, unless it has appended one of them
twice: then the list counts a frame more than it has. -/
theorem Paths.buildRequest (hp : h.Paths paths) (call : Call) {header : List Bytes}
    (hheader : header ≠ []) (hargs : call.args ≠ [])
    (hcount : header.length + call.args.length + 1 < 2 ^ 32) :
    ∃ h', h.buildRequest call header = .ok (h.lists.length, h') ∧
      h'.Shows h.lists.length (call.frameList header) ∧
      (h'.WellFormed ↔ call.appendsTwice = false) := by
  obtain ⟨f, h₁, new, hfirst, hb₁, hlength, hlast⟩ :=
    hp.built_create.appendFrames header (by simp; omega) none
  rw [List.nil_append, Function.update_self, List.nil_append] at hb₁
  obtain ⟨f', h₂, new', hsecond, hb₂, -, -⟩ :=
    hb₁.appendFrames call.args (by omega) f
  cases htwice : call.appendsTwice with
  | false =>
    refine ⟨h₂, ?_, ?_, iff_of_true ⟨_, hb₂.linked⟩ rfl⟩
    · show (do
        let (f, h) ← h.cmqFrameListCreate.2.appendFrames h.lists.length none header
        _) = _
      simp only [hfirst, Exec.ok_bind, htwice, Bool.false_eq_true, if_false, hsecond]
      rfl
    · have hshows := hb₂.shows
      simpa [Call.frameList, htwice, FrameList.foldl_append, FrameList.empty] using hshows
  | true =>
    obtain ⟨list, hlist, -⟩ := hb₁.list
    obtain ⟨bytes, rest, hcons⟩ := List.exists_cons_of_ne_nil hargs
    rw [hcons, appendFrames_cons] at hsecond
    obtain ⟨next, hnext, hrest⟩ := Exec.bind_eq_ok.1 hsecond
    have hne : new ≠ [] := by
      rintro rfl
      exact hheader (List.length_eq_zero_iff.1 hlength.symm)
    obtain ⟨before, t, hnew⟩ := (List.eq_nil_or_concat new).resolve_left hne
    rw [List.concat_eq_append] at hnew
    have hf : f = some t := by
      rw [hlast, hnew, List.getLast?_concat]
      rfl
    obtain ⟨again, next', hagain, hsame, hnext', hahead⟩ :=
      hb₁.linked.append_again hlist (by rw [Function.update_self, hnew]) hnext
    obtain ⟨h₁', hrest', hahead'⟩ := hahead.appendFrames hrest
    refine ⟨h₁', ?_, ?_, iff_of_false (hahead'.not_wellFormed hb₂.linked) Bool.noConfusion⟩
    · show (do
        let (f, h) ← h.cmqFrameListCreate.2.appendFrames h.lists.length none header
        _) = _
      have hargs' : again.appendFrames h.lists.length (some t) call.args = .ok (f', h₁') := by
        rw [hcons, appendFrames_cons, hsame, hnext', Exec.ok_bind, hrest']
      simp only [hfirst, Exec.ok_bind, htwice, if_true, hf, hagain, hargs']
      rfl
    · have hshows := hahead'.shows hb₂ (by rw [List.length_append]; exact hcount)
      have hsent : call.frameList header =
          ⟨header ++ call.args, (header ++ call.args).length + 1⟩ := by
        simp [Call.frameList, htwice, FrameList.foldl_append, FrameList.empty,
          FrameList.appendAgain]
        omega
      rwa [hsent]

end Requests

/-! ## All lists -/

variable {call : Call} {woofName : Bytes}

theorem header_length {hmac : Hmac} {keychain : Keychain} {header : List Bytes}
    (hheader : call.header hmac keychain woofName = .ok (some header)) :
    header ≠ [] ∧ header.length ≤ 2 := by
  unfold Call.header at hheader
  split at hheader
  · rw [Except.ok.injEq, Option.map_eq_some_iff] at hheader
    obtain ⟨n, -, rfl⟩ := hheader
    exact ⟨List.cons_ne_nil _ _, by simp⟩
  · obtain ⟨cap, -, hcap⟩ := Exec.bind_eq_ok.1 hheader
    cases cap with
    | none => cases hcap
    | some cap =>
      cases hcap
      exact ⟨List.cons_ne_nil _ _, by simp⟩

theorem cmqCall_args {garbage : UInt64} {req : Request}
    (hcall : Transport.cmq.call garbage woofName req = some call) :
    call.args ≠ [] ∧ call.args.length ≤ 3 ∧
      (call.appendsTwice = false ↔ req.operation ≠ .getTail) := by
  cases req with
  | elSize | latestSeqno | earliestSeqno =>
    simp only [Transport.call, remoteGetElemSize, remoteGetLatestSeqNo, remoteGetEarliestSeqNo,
      remoteName] at hcall
    cases hcall
    simp [Request.operation]
  | put _ _ | get _ _ | getRange _ _ _ | getTail _ _ | create _ _ =>
    simp only [Transport.call, remotePut, remoteGet, remoteGetRange, Cmq.remoteGetTail,
      remoteCreate, Option.ite_none_left_eq_some, Option.some.injEq] at hcall
    rw [← hcall.2]
    simp [Request.operation]

theorem WellFormed.request {h : FrameHeap} (hwf : h.WellFormed) (hmac : Hmac) (keychain : Keychain)
    (garbage : UInt64) (woofName : Bytes) (req : Request) (header : List Bytes)
    (hcall : Transport.cmq.call garbage woofName req = some call)
    (hheader : call.header hmac keychain woofName = .ok (some header)) :
    ∃ fl h', h.buildRequest call header = .ok (fl, h') ∧ h'.Shows fl (call.frameList header) ∧
      (h'.WellFormed ↔ req.operation ≠ .getTail) := by
  obtain ⟨paths, hp⟩ := hwf
  obtain ⟨hne, hlength⟩ := header_length hheader
  obtain ⟨hargs, hargsLength, htwice⟩ := cmqCall_args hcall
  obtain ⟨h', hbuild, hshows, hiff⟩ := hp.buildRequest call hne hargs (by omega)
  exact ⟨_, h', hbuild, hshows, hiff.trans htwice⟩

/-- Lists stay well formed in exactly those runs in which only frames with a null link are
appended, and not too many of them; and the requests of clients are well formed when they are sent,
but for those that ask for a tail. -/
theorem frameLists_iff (ops : List FrameOp) (h : FrameHeap) (hmac : Hmac) (keychain : Keychain)
    (garbage : UInt64) (woofName : Bytes) (req : Request) (call : Call) (header : List Bytes) :
    (empty.AllowsAll ops → (empty.StaysWellFormed ops ↔ empty.AllDetached ops)) ∧
      (h.WellFormed → Transport.cmq.call garbage woofName req = some call →
        call.header hmac keychain woofName = .ok (some header) →
        ∃ fl h', h.buildRequest call header = .ok (fl, h') ∧
          h'.Shows fl (call.frameList header) ∧
          (h'.WellFormed ↔ req.operation ≠ .getTail)) := by
  constructor
  · intro hallows
    exact empty_wellFormed.stays_iff hallows
  · intro hwf hcall hheader
    exact hwf.request hmac keychain garbage woofName req header hcall hheader

/-- The only frame of a list moves to another one; and a client asks for an element size. -/
theorem frameLists_move_last :
    empty.StaysWellFormed [.listCreate true, .listCreate true, .frameCreate [1] true,
      .append 0 0, .pop 0, .append 1 0] ∧
      ∃ fl h', empty.buildRequest (remoteGetElemSize [97]) [textFrame (Decimal.ofNat 2)] =
          .ok (fl, h') ∧
        h'.Shows fl ((remoteGetElemSize [97]).frameList [textFrame (Decimal.ofNat 2)]) ∧
        h'.WellFormed := by
  have hempty : ∀ h : FrameHeap, h.lists.map ListRec.head = [none, none] → h.Loose 0 := by
    intro h hheads fl list path hlist hlinked
    have hhead : list.head = none := by
      have hmem := List.mem_map_of_mem (f := ListRec.head) (List.mem_of_getElem? hlist)
      rw [hheads] at hmem
      simpa using hmem
    rw [hhead] at hlinked
    cases path with
    | nil => exact List.not_mem_nil
    | cons a path => cases hlinked.1
  obtain ⟨hops, hrequest⟩ := frameLists_iff [.listCreate true, .listCreate true,
    .frameCreate [1] true, .append 0 0, .pop 0, .append 1 0] empty (fun _ _ => 0) (fun _ => none)
    0 [97] .elSize (remoteGetElemSize [97]) [textFrame (Decimal.ofNat 2)]
  constructor
  · refine (hops ?_).2 ?_
    · exact ⟨trivial, trivial, trivial, ⟨by decide, by decide, hempty _ rfl⟩, Nat.two_pos,
        ⟨by decide, by decide, hempty _ rfl⟩, trivial⟩
    · refine ⟨trivial, trivial, trivial, ⟨rfl, ?_⟩, trivial, ⟨rfl, ?_⟩, trivial⟩ <;>
        · intro list hlist
          cases hlist
          decide
  · obtain ⟨fl, h', hbuild, hshows, hiff⟩ := hrequest empty_wellFormed rfl rfl
    exact ⟨fl, h', hbuild, hshows, hiff.2 (by decide)⟩

/-- The first of two frames is popped and appended to another list, which then goes on to the
second frame; and the list of a request for a tail counts one frame more than it has. -/
theorem popped_frame_keeps_link :
    empty.AllowsAll [.listCreate true, .listCreate true, .frameCreate [1] true,
        .frameCreate [2] true, .append 0 0, .append 0 1, .pop 0, .append 1 0] ∧
      ¬ empty.StaysWellFormed [.listCreate true, .listCreate true, .frameCreate [1] true,
        .frameCreate [2] true, .append 0 0, .append 0 1, .pop 0, .append 1 0] ∧
      ∃ call fl h', Transport.cmq.call 0 [97] (.getTail 8 1) = some call ∧
        empty.buildRequest call [textFrame (Decimal.ofNat 4)] = .ok (fl, h') ∧
        h'.Shows fl ⟨[textFrame (Decimal.ofNat 4), textFrame [97], textFrame (Decimal.ofInt 1)],
          4⟩ ∧
        ¬ h'.WellFormed := by
  have hallows : empty.AllowsAll [.listCreate true, .listCreate true, .frameCreate [1] true,
      .frameCreate [2] true, .append 0 0, .append 0 1, .pop 0, .append 1 0] := by
    refine ⟨trivial, trivial, trivial, trivial, ⟨by decide, by decide, ?_⟩,
      ⟨by decide, by decide, ?_⟩, Nat.two_pos, ⟨by decide, by decide, ?_⟩, trivial⟩
    · intro fl list path hlist hlinked
      match fl with
      | 0 | 1 =>
        cases hlist
        rw [hlinked.unique (show Chain.Linked _ none [] from rfl)]
        exact List.not_mem_nil
    · intro fl list path hlist hlinked
      match fl with
      | 0 =>
        cases hlist
        rw [hlinked.unique (show Chain.Linked _ _ [0] from ⟨rfl, none, rfl, rfl⟩)]
        decide
      | 1 =>
        cases hlist
        rw [hlinked.unique (show Chain.Linked _ none [] from rfl)]
        exact List.not_mem_nil
    · intro fl list path hlist hlinked
      match fl with
      | 0 =>
        cases hlist
        rw [hlinked.unique (show Chain.Linked _ _ [1] from ⟨rfl, none, rfl, rfl⟩)]
        decide
      | 1 =>
        cases hlist
        rw [hlinked.unique (show Chain.Linked _ none [] from rfl)]
        exact List.not_mem_nil
  refine ⟨hallows, ?_, ?_⟩
  · rw [empty_wellFormed.stays_iff hallows]
    rintro ⟨-, -, -, -, -, -, -, ⟨hnext, -⟩, -⟩
    cases hnext
  · obtain ⟨fl, h', hbuild, hshows, hiff⟩ := empty_wellFormed.request (fun _ _ => 0)
      (fun _ => none) 0 [97] (.getTail 8 1) [textFrame (Decimal.ofNat 4)] rfl rfl
    exact ⟨_, fl, h', rfl, hbuild, hshows, fun hwf => hiff.1 hwf rfl⟩

end FrameHeap

end Cspot.CmqFrame
