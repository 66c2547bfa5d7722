import Cspot.Net.Numbers

/-!
# Replies to range requests

The servers of the two transports limit a reply in different ways, and each client counts
the elements in a reply by its length.  Together they deliver a run of elements, or as much
of it as the limit allows, under the conditions found here.
-/

namespace Cspot

/-! ## The elements of a run -/

variable {elements : List Bytes} {size n : Nat} {buf bytes : Bytes}

theorem length_flatten_of_forall (h : ∀ x ∈ elements, x.length = size) :
    elements.flatten.length = elements.length * size := by
  induction elements with
  | nil => simp
  | cons x rest ih =>
    have ih := ih fun y hy => h y (List.mem_cons_of_mem _ hy)
    rw [List.flatten_cons, List.length_append, ih, h x (by simp), List.length_cons,
      Nat.add_one_mul, Nat.add_comm]

theorem flatten_ne_nil_of_forall (h : ∀ x ∈ elements, x.length = size) (hsize : 1 ≤ size)
    (hne : elements ≠ []) :
    elements.flatten ≠ [] := by
  refine List.ne_nil_of_length_pos ?_
  rw [length_flatten_of_forall h]
  exact Nat.mul_pos (List.length_pos_of_ne_nil hne) hsize

theorem readRun_eq {wf : WooF} (hrest : wf.AtRest) {seqNo count : Nat} {run : List Bytes}
    (hrun : IsRun wf.elementAt seqNo count run) (hlt : seqNo + count < Word.modulus) :
    readRun wf seqNo count = .ok (run, wf) := by
  induction count generalizing seqNo run with
  | zero =>
    cases hrun.eq_nil
    rfl
  | succ count ih =>
    rcases hrun.succ_cases with ⟨rfl, hnone⟩ | ⟨x, rest, rfl, hsome, hrun⟩
    · simp [readRun, hrest.wooFReadWithCause_eq, hnone]
    · have hnext : Word.add seqNo 1 = seqNo + 1 := Word.add_of_lt (by omega)
      simp [readRun, hrest.wooFReadWithCause_eq, hsome, hnext, ih hrun (by omega)]

theorem toUlong_mul (count size : Nat) :
    toUlong ((count : Int) * size) = count * size % Word.modulus := by
  rw [← Int.natCast_mul, toUlong_natCast]

theorem toUlong_succ_mul (count size : Nat) :
    toUlong (((count : Int) + 1) * size) = (count + 1) * size % Word.modulus :=
  toUlong_mul (count + 1) size

/-! ## What has to be delivered -/

def Delivers (elements : List Bytes) (result : Exec (Int × Bytes)) : Prop :=
  ∃ ret buf, result = .ok (ret, buf) ∧ ret.toNat = elements.length ∧ elements.flatten <+: buf

theorem not_delivers_error {s : Stop} : ¬ Delivers elements (.error s) := by
  rintro ⟨ret, buf, h, -⟩
  cases h

theorem delivers_nonpos_iff {ret : Int} (hret : ret ≤ 0) :
    Delivers elements (.ok (ret, buf)) ↔ elements = [] := by
  constructor
  · rintro ⟨_, _, h, hlen, -⟩
    cases h
    exact List.eq_nil_of_length_eq_zero (by omega)
  · rintro rfl
    exact ⟨ret, buf, rfl, by simp; omega, List.nil_prefix⟩

theorem delivers_ok_iff :
    Delivers elements (.ok ((n : Int), buf)) ↔
      elements.length = n ∧ elements.flatten <+: buf := by
  constructor
  · rintro ⟨_, _, h, hlen, hprefix⟩
    cases h
    exact ⟨hlen.symm.trans (Int.toNat_natCast n), hprefix⟩
  · rintro ⟨rfl, hprefix⟩
    exact ⟨_, _, rfl, Int.toNat_natCast _, hprefix⟩

def Transport.maxTransfer : Transport → Nat
  | .zmq => Zmq.maxTransfer
  | .cmq => Cmq.maxTransfer

/-- The whole run, or as many whole elements as the limit allows. -/
def withinLimit (limit size : Nat) (run : List Bytes) : List Bytes :=
  if run.length * size ≤ limit then run else run.take (limit / size)

theorem withinLimit_eq_nil_iff (hsize : 1 ≤ size) (limit : Nat) (run : List Bytes) :
    withinLimit limit size run = [] ↔ run = [] ∨ limit < size := by
  unfold withinLimit
  split
  · refine ⟨Or.inl, ?_⟩
    rintro (rfl | hlt)
    · rfl
    · by_contra hne
      have := Nat.mul_le_mul_right size (List.length_pos_of_ne_nil hne)
      omega
  · rw [List.take_eq_nil_iff, Nat.div_eq_zero_iff]
    constructor
    · rintro ((h | h) | h)
      · omega
      · exact Or.inr h
      · exact Or.inl h
    · rintro (h | h)
      · exact Or.inr h
      · exact Or.inl (Or.inr h)

/-! ## The buffer of the ZeroMQ server -/

theorem length_zeroPad (h : bytes.length ≤ size) : (zeroPad size bytes).length = size := by
  rw [zeroPad, List.length_append, List.length_replicate]
  omega

theorem zeroPad_ne_nil (h : bytes ≠ []) (size : Nat) : zeroPad size bytes ≠ [] :=
  List.append_ne_nil_of_left_ne_nil h _

/-- When the zeros behind a single element pass for the rest of the run. -/
theorem prefix_zeroPad_iff {x : Bytes} {rest : List Bytes}
    (hall : ∀ y ∈ x :: rest, y.length = size) :
    (x :: rest).flatten <+: zeroPad ((rest.length + 1) * size) x ↔
      ∀ y ∈ rest, ∀ b ∈ y, b = 0 := by
  have hx : x.length = size := hall x (by simp)
  have hlen : rest.flatten.length = rest.length * size :=
    length_flatten_of_forall fun y hy => hall y (List.mem_cons_of_mem _ hy)
  rw [List.flatten_cons, zeroPad, hx, List.prefix_append_right_inj, Nat.succ_mul,
    Nat.add_sub_cancel, List.prefix_replicate_iff, List.eq_replicate_iff, hlen]
  simp only [Nat.le_refl, true_and, List.mem_flatten, forall_exists_index, and_imp]
  exact ⟨fun h y hy b hb => h b y hy hb, fun h b y hy hb => h y hy b hb⟩

theorem toNat_mul_uint32 (size : Nat) (count : UInt32) :
    (UInt32.ofNat size * count).toNat = count.toNat * size % 2 ^ 32 := by
  rw [UInt32.toNat_mul, UInt32.toNat_ofNat', Nat.mod_mul_mod, Nat.mul_comm]

theorem ofNat_size_ne_zero (hpos : 1 ≤ size) (h : size < 2 ^ 32) : UInt32.ofNat size ≠ 0 := by
  intro hzero
  have hnat := congrArg UInt32.toNat hzero
  rw [toNat_ofNat_size h, UInt32.toNat_zero] at hnat
  omega

theorem tdiv_toInt32 (hn : 1 ≤ n) (hsize : 1 ≤ size) (h : n * size < 2 ^ 31) :
    (Word.toInt32 (n * size)).tdiv (Word.toInt32 size) = (n : Int) := by
  have hle : size ≤ n * size := Nat.le_mul_of_pos_left _ hn
  rw [Word.toInt32_of_lt h, Word.toInt32_of_lt (by omega), ← Int.ofNat_tdiv,
    Nat.mul_div_cancel _ hsize]

theorem Word.toInt32_of_ge (hge : 2 ^ 31 ≤ n) (hlt : n < 2 ^ 32) :
    Word.toInt32 n = (n : Int) - 2 ^ 32 := by
  unfold Word.toInt32
  split <;> omega

theorem tdiv_toInt32_nonpos (hge : 2 ^ 31 ≤ n) (hlt : n < 2 ^ 32) (hsize : size < 2 ^ 31) :
    (Word.toInt32 n).tdiv (Word.toInt32 size) ≤ 0 := by
  have hneg := Word.toInt32_of_ge hge hlt
  have hopp : 0 ≤ (-Word.toInt32 n).tdiv (Word.toInt32 size) :=
    Int.tdiv_nonneg (by omega) (by rw [Word.toInt32_of_lt hsize]; omega)
  rw [Int.neg_tdiv] at hopp
  omega

namespace Zmq

theorem rangeReply_nil (elemSize count : UInt32) :
    rangeReply elemSize count (some [[]]) = .ok (-1, []) := by
  simp [rangeReply]

variable {elemSize count : UInt32} {vec : Bytes}

theorem rangeReply_long (h : (elemSize * count).toNat < vec.length) :
    rangeReply elemSize count (some [vec]) = .ok (-1, []) := by
  rw [rangeReply, if_pos h]

theorem rangeReply_fits (hne : vec ≠ []) (hsize : elemSize ≠ 0)
    (h : vec.length ≤ (elemSize * count).toNat) :
    rangeReply elemSize count (some [vec]) =
      .ok ((Word.toInt32 vec.length).tdiv (Word.toInt32 elemSize.toNat), vec) := by
  have hlen : vec.length ≠ 0 := by simpa using hne
  rw [rangeReply, if_neg (by omega), if_neg hlen, if_neg hsize]

section ReplyRange

variable {srv : Server} {name : Bytes} {wf : WooF} {seqNo : Nat} {count : Nat}
  {run : List Bytes}

theorem answer_replyRange_alloc (h : srv.maxAlloc < count * wf.elementSize % Word.modulus) :
    (replyRange srv seqNo count (some (name, wf))).answer = .error .exception := by
  simp [replyRange, toUlong_mul, h]

variable (hrest : wf.AtRest) (hcount : 1 ≤ count)
  (hrun : IsRun wf.elementAt seqNo count run) (hlt : seqNo + count < Word.modulus)
  (halloc : count * wf.elementSize % Word.modulus ≤ srv.maxAlloc)

include hrest hcount hrun hlt halloc

/-- Past the limit one element is read, and the buffer goes out in its full size. -/
theorem answer_replyRange_cut
    (hcut : maxTransfer ≤ (count + 1) * wf.elementSize % Word.modulus) :
    (replyRange srv seqNo count (some (name, wf))).answer =
      if (run.take 1).flatten.length > count * wf.elementSize % Word.modulus then
        .error .outOfBounds
      else .ok (some [if run = [] then []
        else zeroPad (count * wf.elementSize % Word.modulus) (run.take 1).flatten],
        srv.store name wf) := by
  have hone : min 1 (Int.toNat count) = 1 := by simp; omega
  have hread := readRun_eq hrest (hrun.take hcount) (show seqNo + 1 < Word.modulus by omega)
  have halloc' : ¬ count * wf.elementSize % Word.modulus > srv.maxAlloc := by omega
  have hnil : run.take 1 = [] ↔ run = [] := by simp
  simp only [replyRange, toUlong_mul, toUlong_succ_mul, if_neg halloc', hcut, decide_true,
    if_true, hone, hread, Exec.serve_ok, hnil, Nat.one_ne_zero, if_false, Outcome.answer_access]
  split <;> rfl

theorem answer_replyRange_whole
    (hwhole : (count + 1) * wf.elementSize % Word.modulus < maxTransfer) :
    (replyRange srv seqNo count (some (name, wf))).answer =
      if run.flatten.length > count * wf.elementSize % Word.modulus then .error .outOfBounds
      else .ok (some [run.flatten], srv.store name wf) := by
  have hread := readRun_eq hrest hrun hlt
  have halloc' : ¬ count * wf.elementSize % Word.modulus > srv.maxAlloc := by omega
  have hwhole' : ¬ maxTransfer ≤ (count + 1) * wf.elementSize % Word.modulus := Nat.not_le.2 hwhole
  have hzero : count ≠ 0 := by omega
  have hframe : (if run = [] then [] else run.flatten) = run.flatten := by
    split
    · rename_i h
      simp [h]
    · rfl
  simp only [replyRange, toUlong_mul, toUlong_succ_mul, if_neg halloc', hwhole', decide_false,
    Bool.false_eq_true, if_false, Int.toNat_natCast, hread, Exec.serve_ok, hzero, hframe,
    Outcome.answer_access]
  split <;> rfl

end ReplyRange

/-- When a range request is answered rightly: the whole range stays under the limit, or
what is missing happens not to show. -/
def RangeShown (size count : Nat) (run : List Bytes) : Prop :=
  run = [] ∨ (count + 1) * size < maxTransfer ∨
    run.length = count ∧ count * size ≤ maxTransfer ∧ (∀ x ∈ run.tail, ∀ b ∈ x, b = 0) ∨
    maxTransfer < size ∧ 2 ^ 31 ≤ count * size ∧ ¬ (count = 1 ∧ size < 2 ^ 32) ∧
      (if maxTransfer ≤ (count + 1) * size % Word.modulus then size else run.length * size) ≤
        count * size % Word.modulus

def RangeSafe (maxAlloc size count : Nat) (run : List Bytes) : Prop :=
  count * size % Word.modulus ≤ maxAlloc ∧ RangeShown size count run

section Delivered

variable {size count : Nat} {run : List Bytes} {x : Bytes} {rest : List Bytes}

theorem delivers_padded_iff (hsize : 1 ≤ size) (hall : ∀ y ∈ x :: rest, y.length = size)
    (hlen : rest.length + 1 ≤ count) :
    Delivers (withinLimit maxTransfer size (x :: rest))
        (.ok ((count : Int), zeroPad (count * size) x)) ↔
      rest.length + 1 = count ∧ count * size ≤ maxTransfer ∧ ∀ y ∈ rest, ∀ b ∈ y, b = 0 := by
  rw [delivers_ok_iff, withinLimit, List.length_cons]
  by_cases hle : (rest.length + 1) * size ≤ maxTransfer
  · rw [if_pos hle, List.length_cons]
    constructor
    · rintro ⟨rfl, hprefix⟩
      exact ⟨rfl, hle, (prefix_zeroPad_iff hall).1 hprefix⟩
    · rintro ⟨rfl, -, hzero⟩
      exact ⟨rfl, (prefix_zeroPad_iff hall).2 hzero⟩
  · rw [if_neg hle, List.length_take, List.length_cons]
    have hfew : maxTransfer / size < rest.length + 1 :=
      (Nat.div_lt_iff_lt_mul hsize).2 (Nat.lt_of_not_le hle)
    constructor
    · rintro ⟨h, -⟩
      omega
    · rintro ⟨rfl, h, -⟩
      exact absurd h hle

theorem delivers_negative_iff (hge : 2 ^ 31 ≤ count * size) (hlt : count * size < 2 ^ 32)
    (hnil : elements = [] ↔ maxTransfer < size) :
    Delivers elements
        (.ok ((Word.toInt32 (count * size)).tdiv (Word.toInt32 size), buf)) ↔
      maxTransfer < size ∧ count ≠ 1 := by
  have hlimit : maxTransfer = 67108864 := rfl
  by_cases hbig : size < 2 ^ 31
  · have htwo : count ≠ 1 := by
      rintro rfl
      omega
    rw [delivers_nonpos_iff (tdiv_toInt32_nonpos hge hlt hbig), hnil, and_iff_left htwo]
  · have hone : count = 1 := by
      by_contra h
      have htwo : 2 ≤ count := by
        rcases Nat.eq_zero_or_pos count with rfl | hpos <;> omega
      have := Nat.mul_le_mul_right size htwo
      omega
    subst hone
    rw [Nat.one_mul] at hge hlt ⊢
    have hneg := Word.toInt32_of_ge hge hlt
    have hret : (Word.toInt32 size).tdiv (Word.toInt32 size) = ((1 : Nat) : Int) :=
      Int.tdiv_self (by omega)
    rw [hret, delivers_ok_iff, hnil.2 (by omega)]
    exact iff_of_false (by simp) (by simp)

theorem delivers_cut_iff {count : UInt32} (hsize : 1 ≤ size) (hcount : count.toNat < 2 ^ 31)
    (hlen : rest.length + 1 ≤ count.toNat) (hall : ∀ y ∈ x :: rest, y.length = size)
    (hfits : size ≤ count.toNat * size % Word.modulus) :
    Delivers (withinLimit maxTransfer size (x :: rest))
        (rangeReply (UInt32.ofNat size) count
          (some [zeroPad (count.toNat * size % Word.modulus) x])) ↔
      rest.length + 1 = count.toNat ∧ count.toNat * size ≤ maxTransfer ∧
          (∀ y ∈ rest, ∀ b ∈ y, b = 0) ∨
        maxTransfer < size ∧ 2 ^ 31 ≤ count.toNat * size ∧
          ¬ (count.toNat = 1 ∧ size < 2 ^ 32) := by
  have hx : x.length = size := hall x (by simp)
  have hvec : (zeroPad (count.toNat * size % Word.modulus) x).length =
      count.toNat * size % Word.modulus := length_zeroPad (hx ▸ hfits)
  have hnil : withinLimit maxTransfer size (x :: rest) = [] ↔ maxTransfer < size := by
    simp [withinLimit_eq_nil_iff hsize]
  have hmul := toNat_mul_uint32 size count
  have hlimit : maxTransfer = 67108864 := rfl
  by_cases hlong : 2 ^ 32 ≤ count.toNat * size % Word.modulus
  · -- more bytes than the 32-bit product of size and count
    rw [rangeReply_long (by rw [hmul, hvec]; omega), delivers_nonpos_iff (by decide), hnil]
    have hone : count.toNat = 1 → count.toNat * size = size := fun h => by rw [h, Nat.one_mul]
    unfold Word.modulus at hlong
    constructor
    · intro h
      refine Or.inr ⟨h, by omega, fun ⟨h1, h2⟩ => ?_⟩
      omega
    · rintro (⟨-, h, -⟩ | ⟨h, -⟩)
      · omega
      · exact h
  · have hsmall : size < 2 ^ 32 := by omega
    have hprod : count.toNat * size ≤ (2 ^ 31 - 1) * (2 ^ 32 - 1) :=
      Nat.mul_le_mul (by omega) (by omega)
    have hwrap : count.toNat * size % Word.modulus = count.toNat * size :=
      Nat.mod_eq_of_lt (by unfold Word.modulus; omega)
    rw [hwrap] at hlong hvec ⊢
    have hne : zeroPad (count.toNat * size) x ≠ [] :=
      zeroPad_ne_nil (List.ne_nil_of_length_pos (by omega)) _
    rw [rangeReply_fits hne (ofNat_size_ne_zero hsize hsmall) (by rw [hmul, hvec]; omega), hvec,
      toNat_ofNat_size hsmall]
    by_cases hpos : count.toNat * size < 2 ^ 31
    · rw [tdiv_toInt32 (by omega) hsize hpos, delivers_padded_iff hsize hall hlen]
      constructor
      · exact Or.inl
      · rintro (h | ⟨-, h, -⟩)
        · exact h
        · omega
    · rw [delivers_negative_iff (Nat.not_lt.1 hpos) (Nat.not_le.1 hlong) hnil]
      constructor
      · rintro ⟨h, hone⟩
        exact Or.inr ⟨h, Nat.not_lt.1 hpos, fun h => hone h.1⟩
      · rintro (⟨-, h, -⟩ | ⟨h, -, hnot⟩)
        · omega
        · exact ⟨h, fun hone => hnot ⟨hone, hsmall⟩⟩

end Delivered

/-- What the client makes of the answer to a range request is the run within the limit. -/
def RangeDelivered (srv : Server) (name : Bytes) (wf : WooF) (seqNo : Nat) (count : UInt32)
    (run : List Bytes) : Prop :=
  Delivers (withinLimit maxTransfer wf.elementSize run)
    ((replyRange srv seqNo count.toNat (some (name, wf))).answer >>= fun p =>
      rangeReply (UInt32.ofNat wf.elementSize) count p.1)

section Range

variable {srv : Server} {name : Bytes} {wf : WooF} {seqNo : Nat} {count : UInt32}
  {run : List Bytes} (hrest : wf.AtRest) (hsize : 1 ≤ wf.elementSize)
  (hpos : 1 ≤ count.toNat) (hcount : count.toNat < 2 ^ 31)
  (hrun : IsRun wf.elementAt seqNo count.toNat run)

include hrest hrun

theorem length_of_mem_run : ∀ x ∈ run, x.length = wf.elementSize := by
  intro x hx
  obtain ⟨n, hn⟩ := hrun.mem hx
  exact hrest.length_of_elementAt hn

variable (hlt : seqNo + count.toNat < Word.modulus)
  (halloc : count.toNat * wf.elementSize % Word.modulus ≤ srv.maxAlloc)

include hsize hpos hcount hlt halloc

theorem delivers_replyRange_cut_iff
    (hcut : maxTransfer ≤ (count.toNat + 1) * wf.elementSize % Word.modulus) :
    RangeDelivered srv name wf seqNo count run ↔ RangeShown wf.elementSize count.toNat run := by
  have hall := length_of_mem_run hrest hrun
  have hlen := hrun.length_le
  have hnot : ¬ (count.toNat + 1) * wf.elementSize < maxTransfer := by
    have := Nat.mod_le ((count.toNat + 1) * wf.elementSize) Word.modulus
    omega
  rw [RangeDelivered, answer_replyRange_cut hrest hpos hrun hlt halloc hcut]
  simp only [RangeShown, if_pos hcut, hnot, false_or]
  cases run with
  | nil => simp [rangeReply_nil, delivers_nonpos_iff, withinLimit]
  | cons x rest =>
    have hx : x.length = wf.elementSize := hall x (by simp)
    have hone : ((x :: rest).take 1).flatten = x := by simp
    simp only [hone, hx, List.cons_ne_nil, if_false, false_or, List.tail_cons, List.length_cons]
    by_cases hfits : wf.elementSize ≤ count.toNat * wf.elementSize % Word.modulus
    · rw [if_neg (Nat.not_lt.2 hfits), Exec.ok_bind,
        delivers_cut_iff hsize hcount hlen hall hfits]
      simp [hfits]
    · rw [if_pos (Nat.lt_of_not_le hfits), Exec.error_bind]
      refine iff_of_false not_delivers_error ?_
      rintro (⟨-, hle, -⟩ | ⟨-, -, -, h⟩)
      · -- a product under the limit has not wrapped
        have hmod : count.toNat * wf.elementSize % Word.modulus = count.toNat * wf.elementSize :=
          Nat.mod_eq_of_lt (Nat.lt_of_le_of_lt hle (by decide))
        rw [hmod] at hfits
        exact hfits (Nat.le_mul_of_pos_left _ hpos)
      · exact hfits h

omit hcount in
theorem delivers_replyRange_under (hne : run ≠ [])
    (hunder : (count.toNat + 1) * wf.elementSize < maxTransfer) :
    RangeDelivered srv name wf seqNo count run := by
  have hflat := length_flatten_of_forall (length_of_mem_run hrest hrun)
  have hlimit : maxTransfer = 67108864 := rfl
  have hpart : run.length * wf.elementSize ≤ count.toNat * wf.elementSize :=
    Nat.mul_le_mul_right _ hrun.length_le
  have hnext : (count.toNat + 1) * wf.elementSize = count.toNat * wf.elementSize + wf.elementSize :=
    Nat.succ_mul _ _
  have hmod : count.toNat * wf.elementSize % Word.modulus = count.toNat * wf.elementSize :=
    Nat.mod_eq_of_lt (by unfold Word.modulus; omega)
  have hwhole : (count.toNat + 1) * wf.elementSize % Word.modulus < maxTransfer :=
    Nat.lt_of_le_of_lt (Nat.mod_le _ _) hunder
  have hrun' : withinLimit maxTransfer wf.elementSize run = run := if_pos (by omega)
  have hfilled := flatten_ne_nil_of_forall (length_of_mem_run hrest hrun) hsize hne
  rw [RangeDelivered, answer_replyRange_whole hrest hpos hrun hlt halloc hwhole, hflat, hmod,
    if_neg (Nat.not_lt.2 hpart), Exec.ok_bind,
    rangeReply_fits hfilled (ofNat_size_ne_zero hsize (by omega))
      (by rw [toNat_mul_uint32, hflat]; omega),
    hflat, toNat_ofNat_size (by omega),
    tdiv_toInt32 (List.length_pos_of_ne_nil hne) hsize (by omega), hrun', delivers_ok_iff]
  exact ⟨rfl, List.prefix_refl _⟩

theorem delivers_replyRange_wrapped_iff (hne : run ≠ [])
    (hwrapped : Word.modulus ≤ (count.toNat + 1) * wf.elementSize)
    (hwhole : (count.toNat + 1) * wf.elementSize % Word.modulus < maxTransfer) :
    RangeDelivered srv name wf seqNo count run ↔
      run.length * wf.elementSize ≤ count.toNat * wf.elementSize % Word.modulus := by
  have hflat := length_flatten_of_forall (length_of_mem_run hrest hrun)
  have hlimit : maxTransfer = 67108864 := rfl
  have hbound : (count.toNat + 1) * wf.elementSize ≤ 2 ^ 31 * wf.elementSize :=
    Nat.mul_le_mul_right _ hcount
  have hhuge : 2 ^ 33 ≤ wf.elementSize := by
    unfold Word.modulus at hwrapped
    omega
  have hfirst : wf.elementSize ≤ run.length * wf.elementSize :=
    Nat.le_mul_of_pos_left _ (List.length_pos_of_ne_nil hne)
  rw [RangeDelivered, answer_replyRange_whole hrest hpos hrun hlt halloc hwhole, hflat]
  by_cases hfits : run.length * wf.elementSize ≤ count.toNat * wf.elementSize % Word.modulus
  · rw [if_neg (Nat.not_lt.2 hfits), Exec.ok_bind,
      rangeReply_long (by rw [toNat_mul_uint32, hflat]; omega),
      delivers_nonpos_iff (by decide), withinLimit_eq_nil_iff hsize]
    exact iff_of_true (Or.inr (by omega)) hfits
  · rw [if_pos (Nat.lt_of_not_le hfits), Exec.error_bind]
    exact iff_of_false not_delivers_error hfits

theorem delivers_replyRange_whole_iff
    (hwhole : (count.toNat + 1) * wf.elementSize % Word.modulus < maxTransfer) :
    RangeDelivered srv name wf seqNo count run ↔ RangeShown wf.elementSize count.toNat run := by
  by_cases hnil : run = []
  · rw [RangeDelivered, answer_replyRange_whole hrest hpos hrun hlt halloc hwhole]
    simp [hnil, rangeReply_nil, delivers_nonpos_iff, withinLimit, RangeShown]
  by_cases hsum : (count.toNat + 1) * wf.elementSize < Word.modulus
  · rw [Nat.mod_eq_of_lt hsum] at hwhole
    exact iff_of_true
      (delivers_replyRange_under hrest hsize hpos hrun hlt halloc hnil hwhole)
      (Or.inr (Or.inl hwhole))
  · rw [delivers_replyRange_wrapped_iff hrest hsize hpos hcount hrun hlt halloc hnil
      (Nat.not_lt.1 hsum) hwhole]
    have hlimit : maxTransfer = 67108864 := rfl
    have hbound : (count.toNat + 1) * wf.elementSize ≤ 2 ^ 31 * wf.elementSize :=
      Nat.mul_le_mul_right _ hcount
    have hle : wf.elementSize ≤ count.toNat * wf.elementSize := Nat.le_mul_of_pos_left _ hpos
    unfold Word.modulus at hsum
    simp only [RangeShown, if_neg (Nat.not_le.2 hwhole)]
    constructor
    · exact fun h => Or.inr (Or.inr (Or.inr ⟨by omega, by omega, by omega, h⟩))
    · rintro (h | h | ⟨-, h, -⟩ | ⟨-, -, -, h⟩)
      · exact absurd h hnil
      · omega
      · omega
      · exact h

omit halloc in
theorem delivers_replyRange_iff :
    RangeDelivered srv name wf seqNo count run ↔
      RangeSafe srv.maxAlloc wf.elementSize count.toNat run := by
  unfold RangeSafe
  by_cases halloc : count.toNat * wf.elementSize % Word.modulus ≤ srv.maxAlloc
  · rw [and_iff_right halloc]
    by_cases hcut : maxTransfer ≤ (count.toNat + 1) * wf.elementSize % Word.modulus
    · exact delivers_replyRange_cut_iff hrest hsize hpos hcount hrun hlt halloc hcut
    · exact delivers_replyRange_whole_iff hrest hsize hpos hcount hrun hlt halloc
        (Nat.lt_of_not_le hcut)
  · rw [RangeDelivered, answer_replyRange_alloc (Nat.lt_of_not_le halloc), Exec.error_bind]
    exact iff_of_false not_delivers_error fun h => halloc h.1

end Range

end Zmq

/-! ## The buffer of the CMQ server -/

namespace Cmq

def RangeSafe (size count : Nat) (run : List Bytes) : Prop :=
  run.length * size ≤ maxTransfer ∨ count * size % Word.modulus = 0

/-- The loop runs over the end of a buffer that was cut at the limit. -/
theorem delivers_replyRange_iff {srv : Server} {name : Bytes} {wf : WooF} {seqNo : Nat}
    {elemSize count : UInt32} {run : List Bytes} (hrest : wf.AtRest) (hsize : 1 ≤ wf.elementSize)
    (helem : wf.elementSize ≤ maxTransfer → elemSize = UInt32.ofNat wf.elementSize)
    (hpos : 1 ≤ count.toNat) (hcount : count.toNat < 2 ^ 31)
    (hrun : IsRun wf.elementAt seqNo count.toNat run)
    (hlt : seqNo + count.toNat < Word.modulus) :
    Delivers (withinLimit maxTransfer wf.elementSize run)
        ((replyRange srv seqNo count.toNat (some (name, wf))).answer >>= fun p =>
          rangeReply elemSize p.1) ↔
      RangeSafe wf.elementSize count.toNat run := by
  have hflat := length_flatten_of_forall (Zmq.length_of_mem_run hrest hrun)
  have hlimit : maxTransfer = 67108864 := rfl
  have hpart : run.length * wf.elementSize ≤ count.toNat * wf.elementSize :=
    Nat.mul_le_mul_right _ hrun.length_le
  have hle : wf.elementSize ≤ count.toNat * wf.elementSize := Nat.le_mul_of_pos_left _ hpos
  have hbound : count.toNat * wf.elementSize ≤ 2 ^ 31 * wf.elementSize :=
    Nat.mul_le_mul_right _ (by omega)
  simp only [replyRange, RangeSafe, readRun_eq hrest hrun hlt, Exec.serve_ok, hflat]
  by_cases hzero : count.toNat * wf.elementSize % Word.modulus = 0
  · -- only a product that wraps is zero here
    have hhuge : maxTransfer < wf.elementSize := by
      unfold Word.modulus at hzero
      omega
    rw [if_pos (by omega)]
    simp only [Outcome.answer_reply, Exec.ok_bind, sendNull, rangeReply, if_true]
    rw [delivers_nonpos_iff (by decide), withinLimit_eq_nil_iff hsize]
    exact iff_of_true (Or.inr hhuge) (Or.inr hzero)
  · rw [if_neg (by omega), Outcome.answer_access]
    by_cases hfits : run.length * wf.elementSize ≤ maxTransfer
    · rw [iff_true_right (Or.inl hfits)]
      by_cases hnil : run = []
      · simp [hnil, rangeReply, delivers_nonpos_iff, withinLimit]
      have hfirst : wf.elementSize ≤ run.length * wf.elementSize :=
        Nat.le_mul_of_pos_left _ (List.length_pos_of_ne_nil hnil)
      have hwhole : count.toNat * wf.elementSize % Word.modulus = count.toNat * wf.elementSize :=
        Nat.mod_eq_of_lt (by unfold Word.modulus; omega)
      have hne := flatten_ne_nil_of_forall (Zmq.length_of_mem_run hrest hrun) hsize hnil
      rw [if_neg (by omega), Outcome.answer_reply, Exec.ok_bind, rangeReply, if_neg hne,
        helem (by omega), if_neg (ofNat_size_ne_zero hsize (by omega)), hflat,
        toNat_ofNat_size (by omega),
        tdiv_toInt32 (List.length_pos_of_ne_nil hnil) hsize (by omega), withinLimit,
        if_pos hfits, delivers_ok_iff]
      exact ⟨rfl, List.prefix_refl _⟩
    · rw [if_pos (by omega), Outcome.answer_halt, Exec.error_bind]
      exact iff_of_false not_delivers_error (by simp [hfits, hzero])

end Cmq

end Cspot
