import Cspot.Dht.Lookup
import Cspot.Lib.Decimal
import Mathlib.Data.Nat.Digits.Defs

/-!
# Repairing the fingers

`d_fix_finger` goes on where the last answer left off.  A finger whose place lies in front of
the previous finger is the previous finger; for the first one that does not, the handler asks
for the successor of its place.
-/

namespace Cspot.Dht

open Circle

/-! ## The place of a finger -/

def hashBytes (hash : Hash) : List UInt8 :=
  ((List.range 20).map fun k => UInt8.ofNat (hash.toNat / 256 ^ k)).reverse

def ofHashBytes (bytes : List UInt8) : Hash :=
  BitVec.ofNat 160 (Nat.ofDigits 256 (bytes.reverse.map UInt8.toNat))

/-- The loop of `get_finger_id`, which goes from the last byte to the first; `k` bytes are
done. -/
def fingerBytes (shift : Nat) : (carry : UInt8) → (k : Nat) → List UInt8 → List UInt8
  | _, _, [] => []
  | carry, k, n :: ns =>
    let dst := if shift / 8 = k then carry + UInt8.ofNat (1 <<< (shift % 8)) else carry
    (dst + n) :: fingerBytes shift (if 256 - dst.toNat ≤ n.toNat then 1 else 0) (k + 1) ns

def getFingerId (n : List UInt8) (i : Nat) : List UInt8 :=
  (fingerBytes (i - 1) 0 0 n.reverse).reverse

theorem ofDigits_hashBytes (n m : Nat) :
    Nat.ofDigits 256 ((List.range m).map fun k => (UInt8.ofNat (n / 256 ^ k)).toNat) =
      n % 256 ^ m := by
  induction m with
  | zero => simp [Nat.mod_one]
  | succ m ih =>
    have hbyte : (UInt8.ofNat (n / 256 ^ m)).toNat = n / 256 ^ m % 256 := UInt8.toNat_ofNat'
    rw [List.range_succ, List.map_append, Nat.ofDigits_append, ih, List.map_singleton,
      Nat.ofDigits_singleton, List.length_map, List.length_range, hbyte,
      Nat.pow_succ (256 : Nat) m, Nat.mod_mul]

theorem ofHashBytes_hashBytes (hash : Hash) : ofHashBytes (hashBytes hash) = hash := by
  rw [ofHashBytes, hashBytes, List.reverse_reverse, List.map_map]
  have hvalue := ofDigits_hashBytes hash.toNat 20
  rw [Nat.mod_eq_of_lt (by omega)] at hvalue
  rw [show (UInt8.toNat ∘ fun k => UInt8.ofNat (hash.toNat / 256 ^ k)) =
    fun k => (UInt8.ofNat (hash.toNat / 256 ^ k)).toNat from rfl, hvalue]
  exact BitVec.ofNat_toNat 160 hash ▸ BitVec.setWidth_eq hash

theorem byte_sum (dst n : UInt8) :
    (dst + n).toNat + 256 * (if 256 - dst.toNat ≤ n.toNat then (1 : UInt8) else 0).toNat =
      dst.toNat + n.toNat := by
  have hdst := dst.toNat_lt
  have hn := n.toNat_lt
  rw [UInt8.toNat_add]
  split
  · have : (1 : UInt8).toNat = 1 := rfl
    omega
  · have : (0 : UInt8).toNat = 0 := rfl
    omega

/-- The loop adds the bit to the number that the bytes spell and drops what is carried out of the
first byte. -/
theorem ofDigits_fingerBytes (shift : Nat) (carry : UInt8) (hcarry : carry.toNat ≤ 1) (k : Nat)
    (ns : List UInt8) :
    Nat.ofDigits 256 ((fingerBytes shift carry k ns).map UInt8.toNat) =
      (Nat.ofDigits 256 (ns.map UInt8.toNat) + carry.toNat +
        if k ≤ shift / 8 then 2 ^ (shift - 8 * k) else 0) % 256 ^ ns.length := by
  induction ns generalizing carry k with
  | nil => simp [fingerBytes, Nat.mod_one]
  | cons n ns ih =>
    have hnext : ∀ dst : UInt8,
        (if 256 - dst.toNat ≤ n.toNat then (1 : UInt8) else 0).toNat ≤ 1 := by
      intro dst
      split <;> decide
    rw [fingerBytes]
    generalize hdst : (if shift / 8 = k then carry + UInt8.ofNat (1 <<< (shift % 8)) else carry) =
      dst
    have hsum := byte_sum dst n
    rw [List.map_cons, Nat.ofDigits_cons, ih _ (hnext dst), List.map_cons, Nat.ofDigits_cons,
      List.length_cons]
    generalize (if 256 - dst.toNat ≤ n.toNat then (1 : UInt8) else 0).toNat = carry' at hsum ⊢
    generalize Nat.ofDigits 256 (ns.map UInt8.toNat) = rest
    -- what the bit adds to this byte and to those in front of it
    have hbit : dst.toNat + 256 * (if k + 1 ≤ shift / 8 then 2 ^ (shift - 8 * (k + 1)) else 0) =
        carry.toNat + if k ≤ shift / 8 then 2 ^ (shift - 8 * k) else 0 := by
      rcases Nat.lt_trichotomy k (shift / 8) with hlt | heq | hgt
      · rw [if_neg (by omega)] at hdst
        rw [if_pos (by omega), if_pos (by omega), ← hdst,
          show shift - 8 * k = shift - 8 * (k + 1) + 8 by omega, Nat.pow_add]
        omega
      · rw [if_pos heq.symm] at hdst
        have hsmall : 2 ^ (shift % 8) ≤ 2 ^ 7 := Nat.pow_le_pow_right (by omega) (by omega)
        rw [if_neg (by omega), if_pos (by omega), ← hdst, UInt8.toNat_add, UInt8.toNat_ofNat',
          Nat.one_shiftLeft, show shift - 8 * k = shift % 8 by omega]
        generalize 2 ^ (shift % 8) = bit at hsmall ⊢
        rw [Nat.mod_eq_of_lt (show bit < 2 ^ 8 by omega),
          Nat.mod_eq_of_lt (show carry.toNat + bit < 2 ^ 8 by omega), Nat.mul_zero, Nat.add_zero]
      · rw [if_neg (by omega)] at hdst
        rw [if_neg (by omega), if_neg (by omega), ← hdst]
    generalize (if k + 1 ≤ shift / 8 then 2 ^ (shift - 8 * (k + 1)) else 0) = ahead at hbit ⊢
    generalize (if k ≤ shift / 8 then 2 ^ (shift - 8 * k) else 0) = bit at hbit ⊢
    have hbyte : (dst + n).toNat < 256 := (dst + n).toNat_lt
    rw [Nat.pow_succ, Nat.mul_comm (256 ^ ns.length) 256,
      show n.toNat + 256 * rest + carry.toNat + bit =
        (dst + n).toNat + 256 * (rest + carry' + ahead) by omega,
      Nat.mod_mul, Nat.add_mul_mod_self_left, Nat.mod_eq_of_lt hbyte,
      Nat.add_mul_div_left _ _ (by decide), Nat.div_eq_of_lt hbyte, Nat.zero_add]

def fingerId (n : Hash) (i : Nat) : Hash := ofHashBytes (getFingerId (hashBytes n) i)

def fingerPlace (n : Hash) (i : Nat) : Hash := n + BitVec.ofNat 160 (2 ^ (i - 1))

theorem fingerId_eq (n : Hash) (i : Nat) : fingerId n i = fingerPlace n i := by
  have hlen : (hashBytes n).reverse.length = 20 := by simp [hashBytes]
  have hvalue := ofDigits_fingerBytes (i - 1) 0 (by decide) 0 (hashBytes n).reverse
  rw [hlen, if_pos (Nat.zero_le _), Nat.mul_zero, Nat.sub_zero,
    show (0 : UInt8).toNat = 0 from rfl, Nat.add_zero] at hvalue
  have hhash := ofHashBytes_hashBytes n
  rw [ofHashBytes] at hhash
  have hmod (m : Nat) : BitVec.ofNat 160 (m % 256 ^ 20) = BitVec.ofNat 160 m := by
    apply BitVec.eq_of_toNat_eq
    rw [BitVec.toNat_ofNat, BitVec.toNat_ofNat, show (256 : Nat) ^ 20 = 2 ^ 160 by norm_num,
      Nat.mod_mod]
  rw [fingerId, ofHashBytes, getFingerId, List.reverse_reverse, hvalue, hmod, BitVec.ofNat_add,
    hhash, fingerPlace]

/-! ## The handler -/

def fingerRequest (node : NodeInfo) (i : Nat) : FindSuccessorArg where
  key := node.addr ++ Bytes.ofString " finger " ++ Decimal.ofNat i
  hashedKey := fingerId node.hash i
  action := .fixFinger
  actionNamespace := []
  actionSeqno := i
  callbackNamespace := node.addr
  tsCreated := 0

/-- What an execution leaves: the fingers, the numbers of those it has set, and its request, none
when it exits because a finger cannot be read or written. -/
structure FixedFingers where
  fingers : Nat → Option Contact
  set : List Nat
  request : Option FindSuccessorArg

/-- The place of the finger lies in front of the previous one. -/
def coveredBy (node : NodeInfo) (i : Nat) (finger : Contact) : Bool :=
  inRange (fingerId node.hash i) node.hash finger.hash || fingerId node.hash i = node.hash

/-- The loop of `d_fix_finger`, none when `fuel` turns are not enough; `setFinger` tells which
fingers can be written. -/
def fixLoop (setFinger : Nat → Bool) (node : NodeInfo) :
    (fuel i : Nat) → FixedFingers → Option FixedFingers
  | 0, _, _ => none
  | fuel + 1, i, state =>
    if 1 < i then
      match state.fingers (i - 1) with
      | none => some state
      | some finger =>
        if coveredBy node i finger then
          if setFinger i then
            fixLoop setFinger node fuel (if 20 * 8 < i + 1 then 1 else i + 1)
              { state with
                fingers := Function.update state.fingers i (some finger)
                set := state.set ++ [i] }
          else some state
        else some { state with request := some (fingerRequest node i) }
    else some { state with request := some (fingerRequest node i) }

/-- The finger an execution begins with; `lastUpdated` is the number in the last answer, zero
before the first one. -/
def firstFinger (lastUpdated : Nat) : Nat := if 20 * 8 < lastUpdated + 1 then 1 else lastUpdated + 1

/-- None for an execution that would still go on after a turn for every finger and one more. -/
def dFixFinger (setFinger : Nat → Bool) (node : NodeInfo) (lastUpdated : Nat)
    (fingers : Nat → Option Contact) : Option FixedFingers :=
  fixLoop setFinger node (20 * 8 + 1) (firstFinger lastUpdated) ⟨fingers, [], none⟩

/-! ## The loop -/

def fillFingers (fingers : Nat → Option Contact) (finger : Contact) (i e : Nat) :
    Nat → Option Contact :=
  fun j => if i ≤ j ∧ j < e then some finger else fingers j

theorem fillFingers_empty (fingers : Nat → Option Contact) (finger : Contact) (i : Nat) :
    fillFingers fingers finger i i = fingers := by
  funext j
  rw [fillFingers, if_neg (by omega)]

theorem fillFingers_update (fingers : Nat → Option Contact) (finger : Contact) {i e : Nat}
    (hie : i < e) :
    fillFingers (Function.update fingers i (some finger)) finger (i + 1) e =
      fillFingers fingers finger i e := by
  funext j
  unfold fillFingers
  by_cases hj : j = i
  · subst hj
    rw [if_neg (by omega), if_pos ⟨Nat.le_refl _, hie⟩, Function.update_self]
  · rw [Function.update_of_ne hj]
    by_cases hin : i ≤ j ∧ j < e
    · rw [if_pos hin, if_pos (by omega)]
    · rw [if_neg hin, if_neg (by omega)]

theorem fixLoop_one (setFinger : Nat → Bool) (node : NodeInfo) (fuel : Nat)
    (state : FixedFingers) :
    fixLoop setFinger node (fuel + 1) 1 state =
      some { state with request := some (fingerRequest node 1) } := rfl

variable {finger : Contact} {ring : Ring} {lastUpdated : Nat} {node : NodeInfo}
  {setFinger : Nat → Bool}

theorem fixLoop_asks {fuel i : Nat} {state : FixedFingers} (hi : 1 < i)
    (hfinger : state.fingers (i - 1) = some finger) (hcovered : coveredBy node i finger = false) :
    fixLoop setFinger node (fuel + 1) i state =
      some { state with request := some (fingerRequest node i) } := by
  simp [fixLoop, hi, hfinger, hcovered]

theorem fixLoop_fills (hset : ∀ i, setFinger i = true) {fuel i : Nat} {state : FixedFingers}
    (hi : 1 < i) (hfinger : state.fingers (i - 1) = some finger)
    (hcovered : coveredBy node i finger = true) :
    fixLoop setFinger node (fuel + 1) i state =
      fixLoop setFinger node fuel (if 20 * 8 < i + 1 then 1 else i + 1)
        { state with
          fingers := Function.update state.fingers i (some finger)
          set := state.set ++ [i] } := by
  simp [fixLoop, hi, hfinger, hcovered, hset]

/-- The fingers from `i` up to `e` become one that covers them, and the request is for the first
place that it does not cover, or for the first place of all. -/
structure Fills (node : NodeInfo) (finger : Contact) (i : Nat) (state : FixedFingers)
    (result : Option FixedFingers) (e : Nat) : Prop where
  le : i ≤ e
  le_end : e ≤ 161
  covered : ∀ j, i ≤ j → j < e → coveredBy node j finger = true
  uncovered : e ≤ 160 → coveredBy node e finger = false
  result : result = some
    { fingers := fillFingers state.fingers finger i e
      set := state.set ++ List.range' i (e - i)
      request := some (fingerRequest node (if e = 161 then 1 else e)) }

theorem fixLoop_stops {fuel i : Nat} {state : FixedFingers} (hi : 1 < i) (hlast : i ≤ 160)
    (hfinger : state.fingers (i - 1) = some finger) (hcovered : coveredBy node i finger = false) :
    Fills node finger i state (fixLoop setFinger node (fuel + 1) i state) i where
  le := Nat.le_refl _
  le_end := by omega
  covered j hij hj := by omega
  uncovered _ := hcovered
  result := by
    rw [fixLoop_asks hi hfinger hcovered, if_neg (by omega), Nat.sub_self]
    simp [fillFingers_empty]

theorem fixLoop_fills_to (hset : ∀ i, setFinger i = true) (node : NodeInfo) (finger : Contact)
    (count : Nat) {fuel i : Nat} {state : FixedFingers} (hi : 1 < i) (hcount : i + count = 160)
    (hfinger : state.fingers (i - 1) = some finger) (hfuel : count < fuel) :
    ∃ e, Fills node finger i state (fixLoop setFinger node (fuel + 1) i state) e := by
  induction count generalizing fuel i state with
  | zero =>
    cases hcovered : coveredBy node i finger with
    | false => exact ⟨i, fixLoop_stops hi (by omega) hfinger hcovered⟩
    | true =>
      obtain ⟨fuel, rfl⟩ : ∃ k, fuel = k + 1 := ⟨fuel - 1, by omega⟩
      refine ⟨i + 1, by omega, by omega, fun j hij hj => ?_, by omega, ?_⟩
      · rw [show j = i by omega]
        exact hcovered
      · rw [fixLoop_fills hset hi hfinger hcovered, if_pos (by omega), fixLoop_one,
          if_pos (by omega), ← fillFingers_update _ _ (Nat.lt_succ_self i),
          Nat.add_sub_cancel_left]
        simp [fillFingers_empty]
  | succ count ih =>
    cases hcovered : coveredBy node i finger with
    | false => exact ⟨i, fixLoop_stops hi (by omega) hfinger hcovered⟩
    | true =>
      obtain ⟨fuel, rfl⟩ : ∃ k, fuel = k + 1 := ⟨fuel - 1, by omega⟩
      have hnext : Function.update state.fingers i (some finger) (i + 1 - 1) = some finger := by
        rw [Nat.add_sub_cancel, Function.update_self]
      obtain ⟨e, he⟩ := @ih fuel (i + 1)
        { state with
          fingers := Function.update state.fingers i (some finger)
          set := state.set ++ [i] } (by omega) (by omega) hnext (by omega)
      have hie := he.le
      refine ⟨e, by omega, he.le_end, fun j hij hj => ?_, he.uncovered, ?_⟩
      · rcases Nat.eq_or_lt_of_le hij with rfl | hlt
        · exact hcovered
        · exact he.covered j hlt hj
      · rw [fixLoop_fills hset hi hfinger hcovered, if_neg (by omega), he.result,
          fillFingers_update _ _ hie, List.append_assoc,
          show e - i = (e - (i + 1)) + 1 by omega, List.range'_succ]
        rfl

/-! ## What a finger covers -/

theorem toNat_step {i : Nat} (hi : i ≤ 160) (hpos : 0 < i) :
    (BitVec.ofNat 160 (2 ^ (i - 1))).toNat = 2 ^ (i - 1) := by
  rw [BitVec.toNat_ofNat, Nat.mod_eq_of_lt (Nat.pow_lt_pow_right (by omega) (by omega))]

theorem gap_fingerPlace (n : Hash) {i : Nat} (hi : i ≤ 160) (hpos : 0 < i) :
    gap n (fingerPlace n i) = 2 ^ (i - 1) := by
  have hstep := toNat_step hi hpos
  rw [fingerPlace, gap_add (by rw [hstep]; exact Nat.two_pow_pos _), hstep]

theorem coveredBy_iff {i : Nat} (hi : i ≤ 160) (hpos : 0 < i) (finger : Contact) :
    coveredBy node i finger = true ↔ 2 ^ (i - 1) < gap node.hash finger.hash := by
  have hgap := gap_fingerPlace node.hash hi hpos
  have hne : fingerPlace node.hash i ≠ node.hash := by
    intro heq
    have hlt : 2 ^ (i - 1) < 2 ^ 160 := Nat.pow_lt_pow_right (by omega) (by omega)
    rw [heq, gap_self] at hgap
    omega
  rw [coveredBy, fingerId_eq, Bool.or_eq_true, inRange_iff, hgap, decide_eq_true_iff]
  simp [hne]

theorem gap_zero (n : Hash) : gap n 0 = 2 ^ 160 - n.toNat := by
  simp [gap]

/-- Finger `i` of node `n` is the first node at or after its place. -/
def CorrectFinger (ring : Ring) (n : Hash) (i : Nat) (finger : Contact) : Prop :=
  IsFirst ring.hashes (fingerPlace n i) finger.hash

theorem CorrectFinger.ne_empty {n : Hash} {i : Nat} (h : CorrectFinger ring n i finger) :
    isEmpty finger.hash = false := by
  have hne : finger.hash ≠ 0 := fun hzero => ring.zero_notMem (hzero ▸ h.1)
  simpa [isEmpty] using hne

theorem CorrectFinger.of_covered {i j : Nat} (h : CorrectFinger ring node.hash i finger)
    (hpos : 0 < i) (hij : i ≤ j) (hj : j ≤ 160) (hcovered : coveredBy node j finger = true) :
    CorrectFinger ring node.hash j finger := by
  obtain ⟨hmem, hfirst⟩ := h
  have hi := gap_fingerPlace node.hash (show i ≤ 160 by omega) hpos
  have hplace := gap_fingerPlace node.hash hj (by omega)
  have hlt := (coveredBy_iff hj (by omega) finger).1 hcovered
  have hmono : 2 ^ (i - 1) ≤ 2 ^ (j - 1) := Nat.pow_le_pow_right (by omega) (by omega)
  refine ⟨hmem, fun c hc => ?_⟩
  have hle := hfirst c hc
  have hturn := gap_le node.hash finger.hash
  rw [reach_of_le (show gap node.hash (fingerPlace node.hash i) ≤ gap node.hash finger.hash by
    omega)] at hle
  rw [reach_of_le (show gap node.hash (fingerPlace node.hash j) ≤ gap node.hash finger.hash by
    omega)]
  by_cases hbehind : gap node.hash (fingerPlace node.hash j) ≤ gap node.hash c
  · rw [reach_of_le hbehind]
    rw [reach_of_le
      (show gap node.hash (fingerPlace node.hash i) ≤ gap node.hash c by omega)] at hle
    omega
  · rw [reach_of_lt (Nat.lt_of_not_le hbehind)]
    omega

/-! ## Whole executions -/

/-- An execution ends, has set at most 160 fingers, keeps every correct finger correct and asks
for one finger, with the place of that finger as the key. -/
def Repairs (ring : Ring) (setFinger : Nat → Bool) (node : NodeInfo) (lastUpdated : Nat)
    (table : Nat → Contact) : Prop :=
  ∃ fixed, dFixFinger setFinger node lastUpdated (fun i => some (table i)) = some fixed ∧
    fixed.set.length ≤ 160 ∧
    (∀ i, 1 ≤ i → i ≤ 160 → CorrectFinger ring node.hash i (table i) →
      ∃ finger, fixed.fingers i = some finger ∧ CorrectFinger ring node.hash i finger) ∧
    ∃ i arg, 1 ≤ i ∧ i ≤ 160 ∧ fixed.request = some arg ∧ arg.action = .fixFinger ∧
      arg.actionSeqno = i ∧ arg.hashedKey = fingerPlace node.hash i

theorem dFixFinger_first (setFinger : Nat → Bool) (node : NodeInfo)
    (h : lastUpdated = 0 ∨ 160 ≤ lastUpdated) (fingers : Nat → Option Contact) :
    dFixFinger setFinger node lastUpdated fingers =
      some ⟨fingers, [], some (fingerRequest node 1)⟩ := by
  have hfirst : firstFinger lastUpdated = 1 := by
    unfold firstFinger
    split <;> omega
  rw [dFixFinger, hfirst]
  rfl

theorem dFixFinger_fills (hset : ∀ i, setFinger i = true) (node : NodeInfo) (hpos : 0 < lastUpdated)
    (hlast : lastUpdated < 160) (table : Nat → Contact) :
    ∃ e, Fills node (table lastUpdated) (lastUpdated + 1) ⟨fun i => some (table i), [], none⟩
      (dFixFinger setFinger node lastUpdated fun i => some (table i)) e := by
  have hfirst : firstFinger lastUpdated = lastUpdated + 1 := by
    rw [firstFinger, if_neg (by omega)]
  rw [dFixFinger, hfirst]
  exact fixLoop_fills_to hset node (table lastUpdated) (159 - lastUpdated) (by omega) (by omega)
    (by simp) (by omega)

theorem Fills.repairs {e : Nat} {table : Nat → Contact}
    (h : Fills node finger (lastUpdated + 1) ⟨fun i => some (table i), [], none⟩
      (dFixFinger setFinger node lastUpdated fun i => some (table i)) e)
    (hright : ∀ j, lastUpdated < j → j < e → CorrectFinger ring node.hash j (table j) →
      CorrectFinger ring node.hash j finger) :
    Repairs ring setFinger node lastUpdated table := by
  have hle := h.le
  have hend := h.le_end
  refine ⟨_, h.result, ?_, fun i hpos hi hcorrect => ?_, if e = 161 then 1 else e,
    fingerRequest node (if e = 161 then 1 else e), ?_, ?_, rfl, rfl, rfl, fingerId_eq _ _⟩
  · simp
    omega
  · by_cases hin : lastUpdated + 1 ≤ i ∧ i < e
    · exact ⟨finger, if_pos hin, hright i hin.1 hin.2 hcorrect⟩
    · exact ⟨table i, if_neg hin, hcorrect⟩
  · split <;> omega
  · split <;> omega

theorem coveredBy_empty_iff {i : Nat} (hi : i ≤ 160) (hpos : 0 < i)
    (hempty : isEmpty finger.hash = true) :
    coveredBy node i finger = true ↔ node.hash.toNat + 2 ^ (i - 1) < 2 ^ 160 := by
  have hhash : finger.hash = 0 := by simpa [isEmpty] using hempty
  rw [coveredBy_iff hi hpos, hhash, gap_zero]
  omega

theorem not_repairs_of_empty (hset : ∀ i, setFinger i = true) (node : NodeInfo) {i : Nat}
    {table : Nat → Contact} (hpos : 0 < lastUpdated) (hlast : lastUpdated < i) (hi : i ≤ 160)
    (hempty : isEmpty (table lastUpdated).hash = true)
    (hbelow : node.hash.toNat + 2 ^ (i - 1) < 2 ^ 160)
    (hcorrect : CorrectFinger ring node.hash i (table i)) :
    ¬ Repairs ring setFinger node lastUpdated table := by
  rintro ⟨fixed, hfixed, -, hkeeps, -⟩
  obtain ⟨e, hfills⟩ := dFixFinger_fills hset node hpos (by omega) table
  obtain ⟨finger, hfinger, hstill⟩ := hkeeps i (by omega) hi hcorrect
  have hreached : i < e := by
    have hle := hfills.le
    by_contra hstop
    have hpow : 2 ^ (e - 1) ≤ 2 ^ (i - 1) := Nat.pow_le_pow_right (by omega) (by omega)
    have hcovered := (coveredBy_empty_iff (show e ≤ 160 by omega) (by omega) hempty).2
      (show node.hash.toNat + 2 ^ (e - 1) < 2 ^ 160 by omega)
    rw [hfills.uncovered (by omega)] at hcovered
    simp at hcovered
  rw [hfills.result, Option.some.injEq] at hfixed
  rw [← hfixed] at hfinger
  simp only [fillFingers, if_pos (show lastUpdated + 1 ≤ i ∧ i < e by omega),
    Option.some.injEq] at hfinger
  rw [hfinger, hstill.ne_empty] at hempty
  simp at hempty

/-- A repair does no harm exactly when it does not begin behind an empty finger, or no finger
stands where the empty one is filled in: behind it and in front of zero. -/
theorem repairs_iff {ring : Ring} {setFinger : Nat → Bool} (hset : ∀ i, setFinger i = true)
    (node : NodeInfo) (lastUpdated : Nat) {table : Nat → Contact}
    (htable : ∀ i, 1 ≤ i → i ≤ 160 →
      isEmpty (table i).hash = true ∨ CorrectFinger ring node.hash i (table i)) :
    Repairs ring setFinger node lastUpdated table ↔
      (lastUpdated = 0 ∨ 160 ≤ lastUpdated ∨ isEmpty (table lastUpdated).hash = false ∨
        ∀ i, lastUpdated < i → i ≤ 160 → node.hash.toNat + 2 ^ (i - 1) < 2 ^ 160 →
          isEmpty (table i).hash = true) := by
  by_cases hfirst : lastUpdated = 0 ∨ 160 ≤ lastUpdated
  · refine iff_of_true ⟨_, dFixFinger_first setFinger node hfirst _, by simp, ?_, 1,
      fingerRequest node 1, by omega, by omega, rfl, rfl, rfl, fingerId_eq _ _⟩
      (hfirst.imp_right .inl)
    exact fun i _ _ hcorrect => ⟨table i, rfl, hcorrect⟩
  have hpos : 0 < lastUpdated := by omega
  obtain ⟨e, hfills⟩ := dFixFinger_fills hset node hpos (show lastUpdated < 160 by omega) table
  have hend := hfills.le_end
  cases hempty : isEmpty (table lastUpdated).hash with
  | false =>
    refine iff_of_true (hfills.repairs fun j hj hje _ => ?_) (.inr (.inr (.inl rfl)))
    have hprevious := (htable lastUpdated hpos (by omega)).resolve_left (by simp [hempty])
    exact hprevious.of_covered hpos (by omega) (by omega) (hfills.covered j (by omega) hje)
  | true =>
    constructor
    · refine fun hrepairs => .inr (.inr (.inr fun i hi hi' hbelow => ?_))
      rcases htable i (by omega) hi' with hgone | hcorrect
      · exact hgone
      · exact absurd hrepairs
          (not_repairs_of_empty hset node hpos hi hi' hempty hbelow hcorrect)
    · rintro (hnone | hlast | hpresent | hgone)
      · omega
      · omega
      · simp at hpresent
      · refine hfills.repairs fun j hj hje hcorrect => ?_
        have hbelow := (coveredBy_empty_iff (by omega) (by omega) hempty).1
          (hfills.covered j (by omega) hje)
        have hgone' := hgone j hj (by omega) hbelow
        rw [hcorrect.ne_empty] at hgone'
        simp at hgone'

def onlyRing : Ring where
  hashes := {1}
  nonempty := Finset.singleton_nonempty 1
  zero_notMem := by decide
  owner := fun _ => 1

def onlyNode : NodeInfo := ⟨1, [], fun _ => [], 0, 0⟩

def onlyTable (invalidated : Bool) (i : Nat) : Contact :=
  if invalidated = true ∧ i = 1 then .zero else ⟨1, fun _ => [], 0⟩

theorem onlyTable_correct {invalidated : Bool} {i : Nat} (h : ¬ (invalidated = true ∧ i = 1)) :
    CorrectFinger onlyRing onlyNode.hash i (onlyTable invalidated i) := by
  rw [onlyTable, if_neg h]
  refine ⟨Finset.mem_singleton_self _, fun c hc => ?_⟩
  rw [Finset.mem_singleton.1 hc]

theorem onlyTable_empty_or_correct (invalidated : Bool) (i : Nat) :
    isEmpty (onlyTable invalidated i).hash = true ∨
      CorrectFinger onlyRing onlyNode.hash i (onlyTable invalidated i) := by
  by_cases h : invalidated = true ∧ i = 1
  · exact .inl (by rw [onlyTable, if_pos h]; rfl)
  · exact .inr (onlyTable_correct h)

theorem repairs_lone : Repairs onlyRing (fun _ => true) onlyNode 7 (onlyTable false) :=
  (repairs_iff (fun _ => rfl) onlyNode 7 fun i _ _ => onlyTable_empty_or_correct false i).2
    (.inr (.inr (.inl (by decide))))

/-- The first finger has been invalidated and the last answer was for it: the second finger,
which is correct, becomes empty. -/
theorem correct_finger_lost :
    (∀ i, 1 ≤ i → i ≤ 160 → isEmpty (onlyTable true i).hash = true ∨
      CorrectFinger onlyRing onlyNode.hash i (onlyTable true i)) ∧
      ¬ Repairs onlyRing (fun _ => true) onlyNode 1 (onlyTable true) :=
  ⟨fun i _ _ => onlyTable_empty_or_correct true i,
    not_repairs_of_empty (fun _ => rfl) onlyNode (by decide) (show 1 < 2 by decide) (by decide)
      (by decide) (by decide) (onlyTable_correct (by decide))⟩

end Cspot.Dht
