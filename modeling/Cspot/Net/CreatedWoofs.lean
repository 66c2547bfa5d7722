import Cspot.Net.LocalNames
import Cspot.Net.Routes
import Cspot.Woof.Usable

/-!
# Sizes of created woofs

The size of the mapping is computed in 64 bits, the places in a woof are counted by a
semaphore that is initialised through an `int`, and the sizes in a request to another
process are 32 bits wide.
-/

namespace Cspot

/-! ## Sizes -/

/-- Whether a woof is made by the process that asked for it. -/
inductive CreateRoute
  | direct
  | remote
deriving Repr, DecidableEq

/-- The sizes the woof is made with, from the sizes `WooFCreate` was called with. -/
def CreateRoute.sizes : CreateRoute → UInt64 → UInt64 → UInt64 × UInt64
  | .direct, elementSize, historySize => (elementSize, historySize)
  | .remote, elementSize, historySize =>
    (elementSize.toUInt32.toUInt64, historySize.toUInt32.toUInt64)

variable {elementSize historySize : UInt64}

/-- The numbers in a message of a client come back out of their strings, and the server
calls `WooFCreate` with them. -/
theorem Transport.perform_create_accesses (t : Transport) (srv : Server) {woofName : Bytes}
    (hname : ∀ b ∈ woofName, b ≠ 0) {args : List Frame}
    (hargs : Arrived ((Request.create elementSize.toUInt32 historySize.toUInt32).args woofName)
      args) :
    ((t.capHandler .create).perform srv args).accesses =
      [.create woofName (CreateRoute.remote.sizes elementSize historySize).1.toNat
        (CreateRoute.remote.sizes elementSize historySize).2.toNat] := by
  have helements : (CreateRoute.remote.sizes elementSize historySize).1.toNat =
      elementSize.toUInt32.toNat := UInt32.toNat_toUInt64 _
  have hhistories : (CreateRoute.remote.sizes elementSize historySize).2.toNat =
      historySize.toUInt32.toNat := UInt32.toNat_toUInt64 _
  rw [helements, hhistories]
  generalize elementSize.toUInt32 = e at hargs ⊢
  generalize historySize.toUInt32 = h at hargs ⊢
  have htext := hargs.frameText (i := 0) rfl hname
  have hsize := hargs.frameText (i := 1) rfl (decimal_ne_zero e)
  have hhistory := hargs.frameText (i := 2) rfl (decimal_ne_zero h)
  have hparse (n : UInt32) : Decimal.strtol (decimal n) = ((n.toNat : Int), []) :=
    Decimal.strtol_ofNat (by have := n.toNat_lt; omega)
  have hulong (n : UInt32) : toUlong (n.toNat : Int) = n.toNat := by
    have := n.toNat_lt
    unfold toUlong Word.modulus
    omega
  cases t with
  | zmq =>
    simp [capHandler, Zmq.capHandler, Zmq.wooFProcessCreatewithCAP, htext, hsize, hhistory,
      Zmq.createWooF, hparse, hulong]
  | cmq =>
    have hint (n : UInt32) : n.toNat % 4294967296 = n.toNat := Nat.mod_eq_of_lt n.toNat_lt
    simp [capHandler, Cmq.capHandler, Cmq.wooFProcessCreatewithCAP, htext, hsize, hhistory,
      Cmq.createWooF, hparse, hulong, hint]

theorem Transport.perform_create_accesses_wrapped :
    ((Transport.cmq.capHandler .create).perform (sampleServer none none)
        (((Request.create (2 ^ 32 + 8 : UInt64).toUInt32 (4 : UInt64).toUInt32).args [97]).map
          fun data => ⟨data, []⟩)).accesses = [.create [97] 8 4] :=
  Transport.cmq.perform_create_accesses _ (by simp) (arrived_map _)

theorem toNat_wooFSpace64 (elementSize historySize : UInt64) :
    (wooFSpace64 elementSize historySize).toNat =
      wooFSpace elementSize.toNat historySize.toNat % Word.modulus := by
  have hhistory : (historySize + 1).toNat = (historySize.toNat + 1) % Word.modulus :=
    UInt64.toNat_add historySize 1
  have helement : (elementSize + 8).toNat = (elementSize.toNat + sizeofElid) % Word.modulus :=
    UInt64.toNat_add elementSize 8
  have hsum : (wooFSpace64 elementSize historySize).toNat =
      ((historySize + 1).toNat * (elementSize + 8).toNat % Word.modulus + sizeofWooFShared) %
        Word.modulus := by
    rfl
  rw [hsum, hhistory, helement, ← Nat.mul_mod, Nat.mod_add_mod]
  rfl

/-! ## Usable woofs -/

/-- What the record and the mapping of a new woof owe to the sizes asked for. -/
structure CreatedUsable (made : Created) (elementSize historySize : UInt64) : Prop where
  /-- The computation of the size did not overflow. -/
  exact : made.size.toNat = wooFSpace made.wf.elementSize made.wf.historySize
  room : sizeofWooFShared + historySize.toNat * (elementSize.toNat + sizeofElid) ≤ made.size.toNat
  tailWait : made.wf.tailWait = historySize.toNat
  remainders : ∀ wf n, made.wf.Reached wf n → wf.NoZeroRemainder

/-- The history size is an `int`, and the space for it a 64-bit number.  A remote woof also
needs its room in elements that may have lost their upper half. -/
def SizesUsable : CreateRoute → UInt64 → UInt64 → Prop
  | .direct, elementSize, historySize => historySize.toNat < 2 ^ 31 ∧
      wooFSpace elementSize.toNat historySize.toNat < Word.modulus
  | .remote, elementSize, historySize => historySize.toNat < 2 ^ 31 ∧
      historySize.toNat * (elementSize.toNat + sizeofElid) ≤
        (historySize.toNat + 1) * (elementSize.toNat % 2 ^ 32 + sizeofElid)

theorem Host.wooFCreate_eq_some {host : Host} {name : Bytes} {ino : Nat} {made : Created}
    (h : host.wooFCreate name elementSize historySize ino = .ok (some made)) :
    made.size = wooFSpace64 elementSize historySize ∧ ∃ filename,
      made.wf = Cspot.wooFCreate filename elementSize.toNat historySize.toNat ino := by
  obtain ⟨path, -, h⟩ := Exec.bind_eq_ok.1 h
  cases path with
  | none => cases h
  | some path =>
    dsimp only at h
    split at h
    · cases h
      exact ⟨rfl, _, rfl⟩
    · cases h

theorem createdUsable_iff_sizes {made : Created} {filename : Bytes} {ino : Nat} {e h : UInt64}
    (hsize : made.size = wooFSpace64 e h)
    (hwf : made.wf = wooFCreate filename e.toNat h.toNat ino) :
    CreatedUsable made elementSize historySize ↔
      wooFSpace e.toNat h.toNat < Word.modulus ∧
        sizeofWooFShared + historySize.toNat * (elementSize.toNat + sizeofElid) ≤
          wooFSpace e.toNat h.toNat ∧
        (wooFCreate filename e.toNat h.toNat ino).tailWait = historySize.toNat := by
  have hmapped := congrArg UInt64.toNat hsize
  rw [toNat_wooFSpace64] at hmapped
  have hspace : wooFSpace made.wf.elementSize made.wf.historySize =
      wooFSpace e.toNat h.toNat := by
    rw [hwf]
    rfl
  constructor
  · intro husable
    have hexact := husable.exact
    have hroom := husable.room
    have hwait := husable.tailWait
    rw [hmapped, hspace] at hexact
    rw [hmapped, hexact] at hroom
    rw [hwf] at hwait
    exact ⟨hexact ▸ Nat.mod_lt _ (by decide), hroom, hwait⟩
  · rintro ⟨hlt, hroom, hwait⟩
    rw [Nat.mod_eq_of_lt hlt] at hmapped
    refine ⟨hmapped.trans hspace.symm, hmapped.symm ▸ hroom, hwf ▸ hwait, ?_⟩
    intro wf n hreached
    exact (hreached.sound (hwf ▸ wooFCreate_sound _ _ _ _)).noZeroRemainder

theorem wooFSpace_lt_of_uint32 {e h : Nat} (he : e < 2 ^ 32) (hh : h < 2 ^ 31) :
    wooFSpace e h < Word.modulus := by
  have hmul : (h + 1) * (e + sizeofElid) ≤ 2 ^ 31 * (2 ^ 32 + sizeofElid) :=
    Nat.mul_le_mul (by omega) (by omega)
  unfold wooFSpace Word.modulus sizeofWooFShared
  unfold sizeofElid at hmul ⊢
  omega

/-- Exactly the sizes with which a created woof is usable. -/
theorem createdUsable_iff (r : CreateRoute) (host : Host) (name : Bytes)
    (elementSize historySize : UInt64) (ino : Nat) {made : Created}
    (hmade : host.wooFCreate name (r.sizes elementSize historySize).1
      (r.sizes elementSize historySize).2 ino = .ok (some made)) :
    CreatedUsable made elementSize historySize ↔ SizesUsable r elementSize historySize := by
  obtain ⟨hsize, filename, hwf⟩ := Host.wooFCreate_eq_some hmade
  rw [createdUsable_iff_sizes hsize hwf]
  have hwaitLt := wooFCreate_tailWait_lt filename (r.sizes elementSize historySize).1.toNat
    (r.sizes elementSize historySize).2.toNat ino
  cases r with
  | direct =>
    constructor
    · rintro ⟨hlt, -, hwait⟩
      exact ⟨by omega, hlt⟩
    · rintro ⟨hhistory, hlt⟩
      refine ⟨hlt, ?_, wooFCreate_tailWait_of_lt hhistory _ _ _⟩
      change sizeofWooFShared + historySize.toNat * (elementSize.toNat + sizeofElid) ≤
        (historySize.toNat + 1) * (elementSize.toNat + sizeofElid) + sizeofWooFShared
      rw [Nat.add_mul]
      omega
  | remote =>
    have helement : (CreateRoute.remote.sizes elementSize historySize).1.toNat =
        elementSize.toNat % 2 ^ 32 := by
      simp [CreateRoute.sizes]
    have hhistory : (CreateRoute.remote.sizes elementSize historySize).2.toNat =
        historySize.toNat % 2 ^ 32 := by
      simp [CreateRoute.sizes]
    rw [helement, hhistory] at hwaitLt ⊢
    constructor
    · rintro ⟨-, hroom, hwait⟩
      have hlt : historySize.toNat < 2 ^ 31 := by omega
      rw [Nat.mod_eq_of_lt (by omega : historySize.toNat < 2 ^ 32)] at hroom
      refine ⟨hlt, ?_⟩
      unfold wooFSpace at hroom
      omega
    · rintro ⟨hlt, hroom⟩
      rw [Nat.mod_eq_of_lt (by omega : historySize.toNat < 2 ^ 32)]
      refine ⟨wooFSpace_lt_of_uint32 (Nat.mod_lt _ (by decide)) hlt, ?_,
        wooFCreate_tailWait_of_lt hlt _ _ _⟩
      unfold wooFSpace
      omega

theorem createdUsable_iff_four :
    ∃ made, (sampleHost (Bytes.ofString "/ns") (by decide)).wooFCreate (Bytes.ofString "data")
        8 4 0 = .ok (some made) ∧ CreatedUsable made 8 4 := by
  refine ⟨_, rfl, ?_⟩
  refine (createdUsable_iff .direct (sampleHost (Bytes.ofString "/ns") (by decide))
    (Bytes.ofString "data") 8 4 0 rfl).2 ?_
  exact ⟨by decide, by decide⟩

/-- A mapping of no more than the record for four thousand million elements, and a woof
whose places are not counted. -/
theorem created_without_room :
    (∃ made, (sampleHost (Bytes.ofString "/ns") (by decide)).wooFCreate (Bytes.ofString "data")
        4294967288 4294967295 0 = .ok (some made) ∧ made.size = 2096 ∧
        ¬ CreatedUsable made 4294967288 4294967295) ∧
      ∃ made, (sampleHost (Bytes.ofString "/ns") (by decide)).wooFCreate (Bytes.ofString "data")
        0 2147483648 0 = .ok (some made) ∧ made.wf.tailWait = 0 ∧
        ¬ CreatedUsable made 0 2147483648 := by
  refine ⟨⟨_, rfl, rfl, fun h => ?_⟩, ⟨_, rfl, rfl, fun h => ?_⟩⟩
  · exact absurd h.room (by decide)
  · exact absurd h.tailWait (by decide)

end Cspot
