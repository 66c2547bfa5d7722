import Cspot.Net.Client

/-!
# What the signature of a put is of

Client and server put name, handler and element one behind the other and sign that, so
bytes can move over the two borders.
-/

namespace Cspot

theorem putPayload_eq_some_iff {wname hname elem text : Bytes} :
    putPayload wname hname elem = .ok (some text) ↔
      elem.length + wname.length + hname.length < 2 ^ 31 ∧ wname ++ hname ++ elem = text := by
  have hsmall (n : Nat) : n < 2 ^ 31 ↔ ¬ Word.toInt32 n < 0 ∧ ¬ Word.toInt32 n < n := by
    unfold Word.toInt32
    split <;> omega
  simp only [putPayload]
  generalize elem.length + wname.length + hname.length = size
  rw [hsmall]
  by_cases hneg : Word.toInt32 size < 0
  · simp [hneg]
  · by_cases hwrap : Word.toInt32 size < size <;> simp [hneg, hwrap]

/-! ## Requests -/

/-- The arguments of a put.  Both names are C strings. -/
@[ext] structure Put where
  woofName : Bytes
  handlerName : Option Bytes
  elem : Bytes
  woofName_ne_zero : ∀ b ∈ woofName, b ≠ 0
  handlerName_ne_zero : ∀ h ∈ handlerName, ∀ b ∈ h, b ≠ 0

namespace Put

def text (r : Put) : Bytes := r.woofName ++ handlerText r.handlerName ++ r.elem

theorem length_text (r : Put) : r.text.length =
    r.elem.length + r.woofName.length + (handlerText r.handlerName).length := by
  simp only [text, List.length_append]
  omega

def signed (r : Put) : Exec (Option Bytes) :=
  match remotePut r.woofName r.handlerName r.elem with
  | none => .ok none
  | some call => call.payload

theorem handlerText_ne_zero (r : Put) : ∀ b ∈ handlerText r.handlerName, b ≠ 0 := by
  cases hh : r.handlerName with
  | none => exact Bytes.ne_zero_of_notMem (by decide)
  | some h => exact r.handlerName_ne_zero h hh

theorem handlerName_of_handlerText_nil {handlerName : Option Bytes}
    (h : handlerText handlerName = []) : handlerName = some [] := by
  cases handlerName with
  | none => simp [handlerText, nullName, Bytes.ofString] at h
  | some name => exact congrArg some h

def frames (r : Put) : List Frame :=
  [textAt r.woofName, textAt (handlerText r.handlerName), ⟨r.elem, []⟩]

def checked (t : Transport) (r : Put) : Exec (Option Bytes) :=
  (t.capHandler .put).payload r.frames

theorem arrived_frames (r : Put) :
    Arrived [textFrame r.woofName, textFrame (handlerText r.handlerName), r.elem] r.frames :=
  rfl

theorem checked_eq (t : Transport) (r : Put) :
    r.checked t = putPayload r.woofName (handlerText r.handlerName) r.elem :=
  t.put_payload_of_arrived r.arrived_frames r.woofName_ne_zero r.handlerText_ne_zero

variable {r r' : Put} {text rest : Bytes} {t : Transport}

theorem signed_eq_some_iff :
    r.signed = .ok (some text) ↔ r.text.length < 2 ^ 31 ∧ r.text = text := by
  unfold signed remotePut
  split
  · rename_i h
    split at h
    · rename_i hbad
      -- a size that stands for an error is far too large anyway
      have hbig : r.elem.length = 4294967295 := hbad
      simp only [Except.ok.injEq, reduceCtorEq, false_iff, not_and, length_text]
      omega
    · cases h
  · rename_i call h
    split at h
    · cases h
    · cases h
      rw [length_text]
      exact putPayload_eq_some_iff

theorem checked_eq_some_iff :
    r.checked t = .ok (some text) ↔ r.text.length < 2 ^ 31 ∧ r.text = text := by
  rw [checked_eq, putPayload_eq_some_iff, length_text]
  rfl

/-! ## Requests with the same text -/

/-- Move the end of the handler name into the element. -/
theorem exists_same_text_of_handler (r : Put) (h : handlerText r.handlerName ≠ []) :
    ∃ r' : Put, r'.woofName = r.woofName ∧ r'.text = r.text ∧ r' ≠ r := by
  have hsplit := List.dropLast_append_getLast h
  refine ⟨⟨r.woofName, some (handlerText r.handlerName).dropLast,
    (handlerText r.handlerName).getLast h :: r.elem, r.woofName_ne_zero, ?_⟩, rfl, ?_, ?_⟩
  · rintro hname ⟨⟩ b hb
    exact r.handlerText_ne_zero b (List.mem_of_mem_dropLast hb)
  · conv_rhs => rw [text, ← hsplit]
    simp [text, handlerText]
  · intro heq
    have hlen := congrArg (fun r : Put => r.elem.length) heq
    simp at hlen

theorem exists_same_text_of_elem (r : Put) (h : r.handlerName = some []) {b : UInt8}
    (helem : r.elem = b :: rest) (hb : b ≠ 0) :
    ∃ r' : Put, r'.woofName = r.woofName ∧ r'.text = r.text ∧ r' ≠ r := by
  refine ⟨⟨r.woofName, some [b], rest, r.woofName_ne_zero, ?_⟩, rfl, ?_, ?_⟩
  · rintro hname ⟨⟩ c hc
    rw [List.mem_singleton.1 hc]
    exact hb
  · simp [text, handlerText, h, helem]
  · intro heq
    have hhand := congrArg Put.handlerName heq
    simp [h] at hhand

theorem exists_same_text_of_take (r : Put) (h : r.handlerName = some []) {n : Nat}
    (hn : n < r.woofName.length) :
    ∃ r' : Put, r'.woofName = r.woofName.take n ∧ r'.text = r.text ∧ r' ≠ r := by
  refine ⟨⟨r.woofName.take n, some (r.woofName.drop n), r.elem, ?_, ?_⟩, rfl, ?_, ?_⟩
  · exact fun b hb => r.woofName_ne_zero b (List.mem_of_mem_take hb)
  · rintro hname ⟨⟩ b hb
    exact r.woofName_ne_zero b (List.mem_of_mem_drop hb)
  · simp [text, handlerText, h]
  · intro heq
    have hlen := congrArg (fun r : Put => r.woofName.length) heq
    simp at hlen
    omega

theorem eq_nil_of_append_eq {s elem : Bytes} (hs : ∀ b ∈ s, b ≠ 0) (helem : ∀ b ∈ elem.head?, b = 0)
    (h : s ++ rest = elem) : s = [] := by
  cases s with
  | nil => rfl
  | cons b s =>
    have hzero : b = 0 := helem b (by rw [← h]; rfl)
    exact absurd hzero (hs b (by simp))

theorem eq_or_take_of_text_eq (h : r.handlerName = some []) (helem : ∀ b ∈ r.elem.head?, b = 0)
    (htext : r'.text = r.text) :
    r' = r ∨ ∃ n < r.woofName.length, r'.woofName = r.woofName.take n := by
  have happ : r'.woofName ++ (handlerText r'.handlerName ++ r'.elem) = r.woofName ++ r.elem := by
    simpa [text, handlerText, h] using htext
  have hsame (hnames : r'.woofName = r.woofName)
      (hrest : handlerText r'.handlerName ++ r'.elem = r.elem) : r' = r := by
    have hhand := eq_nil_of_append_eq r'.handlerText_ne_zero helem hrest
    refine Put.ext hnames ?_ (by simpa [hhand] using hrest)
    rw [h, handlerName_of_handlerText_nil hhand]
  -- the name of the other request ends within ours, or crosses into the element
  rcases List.append_eq_append_iff.1 happ with ⟨moved, hname, hrest⟩ | ⟨crossed, hname, hrest⟩
  · cases moved with
    | nil => exact Or.inl (hsame (by simpa using hname.symm) (by simpa using hrest))
    | cons b moved =>
      refine Or.inr ⟨r'.woofName.length, ?_, ?_⟩ <;>
        · rw [hname]
          simp
  · have hcrossed : crossed = [] := by
      refine eq_nil_of_append_eq (fun b hb => ?_) helem hrest.symm
      exact r'.woofName_ne_zero b (by simp [hname, hb])
    exact Or.inl (hsame (by simpa [hcrossed] using hname) (by simpa [hcrossed] using hrest.symm))

/-! ## Transfer of signatures -/

def admits (srv : Server) (woofName : Bytes) : Bool :=
  match guardedName srv woofName with
  | .ok (some _) => true
  | _ => false

/-- A signature the client made for this put is one for no other. -/
def Binds (t : Transport) (srv : Server) (r : Put) : Prop :=
  ∀ r' : Put, admits srv r'.woofName = true → ∀ text, r.signed = .ok (some text) →
    r'.checked t = .ok (some text) → r' = r

theorem not_binds_of_same_text {srv : Server} (hsmall : r.text.length < 2 ^ 31)
    (hadmits : admits srv r'.woofName = true) (htext : r'.text = r.text) (hne : r' ≠ r) :
    ¬ Binds t srv r := by
  intro h
  have hsigned := signed_eq_some_iff.2 ⟨hsmall, rfl⟩
  have hchecked : r'.checked t = .ok (some r.text) :=
    checked_eq_some_iff.2 ⟨by rw [htext]; exact hsmall, htext⟩
  exact hne (h r' hadmits r.text hsigned hchecked)

/-- No text is signed, or the three parts of it can be told apart: there is a handler
without a name, the element does not begin like one, and the woof name does not go on
from another. -/
def BindsWhen (srv : Server) (r : Put) : Prop :=
  2 ^ 31 ≤ r.text.length ∨
    r.handlerName = some [] ∧ (∀ b ∈ r.elem.head?, b = 0) ∧
      ∀ n < r.woofName.length, admits srv (r.woofName.take n) = false

theorem binds_iff_bindsWhen (t : Transport) {srv : Server} {r : Put}
    (hadmits : admits srv r.woofName = true) : Binds t srv r ↔ BindsWhen srv r := by
  constructor
  · intro h
    by_contra hnot
    obtain ⟨hsmall, hparts⟩ : r.text.length < 2 ^ 31 ∧ ¬ (r.handlerName = some [] ∧
        (∀ b ∈ r.elem.head?, b = 0) ∧
        ∀ n < r.woofName.length, admits srv (r.woofName.take n) = false) := by
      simpa only [BindsWhen, not_or, not_le] using hnot
    by_cases hhand : handlerText r.handlerName = []
    · have hempty := handlerName_of_handlerText_nil hhand
      by_cases helem : ∀ b ∈ r.elem.head?, b = 0
      · have hnames : ¬ ∀ n < r.woofName.length, admits srv (r.woofName.take n) = false :=
          fun hall => hparts ⟨hempty, helem, hall⟩
        push Not at hnames
        obtain ⟨n, hn, htake⟩ := hnames
        obtain ⟨r', hname, htext, hne⟩ := r.exists_same_text_of_take hempty hn
        exact not_binds_of_same_text hsmall (by simpa [hname] using htake) htext hne h
      · push Not at helem
        obtain ⟨b, hb, hzero⟩ := helem
        obtain ⟨rest, hrest⟩ : ∃ rest, r.elem = b :: rest := List.head?_eq_some_iff.1 hb
        obtain ⟨r', hname, htext, hne⟩ := r.exists_same_text_of_elem hempty hrest hzero
        exact not_binds_of_same_text hsmall (hname ▸ hadmits) htext hne h
    · obtain ⟨r', hname, htext, hne⟩ := r.exists_same_text_of_handler hhand
      exact not_binds_of_same_text hsmall (hname ▸ hadmits) htext hne h
  · rintro (hlarge | ⟨hempty, helem, hnames⟩) r' hadmits' text hsigned hchecked
    · exact absurd (signed_eq_some_iff.1 hsigned).1 (by omega)
    · have htext : r'.text = r.text :=
        (checked_eq_some_iff.1 hchecked).2.trans (signed_eq_some_iff.1 hsigned).2.symm
      rcases eq_or_take_of_text_eq hempty helem htext with heq | ⟨n, hn, hname⟩
      · exact heq
      · rw [hname, hnames n hn] at hadmits'
        cases hadmits'

def samplePut (handlerName : Option Bytes) (elem : Bytes)
    (h : ∀ h ∈ handlerName, ∀ b ∈ h, b ≠ 0) : Put :=
  ⟨sampleUri, handlerName, elem, Bytes.ne_zero_of_notMem (by decide), h⟩

/-- An element with a leading zero and the empty handler name, for a woof with a short name. -/
theorem binds_iff_bindsWhen_zero :
    Binds .zmq (sampleServer none none) (samplePut (some []) [0, 5] (by simp)) ∧
      Binds .cmq (sampleServer none none) (samplePut (some []) [0, 5] (by simp)) := by
  have hwhen : BindsWhen (sampleServer none none) (samplePut (some []) [0, 5] (by simp)) :=
    Or.inr ⟨rfl, by simp [samplePut], by decide⟩
  exact ⟨(binds_iff_bindsWhen .zmq (by decide)).2 hwhen,
    (binds_iff_bindsWhen .cmq (by decide)).2 hwhen⟩

def nulPut : Put :=
  samplePut (some (Bytes.ofString "NUL")) [76, 7] <| by
    rintro _ ⟨⟩
    exact Bytes.ne_zero_of_notMem (by decide)

/-- The signature of a put without a handler is also one for the handler `NUL`. -/
theorem put_signature_transfers :
    ¬ Binds .zmq (sampleServer none none) (samplePut none [7] (by simp)) ∧
      ¬ Binds .cmq (sampleServer none none) (samplePut none [7] (by simp)) := by
  have htransfers (t : Transport) :
      ¬ Binds t (sampleServer none none) (samplePut none [7] (by simp)) := by
    intro h
    have hother := h nulPut (by decide) (Bytes.ofString "woof://h/dataNULL" ++ [7]) (by decide)
      (by cases t <;> decide)
    exact absurd (congrArg Put.elem hother) (by decide)
  exact ⟨htransfers .zmq, htransfers .cmq⟩

end Put

end Cspot
