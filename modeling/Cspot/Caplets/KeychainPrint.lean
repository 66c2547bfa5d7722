import Cspot.Caplets.KeychainSearch

/-!
# Printed capabilities in a keychain

`WooFCapPrint` and `WooFNamespaceCapPrint` write a record of four lines.  A file of such
records is a keychain: the search gives back the numbers that were printed.
-/

namespace Cspot

open Decimal (isSpace)
open Bytes (newline)

/-! ## Lines with a key and a value -/

variable {text key value line : Bytes} {b : UInt8} {entry : KeychainLine}

theorem trimSpace_append (blanks : Bytes) (hblanks : ∀ b ∈ blanks, isSpace b = true)
    (hne : text ≠ []) (hfirst : isSpace (text.head hne) = false)
    (hlast : isSpace (text.getLast hne) = false) : trimSpace (blanks ++ text) = text := by
  obtain ⟨b, rest, rfl⟩ := List.exists_cons_of_ne_nil hne
  rw [trimSpace, List.dropWhile_append_of_pos hblanks,
    List.dropWhile_cons_of_neg (by simpa using hfirst), List.rdropWhile_eq_self_iff]
  intro _
  simpa using hlast

/-- Bytes the parser of a line gives no meaning to. -/
def plain (b : UInt8) : Bool := !isSpace b && b != 34 && b != 35 && b != 39

theorem isSpace_of_plain (h : plain b = true) : isSpace b = false := by
  simp only [plain, Bool.and_eq_true, Bool.not_eq_true'] at h
  exact h.1.1.1

structure Plain (text : Bytes) : Prop where
  ne_nil : text ≠ []
  plain : ∀ b ∈ text, plain b = true

namespace Plain

variable {text : Bytes} (h : Plain text)

include h

theorem trimSpace_append (blanks : Bytes) (hblanks : ∀ b ∈ blanks, isSpace b = true) :
    trimSpace (blanks ++ text) = text :=
  Cspot.trimSpace_append blanks hblanks h.ne_nil (isSpace_of_plain (h.plain _ (List.head_mem _)))
    (isSpace_of_plain (h.plain _ (List.getLast_mem _)))

theorem trimSpace : trimSpace text = text := h.trimSpace_append [] (by simp)

theorem removeScalarQuotes : removeScalarQuotes text = text := by
  obtain ⟨b, rest, rfl⟩ := List.exists_cons_of_ne_nil h.ne_nil
  have hb := h.plain b List.mem_cons_self
  simp only [Cspot.plain, Bool.and_eq_true, bne_iff_ne] at hb
  simp [Cspot.removeScalarQuotes, h.trimSpace, hb]

end Plain

theorem cutComment_of_forall (last : Option UInt8) (h : ∀ b ∈ text, b ≠ 34 ∧ b ≠ 35 ∧ b ≠ 39) :
    cutComment last ⟨false, false, false⟩ text = text := by
  induction text generalizing last with
  | nil => rfl
  | cons c text ih =>
    obtain ⟨hdouble, hhash, hsingle⟩ := h c List.mem_cons_self
    simp [cutComment, hdouble, hhash, hsingle, ih _ fun b hb => h b (List.mem_cons_of_mem _ hb)]

structure Key (key : Bytes) : Prop extends Plain key where
  length_le : key.length ≤ 11
  noZero : (0 : UInt8) ∉ key
  noColon : (58 : UInt8) ∉ key
  noDash : key.head? ≠ some 45

theorem trimSpace_field (hkey : Key key) (hvalue : Plain value) (blanks : Bytes)
    (hblanks : ∀ b ∈ blanks, isSpace b = true) :
    trimSpace (blanks ++ (key ++ 58 :: 32 :: value)) = key ++ 58 :: 32 :: value := by
  refine trimSpace_append blanks hblanks (by simp) ?_ ?_
  · rw [List.head_append_of_ne_nil hkey.ne_nil]
    exact isSpace_of_plain (hkey.plain _ (List.head_mem _))
  · rw [List.getLast_append_of_ne_nil _ (by simp), List.getLast_cons (by simp),
      List.getLast_cons hvalue.ne_nil]
    exact isSpace_of_plain (hvalue.plain _ (List.getLast_mem _))

theorem forall_mem_field {P : UInt8 → Prop} (hblank : P 32) (hcolon : P 58)
    (hkey : ∀ b ∈ key, P b) (hvalue : ∀ b ∈ value, P b) :
    ∀ b ∈ [32, 32] ++ (key ++ 58 :: 32 :: value), P b := by
  intro b hb
  simp only [List.mem_append, List.mem_cons, List.not_mem_nil, or_false] at hb
  rcases hb with (rfl | rfl) | hb | rfl | rfl | hb
  exacts [hblank, hblank, hkey b hb, hcolon, hblank, hvalue b hb]

theorem splitKeyValue_append (hkey : Key key) (hvalue : Plain value) :
    splitKeyValue (key ++ 58 :: 32 :: value) = some (key, value) := by
  have hline := trimSpace_field hkey hvalue [] (by simp)
  rw [List.nil_append] at hline
  have hdash : (key ++ 58 :: 32 :: value).head? ≠ some 45 := by
    rw [List.head?_append_of_ne_nil _ hkey.ne_nil]
    exact hkey.noDash
  have hcolon : ∀ b ∈ key, decide (b ≠ 58) = true := by
    intro b hb
    have : b ≠ 58 := fun heq => hkey.noColon (heq ▸ hb)
    simpa using this
  have hblank : trimSpace (32 :: value) = value :=
    hvalue.trimSpace_append [32] (List.all_eq_true.1 rfl)
  have hbefore : (key ++ 58 :: 32 :: value).takeWhile (· ≠ 58) = key := by
    rw [List.takeWhile_append_of_pos hcolon]
    simp
  have hbehind : (key ++ 58 :: 32 :: value).dropWhile (· ≠ 58) = 58 :: 32 :: value := by
    rw [List.dropWhile_append_of_pos hcolon]
    simp
  have hmem : ¬ (58 : UInt8) ∉ key ++ 58 :: 32 :: value := by simp
  rw [splitKeyValue]
  simp only [hline, if_neg hdash, if_neg hmem, hbefore, hbehind, List.tail_cons, hblank,
    hkey.trimSpace, if_neg hkey.ne_nil]

theorem keychainLine_field (hkey : Key key) (hvalue : Plain value) :
    keychainLine ([32, 32] ++ (key ++ 58 :: 32 :: value)) = keyLine key value := by
  have hne : key ++ 58 :: 32 :: value ≠ [] := by simp
  have hbytes : ∀ b ∈ [32, 32] ++ (key ++ 58 :: 32 :: value), b ≠ 34 ∧ b ≠ 35 ∧ b ≠ 39 := by
    have hplain : ∀ b : UInt8, plain b = true → b ≠ 34 ∧ b ≠ 35 ∧ b ≠ 39 := by
      intro b hb
      simp only [plain, Bool.and_eq_true, bne_iff_ne] at hb
      exact ⟨hb.1.1.2, hb.1.2, hb.2⟩
    exact forall_mem_field (by decide) (by decide) (fun b hb => hplain b (hkey.plain b hb))
      fun b hb => hplain b (hvalue.plain b hb)
  have htext : trimSpace (removeYamlComment ([32, 32] ++ (key ++ 58 :: 32 :: value))) =
      key ++ 58 :: 32 :: value := by
    rw [removeYamlComment, cutComment_of_forall none hbytes]
    exact trimSpace_field hkey hvalue [32, 32] (List.all_eq_true.1 rfl)
  have hcolon (other : Bytes) (hother : (58 : UInt8) ∉ other) :
      key ++ 58 :: 32 :: value ≠ other := by
    intro heq
    exact hother (heq ▸ by simp)
  rw [keychainLine]
  simp only [htext, hne, hcolon (Bytes.ofString "---") (by decide),
    hcolon (Bytes.ofString "...") (by decide), or_self, if_false,
    splitKeyValue_append hkey hvalue, hvalue.removeScalarQuotes]

/-! ## The file line by line -/

theorem fgetsAll_line {room : Nat} (hline : newline ∉ line) (rest buffer : Bytes)
    (hroom : buffer.length + line.length < room) :
    fgetsAll room (line ++ newline :: rest) buffer =
      ⟨buffer ++ line ++ [newline], false⟩ :: fgetsAll room rest [] := by
  induction line generalizing buffer with
  | nil => simp [fgetsAll]
  | cons c line ih =>
    rw [List.mem_cons, not_or] at hline
    rw [List.length_cons] at hroom
    have hmore : ¬ (c = newline ∨ (buffer ++ [c]).length = room) := by
      rintro (h | h)
      · exact hline.1 h.symm
      · rw [List.length_append, List.length_singleton] at h
        omega
    rw [List.cons_append, fgetsAll]
    simp only [if_neg hmore]
    rw [ih hline.2 _ (by rw [List.length_append, List.length_singleton]; omega)]
    simp

def searchFrom (woofName file : Bytes) (st : KeychainState) : Option Wcap :=
  searchLines woofName (fgetsAll 8191 file []) st

theorem searchFrom_line (hline : newline ∉ line) (hzero : (0 : UInt8) ∉ line)
    (hroom : line.length < 8191) (hentry : keychainLine line = entry) (hstop : entry ≠ .stop)
    (woofName rest : Bytes) (st : KeychainState) :
    searchFrom woofName (line ++ newline :: rest) st =
      if (st.read entry).2 && (st.read entry).1.complete woofName then
        some (st.read entry).1.cap
      else searchFrom woofName rest (st.read entry).1 := by
  have hcstr : Fgets.line ⟨line ++ [newline], false⟩ = line ++ [newline] := by
    refine cstr_of_notMem fun h => ?_
    rcases List.mem_append.1 h with h | h
    · exact hzero h
    · exact absurd h (by decide)
  have hlong : Fgets.tooLong ⟨line ++ [newline], false⟩ = false := by
    rw [Fgets.tooLong, hcstr]
    simp
  unfold searchFrom
  rw [fgetsAll_line hline rest [] (by simpa using hroom), List.nil_append, searchLines]
  simp [hlong, hcstr, keychainLine_append_newline, hentry, hstop]

/-! ## Records -/

/-- Names that need no quotes: up to 4095 bytes, none of them a blank, a quote, a hash or a
control character. -/
structure KeychainName (name : Bytes) : Prop where
  length_pos : 1 ≤ name.length
  length_le : name.length ≤ 4095
  bytes : ∀ b ∈ name, isSpace b = false ∧ b ≠ 34 ∧ b ≠ 39 ∧ b ≠ 35 ∧ 32 ≤ b ∧ b ≠ 127

structure KeychainRecord where
  isNamespace : Bool
  woofName : Bytes
  cap : Wcap

def KeychainRecord.print (record : KeychainRecord) : Bytes :=
  if record.isNamespace then wooFNamespaceCapPrint record.woofName record.cap
  else wooFCapPrint record.woofName record.cap

theorem KeychainName.toPlain {name : Bytes} (h : KeychainName name) : Plain name := by
  refine ⟨List.length_pos_iff.1 h.length_pos, fun b hb => ?_⟩
  obtain ⟨hspace, hdouble, hsingle, hhash, -, -⟩ := h.bytes b hb
  simp [plain, hspace, hdouble, hsingle, hhash]

theorem plain_hex (n : Nat) : Plain (Hex.ofNat 8 n) := by
  refine ⟨by rw [← List.length_pos_iff, Hex.length_ofNat]; decide, fun b hb => ?_⟩
  obtain ⟨d, hd, rfl⟩ := Hex.eq_digit_of_mem_ofNat hb
  have hall : ∀ d : Fin 16, plain (Hex.digit d) = true := by decide
  exact hall ⟨d, hd⟩

theorem plain_decimal (n : Nat) : Plain (Decimal.ofNat n) := by
  refine ⟨Decimal.ofNat_ne_nil n, fun b hb => ?_⟩
  have hdigit := Decimal.isDigit_of_mem_ofNat hb
  have hspace := (Decimal.isSpace_of_isDigit hdigit).1
  simp only [Decimal.isDigit, Bool.and_eq_true, decide_eq_true_eq] at hdigit
  have hne (c : UInt8) (hc : ¬ 48 ≤ c) : b ≠ c := fun heq => hc (heq ▸ hdigit.1)
  simp [plain, hspace, hne 34 (by decide), hne 35 (by decide), hne 39 (by decide)]

theorem parsePermissionValue_print (permissions : UInt32) :
    parsePermissionValue (Hex.ofNat 8 permissions.toNat) = some permissions := by
  have hlt := permissions.toNat_lt
  have hmod : ¬ Word.modulus ≤ permissions.toNat := by
    rw [Word.modulus]
    omega
  rw [parsePermissionValue, if_neg (plain_hex _).ne_nil,
    Hex.scan_ofNat (by decide) (by omega : permissions.toNat < 16 ^ 8)]
  have hrest : trimSpace [] = [] := rfl
  simp [hmod, hrest, Nat.not_le.2 hlt]

theorem parseCheckValue_print (check : UInt64) :
    parseCheckValue (Decimal.ofNat check.toNat) = some check := by
  have hmod : ¬ Word.modulus ≤ check.toNat := Nat.not_le.2 check.toNat_lt
  rw [parseCheckValue, if_neg (Decimal.ofNat_ne_nil _), Decimal.scan_ofNat]
  have hrest : trimSpace [] = [] := rfl
  simp [hmod, hrest]

def KeychainRecord.read (record : KeychainRecord) : KeychainState :=
  ⟨true, true, true, true, record.woofName, record.cap.permissions, record.cap.check⟩

theorem ne_newline_of_plain (h : plain b = true) : b ≠ newline := by
  rintro rfl
  cases h

theorem searchFrom_field (hkey : Key key) (hvalue : Plain value) (hlen : value.length ≤ 4095)
    (hzero : (0 : UInt8) ∉ value) (hentry : keyLine key value = entry) (hstop : entry ≠ .stop)
    (woofName rest : Bytes) (st : KeychainState) :
    searchFrom woofName ([32, 32] ++ (key ++ 58 :: 32 :: value) ++ newline :: rest) st =
      if (st.read entry).2 && (st.read entry).1.complete woofName then
        some (st.read entry).1.cap
      else searchFrom woofName rest (st.read entry).1 := by
  have hall : ∀ b ∈ [32, 32] ++ (key ++ 58 :: 32 :: value), b ≠ newline ∧ b ≠ 0 :=
    forall_mem_field (by decide) (by decide)
      (fun b hb =>
        ⟨ne_newline_of_plain (hkey.plain b hb), Bytes.ne_zero_of_notMem hkey.noZero b hb⟩)
      fun b hb => ⟨ne_newline_of_plain (hvalue.plain b hb), Bytes.ne_zero_of_notMem hzero b hb⟩
  refine searchFrom_line (fun h => (hall _ h).1 rfl) (fun h => (hall _ h).2 rfl) ?_
    ((keychainLine_field hkey hvalue).trans hentry) hstop woofName rest st
  have hshort := hkey.length_le
  simp only [List.length_append, List.length_cons, List.length_nil]
  omega

theorem key_name : Key (Bytes.ofString "name") :=
  ⟨⟨by decide, List.all_eq_true.1 rfl⟩, by decide, by decide, by decide, by decide⟩

theorem key_permissions : Key (Bytes.ofString "permissions") :=
  ⟨⟨by decide, List.all_eq_true.1 rfl⟩, by decide, by decide, by decide, by decide⟩

theorem key_check : Key (Bytes.ofString "check") :=
  ⟨⟨by decide, List.all_eq_true.1 rfl⟩, by decide, by decide, by decide, by decide⟩

theorem zero_notMem_hex (n : Nat) : (0 : UInt8) ∉ Hex.ofNat 8 n := by
  intro h
  obtain ⟨d, hd, hzero⟩ := Hex.eq_digit_of_mem_ofNat h
  have := Hex.value_digit hd
  rw [← hzero] at this
  cases this

theorem length_decimal_le (check : UInt64) : (Decimal.ofNat check.toNat).length ≤ 4095 := by
  have hlt : check.toNat < 10 ^ 20 := Nat.lt_trans check.toNat_lt (by decide)
  have hlen : (Nat.toDigits 10 check.toNat).length ≤ 20 :=
    (Nat.length_toDigits_le_iff (by decide) (by decide)).2 hlt
  rw [Decimal.ofNat, List.length_map]
  omega

section Lines

variable (woofName rest : Bytes) (st : KeychainState)

theorem searchFrom_name {name : Bytes} (hname : KeychainName name) :
    searchFrom woofName
        ([32, 32] ++ (Bytes.ofString "name" ++ 58 :: 32 :: name) ++ newline :: rest) st =
      searchFrom woofName rest ⟨true, true, false, false, name, st.currentPermissions,
        st.currentCheck⟩ := by
  have hzero : (0 : UInt8) ∉ name := by
    intro h
    obtain ⟨-, -, -, -, hlow, -⟩ := hname.bytes 0 h
    exact absurd hlow (by decide)
  have hfits : ¬ (name = [] ∨ 4096 ≤ name.length) := by
    rintro (h | h)
    · exact hname.toPlain.ne_nil h
    · have := hname.length_le
      omega
  rw [searchFrom_field key_name hname.toPlain hname.length_le hzero
    (by rfl : keyLine (Bytes.ofString "name") name = .name name) (by simp)]
  simp [KeychainState.read, if_neg hfits]

theorem searchFrom_permissions (permissions : UInt32) (hrecord : st.inRecord = true)
    (hcheck : st.haveCheck = false) :
    searchFrom woofName ([32, 32] ++ (Bytes.ofString "permissions" ++ 58 :: 32 ::
        Hex.ofNat 8 permissions.toNat) ++ newline :: rest) st =
      searchFrom woofName rest
        { st with currentPermissions := permissions, havePermissions := true } := by
  rw [searchFrom_field key_permissions (plain_hex _) (by rw [Hex.length_ofNat]; decide)
    (zero_notMem_hex _) (by rfl : keyLine (Bytes.ofString "permissions")
      (Hex.ofNat 8 permissions.toNat) = .permissions (Hex.ofNat 8 permissions.toNat)) (by simp)]
  simp [KeychainState.read, hrecord, hcheck, parsePermissionValue_print, KeychainState.complete]

theorem searchFrom_check (check : UInt64) (hrecord : st.inRecord = true) :
    searchFrom woofName ([32, 32] ++ (Bytes.ofString "check" ++ 58 :: 32 ::
        Decimal.ofNat check.toNat) ++ newline :: rest) st =
      if st.haveName && st.havePermissions && decide (st.currentName = woofName) then
        some ⟨st.currentPermissions, 0, 0, check⟩
      else searchFrom woofName rest { st with currentCheck := check, haveCheck := true } := by
  rw [searchFrom_field key_check (plain_decimal _) (length_decimal_le _)
    (fun h => Decimal.ofNat_ne_zero _ h rfl) (by rfl : keyLine (Bytes.ofString "check")
      (Decimal.ofNat check.toNat) = .check (Decimal.ofNat check.toNat)) (by simp)]
  simp [KeychainState.read, hrecord, parseCheckValue_print, KeychainState.complete,
    KeychainState.cap]

end Lines

theorem searchFrom_header {header : Bytes}
    (hheader : header = Bytes.ofString "woof:" ∨ header = Bytes.ofString "namespace:")
    (woofName rest : Bytes) (st : KeychainState) :
    searchFrom woofName (header ++ newline :: rest) st =
      searchFrom woofName rest (st.read .record).1 := by
  rcases hheader with rfl | rfl
  · rfl
  · rfl

theorem searchFrom_print (record : KeychainRecord) (hname : KeychainName record.woofName)
    (woofName rest : Bytes) (st : KeychainState) :
    searchFrom woofName (record.print ++ rest) st =
      if record.woofName = woofName then
        some ⟨record.cap.permissions, 0, 0, record.cap.check⟩
      else searchFrom woofName rest record.read := by
  obtain ⟨header, hheader, hprint⟩ : ∃ header,
      (header = Bytes.ofString "woof:" ∨ header = Bytes.ofString "namespace:") ∧
        record.print = capPrint header record.woofName record.cap := by
    unfold KeychainRecord.print
    split
    · exact ⟨_, Or.inr rfl, rfl⟩
    · exact ⟨_, Or.inl rfl, rfl⟩
  have hlines : record.print ++ rest = header ++ newline ::
      ([32, 32] ++ (Bytes.ofString "name" ++ 58 :: 32 :: record.woofName) ++ newline ::
      ([32, 32] ++ (Bytes.ofString "permissions" ++ 58 :: 32 ::
        Hex.ofNat 8 record.cap.permissions.toNat) ++ newline ::
      ([32, 32] ++ (Bytes.ofString "check" ++ 58 :: 32 ::
        Decimal.ofNat record.cap.check.toNat) ++ newline :: rest))) := by
    rw [hprint, capPrint, show Bytes.ofString "  name: " =
      [32, 32] ++ Bytes.ofString "name" ++ [58, 32] by decide,
      show Bytes.ofString "  permissions: " =
        [32, 32] ++ Bytes.ofString "permissions" ++ [58, 32] by decide,
      show Bytes.ofString "  check: " =
        [32, 32] ++ Bytes.ofString "check" ++ [58, 32] by decide]
    simp
  rw [hlines, searchFrom_header hheader, searchFrom_name _ _ _ hname,
    searchFrom_permissions _ _ _ _ rfl rfl, searchFrom_check _ _ _ _ rfl]
  simp [KeychainRecord.read]

/-- A file of printed records is searched for the first one of the name. -/
theorem searchFrom_records {records : List KeychainRecord}
    (hnames : ∀ record ∈ records, KeychainName record.woofName) (woofName : Bytes)
    (st : KeychainState) :
    searchFrom woofName (records.flatMap KeychainRecord.print) st =
      (records.find? fun record => decide (record.woofName = woofName)).map fun record =>
        ⟨record.cap.permissions, 0, 0, record.cap.check⟩ := by
  induction records generalizing st with
  | nil => rfl
  | cons record records ih =>
    obtain ⟨hname, hnames⟩ := List.forall_mem_cons.1 hnames
    rw [List.flatMap_cons, searchFrom_print record hname, List.find?_cons]
    by_cases hsame : record.woofName = woofName
    · simp [hsame]
    · simp [hsame, ih hnames]

def sampleRecords : List KeychainRecord :=
  [⟨false, Bytes.ofString "woof://h/ns/data", ⟨0x3, 0, 0, 7⟩⟩,
    ⟨true, Bytes.ofString "woof://h/ns", ⟨0x1f, 0, 0, 1234567890⟩⟩]

end Cspot
