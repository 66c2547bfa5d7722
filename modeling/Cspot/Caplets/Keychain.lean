import Mathlib.Data.List.DropRight
import Cspot.Lib.Hex
import Cspot.Caplets.Capability

/-!
# Keychain files

A client keeps its capabilities in a text file, one record behind the other.  The file is
read line by line into a fixed buffer; comments, blanks and quotes are taken off, and the
line is split at its first colon.
-/

namespace Cspot

open Decimal (isSpace)
open Bytes (newline)

/-! ## One line -/

def trimSpace (text : Bytes) : Bytes := (text.dropWhile isSpace).rdropWhile isSpace

/-- Where the scan for a comment stands with respect to quotes. -/
structure Quotes where
  inSingleQuote : Bool
  inDoubleQuote : Bool
  escaped : Bool
deriving DecidableEq

/-- The loop of `remove_yaml_comment`, behind the character `last`. -/
def cutComment : Option UInt8 → Quotes → Bytes → Bytes
  | _, _, [] => []
  | last, q, c :: rest =>
    if q.escaped then c :: cutComment (some c) { q with escaped := false } rest
    else if c = 92 ∧ q.inDoubleQuote then c :: cutComment (some c) { q with escaped := true } rest
    else if c = 39 ∧ q.inDoubleQuote = false then
      c :: cutComment (some c) { q with inSingleQuote := !q.inSingleQuote } rest
    else if c = 34 ∧ q.inSingleQuote = false then
      c :: cutComment (some c) { q with inDoubleQuote := !q.inDoubleQuote } rest
    else if c = 35 ∧ q.inSingleQuote = false ∧ q.inDoubleQuote = false ∧
        last.all isSpace = true then []
    else c :: cutComment (some c) q rest

def removeYamlComment (text : Bytes) : Bytes := cutComment none ⟨false, false, false⟩ text

def removeScalarQuotes (text : Bytes) : Bytes :=
  let text := trimSpace text
  if 2 ≤ text.length ∧ ((text.head? = some 34 ∧ text.getLast? = some 34) ∨
      (text.head? = some 39 ∧ text.getLast? = some 39)) then text.tail.dropLast
  else text

/-- The key and the value around the first colon, none without a colon or a key. -/
def splitKeyValue (line : Bytes) : Option (Bytes × Bytes) :=
  let line := trimSpace line
  let line := if line.head? = some 45 then trimSpace line.tail else line
  if (58 : UInt8) ∉ line then none
  else
    let key := trimSpace (line.takeWhile (· ≠ 58))
    let value := trimSpace (line.dropWhile (· ≠ 58)).tail
    if key = [] then none else some (key, value)

/-- `strtoul` to the base 16, none for what does not fit 32 bits or has more behind it. -/
def parsePermissionValue (text : Bytes) : Option UInt32 :=
  if text = [] then none
  else
    match Hex.scan text with
    | none => none
    | some r =>
      let value := if r.negative then Word.sub 0 r.magnitude else r.magnitude
      if Word.modulus ≤ r.magnitude ∨ trimSpace r.rest ≠ [] ∨ 2 ^ 32 ≤ value then none
      else some (UInt32.ofNat value)

def parseCheckValue (text : Bytes) : Option UInt64 :=
  if text = [] then none
  else
    match Decimal.scan text with
    | none => none
    | some r =>
      let value := if r.negative then Word.sub 0 r.magnitude else r.magnitude
      if Word.modulus ≤ r.magnitude ∨ trimSpace r.rest ≠ [] then none
      else some (UInt64.ofNat value)

inductive KeychainLine
  /-- Blank, `---`, without a key, or with a key that has no meaning. -/
  | skip
  /-- The line `...`. -/
  | stop
  /-- `woof:` or `namespace:`. -/
  | record
  /-- `woofs:` or `namespaces:`. -/
  | container
  | name (value : Bytes)
  | permissions (value : Bytes)
  | check (value : Bytes)
deriving DecidableEq

def keyLine (key value : Bytes) : KeychainLine :=
  if (key = Bytes.ofString "woof" ∨ key = Bytes.ofString "namespace") ∧ value = [] then .record
  else if (key = Bytes.ofString "woofs" ∨ key = Bytes.ofString "namespaces") ∧ value = [] then
    .container
  else if key = Bytes.ofString "name" then .name value
  else if key = Bytes.ofString "permissions" then .permissions value
  else if key = Bytes.ofString "check" then .check value
  else .skip

def keychainLine (line : Bytes) : KeychainLine :=
  let text := trimSpace (removeYamlComment line)
  if text = [] ∨ text = Bytes.ofString "---" then .skip
  else if text = Bytes.ofString "..." then .stop
  else
    match splitKeyValue text with
    | none => .skip
    | some (key, value) => keyLine key (removeScalarQuotes value)

/-! ## The search -/

structure KeychainState where
  inRecord : Bool
  haveName : Bool
  havePermissions : Bool
  haveCheck : Bool
  currentName : Bytes
  currentPermissions : UInt32
  currentCheck : UInt64
deriving DecidableEq

namespace KeychainState

def initial : KeychainState := ⟨false, false, false, false, [], 0, 0⟩

/-- The state behind a line, and whether the line goes on to the test for a complete
record. -/
def read (st : KeychainState) : KeychainLine → KeychainState × Bool
  | .skip => (st, false)
  | .stop => (st, false)
  | .record =>
    ({ st with
        inRecord := true
        haveName := false
        havePermissions := false
        haveCheck := false
        currentName := [] }, false)
  | .container =>
    ({ st with
        inRecord := false
        haveName := false
        havePermissions := false
        haveCheck := false
        currentName := [] }, false)
  | .name value =>
    if value = [] ∨ 4096 ≤ value.length then
      ({ st with
          inRecord := true
          havePermissions := false
          haveCheck := false
          haveName := false
          currentName := [] }, false)
    else
      ({ st with
          inRecord := true
          havePermissions := false
          haveCheck := false
          currentName := value
          haveName := true }, false)
  | .permissions value =>
    if st.inRecord = false then (st, false)
    else
      match parsePermissionValue value with
      | none => ({ st with havePermissions := false }, false)
      | some permissions =>
        ({ st with currentPermissions := permissions, havePermissions := true }, true)
  | .check value =>
    if st.inRecord = false then (st, false)
    else
      match parseCheckValue value with
      | none => ({ st with haveCheck := false }, false)
      | some check => ({ st with currentCheck := check, haveCheck := true }, true)

def complete (st : KeychainState) (woofName : Bytes) : Bool :=
  st.haveName && st.havePermissions && st.haveCheck && decide (st.currentName = woofName)

def cap (st : KeychainState) : Wcap := ⟨st.currentPermissions, 0, 0, st.currentCheck⟩

end KeychainState

/-- What one call of `fgets` leaves in the buffer, and whether it met the end of the file. -/
structure Fgets where
  buffer : Bytes
  eof : Bool
deriving DecidableEq

/-- All calls of `fgets` with a buffer for `room` characters and a terminator. -/
def fgetsAll (room : Nat) : (file buffer : Bytes) → List Fgets
  | [], [] => []
  | [], c :: buffer => [⟨c :: buffer, true⟩]
  | c :: file, buffer =>
    let buffer := buffer ++ [c]
    if c = newline ∨ buffer.length = room then ⟨buffer, false⟩ :: fgetsAll room file []
    else fgetsAll room file buffer

def Fgets.line (got : Fgets) : Bytes := Bytes.cstr got.buffer

def Fgets.tooLong (got : Fgets) : Bool := decide (newline ∉ got.line) && !got.eof

def searchLines (woofName : Bytes) : List Fgets → KeychainState → Option Wcap
  | [], _ => none
  | got :: rest, st =>
    if got.tooLong then none
    else if keychainLine got.line = .stop then none
    else
      let (st, test) := st.read (keychainLine got.line)
      if test && st.complete woofName then some st.cap else searchLines woofName rest st

/-- `SearchKeychain` over the contents of the file, none for the result -1. -/
def searchKeychainFile (file woofName : Bytes) : Option Wcap :=
  searchLines woofName (fgetsAll 8191 file []) .initial

/-! ## Printing -/

/-- One record, under the header `woof:` or `namespace:`. -/
def capPrint (header woofName : Bytes) (cap : Wcap) : Bytes :=
  header ++ [newline] ++
    (Bytes.ofString "  name: " ++ woofName ++ [newline]) ++
    (Bytes.ofString "  permissions: " ++ Hex.ofNat 8 cap.permissions.toNat ++ [newline]) ++
    (Bytes.ofString "  check: " ++ Decimal.ofNat cap.check.toNat ++ [newline])

def wooFCapPrint (woofName : Bytes) (cap : Wcap) : Bytes :=
  capPrint (Bytes.ofString "woof:") woofName cap

def wooFNamespaceCapPrint (woofName : Bytes) (cap : Wcap) : Bytes :=
  capPrint (Bytes.ofString "namespace:") woofName cap

end Cspot
