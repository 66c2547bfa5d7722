import Cspot.Runtime.Log

/-!
# Names inside URIs

A remote request names a woof by a URI whose path ends in the name of a file in the
directory of the server.  The URI parser is a library the process is linked with; it
enters as the function that gives the path of a URI it can parse.
-/

namespace Cspot

abbrev UriPath := Bytes → Option Bytes

def strstr (s needle : Bytes) : Bool := s.tails.any fun tail => needle.isPrefixOf tail

def wooFValidURI (str : Bytes) : Bool :=
  strstr str (Bytes.ofString "woof://") || strstr str (Bytes.ofString "cmq://") ||
    strstr str (Bytes.ofString "zmq://") || strstr str (Bytes.ofString "mqtt://")

def slash : UInt8 := 47

def lastComponent (path : Bytes) : Bytes :=
  (path.reverse.takeWhile fun b => decide (b ≠ slash)).reverse

def wooFNameFromURI (uriPath : UriPath) (woofUriStr : Bytes) (len : Nat) :
    Exec (Option Bytes) :=
  if wooFValidURI woofUriStr = false then .ok none
  else
    match uriPath woofUriStr with
    | none => .ok none
    | some path =>
      -- the index that walks back to the slash is unsigned and never below zero
      if slash ∉ path then .error .outOfBounds
      else if (lastComponent path).length + 1 > len then .ok none
      else .ok (some (lastComponent path))

def wooFLocalName (uriPath : UriPath) (woofName : Bytes) : Exec (Option Bytes) :=
  wooFNameFromURI uriPath woofName 1024

def endsInCap (name : Bytes) : Bool :=
  let ending := name.drop (name.length - 4)
  ending = Bytes.ofString ".CAP" || ending = Bytes.ofString ".cap"

def wooFIsCAPName (uriPath : UriPath) (woofUriStr : Bytes) : Exec Int := do
  match ← wooFNameFromURI uriPath woofUriStr 4096 with
  | none => return -1
  | some localName =>
    if localName.length < 4 then return -1
    else if endsInCap localName then return 1
    else return 0

/-- The URI without its last component, within the first kilobyte. -/
def wooFNamespaceURI (woofName : Bytes) : Bytes :=
  ((woofName.take 1024).reverse.dropWhile fun b => decide (b ≠ slash)).tail.reverse

/-! ## Names free of slashes -/

theorem slash_notMem_lastComponent (path : Bytes) : slash ∉ lastComponent path := by
  intro h
  have h' := List.mem_takeWhile_imp (List.mem_reverse.1 h)
  simp at h'

theorem slash_notMem_of_nameFromURI {uriPath : UriPath} {woofUriStr : Bytes} {len : Nat}
    {name : Option Bytes} (h : wooFNameFromURI uriPath woofUriStr len = .ok name) :
    slash ∉ name.getD [] := by
  unfold wooFNameFromURI at h
  split at h
  · cases h
    simp
  · split at h
    · cases h
      simp
    · split at h
      · cases h
      · split at h
        · cases h
          simp
        · cases h
          exact slash_notMem_lastComponent _

theorem mem_of_strstr {s needle : Bytes} {b : UInt8} (h : strstr s needle = true)
    (hb : b ∈ needle) : b ∈ s := by
  obtain ⟨tail, htail, hprefix⟩ := List.any_eq_true.1 h
  have hsub : needle <+: tail := List.isPrefixOf_iff_prefix.1 hprefix
  exact ((List.mem_tails _ _).1 htail).subset (hsub.subset hb)

/-- Every scheme has a slash in it, so a bare file name is never taken for a URI. -/
theorem wooFValidURI_of_slash_notMem {s : Bytes} (h : slash ∉ s) : wooFValidURI s = false := by
  have hscheme (scheme : Bytes) (hs : slash ∈ scheme) : strstr s scheme = false :=
    Bool.eq_false_iff.2 fun hfound => h (mem_of_strstr hfound hs)
  simp [wooFValidURI, hscheme _ (by decide : slash ∈ Bytes.ofString "woof://"), hscheme _ (by decide
    : slash ∈ Bytes.ofString "cmq://"), hscheme _ (by decide : slash ∈ Bytes.ofString "zmq://"),
    hscheme _ (by decide : slash ∈ Bytes.ofString "mqtt://")]

/-! ## URIs with a given name -/

/-- The name as the handlers hold it, none when it does not fit. -/
def fileName (name : Bytes) : Option Bytes := if name.length < 1024 then some name else none

/-- The URI is well formed and its path ends in this name. -/
structure NamedBy (uriPath : UriPath) (woofUriStr name : Bytes) : Prop where
  valid : wooFValidURI woofUriStr = true
  path : ∃ path, uriPath woofUriStr = some path ∧ slash ∈ path ∧ lastComponent path = name

namespace NamedBy

variable {uriPath : UriPath} {woofUriStr name : Bytes}

section

variable (h : NamedBy uriPath woofUriStr name)
include h

theorem slash_notMem : slash ∉ name := by
  obtain ⟨path, -, -, rfl⟩ := h.path
  exact slash_notMem_lastComponent path

theorem nameFromURI (len : Nat) :
    wooFNameFromURI uriPath woofUriStr len =
      .ok (if name.length < len then some name else none) := by
  obtain ⟨path, hpath, hslash, hlast⟩ := h.path
  simp only [wooFNameFromURI, h.valid, hpath, hlast, hslash, not_true_eq_false,
    Bool.true_eq_false, if_false]
  split <;> split <;> first | rfl | omega

theorem localName : wooFLocalName uriPath woofUriStr = .ok (fileName name) :=
  h.nameFromURI 1024

/-- The guard of the handlers turns away a name with the capability ending, and one
too long to look at. -/
theorem isCAPName_of_endsInCap (hcap : endsInCap name = true) :
    ∃ err, wooFIsCAPName uriPath woofUriStr = .ok err ∧ (err = 1 ∨ err < 0) := by
  rw [wooFIsCAPName, h.nameFromURI]
  by_cases hlen : name.length < 4096
  · by_cases hshort : name.length < 4
    · exact ⟨-1, by simp [hlen, hshort], Or.inr (by decide)⟩
    · exact ⟨1, by simp [hlen, hshort, hcap], Or.inl rfl⟩
  · exact ⟨-1, by simp [hlen], Or.inr (by decide)⟩

theorem isCAPName_eq_zero (hlen : name.length < 4096) (hshort : 4 ≤ name.length)
    (hcap : endsInCap name = false) :
    wooFIsCAPName uriPath woofUriStr = .ok 0 := by
  have hshort' : ¬ name.length < 4 := by omega
  rw [wooFIsCAPName, h.nameFromURI]
  simp [hlen, hshort', hcap]

end

end NamedBy

end Cspot
