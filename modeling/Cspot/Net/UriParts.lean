import Cspot.Net.LocalNames

/-!
# The parts of a URI

Three functions take a URI apart.  Two of them walk back over the path the parser gives,
one walks forward over the URI itself, and each looks for the last slash in its own way.
-/

namespace Cspot

/-! ## The three scans -/

/-- The path in front of the last slash, in a zeroed buffer of `len` characters. -/
def wooFNameSpaceFromURI (uriPath : UriPath) (woofUriStr : Bytes) (len : Nat) :
    Exec (Option Bytes) :=
  if wooFValidURI woofUriStr = false then .ok none
  else
    match uriPath woofUriStr with
    | none => .ok none
    | some path =>
      if slash ∉ path then .error .outOfBounds
      else
        let i := path.length - (lastComponent path).length - 1
        if i = 0 ∨ len < i then .ok none
        -- no terminator behind the last character
        else if i = len then .error .outOfBounds
        else .ok (some (path.take i))

/-- The loop of `WooFNamespaceURI`: where it saw the last slash when it stops at the end of
the string, or behind `len` characters of it. -/
def lastSlash (len : Nat) : Bytes → Nat → Option Nat → Option Nat
  | [], _, p => p
  | c :: next, i, p =>
    let p := if c = slash then some i else p
    if len ≤ i + 1 then p else lastSlash len next (i + 1) p

/-- `WooFNamespaceURI` with a buffer of `len` characters, none for the result -1. -/
def wooFNamespaceURIWithin (woofName : Bytes) (len : Nat) : Option Bytes :=
  match lastSlash len woofName 0 none with
  | none => none
  | some p =>
    -- the test for a slash at the end compares with the start of the name
    if p + 1 = 0 then none else some (woofName.take p)

def wooFNameHash (woofNamespace : Bytes) : Nat :=
  woofNamespace.foldl (fun h c => (h * 33 + c.toNat) % Word.modulus) 5381

/-- The port of the server of a namespace, for a URI that gives none. -/
def wooFPortHash (woofNamespace : Bytes) : Nat := 50000 + wooFNameHash woofNamespace % 10000

/-! ## The last slash -/

variable {name : Bytes} {len : Nat}

theorem lastComponent_append_cons (front : Bytes) (hname : slash ∉ name) :
    lastComponent (front ++ slash :: name) = name := by
  have hall : ∀ b ∈ name.reverse, decide (b ≠ slash) = true := by
    intro b hb
    have : b ≠ slash := fun h => hname (h ▸ List.mem_reverse.1 hb)
    simpa using this
  rw [lastComponent, List.reverse_append, List.reverse_cons, List.append_assoc,
    List.takeWhile_append_of_pos hall]
  simp

theorem eq_append_lastComponent {path : Bytes} (h : slash ∈ path) :
    ∃ front, path = front ++ slash :: lastComponent path := by
  induction path with
  | nil => simp at h
  | cons b rest ih =>
    by_cases hrest : slash ∈ rest
    · obtain ⟨front, hfront⟩ := ih hrest
      refine ⟨b :: front, ?_⟩
      have hlast : lastComponent (b :: rest) = lastComponent rest := by
        conv_lhs => rw [hfront, ← List.cons_append]
        exact lastComponent_append_cons _ (slash_notMem_lastComponent rest)
      rw [hlast, List.cons_append, ← hfront]
    · obtain rfl : b = slash := by
        rcases List.mem_cons.1 h with h | h
        · exact h.symm
        · exact absurd h hrest
      exact ⟨[], by rw [← List.nil_append (slash :: rest), lastComponent_append_cons [] hrest]⟩

theorem lastComponent_eq_nil_iff {path : Bytes} (h : slash ∈ path) :
    lastComponent path = [] ↔ path.getLast? = some slash := by
  obtain ⟨front, hfront⟩ := eq_append_lastComponent h
  constructor
  · intro hnil
    rw [hfront, hnil, List.getLast?_concat]
  · intro hlast
    by_contra hne
    rw [hfront, List.getLast?_append_of_ne_nil _ (List.cons_ne_nil _ _),
      List.getLast?_cons, List.getLast?_eq_some_getLast hne, Option.getD_some] at hlast
    have hmem := List.getLast_mem hne
    rw [Option.some.inj hlast] at hmem
    exact slash_notMem_lastComponent path hmem

theorem lastSlash_of_notMem {rest : Bytes} (h : slash ∉ rest) (i : Nat) (p : Option Nat) :
    lastSlash len rest i p = p := by
  induction rest generalizing i with
  | nil => rfl
  | cons c rest ih =>
    rw [List.mem_cons, not_or] at h
    simp [lastSlash, if_neg (Ne.symm h.1), ih h.2]

theorem lastSlash_append (front : Bytes) (hname : slash ∉ name) (i : Nat) (p : Option Nat)
    (hfits : i + front.length < len) :
    lastSlash len (front ++ slash :: name) i p = some (i + front.length) := by
  induction front generalizing i p with
  | nil =>
    simp [lastSlash, lastSlash_of_notMem hname]
  | cons c front ih =>
    rw [List.length_cons] at hfits
    have hmore : ¬ len ≤ i + 1 := by omega
    rw [List.cons_append, lastSlash, if_neg hmore, ih _ _ (by omega), List.length_cons]
    congr 1
    omega

theorem lt_of_lastSlash {s : Bytes} {i q : Nat} {p : Option Nat} (hi : i < len)
    (hp : ∀ q ∈ p, q < len) (h : lastSlash len s i p = some q) : q < len := by
  induction s generalizing i p with
  | nil => exact hp q h
  | cons c next ih =>
    have hp' : ∀ q ∈ (if c = slash then some i else p), q < len := by
      intro q hq
      split at hq
      · cases hq
        exact hi
      · exact hp q hq
    rw [lastSlash] at h
    split at h
    · exact hp' q h
    · exact ih (by omega) hp' h

/-- Within its buffer the forward scan cuts a text at the last slash, and nowhere else does
it give the text in front of it. -/
theorem wooFNamespaceURIWithin_eq_some_iff (hlen : 0 < len) {front : Bytes} (hname : slash ∉ name) :
    wooFNamespaceURIWithin (front ++ slash :: name) len = some front ↔ front.length < len := by
  constructor
  · intro h
    unfold wooFNamespaceURIWithin at h
    cases hq : lastSlash len (front ++ slash :: name) 0 none with
    | none => simp [hq] at h
    | some q =>
      have hlt : q < len := lt_of_lastSlash hlen (by simp) hq
      have htake : (front ++ slash :: name).take q = front := by simpa [hq] using h
      have hfront : front.length ≤ q := by
        rw [← htake]
        exact List.length_take_le _ _
      exact Nat.lt_of_le_of_lt hfront hlt
  · intro h
    have hq := lastSlash_append front hname 0 none (by omega : 0 + front.length < len)
    simp [wooFNamespaceURIWithin, hq]

theorem lastSlash_take (s : Bytes) {i : Nat} (hi : i < len) (p : Option Nat) :
    lastSlash len (s.take (len - i)) i p = lastSlash len s i p := by
  induction s generalizing i p with
  | nil => rw [List.take_nil]
  | cons c next ih =>
    obtain ⟨n, hn⟩ : ∃ n, len - i = n + 1 := ⟨len - i - 1, by omega⟩
    rw [hn, List.take_succ_cons, lastSlash, lastSlash]
    split
    · rfl
    · have hrest : n = len - (i + 1) := by omega
      rw [hrest, ih (by omega)]

/-- What the callers get, who have a zeroed buffer of a kilobyte and ask for no result. -/
theorem wooFNamespaceURI_eq (woofName : Bytes) :
    wooFNamespaceURI woofName = (wooFNamespaceURIWithin woofName 1024).getD [] := by
  have htake := lastSlash_take woofName (by omega : 0 < 1024) none
  unfold wooFNamespaceURI wooFNamespaceURIWithin
  rw [← htake]
  by_cases hslash : slash ∈ woofName.take 1024
  · obtain ⟨front, hfront⟩ := eq_append_lastComponent hslash
    have hname := slash_notMem_lastComponent (woofName.take 1024)
    generalize lastComponent (woofName.take 1024) = name at hfront hname
    have hlt : 0 + front.length < 1024 := by
      have hlen := congrArg List.length hfront
      rw [List.length_take, List.length_append, List.length_cons] at hlen
      omega
    have hcut : woofName.take front.length = front := by
      have h := congrArg (List.take front.length) hfront
      rwa [List.take_take, Nat.min_eq_left (by omega), List.take_left] at h
    have hdrop : (name.reverse ++ (slash :: front.reverse)).dropWhile
        (fun b => decide (b ≠ slash)) = slash :: front.reverse := by
      rw [List.dropWhile_append_of_pos]
      · simp
      · intro b hb
        have : b ≠ slash := fun h => hname (h ▸ List.mem_reverse.1 hb)
        simpa using this
    have hrev : (front ++ slash :: name).reverse = name.reverse ++ slash :: front.reverse := by
      simp
    rw [hfront, lastSlash_append front hname 0 none hlt, hrev, hdrop]
    simp [hcut]
  · have hdrop : (woofName.take 1024).reverse.dropWhile (fun b => decide (b ≠ slash)) = [] := by
      rw [List.dropWhile_eq_nil_iff]
      intro b hb
      have : b ≠ slash := fun h => hslash (h ▸ List.mem_reverse.1 hb)
      simpa using this
    rw [hdrop, lastSlash_of_notMem hslash]
    rfl

/-! ## The parts put together -/

/-- The name and the namespace of a URI with this path, and what is left of the URI without
its name. -/
structure UriDecomposes (uriPath : UriPath) (woofUriStr path : Bytes) (nameLen nsLen uriLen : Nat) :
    Prop where
  parts : ∀ name ns, wooFNameFromURI uriPath woofUriStr nameLen = .ok (some name) →
    wooFNameSpaceFromURI uriPath woofUriStr nsLen = .ok (some ns) →
      name ≠ [] ∧ slash ∉ name ∧ path = ns ++ slash :: name
  noName : path.getLast? = some slash →
    wooFNameFromURI uriPath woofUriStr nameLen = .ok none ∧
      wooFNamespaceURIWithin woofUriStr uriLen = none
  rest : ∀ name, wooFNameFromURI uriPath woofUriStr nameLen = .ok (some name) →
    ∃ ns, wooFNamespaceURIWithin woofUriStr uriLen = some ns ∧ woofUriStr = ns ++ slash :: name

section Parts

variable {uriPath : UriPath} {woofUriStr path : Bytes} {nameLen nsLen uriLen : Nat}
  (hvalid : wooFValidURI woofUriStr = true) (hpath : uriPath woofUriStr = some path)

include hvalid hpath

theorem wooFNameFromURI_of_length_le (hname : path.length ≤ nameLen) :
    wooFNameFromURI uriPath woofUriStr nameLen =
      if slash ∈ path then .ok (some (lastComponent path)) else .error .outOfBounds := by
  by_cases hslash : slash ∈ path
  · obtain ⟨front, hfront⟩ := eq_append_lastComponent hslash
    have hlen := congrArg List.length hfront
    rw [List.length_append, List.length_cons] at hlen
    have hfits : ¬ (lastComponent path).length + 1 > nameLen := by omega
    simp [wooFNameFromURI, hvalid, hpath, hslash, hfits]
  · simp [wooFNameFromURI, hvalid, hpath, hslash]

theorem append_of_wooFNameSpaceFromURI {ns : Bytes}
    (h : wooFNameSpaceFromURI uriPath woofUriStr nsLen = .ok (some ns)) :
    path = ns ++ slash :: lastComponent path := by
  simp only [wooFNameSpaceFromURI, hvalid, hpath, Bool.true_eq_false, if_false] at h
  split at h
  · cases h
  · rename_i hslash
    obtain ⟨front, hfront⟩ := eq_append_lastComponent (not_not.1 hslash)
    have hlen := congrArg List.length hfront
    rw [List.length_append, List.length_cons] at hlen
    have hi : path.length - (lastComponent path).length - 1 = front.length := by omega
    rw [hi] at h
    split at h
    · cases h
    · split at h
      · cases h
      · have hns : path.take front.length = ns := Option.some.inj (Except.ok.inj h)
        have htake : path.take front.length = front := by
          conv_lhs => rw [hfront]
          exact List.take_left
        rw [← hns, htake]
        exact hfront

/-- Exactly the URIs that are taken apart: the path does not end in a slash, and the URI
itself ends in its last component, with the slash in front of it within the buffer. -/
theorem uriDecomposes_iff (hname : path.length ≤ nameLen) (huri : path.length ≤ uriLen) :
    UriDecomposes uriPath woofUriStr path nameLen nsLen uriLen ↔
      path.getLast? ≠ some slash ∧ (slash ∈ path →
        slash :: lastComponent path <:+ woofUriStr ∧
          woofUriStr.length ≤ uriLen + (lastComponent path).length) := by
  have hgiven := wooFNameFromURI_of_length_le hvalid hpath hname
  constructor
  · intro h
    refine ⟨fun hlast => ?_, fun hslash => ?_⟩
    · have hslash : slash ∈ path := List.mem_of_getLast? hlast
      have hnone := (h.noName hlast).1
      rw [hgiven, if_pos hslash] at hnone
      cases hnone
    · rw [if_pos hslash] at hgiven
      obtain ⟨ns, hns, huriStr⟩ := h.rest _ hgiven
      have hpos : 0 < uriLen := Nat.lt_of_lt_of_le (List.length_pos_of_mem hslash) huri
      rw [huriStr, wooFNamespaceURIWithin_eq_some_iff hpos (slash_notMem_lastComponent path)]
        at hns
      refine ⟨⟨ns, huriStr.symm⟩, ?_⟩
      have hlen := congrArg List.length huriStr
      rw [List.length_append, List.length_cons] at hlen
      omega
  · rintro ⟨hlast, hends⟩
    refine ⟨fun name ns hn hns => ?_, fun h => absurd h hlast, fun name hn => ?_⟩
    all_goals
      rw [hgiven] at hn
      split at hn
      case isFalse => cases hn
      rename_i hslash
      obtain rfl : lastComponent path = name := Option.some.inj (Except.ok.inj hn)
    · exact ⟨fun hnil => hlast ((lastComponent_eq_nil_iff hslash).1 hnil),
        slash_notMem_lastComponent path, append_of_wooFNameSpaceFromURI hvalid hpath hns⟩
    · obtain ⟨⟨front, hfront⟩, hfits⟩ := hends hslash
      refine ⟨front, ?_, hfront.symm⟩
      have hlen := congrArg List.length hfront
      rw [List.length_append, List.length_cons] at hlen
      have hpos : 0 < uriLen := Nat.lt_of_lt_of_le (List.length_pos_of_mem hslash) huri
      rw [← hfront, wooFNamespaceURIWithin_eq_some_iff hpos (slash_notMem_lastComponent path)]
      omega

end Parts

def samplePath : UriPath := fun woofUriStr => some (woofUriStr.drop 8)

theorem uriDecomposes_iff_woof :
    UriDecomposes samplePath (Bytes.ofString "woof://h/ns/data") (Bytes.ofString "/ns/data")
      64 64 64 :=
  (uriDecomposes_iff (by decide) (by rfl) (by decide) (by decide)).2 (by decide)

/-- A path that ends in a slash gives an empty name, and the URI without the slash. -/
theorem trailing_slash_gives_empty_name :
    wooFNameFromURI samplePath (Bytes.ofString "woof://h/ns/") 64 = .ok (some []) ∧
      wooFNamespaceURIWithin (Bytes.ofString "woof://h/ns/") 64 =
        some (Bytes.ofString "woof://h/ns") ∧
      ¬ UriDecomposes samplePath (Bytes.ofString "woof://h/ns/") (Bytes.ofString "/ns/")
          64 64 64 := by
  refine ⟨rfl, by decide, fun h => ?_⟩
  have hnone := (h.noName (by decide)).1
  cases hnone

end Cspot
