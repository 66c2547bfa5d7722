import Cspot.Net.Server

/-!
# Paths of local woofs

Four functions of the library put the path of a woof together from `WooF_dir` and a name
that is a file name or a URI.  They are written out four times, and they differ in what
they do with a URI and with a slash at the end of the directory.
-/

namespace Cspot

/-! ## The process -/

structure Host where
  uriPath : UriPath
  /-- `WooFIPAddrFromURI`: the address of the host in a URI, if there is one. -/
  uriIp : Bytes → Option Bytes
  localIp : Bytes
  wooFNamespace : Bytes
  wooFDir : Bytes
  wooFDir_length : wooFDir.length < 2048
  /-- Whether `MIOOpen` maps a new file of this size at the path. -/
  mioOpen : Bytes → UInt64 → Bool
  /-- What earlier calls left where `WooFCreate` has its `fname`. -/
  fname : Bytes

/-- The path in front of the last slash, in an array of 1024 characters. -/
def nsFromUri (uriPath : UriPath) (woofUriStr : Bytes) : Exec (Option Bytes) :=
  if wooFValidURI woofUriStr = false then .ok none
  else
    match uriPath woofUriStr with
    | none => .ok none
    | some path =>
      if slash ∉ path then .error .outOfBounds
      else
        let i := path.length - (lastComponent path).length - 1
        if i = 0 ∨ 1024 < i then .ok none
        -- no terminator behind the last character
        else if i = 1024 then .error .outOfBounds
        else .ok (some (path.take i))

/-- A name without a namespace is local, whatever its host. -/
def Host.isRemoteWoof (host : Host) (name : Bytes) : Exec Bool := do
  let nsIp := (if wooFValidURI name then host.uriIp name else none).getD host.localIp
  match ← nsFromUri host.uriPath name with
  | none => return false
  | some ns => return host.wooFNamespace ≠ ns || host.localIp ≠ nsIp

/-! ## Paths -/

def withSlash (dir : Bytes) : Bytes :=
  if dir.getLast? = some slash then dir else dir ++ [slash]

/-- `strncat` to the path in a buffer of 4096 characters, with a bound that is no bound. -/
def strncatPath (localName name : Bytes) : Exec Bytes :=
  if localName.length + name.length < 4096 then .ok (localName ++ name)
  else .error .outOfBounds

namespace Host

/-- The file `WooFCreate` makes, none when it makes none here.  A URI is taken as it is. -/
def createPath (host : Host) (name : Bytes) : Exec (Option Bytes) := do
  if host.wooFDir = [] then return none
  if ← host.isRemoteWoof name then return none
  let localName ← strncatPath (withSlash host.wooFDir) name
  return some localName

def openPath (host : Host) (name : Bytes) : Exec (Option Bytes) := do
  if host.wooFDir = [] then return none
  if wooFValidURI name then
    match ← wooFNameFromURI host.uriPath name 4096 with
    | none => return none
    | some fname =>
      let localName ← strncatPath (withSlash host.wooFDir) fname
      return some localName
  else
    let localName ← strncatPath (withSlash host.wooFDir) name
    return some localName

/-- `WooFExist` builds a string, which has no bound. -/
def existPath (host : Host) (name : Bytes) : Exec (Option Bytes) := do
  if host.wooFDir = [] then return none
  if wooFValidURI name then
    match ← wooFNameFromURI host.uriPath name 4096 with
    | none => return none
    | some fname => return some (withSlash host.wooFDir ++ fname)
  else return some (withSlash host.wooFDir ++ name)

/-- `WooFSetSeqno` appends the name in the branch that appends the slash. -/
def setSeqnoPath (host : Host) (name : Bytes) : Exec (Option Bytes) := do
  if host.wooFDir = [] then return none
  if host.wooFDir.getLast? = some slash then return some host.wooFDir
  let localName ← strncatPath (host.wooFDir ++ [slash]) name
  return some localName

end Host

/-! ## Files -/

/-- The mapped size as `WooFCreate` computes it. -/
def wooFSpace64 (elementSize historySize : UInt64) : UInt64 :=
  (historySize + 1) * (elementSize + 8) + 2096

structure Created where
  path : Bytes
  size : UInt64
  wf : WooF

abbrev Files := Bytes → Option Entry

def Created.store (made : Created) (files : Files) : Files :=
  fun path => if path = made.path then some (.woof made.wf) else files path

namespace Host

/-- `WooFCreate` of a local woof, none for the result -1.  The name of the file goes into
the record, for a URI out of a buffer nobody has filled. -/
def wooFCreate (host : Host) (name : Bytes) (elementSize historySize : UInt64) (ino : Nat) :
    Exec (Option Created) := do
  match ← host.createPath name with
  | none => return none
  | some path =>
    let size := wooFSpace64 elementSize historySize
    if host.mioOpen path size then
      let filename := if wooFValidURI name then host.fname else name
      return some
        ⟨path, size, Cspot.wooFCreate filename elementSize.toNat historySize.toNat ino⟩
    else return none

def wooFOpen (host : Host) (files : Files) (name : Bytes) : Exec (Option WooF) := do
  match ← host.openPath name with
  | none => return none
  | some path =>
    match files path with
    | some (.woof wf) => return some wf
    | _ => return none

def wooFExist (host : Host) (files : Files) (name : Bytes) : Exec Int := do
  if host.wooFDir = [] then return -1
  match ← host.existPath name with
  | none => return 0
  | some path => return if (files path).isSome then 1 else 0

/-- The file whose record `WooFSetSeqno` changes. -/
def setSeqnoEntry (host : Host) (files : Files) (name : Bytes) : Exec (Option Entry) := do
  match ← host.setSeqnoPath name with
  | none => return none
  | some path => return files path

end Host

/-! ## Agreement -/

/-- All four functions mean the same file, and a new woof is found by the other three. -/
structure LocalNamesAgree (host : Host) (name : Bytes) : Prop where
  paths : ∃ path, host.createPath name = .ok path ∧ host.openPath name = .ok path ∧
    host.existPath name = .ok path ∧ host.setSeqnoPath name = .ok path
  found : ∀ (files : Files) elementSize historySize ino made,
    host.wooFCreate name elementSize historySize ino = .ok (some made) →
      host.wooFOpen (made.store files) name = .ok (some made.wf) ∧
      host.wooFExist (made.store files) name = .ok 1 ∧
      host.setSeqnoEntry (made.store files) name = .ok (some (.woof made.wf))

section Paths

variable {host : Host} {name : Bytes}

section

variable (hdir : host.wooFDir ≠ [])
include hdir

theorem Host.createPath_of_local (hlocal : host.isRemoteWoof name = .ok false) :
    host.createPath name =
      (strncatPath (withSlash host.wooFDir) name).map some := by
  simp only [createPath, hdir, hlocal, if_false, Exec.ok_bind, Bool.false_eq_true]
  cases strncatPath (withSlash host.wooFDir) name <;> rfl

theorem Host.openPath_of_name (huri : wooFValidURI name = false) :
    host.openPath name = (strncatPath (withSlash host.wooFDir) name).map some := by
  simp only [openPath, hdir, huri, if_false, Bool.false_eq_true]
  cases strncatPath (withSlash host.wooFDir) name <;> rfl

theorem Host.existPath_of_name (huri : wooFValidURI name = false) :
    host.existPath name = .ok (some (withSlash host.wooFDir ++ name)) := by
  simp [existPath, hdir, huri]

theorem Host.existPath_ne_of_uri (huri : wooFValidURI name = true) :
    host.existPath name ≠ .ok (some (withSlash host.wooFDir ++ name)) := by
  intro h
  simp only [existPath, hdir, huri, if_false, if_true] at h
  obtain ⟨found, hfound, h⟩ := Exec.bind_eq_ok.1 h
  cases found with
  | none => cases h
  | some fname =>
    have hsame : fname = name := by simpa using h
    have hslash : slash ∉ fname := slash_notMem_of_nameFromURI hfound
    rw [hsame] at hslash
    rw [wooFValidURI_of_slash_notMem hslash] at huri
    cases huri

theorem Host.setSeqnoPath_of_slash (hslash : host.wooFDir.getLast? = some slash) :
    host.setSeqnoPath name = .ok (some host.wooFDir) := by
  simp [setSeqnoPath, hdir, hslash]

theorem Host.setSeqnoPath_of_no_slash (hslash : host.wooFDir.getLast? ≠ some slash) :
    host.setSeqnoPath name = (strncatPath (withSlash host.wooFDir) name).map some := by
  simp only [setSeqnoPath, hdir, hslash, if_false, withSlash]
  cases strncatPath (host.wooFDir ++ [slash]) name <;> rfl

end

theorem strncatPath_of_fits {localName : Bytes} (h : localName.length + name.length < 4096) :
    strncatPath localName name = .ok (localName ++ name) :=
  if_pos h

theorem fits_of_strncatPath {localName path : Bytes}
    (h : strncatPath localName name = .ok path) :
    localName.length + name.length < 4096 ∧ path = localName ++ name := by
  unfold strncatPath at h
  split at h
  · rename_i hfits
    exact ⟨hfits, (Except.ok.inj h).symm⟩
  · cases h

theorem Host.found_of_paths {path : Option Bytes} (hcreate : host.createPath name = .ok path)
    (hopen : host.openPath name = .ok path) (hexist : host.existPath name = .ok path)
    (hset : host.setSeqnoPath name = .ok path) (files : Files) {elementSize historySize : UInt64}
    {ino : Nat} {made : Created}
    (hmade : host.wooFCreate name elementSize historySize ino = .ok (some made)) :
    host.wooFOpen (made.store files) name = .ok (some made.wf) ∧
      host.wooFExist (made.store files) name = .ok 1 ∧
      host.setSeqnoEntry (made.store files) name = .ok (some (.woof made.wf)) := by
  rw [wooFCreate, hcreate, Exec.ok_bind] at hmade
  cases path with
  | none => cases hmade
  | some path =>
    have hpath : path = made.path := by
      dsimp only at hmade
      split at hmade
      · exact congrArg Created.path (Option.some.inj (Except.ok.inj hmade))
      · cases hmade
    have hdir : host.wooFDir ≠ [] := by
      intro hdir
      simp [createPath, hdir] at hcreate
    have hstored : made.store files path = some (.woof made.wf) := if_pos hpath
    simp [wooFOpen, wooFExist, setSeqnoEntry, hopen, hexist, hset, hdir, hstored]

theorem Host.paths_agree_iff (hdir : host.wooFDir ≠ [])
    (hlocal : host.isRemoteWoof name = .ok false) :
    (∃ path, host.createPath name = .ok path ∧ host.openPath name = .ok path ∧
        host.existPath name = .ok path ∧ host.setSeqnoPath name = .ok path) ↔
      wooFValidURI name = false ∧ (host.wooFDir.getLast? ≠ some slash ∨ name = []) ∧
        (withSlash host.wooFDir).length + name.length < 4096 := by
  rw [createPath_of_local hdir hlocal]
  constructor
  · rintro ⟨path, hcreate, -, hexist, hset⟩
    cases hcat : strncatPath (withSlash host.wooFDir) name with
    | error s =>
      rw [hcat] at hcreate
      cases hcreate
    | ok localName =>
      obtain ⟨hfits, rfl⟩ := fits_of_strncatPath hcat
      rw [hcat] at hcreate
      cases hcreate
      refine ⟨?_, ?_, hfits⟩
      · by_contra huri
        exact existPath_ne_of_uri hdir (by simpa using huri) hexist
      · refine or_iff_not_imp_left.2 fun hslash => ?_
        rw [not_not] at hslash
        rw [setSeqnoPath_of_slash hdir hslash, withSlash, if_pos hslash] at hset
        simpa using hset
  · rintro ⟨huri, hname, hfits⟩
    have hcat := strncatPath_of_fits hfits
    refine ⟨some (withSlash host.wooFDir ++ name), ?_, ?_, existPath_of_name hdir huri, ?_⟩
    · rw [hcat]
      rfl
    · rw [openPath_of_name hdir huri, hcat]
      rfl
    · by_cases hslash : host.wooFDir.getLast? = some slash
      · have hempty : name = [] := hname.resolve_left (not_not_intro hslash)
        rw [setSeqnoPath_of_slash hdir hslash, withSlash, if_pos hslash, hempty, List.append_nil]
      · rw [setSeqnoPath_of_no_slash hdir hslash, hcat]
        rfl

end Paths

/-- Exactly the directories and local names on which the four functions agree. -/
theorem localNamesAgree_iff (host : Host) {name : Bytes}
    (hlocal : host.isRemoteWoof name = .ok false) :
    LocalNamesAgree host name ↔ host.wooFDir = [] ∨
      wooFValidURI name = false ∧ (host.wooFDir.getLast? ≠ some slash ∨ name = []) ∧
        (withSlash host.wooFDir).length + name.length < 4096 := by
  by_cases hdir : host.wooFDir = []
  · refine iff_of_true ?_ (Or.inl hdir)
    have hcreate : host.createPath name = .ok none := by simp [Host.createPath, hdir]
    refine ⟨⟨none, hcreate, ?_, ?_, ?_⟩, fun files e h ino made hmade => ?_⟩
    · simp [Host.openPath, hdir]
    · simp [Host.existPath, hdir]
    · simp [Host.setSeqnoPath, hdir]
    · rw [Host.wooFCreate, hcreate] at hmade
      cases hmade
  · rw [or_iff_right hdir, ← Host.paths_agree_iff hdir hlocal]
    refine ⟨fun h => h.paths, fun hpaths => ⟨hpaths, fun files e h ino made hmade => ?_⟩⟩
    obtain ⟨path, hcreate, hopen, hexist, hset⟩ := hpaths
    exact Host.found_of_paths hcreate hopen hexist hset files hmade

def sampleHost (dir : Bytes) (hdir : dir.length < 2048) : Host where
  uriPath uri := some (uri.drop 8)
  uriIp _ := some (Bytes.ofString "10.0.0.1")
  localIp := Bytes.ofString "10.0.0.1"
  wooFNamespace := Bytes.ofString "/ns"
  wooFDir := dir
  wooFDir_length := hdir
  mioOpen _ _ := true
  fname := []

theorem localNamesAgree_iff_bare :
    LocalNamesAgree (sampleHost (Bytes.ofString "/ns") (by decide)) (Bytes.ofString "data") :=
  (localNamesAgree_iff _ (by decide)).2 (by decide)

/-- With a slash at the end of the directory the name is dropped by one function, and a URI
of the own namespace is a file name to another. -/
theorem local_names_disagree :
    (sampleHost (Bytes.ofString "/ns/") (by decide)).isRemoteWoof (Bytes.ofString "data") =
        .ok false ∧
      ¬ LocalNamesAgree (sampleHost (Bytes.ofString "/ns/") (by decide))
          (Bytes.ofString "data") ∧
      (sampleHost (Bytes.ofString "/ns") (by decide)).isRemoteWoof
          (Bytes.ofString "woof://h/ns/data") = .ok false ∧
      ¬ LocalNamesAgree (sampleHost (Bytes.ofString "/ns") (by decide))
          (Bytes.ofString "woof://h/ns/data") := by
  refine ⟨by decide, fun h => ?_, by decide, fun h => ?_⟩
  · exact absurd ((Host.paths_agree_iff (by decide) (by decide)).1 h.paths) (by decide)
  · exact absurd ((Host.paths_agree_iff (by decide) (by decide)).1 h.paths) (by decide)

end Cspot
