import Cspot.Lib.CText
import Cspot.Raft.Config
import Cspot.Runtime.Log

/-!
# Configurations in the data of an entry

A joint configuration travels with the new one in one buffer.  Both are encoded one behind the
other, and they are decoded in place, the second from the offset at which the first ends.  The
decoder clears as many rows of the array it is given as its parameter has, so that the array
has to have them.
-/

namespace Cspot.Raft

def raftNameLength : Nat := 256

def raftDataTypeSize : Nat := 8192

/-- The rows of the array that the functions on configurations declare. -/
def configRows : Nat := raftMaxMembers + raftMaxObservers

/-- `sprintf` to a place in the buffer. -/
def sprintfAt (buf : Bytes) (dst : Nat) (text : Bytes) : Exec Bytes :=
  match CText.write buf dst text with
  | none => .error .outOfBounds
  | some buf => .ok buf

def encodeMembersAt (buf : Bytes) (dst : Nat) : List Name → Exec Bytes
  | [] => .ok buf
  | woof :: woofs => do
      let buf ← sprintfAt buf (dst + (CText.strAt buf dst).length) (woof ++ [semicolon])
      encodeMembersAt buf dst woofs

def encodeConfigAt (buf : Bytes) (dst : Nat) (memberWoofs : List Name) : Exec (Nat × Bytes) := do
  let buf ← sprintfAt buf dst (Decimal.ofNat memberWoofs.length ++ [semicolon])
  let buf ← encodeMembersAt buf dst memberWoofs
  return ((CText.strAt buf dst).length, buf)

/-- The data that `h_config_change` puts into an entry. -/
def configEntryData (jointMemberWoofs newMemberWoofs : List Name) : Exec Bytes := do
  let val := List.replicate raftDataTypeSize 0
  let (_, val) ← encodeConfigAt val 0 jointMemberWoofs
  let (_, val) ← encodeConfigAt val (CText.strAt val 0).length newMemberWoofs
  return val

/-- What `decode_config` returns and leaves behind: the array with its rows and the buffer. -/
structure Decoded where
  len : Int
  members : Int
  memberWoofs : List Name
  buf : Bytes
deriving Repr, DecidableEq

/-- The loop of `decode_config`: `count` tokens to go, the next one for row `i`.  The tokeniser
goes on at `next`.  A missing token is copied from address zero. -/
def decodeMembersAt : (count i len next : Nat) → (woofs : List Name) → (buf : Bytes) →
    Exec (Nat × List Name × Bytes)
  | 0, _, len, _, woofs, buf => .ok (len, woofs, buf)
  | count + 1, i, len, next, woofs, buf =>
    let found := CText.strtok semicolon buf next
    match found.pos with
    | none => .error .outOfBounds
    | some pos =>
      let token := CText.strAt found.buf pos
      if i < woofs.length ∧ token.length < raftNameLength then
        decodeMembersAt count (i + 1) (len + (token.length + 1)) found.next
          (woofs.set i token) found.buf
      else .error .outOfBounds

def decodeConfigAt (buf : Bytes) (src : Nat) (woofs : List Name) : Exec Decoded :=
  let found := CText.strtok semicolon buf src
  match found.pos with
  | none => .error .outOfBounds
  | some pos => do
      let token := CText.strAt found.buf pos
      let members := (Decimal.strtol token).1.bmod (2 ^ 32)
      if members = 0 then return ⟨-1, members, woofs, found.buf⟩
      -- the rows are cleared
      if woofs.length < configRows then throw .outOfBounds
      let woofs := List.replicate configRows [] ++ woofs.drop configRows
      let (len, woofs, buf) ←
        decodeMembersAt members.toNat 0 (token.length + 1) found.next woofs found.buf
      return ⟨len, members, woofs, buf⟩

/-- The two calls of `update_commit_index`, with one array for both. -/
def decodeJointAndNew (val : Bytes) (woofs : List Name) : Exec (Decoded × Decoded) := do
  let joint ← decodeConfigAt val 0 woofs
  let new ← decodeConfigAt joint.buf joint.len.toNat joint.memberWoofs
  return (joint, new)

/-! ## Encoding -/

/-- Names that can be told apart in a text and fit into a row. -/
structure Encodable (memberWoofs : List Name) : Prop where
  pos : 0 < memberWoofs.length
  members : memberWoofs.length ≤ raftMaxMembers
  nonempty : ∀ woof ∈ memberWoofs, woof ≠ []
  plain : ∀ woof ∈ memberWoofs, ∀ b ∈ woof, b ≠ semicolon ∧ b ≠ 0
  short : ∀ woof ∈ memberWoofs, woof.length < raftNameLength

section Encode

variable {pre text : Bytes} {k : Nat} {memberWoofs : List Name}

theorem sprintfAt_append (hk : text.length < k) :
    sprintfAt (pre ++ List.replicate k 0) pre.length text =
      .ok (pre ++ text ++ List.replicate (k - text.length) 0) := by
  rw [sprintfAt, CText.write_append hk]

theorem strAt_replicate (htext : ∀ b ∈ text, b ≠ 0) (hk : 0 < k) :
    CText.strAt (pre ++ text ++ List.replicate k 0) pre.length = text := by
  obtain ⟨more, rfl⟩ : ∃ more, k = more + 1 := ⟨k - 1, by omega⟩
  rw [List.replicate_succ, List.append_assoc]
  exact CText.strAt_append pre htext _

theorem encodeMembersAt_append (htext : ∀ b ∈ text, b ≠ 0)
    (hwoofs : ∀ woof ∈ memberWoofs, ∀ b ∈ woof, b ≠ 0)
    (hk : (memberWoofs.flatMap (· ++ [semicolon])).length < k) :
    encodeMembersAt (pre ++ text ++ List.replicate k 0) pre.length memberWoofs =
      .ok (pre ++ (text ++ memberWoofs.flatMap (· ++ [semicolon])) ++
        List.replicate (k - (memberWoofs.flatMap (· ++ [semicolon])).length) 0) := by
  induction memberWoofs generalizing text k with
  | nil => simp [encodeMembersAt]
  | cons woof woofs ih =>
    rw [List.flatMap_cons, List.length_append] at hk
    have hfirst : ∀ b ∈ woof ++ [semicolon], b ≠ 0 := by
      intro b hb
      rcases List.mem_append.1 hb with hb | hb
      · exact hwoofs woof List.mem_cons_self b hb
      · rw [List.mem_singleton.1 hb]
        decide
    have hwrite := @sprintfAt_append (pre ++ text) (woof ++ [semicolon]) k (by omega)
    rw [List.length_append] at hwrite
    rw [encodeMembersAt, strAt_replicate htext (by omega), hwrite, Exec.ok_bind,
      List.append_assoc pre text, ih ?_ ?_ (by omega)]
    · rw [List.flatMap_cons, Nat.sub_sub, ← List.length_append]
      simp
    · intro b hb
      rcases List.mem_append.1 hb with hb | hb
      · exact htext b hb
      · exact hfirst b hb
    · intro other hother
      exact hwoofs other (List.mem_cons_of_mem _ hother)

theorem encodeConfig_ne_zero (h : Encodable memberWoofs) :
    ∀ b ∈ encodeConfig memberWoofs, b ≠ 0 := by
  intro b hb
  rw [encodeConfig, List.mem_append, List.mem_append, List.mem_flatMap] at hb
  rcases hb with (hb | hb) | ⟨woof, hwoof, hb⟩
  · exact Decimal.ofNat_ne_zero b hb
  · rw [List.mem_singleton.1 hb]
    decide
  · rcases List.mem_append.1 hb with hb | hb
    · exact (h.plain woof hwoof b hb).2
    · rw [List.mem_singleton.1 hb]
      decide

theorem encodeConfigAt_append (h : Encodable memberWoofs)
    (hk : (encodeConfig memberWoofs).length < k) :
    encodeConfigAt (pre ++ List.replicate k 0) pre.length memberWoofs =
      .ok ((encodeConfig memberWoofs).length, pre ++ encodeConfig memberWoofs ++
        List.replicate (k - (encodeConfig memberWoofs).length) 0) := by
  have hlength : (encodeConfig memberWoofs).length =
      (Decimal.ofNat memberWoofs.length ++ [semicolon]).length +
        (memberWoofs.flatMap (· ++ [semicolon])).length := List.length_append
  have hcount : ∀ b ∈ Decimal.ofNat memberWoofs.length ++ [semicolon], b ≠ 0 := by
    intro b hb
    exact encodeConfig_ne_zero h b (List.mem_append_left _ hb)
  have hmembers := @encodeMembersAt_append pre _ (k - (Decimal.ofNat memberWoofs.length ++
    [semicolon]).length) memberWoofs hcount (fun woof hwoof b hb => (h.plain woof hwoof b hb).2)
    (by omega)
  rw [encodeConfigAt, sprintfAt_append (by omega), Exec.ok_bind, hmembers, Exec.ok_bind,
    Nat.sub_sub, ← hlength]
  have hstr := @strAt_replicate pre _ (k - (encodeConfig memberWoofs).length)
    (encodeConfig_ne_zero h) (by omega)
  show Except.ok ((CText.strAt (pre ++ encodeConfig memberWoofs ++ _) pre.length).length, _) = _
  rw [hstr]
  rfl

theorem configEntryData_eq {joint new : List Name} (hjoint : Encodable joint)
    (hnew : Encodable new)
    (hfit : (encodeConfig joint).length + (encodeConfig new).length < raftDataTypeSize) :
    configEntryData joint new = .ok (encodeConfig joint ++ encodeConfig new ++
      List.replicate (raftDataTypeSize - (encodeConfig joint).length -
        (encodeConfig new).length) 0) := by
  have hfirst := @encodeConfigAt_append [] raftDataTypeSize joint hjoint (by omega)
  have hstr := @strAt_replicate [] _ (raftDataTypeSize - (encodeConfig joint).length)
    (encodeConfig_ne_zero hjoint) (by omega)
  have hsecond := @encodeConfigAt_append (encodeConfig joint)
    (raftDataTypeSize - (encodeConfig joint).length) new hnew (by omega)
  simp only [List.nil_append, List.length_nil] at hfirst hstr
  simp [configEntryData, hfirst, hstr, hsecond]

end Encode

/-! ## Decoding -/

section Decode

variable {pre rest : Bytes} {memberWoofs : List Name}

/-- The text of the names, with the separators overwritten. -/
def cutNames (memberWoofs : List Name) : Bytes := memberWoofs.flatMap (· ++ [0])

theorem cutNames_length (memberWoofs : List Name) :
    (cutNames memberWoofs).length = (memberWoofs.flatMap (· ++ [semicolon])).length := by
  simp [cutNames]

theorem decodeMembersAt_append (hnonempty : ∀ woof ∈ memberWoofs, woof ≠ [])
    (hplain : ∀ woof ∈ memberWoofs, ∀ b ∈ woof, b ≠ semicolon ∧ b ≠ 0)
    (hshort : ∀ woof ∈ memberWoofs, woof.length < raftNameLength) (len : Nat)
    {done free behind : List Name} (hrows : free.length = memberWoofs.length) :
    decodeMembersAt memberWoofs.length done.length len pre.length (done ++ free ++ behind)
        (pre ++ (memberWoofs.flatMap (· ++ [semicolon]) ++ rest)) =
      .ok (len + (memberWoofs.flatMap (· ++ [semicolon])).length, done ++ memberWoofs ++ behind,
        pre ++ (cutNames memberWoofs ++ rest)) := by
  induction memberWoofs generalizing pre len done free with
  | nil =>
    rw [List.length_nil, List.length_eq_zero_iff] at hrows
    simp [decodeMembersAt, cutNames, hrows]
  | cons woof woofs ih =>
    cases free with
    | nil => cases hrows
    | cons row free =>
      have hne := hnonempty woof List.mem_cons_self
      have hfirst := hplain woof List.mem_cons_self
      have hsep : semicolon ∉ woof := fun hmem => (hfirst _ hmem).1 rfl
      have hzero : ∀ b ∈ woof, b ≠ 0 := fun b hb => (hfirst b hb).2
      have htok := CText.strtok_append pre hne hsep hzero
        (woofs.flatMap (· ++ [semicolon]) ++ rest)
      have hstr := CText.strAt_append pre hzero
        (woofs.flatMap (· ++ [semicolon]) ++ rest)
      have hbuf : pre ++ ((woof :: woofs).flatMap (· ++ [semicolon]) ++ rest) =
          pre ++ (woof ++ semicolon :: (woofs.flatMap (· ++ [semicolon]) ++ rest)) := by
        simp
      have hset : (done ++ row :: free ++ behind).set done.length woof =
          done ++ [woof] ++ free ++ behind := by
        simp
      have hroom : done.length < (done ++ row :: free ++ behind).length ∧
          woof.length < raftNameLength := by
        refine ⟨?_, hshort woof List.mem_cons_self⟩
        simp
      have hrec := @ih (pre ++ (woof ++ [0]))
        (fun w hw => hnonempty w (List.mem_cons_of_mem _ hw))
        (fun w hw => hplain w (List.mem_cons_of_mem _ hw))
        (fun w hw => hshort w (List.mem_cons_of_mem _ hw)) (len + (woof.length + 1))
        (done ++ [woof]) free (Nat.succ.inj hrows)
      simp only [List.length_append, List.length_singleton, List.append_assoc,
        List.singleton_append, ← Nat.add_assoc] at hrec
      rw [List.length_cons, hbuf, decodeMembersAt]
      simp only [htok, hstr]
      rw [if_pos hroom, hset]
      simp only [List.append_assoc, List.singleton_append, ← Nat.add_assoc]
      rw [hrec]
      have hlength : len + woof.length + 1 + (woofs.flatMap (· ++ [semicolon])).length =
          len + ((woof :: woofs).flatMap (· ++ [semicolon])).length := by
        simp only [List.flatMap_cons, List.length_append, List.length_singleton]
        omega
      rw [hlength]
      simp [cutNames]

theorem semicolon_notMem_ofNat (n : Nat) : semicolon ∉ Decimal.ofNat n := by
  intro hmem
  exact absurd (Decimal.isDigit_of_mem_ofNat hmem) (by decide)

theorem strtok_encodeConfig (pre : Bytes) (memberWoofs : List Name) (rest : Bytes) :
    CText.strtok semicolon (pre ++ (encodeConfig memberWoofs ++ rest)) pre.length =
        ⟨some pre.length, pre ++ (Decimal.ofNat memberWoofs.length ++
          0 :: (memberWoofs.flatMap (· ++ [semicolon]) ++ rest)),
          pre.length + (Decimal.ofNat memberWoofs.length).length + 1⟩ ∧
      CText.strAt (pre ++ (Decimal.ofNat memberWoofs.length ++
          0 :: (memberWoofs.flatMap (· ++ [semicolon]) ++ rest))) pre.length =
        Decimal.ofNat memberWoofs.length := by
  have hbuf : pre ++ (encodeConfig memberWoofs ++ rest) =
      pre ++ (Decimal.ofNat memberWoofs.length ++
        semicolon :: (memberWoofs.flatMap (· ++ [semicolon]) ++ rest)) := by
    simp [encodeConfig]
  rw [hbuf]
  exact ⟨CText.strtok_append pre (Decimal.ofNat_ne_nil _) (semicolon_notMem_ofNat _)
    Decimal.ofNat_ne_zero _,
    CText.strAt_append pre Decimal.ofNat_ne_zero _⟩

theorem strtol_length (h : Encodable memberWoofs) :
    (Decimal.strtol (Decimal.ofNat memberWoofs.length)).1.bmod (2 ^ 32) =
      (memberWoofs.length : Int) := by
  have hmembers := h.members
  unfold raftMaxMembers at hmembers
  rw [Decimal.strtol_ofNat (by omega)]
  exact Int.bmod_eq_of_le (by omega) (by omega)

/-- The text of a configuration after it has been decoded. -/
def cutConfig (memberWoofs : List Name) : Bytes :=
  Decimal.ofNat memberWoofs.length ++ 0 :: cutNames memberWoofs

theorem cutConfig_length (memberWoofs : List Name) :
    (cutConfig memberWoofs).length = (encodeConfig memberWoofs).length := by
  rw [cutConfig, List.length_append, List.length_cons, cutNames_length, encodeConfig,
    List.length_append, List.length_append, List.length_singleton]
  omega

theorem decodeConfigAt_append (h : Encodable memberWoofs) (pre rest : Bytes) {woofs : List Name}
    (hrows : configRows ≤ woofs.length) :
    decodeConfigAt (pre ++ (encodeConfig memberWoofs ++ rest)) pre.length woofs =
      .ok ⟨(encodeConfig memberWoofs).length, memberWoofs.length,
        memberWoofs ++ (List.replicate (configRows - memberWoofs.length) [] ++
          woofs.drop configRows), pre ++ (cutConfig memberWoofs ++ rest)⟩ := by
  obtain ⟨htok, hstr⟩ := strtok_encodeConfig pre memberWoofs rest
  have hpos := h.pos
  have hmembers : memberWoofs.length ≤ configRows := Nat.le_trans h.members (by decide)
  have hcleared : List.replicate configRows ([] : Name) ++ woofs.drop configRows =
      [] ++ List.replicate memberWoofs.length [] ++
        (List.replicate (configRows - memberWoofs.length) [] ++ woofs.drop configRows) := by
    rw [List.nil_append, ← List.append_assoc, List.replicate_append_replicate,
      Nat.add_sub_cancel' hmembers]
  have hlen : (Decimal.ofNat memberWoofs.length).length + 1 +
      (memberWoofs.flatMap (· ++ [semicolon])).length = (encodeConfig memberWoofs).length := by
    rw [encodeConfig, List.length_append, List.length_append, List.length_singleton]
  have hloop := @decodeMembersAt_append (pre ++ (Decimal.ofNat memberWoofs.length ++ [0])) rest
    memberWoofs h.nonempty h.plain h.short ((Decimal.ofNat memberWoofs.length).length + 1) []
    (List.replicate memberWoofs.length [])
    (List.replicate (configRows - memberWoofs.length) [] ++ woofs.drop configRows)
    List.length_replicate
  rw [← hcleared, hlen] at hloop
  simp only [List.length_append, List.length_singleton, List.length_nil, List.append_assoc,
    List.singleton_append, List.nil_append, ← Nat.add_assoc] at hloop
  rw [decodeConfigAt]
  simp only [htok, hstr, strtol_length h]
  rw [if_neg (by omega), if_neg (by omega), Int.toNat_natCast, hloop, cutConfig]
  simp

theorem decodeConfigAt_overflow (h : Encodable memberWoofs) (pre rest : Bytes)
    {woofs : List Name} (hrows : woofs.length < configRows) :
    decodeConfigAt (pre ++ (encodeConfig memberWoofs ++ rest)) pre.length woofs =
      .error .outOfBounds := by
  obtain ⟨htok, hstr⟩ := strtok_encodeConfig pre memberWoofs rest
  have hpos := h.pos
  rw [decodeConfigAt]
  simp only [htok, hstr, strtol_length h]
  rw [if_neg (by omega), if_pos hrows]
  rfl

end Decode

/-! ## Both ways -/

/-- The array holds these members. -/
structure Decoded.Lists (decoded : Decoded) (memberWoofs : List Name) : Prop where
  members : decoded.members = memberWoofs.length
  names : decoded.memberWoofs.take memberWoofs.length = memberWoofs

/-- The entry that is built from two configurations is decoded to the two, with this array. -/
def RoundTrips (joint new woofs : List Name) : Prop :=
  ∃ val first second, configEntryData joint new = .ok val ∧
    decodeJointAndNew val woofs = .ok (first, second) ∧ first.Lists joint ∧ second.Lists new

section RoundTrip

variable {joint new woofs : List Name}

theorem decodeJointAndNew_append (hjoint : Encodable joint) (hnew : Encodable new) (rest : Bytes)
    (hrows : configRows ≤ woofs.length) :
    ∃ first second, decodeJointAndNew (encodeConfig joint ++ encodeConfig new ++ rest) woofs =
      .ok (first, second) ∧ first.Lists joint ∧ second.Lists new := by
  have hfirst := decodeConfigAt_append hjoint [] (encodeConfig new ++ rest) hrows
  simp only [List.nil_append, List.length_nil] at hfirst
  rw [decodeJointAndNew, List.append_assoc, hfirst, Exec.ok_bind]
  -- the second call works on the array and the buffer that the first one leaves
  generalize hleft : joint ++ (List.replicate (configRows - joint.length) [] ++
    woofs.drop configRows) = left
  have hrows' : configRows ≤ left.length := by
    rw [← hleft]
    simp
    omega
  have hsecond := decodeConfigAt_append hnew (cutConfig joint) rest hrows'
  rw [cutConfig_length] at hsecond
  simp only [Int.toNat_natCast, hsecond, Exec.ok_bind, Exec.pure_eq]
  refine ⟨_, _, rfl, ⟨rfl, ?_⟩, ⟨rfl, List.take_left' rfl⟩⟩
  rw [← hleft]
  exact List.take_left' rfl

section

variable (hjoint : Encodable joint) (hnew : Encodable new)
  (hfit : (encodeConfig joint).length + (encodeConfig new).length < raftDataTypeSize)
include hjoint hnew hfit

/-- An array with fewer rows overflows at the first call. -/
theorem decodeJointAndNew_overflow (hrows : woofs.length < configRows) :
    ∃ val, configEntryData joint new = .ok val ∧
      decodeJointAndNew val woofs = .error .outOfBounds := by
  refine ⟨_, configEntryData_eq hjoint hnew hfit, ?_⟩
  have hoverflow := decodeConfigAt_overflow hjoint [] (encodeConfig new ++
    List.replicate (raftDataTypeSize - (encodeConfig joint).length -
      (encodeConfig new).length) 0) hrows
  rw [List.nil_append, List.length_nil] at hoverflow
  rw [decodeJointAndNew, List.append_assoc, hoverflow, Exec.error_bind]

theorem not_roundTrips_of_overflow (hrows : woofs.length < configRows) :
    ¬ RoundTrips joint new woofs := by
  rintro ⟨val, first, second, hval, hdecode, -, -⟩
  obtain ⟨val', hval', hoverflow⟩ := decodeJointAndNew_overflow hjoint hnew hfit hrows
  rw [hval, Except.ok.injEq] at hval'
  subst hval'
  rw [hdecode] at hoverflow
  cases hoverflow

/-- Two configurations come back from their entry if and only if the array of the caller has as
many rows as the parameter of `decode_config`. -/
theorem roundTrips_iff : RoundTrips joint new woofs ↔ configRows ≤ woofs.length := by
  constructor
  · intro h
    by_contra hrows
    exact not_roundTrips_of_overflow hjoint hnew hfit (Nat.lt_of_not_le hrows) h
  · intro hrows
    obtain ⟨first, second, hdecode, hfirst, hsecond⟩ :=
      decodeJointAndNew_append hjoint hnew (List.replicate (raftDataTypeSize -
        (encodeConfig joint).length - (encodeConfig new).length) 0) hrows
    exact ⟨_, first, second, configEntryData_eq hjoint hnew hfit, hdecode, hfirst, hsecond⟩

end

theorem encodable_pair : Encodable [[97], [98]] :=
  ⟨by decide, by decide, by decide, by simp [semicolon], by decide⟩

theorem encodable_one : Encodable [[98]] :=
  ⟨by decide, by decide, by decide, by simp [semicolon], by decide⟩

theorem roundTrips_iff_declared :
    Encodable [[97], [98]] ∧ RoundTrips [[97], [98]] [[98]] (List.replicate configRows []) :=
  ⟨encodable_pair, (roundTrips_iff encodable_pair encodable_one (by decide)).2 (by decide)⟩

/-- The array of `update_commit_index` has a row for every member, but none for the observers. -/
theorem updateCommitIndex_overflows :
    (∃ val, configEntryData [[97], [98]] [[98]] = .ok val ∧
      decodeJointAndNew val (List.replicate raftMaxMembers []) = .error .outOfBounds) ∧
      ¬ RoundTrips [[97], [98]] [[98]] (List.replicate raftMaxMembers []) :=
  ⟨decodeJointAndNew_overflow encodable_pair encodable_one (by decide) (by decide),
    not_roundTrips_of_overflow encodable_pair encodable_one (by decide) (by decide)⟩

end RoundTrip

/-! ## The text of a configuration -/

section Text

variable {memberWoofs : List Name}

theorem strtok_text {token : Bytes} (hne : token ≠ []) (hsep : semicolon ∉ token) (rest : Bytes) :
    strtok (token ++ semicolon :: rest) = some (token, rest) := by
  have hall : ∀ b ∈ token, b ≠ semicolon := fun b hb heq => hsep (heq ▸ hb)
  have hskip : (token ++ semicolon :: rest).dropWhile (· = semicolon) =
      token ++ semicolon :: rest := by
    cases token with
    | nil => exact absurd rfl hne
    | cons b token =>
      simpa using hall b List.mem_cons_self
  have htake : (token ++ semicolon :: rest).takeWhile (· ≠ semicolon) = token := by
    rw [List.takeWhile_append_of_pos (by simpa using hall)]
    simp
  have hdrop : (token ++ semicolon :: rest).dropWhile (· ≠ semicolon) = semicolon :: rest := by
    rw [List.dropWhile_append_of_pos (by simpa using hall)]
    simp
  simp only [strtok, hskip, htake, hdrop]
  rw [if_neg (by simp)]
  rfl

theorem decodeMembers_text (hnonempty : ∀ woof ∈ memberWoofs, woof ≠ [])
    (hplain : ∀ woof ∈ memberWoofs, ∀ b ∈ woof, b ≠ semicolon ∧ b ≠ 0) (rest : Bytes) :
    decodeMembers memberWoofs.length (memberWoofs.flatMap (· ++ [semicolon]) ++ rest) =
      some (memberWoofs, (memberWoofs.flatMap (· ++ [semicolon])).length) := by
  induction memberWoofs with
  | nil => rfl
  | cons woof woofs ih =>
    have hsep : semicolon ∉ woof := fun hmem => (hplain woof List.mem_cons_self _ hmem).1 rfl
    have hbuf : (woof :: woofs).flatMap (· ++ [semicolon]) ++ rest =
        woof ++ semicolon :: (woofs.flatMap (· ++ [semicolon]) ++ rest) := by
      simp
    have hrec := ih (fun w hw => hnonempty w (List.mem_cons_of_mem _ hw))
      (fun w hw => hplain w (List.mem_cons_of_mem _ hw))
    rw [List.length_cons, hbuf, decodeMembers,
      strtok_text (hnonempty woof List.mem_cons_self) hsep]
    simp only [hrec]
    simp
    omega

/-- The tokeniser in the buffer finds what the decoder of texts finds. -/
theorem decodeConfigAt_eq_decodeConfig (h : Encodable memberWoofs) (pre rest : Bytes)
    {woofs : List Name} (hrows : configRows ≤ woofs.length) :
    ∃ decoded len, decodeConfigAt (pre ++ (encodeConfig memberWoofs ++ rest)) pre.length woofs =
        .ok decoded ∧ decodeConfig (encodeConfig memberWoofs ++ rest) = some (memberWoofs, len) ∧
      decoded.len = len ∧ decoded.Lists memberWoofs := by
  refine ⟨_, (encodeConfig memberWoofs).length, decodeConfigAt_append h pre rest hrows, ?_, rfl,
    ⟨rfl, List.take_left' rfl⟩⟩
  have hmembers := h.members
  have hpos := h.pos
  unfold raftMaxMembers at hmembers
  have htext : encodeConfig memberWoofs ++ rest = Decimal.ofNat memberWoofs.length ++
      semicolon :: (memberWoofs.flatMap (· ++ [semicolon]) ++ rest) := by
    simp [encodeConfig]
  rw [htext, decodeConfig, strtok_text (Decimal.ofNat_ne_nil _) (semicolon_notMem_ofNat _)]
  simp only [Decimal.strtol_ofNat (show memberWoofs.length < 2 ^ 63 by omega), Int.toNat_natCast]
  rw [if_neg (by omega)]
  simp only [decodeMembers_text h.nonempty h.plain]
  simp [encodeConfig]
  omega

theorem decodeConfigAt_eq_decodeConfig_one :
    ∃ decoded len, decodeConfigAt ([7] ++ (encodeConfig [[98]] ++ [])) 1
        (List.replicate configRows []) = .ok decoded ∧
      decodeConfig (encodeConfig [[98]] ++ []) = some ([[98]], len) ∧
      decoded.len = len ∧ decoded.Lists [[98]] :=
  decodeConfigAt_eq_decodeConfig encodable_one [7] [] (by simp)

end Text

end Cspot.Raft
