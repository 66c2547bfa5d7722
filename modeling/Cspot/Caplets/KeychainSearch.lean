import Cspot.Caplets.Keychain

/-!
# Searching a keychain

What the search returns was in the file: a name line, and behind it, before the next name
or header, the permissions and the check.  Printed records are found again, the first one
of a name before the others.
-/

namespace Cspot

open Decimal (isSpace)
open Bytes (newline)

/-! ## Stretches of a file -/

namespace KeychainLine

/-- Lines that end the stretch of a name. -/
def opens : KeychainLine → Bool
  | record | container | name _ => true
  | skip | stop | permissions _ | check _ => false

def permissionsValue : KeychainLine → Option Bytes
  | permissions value => some value
  | _ => none

def checkValue : KeychainLine → Option Bytes
  | check value => some value
  | _ => none

end KeychainLine

/-- The value of the last line of this kind, if that could be parsed. -/
def lastParsed {α : Type} (valueOf : KeychainLine → Option Bytes) (parse : Bytes → Option α)
    (stretch : List KeychainLine) : Option α :=
  (stretch.filterMap valueOf).getLast?.bind parse

def lastPermissions (stretch : List KeychainLine) : Option UInt32 :=
  lastParsed KeychainLine.permissionsValue parsePermissionValue stretch

def lastCheck (stretch : List KeychainLine) : Option UInt64 :=
  lastParsed KeychainLine.checkValue parseCheckValue stretch

section LastParsed

variable {α : Type} {valueOf : KeychainLine → Option Bytes} {parse : Bytes → Option α}

theorem lastParsed_concat (stretch : List KeychainLine) (line : KeychainLine) :
    lastParsed valueOf parse (stretch ++ [line]) =
      match valueOf line with
      | none => lastParsed valueOf parse stretch
      | some value => parse value := by
  unfold lastParsed
  cases h : valueOf line with
  | none => simp [h]
  | some value => simp [h]

end LastParsed

/-- What stands behind a name line up to the first line at which both values are there. -/
structure Stretch (cap : Wcap) (stretch : List KeychainLine) : Prop where
  within : ∀ line ∈ stretch, line.opens = false
  permissions : lastPermissions stretch = some cap.permissions
  check : lastCheck stretch = some cap.check
  first : ∀ front, front <+: stretch → front ≠ stretch →
    lastPermissions front = none ∨ lastCheck front = none

/-! ## The state of the search -/

/-- The state behind these lines, read without an end of the search. -/
structure Reads (woofName : Bytes) (seen : List KeychainLine) (st : KeychainState) : Prop where
  inRecord : st.haveName = true → st.inRecord = true
  stretch : st.haveName = true → ∃ before stretch,
    seen = before ++ .name st.currentName :: stretch ∧
    (∀ line ∈ stretch, line.opens = false) ∧
    lastPermissions stretch = (if st.havePermissions then some st.currentPermissions else none) ∧
    lastCheck stretch = (if st.haveCheck then some st.currentCheck else none) ∧
    (st.currentName = woofName → ∀ front, front <+: stretch → front ≠ stretch →
      lastPermissions front = none ∨ lastCheck front = none)

section Reads

variable {woofName : Bytes} {seen : List KeychainLine} {st : KeychainState}

theorem Reads.of_noName (hst : st.haveName = false) : Reads woofName seen st :=
  ⟨fun h => by simp [hst] at h, fun h => by simp [hst] at h⟩

theorem Reads.of_not_inRecord (h : Reads woofName seen st) (hrecord : st.inRecord = false)
    (seen' : List KeychainLine) : Reads woofName seen' st := by
  refine .of_noName ?_
  by_contra hname
  rw [h.inRecord (by simpa using hname)] at hrecord
  cases hrecord

theorem Reads.found (h : Reads woofName seen st) (hcomplete : st.complete woofName = true) :
    ∃ before stretch, seen = before ++ .name woofName :: stretch ∧ Stretch st.cap stretch := by
  simp only [KeychainState.complete, Bool.and_eq_true, decide_eq_true_eq] at hcomplete
  obtain ⟨⟨⟨hname, hperm⟩, hcheck⟩, hcurrent⟩ := hcomplete
  obtain ⟨before, stretch, hseen, hwithin, hpermissions, hchecks, hfirst⟩ := h.stretch hname
  rw [hcurrent] at hseen
  rw [if_pos hperm] at hpermissions
  rw [if_pos hcheck] at hchecks
  exact ⟨before, stretch, hseen, hwithin, hpermissions, hchecks, hfirst hcurrent⟩

theorem Reads.extend (h : Reads woofName seen st) (hcomplete : st.complete woofName = false)
    {line : KeychainLine} {st' : KeychainState} (hopens : line.opens = false)
    (hname : st'.haveName = st.haveName) (hcurrent : st'.currentName = st.currentName)
    (hrecord : st'.inRecord = st.inRecord)
    (hpermissions : ∀ stretch, st.haveName = true →
      lastPermissions stretch = (if st.havePermissions then some st.currentPermissions else none) →
      lastPermissions (stretch ++ [line]) =
        (if st'.havePermissions then some st'.currentPermissions else none))
    (hcheck : ∀ stretch, st.haveName = true →
      lastCheck stretch = (if st.haveCheck then some st.currentCheck else none) →
      lastCheck (stretch ++ [line]) =
        (if st'.haveCheck then some st'.currentCheck else none)) :
    Reads woofName (seen ++ [line]) st' := by
  constructor
  · rw [hname, hrecord]
    exact h.inRecord
  · intro hname'
    rw [hname] at hname'
    obtain ⟨before, stretch, hseen, hwithin, hperms, hchecks, hfirst⟩ := h.stretch hname'
    refine ⟨before, stretch ++ [line], by rw [hseen, hcurrent, List.append_assoc]; rfl, ?_,
      hpermissions stretch hname' hperms, hcheck stretch hname' hchecks, ?_⟩
    · intro l hl
      rcases List.mem_append.1 hl with hl | hl
      · exact hwithin l hl
      · rw [List.mem_singleton.1 hl]
        exact hopens
    · intro hwanted front hfront hne
      rw [hcurrent] at hwanted
      rcases List.prefix_concat_iff.1 hfront with heq | hprefix
      · exact absurd heq hne
      · by_cases hwhole : front = stretch
        · -- the search would have ended at the line before
          rw [hwhole, hperms, hchecks]
          simp only [KeychainState.complete, hname', hwanted, Bool.true_and, decide_true,
            Bool.and_true, Bool.and_eq_false_iff] at hcomplete
          rcases hcomplete with hp | hc
          · exact Or.inl (if_neg (by simp [hp]))
          · exact Or.inr (if_neg (by simp [hc]))
        · exact hfirst hwanted front hprefix hwhole

theorem Reads.read (h : Reads woofName seen st) (hcomplete : st.complete woofName = false)
    (line : KeychainLine) : Reads woofName (seen ++ [line]) (st.read line).1 := by
  cases line with
  | skip | stop =>
    refine h.extend hcomplete rfl rfl rfl rfl (fun s _ hs => ?_) (fun s _ hs => ?_)
    · exact (lastParsed_concat s _).trans hs
    · exact (lastParsed_concat s _).trans hs
  | record => exact Reads.of_noName rfl
  | container => exact Reads.of_noName rfl
  | name value =>
    rw [KeychainState.read]
    split
    · exact Reads.of_noName rfl
    · refine ⟨fun _ => rfl, fun _ => ⟨seen, [], rfl, by simp, rfl, rfl, ?_⟩⟩
      intro _ front hfront hne
      exact absurd (List.prefix_nil.1 hfront) hne
  | permissions value =>
    rw [KeychainState.read]
    split
    · rename_i hrecord
      exact h.of_not_inRecord hrecord _
    · split <;> rename_i hparse
      all_goals
        refine h.extend hcomplete rfl rfl rfl rfl (fun s _ hs => ?_) (fun s _ hs => ?_)
        · rw [lastPermissions, lastParsed_concat]
          exact hparse
        · exact (lastParsed_concat s _).trans hs
  | check value =>
    rw [KeychainState.read]
    split
    · rename_i hrecord
      exact h.of_not_inRecord hrecord _
    · split <;> rename_i hparse
      all_goals
        refine h.extend hcomplete rfl rfl rfl rfl (fun s _ hs => ?_) (fun s _ hs => ?_)
        · exact (lastParsed_concat s _).trans hs
        · rw [lastCheck, lastParsed_concat]
          exact hparse

end Reads

variable {woofName : Bytes} {st : KeychainState} {cap : Wcap} {line file : Bytes}

theorem complete_read_of_no_test (hcomplete : st.complete woofName = false) {line : KeychainLine}
    (htest : (st.read line).2 = false) :
    (st.read line).1.complete woofName = false := by
  cases line with
  | skip => exact hcomplete
  | stop => exact hcomplete
  | record => rfl
  | container => rfl
  | name value =>
    unfold KeychainState.read
    dsimp only
    split
    · rfl
    · simp [KeychainState.complete]
  | permissions value =>
    unfold KeychainState.read at htest ⊢
    dsimp only at htest ⊢
    split
    · exact hcomplete
    · split
      · simp [KeychainState.complete]
      · simp_all
  | check value =>
    unfold KeychainState.read at htest ⊢
    dsimp only at htest ⊢
    split
    · exact hcomplete
    · split
      · simp [KeychainState.complete]
      · simp_all

def Fgets.keychainLine (got : Fgets) : KeychainLine := Cspot.keychainLine got.line

theorem searchLines_found {gots : List Fgets} {seen : List KeychainLine}
    (h : Reads woofName seen st) (hcomplete : st.complete woofName = false)
    (hfound : searchLines woofName gots st = some cap) :
    ∃ read, read <+: gots ∧ (∀ got ∈ read, got.tooLong = false ∧ got.keychainLine ≠ .stop) ∧
      ∃ before stretch, seen ++ read.map Fgets.keychainLine =
        before ++ .name woofName :: stretch ∧ Stretch cap stretch ∧ cap.flags = 0 ∧
          cap.frameSize = 0 := by
  induction gots generalizing seen st with
  | nil => cases hfound
  | cons got rest ih =>
    rw [searchLines] at hfound
    split at hfound
    · cases hfound
    rename_i hlong
    split at hfound
    · cases hfound
    rename_i hstop
    have hgot : got.tooLong = false ∧ got.keychainLine ≠ .stop := ⟨by simpa using hlong, hstop⟩
    have hread := h.read hcomplete got.keychainLine
    dsimp only at hfound
    split at hfound
    · rename_i hdone
      rw [Bool.and_eq_true] at hdone
      obtain ⟨before, stretch, hseen, hstretch⟩ := hread.found hdone.2
      cases hfound
      exact ⟨[got], ⟨rest, rfl⟩, by simpa using hgot, before, stretch, hseen, hstretch, rfl, rfl⟩
    · rename_i hdone
      have hmore : (st.read got.keychainLine).1.complete woofName = false := by
        rw [Bool.and_eq_true, not_and_or, Bool.not_eq_true, Bool.not_eq_true] at hdone
        exact hdone.elim (complete_read_of_no_test hcomplete) id
      obtain ⟨read, ⟨post, hpost⟩, hall, before, stretch, hseen, hrest⟩ := ih hread hmore hfound
      refine ⟨got :: read, ⟨post, by rw [← hpost]; rfl⟩, ?_, before, stretch, ?_, hrest⟩
      · exact List.forall_mem_cons.2 ⟨hgot, hall⟩
      · rw [← hseen, List.append_assoc]
        rfl

/-! ## The lines of a file -/

theorem rdropWhile_append_newline (text : Bytes) :
    (text ++ [newline]).rdropWhile isSpace = text.rdropWhile isSpace :=
  List.rdropWhile_concat_pos _ _ _ rfl

theorem trimSpace_append_newline (text : Bytes) :
    trimSpace (text ++ [newline]) = trimSpace text := by
  unfold trimSpace
  by_cases hall : ∀ b ∈ text, isSpace b = true
  · rw [List.dropWhile_append_of_pos hall, List.dropWhile_eq_nil_iff.2 hall]
    rfl
  · rw [List.dropWhile_append, if_neg, rdropWhile_append_newline]
    rw [List.isEmpty_iff, List.dropWhile_eq_nil_iff]
    exact hall

theorem cutComment_append_newline (last : Option UInt8) (q : Quotes) (text : Bytes) :
    cutComment last q (text ++ [newline]) = cutComment last q text ++ [newline] ∨
      cutComment last q (text ++ [newline]) = cutComment last q text := by
  induction text generalizing last q with
  | nil =>
    simp [cutComment, newline]
  | cons c text ih =>
    rw [List.cons_append, cutComment, cutComment]
    repeat' split
    all_goals first
      | exact Or.inr rfl
      | exact (ih _ _).imp (congrArg (c :: ·)) (congrArg (c :: ·))

theorem keychainLine_append_newline (line : Bytes) :
    keychainLine (line ++ [newline]) = keychainLine line := by
  have htext : trimSpace (removeYamlComment (line ++ [newline])) =
      trimSpace (removeYamlComment line) := by
    rcases cutComment_append_newline none ⟨false, false, false⟩ line with h | h
    · rw [removeYamlComment, h, trimSpace_append_newline]
      rfl
    · rw [removeYamlComment, h]
      rfl
  rw [keychainLine, htext]
  rfl

theorem cstr_of_notMem {text : Bytes} (h : (0 : UInt8) ∉ text) : Bytes.cstr text = text :=
  List.takeWhile_eq_self_iff.2 fun b hb => by simpa using Bytes.ne_zero_of_notMem h b hb

theorem splitOn_append_newline (h : newline ∉ line) (rest : Bytes) :
    (line ++ newline :: rest).splitOn newline = line :: rest.splitOn newline := by
  refine List.splitOnP_append_cons_of_forall_mem (fun _ hb => ?_) _ (by simp) _
  exact beq_eq_false_iff_ne.2 fun heq => h (heq ▸ hb)

theorem splitOn_of_notMem (h : newline ∉ line) : line.splitOn newline = [line] :=
  List.splitOnP_eq_singleton fun _ hb => beq_eq_false_iff_ne.2 fun heq => h (heq ▸ hb)

/-- As long as no line is too long for the buffer, the lines read are those of the file. -/
theorem fgetsAll_lines {room : Nat} {buffer : Bytes} {read : List Fgets}
    (hzero : (0 : UInt8) ∉ buffer ++ file) (hbuffer : newline ∉ buffer)
    (hread : read <+: fgetsAll room file buffer) (hall : ∀ got ∈ read, got.tooLong = false) :
    read.map Fgets.keychainLine <+: ((buffer ++ file).splitOn newline).map keychainLine := by
  induction file generalizing buffer read with
  | nil =>
    rw [List.append_nil] at hzero ⊢
    rw [splitOn_of_notMem hbuffer]
    cases buffer with
    | nil =>
      rw [List.prefix_nil.1 hread]
      exact List.nil_prefix
    | cons c buffer =>
      have hline : Fgets.keychainLine ⟨c :: buffer, true⟩ = keychainLine (c :: buffer) := by
        rw [Fgets.keychainLine, Fgets.line, cstr_of_notMem hzero]
      have := hread.map Fgets.keychainLine
      rwa [fgetsAll, List.map_singleton, hline] at this
  | cons c file ih =>
    rw [fgetsAll] at hread
    rw [List.append_cons] at hzero ⊢
    by_cases hend : c = newline
    · rw [if_pos (Or.inl hend)] at hread
      rw [hend, List.append_assoc, List.singleton_append, splitOn_append_newline hbuffer]
      cases read with
      | nil => exact List.nil_prefix
      | cons got read =>
        obtain ⟨rfl, htail⟩ := List.cons_prefix_cons.1 hread
        have hline : Fgets.keychainLine ⟨buffer ++ [c], false⟩ = keychainLine buffer := by
          rw [Fgets.keychainLine, Fgets.line,
            cstr_of_notMem fun h => hzero (List.mem_append_left _ h), hend,
            keychainLine_append_newline]
        have hrest := ih (fun h => hzero (List.mem_append_right _ h))
          (List.not_mem_nil : newline ∉ []) htail
          fun got hgot => hall got (List.mem_cons_of_mem _ hgot)
        rw [List.map_cons, List.map_cons, hline]
        exact List.cons_prefix_cons.2 ⟨rfl, hrest⟩
    · have hbuffer' : newline ∉ buffer ++ [c] := by
        intro h
        rcases List.mem_append.1 h with h | h
        · exact hbuffer h
        · exact hend (List.mem_singleton.1 h).symm
      split at hread
      · cases read with
        | nil => exact List.nil_prefix
        | cons got read =>
          -- a full buffer without a newline
          obtain ⟨rfl, -⟩ := List.cons_prefix_cons.1 hread
          have hlong := hall _ List.mem_cons_self
          rw [Fgets.tooLong, Fgets.line,
            cstr_of_notMem fun h => hzero (List.mem_append_left _ h)] at hlong
          simp [hbuffer'] at hlong
      · exact ih hzero hbuffer' hread hall

/-- The lines of the file around the capability the search returns. -/
structure Found (file woofName : Bytes) (cap : Wcap) : Prop where
  lines : ∃ before line stretch after,
    file.splitOn newline = before ++ line :: (stretch ++ after) ∧
    (∀ l ∈ before ++ line :: stretch, keychainLine l ≠ .stop) ∧
    keychainLine line = .name woofName ∧ Stretch cap (stretch.map keychainLine)
  flags : cap.flags = 0
  frameSize : cap.frameSize = 0

theorem found_of_searchKeychainFile (hzero : (0 : UInt8) ∉ file)
    (h : searchKeychainFile file woofName = some cap) :
    Found file woofName cap := by
  obtain ⟨read, hread, hall, before, stretch, hseen, hstretch, hflags, hsize⟩ :=
    searchLines_found (Reads.of_noName rfl : Reads woofName [] .initial) rfl h
  have hlines := fgetsAll_lines (by simpa using hzero) List.not_mem_nil hread
    fun got hgot => (hall got hgot).1
  rw [List.nil_append] at hseen hlines
  rw [hseen] at hlines
  obtain ⟨after, hafter⟩ := hlines
  rw [List.append_assoc, List.cons_append] at hafter
  obtain ⟨front, back, hfile, hfront, hback⟩ := List.map_eq_append_iff.1 hafter.symm
  obtain ⟨line, back', hback', hline, hrest⟩ := List.map_eq_cons_iff.1 hback
  obtain ⟨stretch', after', hsplit, hstretch', -⟩ := List.map_eq_append_iff.1 hrest
  refine ⟨⟨front, line, stretch', after', by rw [hfile, hback', hsplit], ?_, hline,
    hstretch' ▸ hstretch⟩, hflags, hsize⟩
  intro l hl hstop
  have hmem : .stop ∈ read.map Fgets.keychainLine := by
    rw [hseen, ← hfront, ← hstretch', ← hline, ← List.map_cons, ← List.map_append, ← hstop]
    exact List.mem_map_of_mem hl
  obtain ⟨got, hgot, heq⟩ := List.mem_map.1 hmem
  exact (hall got hgot).2 heq

end Cspot
