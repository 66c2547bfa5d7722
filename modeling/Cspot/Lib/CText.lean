import Cspot.Lib.Bytes

/-!
# Texts in a buffer

What `sprintf`, `strlen` and `strtok` do to a buffer that holds zero-terminated text.  A
tokeniser works in place: it overwrites the separator behind a token with a zero and goes on
behind it the next time.
-/

namespace CText

def strAt (buf : Bytes) (pos : Nat) : Bytes := Bytes.cstr (buf.drop pos)

def write (buf : Bytes) (pos : Nat) (text : Bytes) : Option Bytes :=
  if pos + text.length < buf.length then
    some (buf.take pos ++ text ++ 0 :: buf.drop (pos + text.length + 1))
  else none

/-- The token found, if any, the buffer, and where the next search starts. -/
structure Token where
  pos : Option Nat
  buf : Bytes
  next : Nat
deriving Repr, DecidableEq

def strtok (sep : UInt8) (buf : Bytes) (start : Nat) : Token :=
  let pos := start + ((buf.drop start).takeWhile (· = sep)).length
  let token := (buf.drop pos).takeWhile fun b => b ≠ sep ∧ b ≠ 0
  if token = [] then ⟨none, buf, pos⟩
  else if buf[pos + token.length]? = some sep then
    ⟨some pos, buf.set (pos + token.length) 0, pos + token.length + 1⟩
  else ⟨some pos, buf, pos + token.length⟩

section Layout

variable {pre text : Bytes} {k : Nat} {sep : UInt8}

theorem write_append (hk : text.length < k) :
    write (pre ++ List.replicate k 0) pre.length text =
      some (pre ++ text ++ List.replicate (k - text.length) 0) := by
  have hfit : pre.length + text.length < (pre ++ List.replicate k (0 : UInt8)).length := by
    simp
    omega
  obtain ⟨more, rfl⟩ : ∃ more, k = text.length + 1 + more := ⟨k - (text.length + 1), by omega⟩
  have hrest : text.length + 1 + more - text.length = more + 1 := by omega
  have hdrop : pre.length + text.length + 1 = pre.length + (text.length + 1) := by omega
  rw [write, if_pos hfit, hrest, hdrop, List.take_left, List.drop_append, List.drop_replicate,
    List.replicate_succ]
  simp

theorem strAt_append (pre : Bytes) (htext : ∀ b ∈ text, b ≠ 0) (rest : Bytes) :
    strAt (pre ++ (text ++ 0 :: rest)) pre.length = text := by
  rw [strAt, List.drop_left, Bytes.cstr_append_zero htext]

theorem strtok_append (pre : Bytes) (hne : text ≠ []) (hsep : sep ∉ text)
    (hzero : ∀ b ∈ text, b ≠ 0) (rest : Bytes) :
    strtok sep (pre ++ (text ++ sep :: rest)) pre.length =
      ⟨some pre.length, pre ++ (text ++ 0 :: rest), pre.length + text.length + 1⟩ := by
  have hall : ∀ b ∈ text, b ≠ sep ∧ b ≠ 0 := by
    intro b hb
    exact ⟨fun heq => hsep (heq ▸ hb), hzero b hb⟩
  have hskip : (text ++ sep :: rest).takeWhile (· = sep) = [] := by
    cases text with
    | nil => exact absurd rfl hne
    | cons b text =>
      simpa using (hall b List.mem_cons_self).1
  have htoken : ((text ++ sep :: rest).takeWhile fun b => b ≠ sep ∧ b ≠ 0) = text := by
    rw [List.takeWhile_append_of_pos (by simpa using hall)]
    simp
  have hget : (pre ++ (text ++ sep :: rest))[pre.length + text.length]? = some sep := by simp
  have hset : (pre ++ (text ++ sep :: rest)).set (pre.length + text.length) 0 =
      pre ++ (text ++ 0 :: rest) := by
    rw [List.set_append_right _ _ (by omega), Nat.add_sub_cancel_left,
      List.set_append_right _ _ (Nat.le_refl _), Nat.sub_self, List.set_cons_zero]
  simp only [strtok, List.drop_left, hskip, List.length_nil, Nat.add_zero, htoken, hne, if_false,
    hget, if_true, hset]

end Layout

end CText
