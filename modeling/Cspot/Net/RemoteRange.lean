import Cspot.Net.RangeReplies

/-!
# Range reads at both ends

A range read in the process and a range read over the network, for the longest run of
elements there is.
-/

namespace Cspot

/-! ## Range reads -/

/-- A read in the process gives the whole run; one over the network as much of it as fits
a reply. -/
structure RangeReadsAgree (c : Client) (t : Transport) (srv : Server) (woofName name : Bytes)
    (seqNo : Nat) (count : UInt32) (size : Nat) (run : List Bytes) : Prop where
  inProcess : wooFGetRange srv name seqNo count =
    .ok (if run = [] then -1 else (run.length : Int), run.flatten)
  remote : Delivers (withinLimit t.maxTransfer size run) (c.wooFGetRange t srv woofName seqNo count)

/-- When the two agree.  A size that looks like an error is not asked with at all, and one
handler passes a range on to the handler of single elements. -/
def RangeSafe (t : Transport) (r : Route) (srv : Server) (size count : Nat) (run : List Bytes) :
    Prop :=
  t.heard srv size % 2 ^ 32 = 2 ^ 32 - 1 ∨
    match t, r with
    | .zmq, .unprotected => run = [] ∨ Zmq.maxTransfer < size
    | .zmq, _ => Zmq.RangeSafe srv.maxAlloc size count run
    | .cmq, _ => Cmq.RangeSafe size count run

/-- What the server does with a range request on each of the routes. -/
def Route.replyRange (t : Transport) (srv : Server) (seqNo count : Nat)
    (opened : Option (Bytes × WooF)) (r : Route) : Outcome :=
  match t, r with
  | .zmq, .unprotected => .reply srv sendNull
  | .zmq, _ => Zmq.replyRange srv seqNo count opened
  | .cmq, _ => Cmq.replyRange srv seqNo count opened

theorem count_accepted {count : UInt32} (hpos : 1 ≤ count.toNat) (hcount : count.toNat < 2 ^ 31) :
    ¬ Word.toInt32 count.toNat < 0 ∧ count ≠ 0 := by
  refine ⟨?_, ?_⟩
  · rw [Word.toInt32_of_lt hcount]
    omega
  · rintro rfl
    simp at hpos

section RangeReads

variable {c : Client} {t : Transport} {srv : Server} {woofName name : Bytes} {wf : WooF}
  {seqNo : Nat} {count : UInt32} {r : Route} (ha : Addressed srv woofName name)

include ha

theorem Route.outcome_getRange {hmac : Hmac} {frames : List Frame} {first : UInt32}
    (hcap : r = .plain → t.Uncapped srv name) (hcount : count.toNat < 2 ^ 31)
    (h : Arrived [textFrame woofName, textFrame (decimal first), textFrame (decimal count)]
      frames) :
    r.outcome t hmac srv .getRange frames =
      r.replyRange t srv first.toNat count.toNat (srv.lookup name) := by
  cases t with
  | zmq =>
    cases r with
    | plain => exact Zmq.wooFProcessGetRange_eq ha (fun _ => hcap rfl) hcount h
    | granted => exact Zmq.wooFProcessGetRange_eq ha Transport.uncapped_of_false hcount h
    | unprotected =>
      obtain ⟨_, _, _, rfl, -⟩ := h.three
      rfl
  | cmq =>
    cases r with
    | plain => exact Cmq.wooFProcessGetRange_eq ha (fun _ => hcap rfl) h
    | unprotected | granted =>
      exact Cmq.wooFProcessGetRange_eq ha Transport.uncapped_of_false h

variable (hwoof : srv.lookup name = some (name, wf)) (hrest : wf.AtRest)
  (hpos : 1 ≤ count.toNat) (hcount : count.toNat < 2 ^ 31)

include hwoof hrest hpos hcount

theorem wooFGetRange_eq {run : List Bytes} (hrun : IsRun wf.elementAt seqNo count.toNat run)
    (hlt : seqNo + count.toNat < Word.modulus) :
    wooFGetRange srv name seqNo count =
      .ok (if run = [] then -1 else (run.length : Int), run.flatten) := by
  have hsmall := hrest.elementSize_lt
  have hsize : wf.elementSize ≠ Word.allOnes := by
    unfold Word.allOnes Word.modulus
    omega
  obtain ⟨hneg, hzero⟩ := count_accepted hpos hcount
  simp only [wooFGetRange, if_neg hneg, if_neg hzero, ha.wooFOpen_name, hwoof, Exec.ok_bind,
    if_neg hsize, readRun_eq hrest hrun hlt]
  split
  · rename_i hnil
    simp [hnil]
  · rfl

theorem Client.wooFGetRange_eq {rsize : Route} (hseq : seqNo < 2 ^ 32)
    (hsize : c.Admitted t srv woofName name .elSize rsize)
    (hrange : c.Admitted t srv woofName name
      (.getRange (UInt32.ofNat (t.heard srv wf.elementSize)) (UInt32.ofNat seqNo) count) r) :
    c.wooFGetRange t srv woofName seqNo count =
      if t.heard srv wf.elementSize % 2 ^ 32 = 2 ^ 32 - 1 then .ok (-1, [])
      else (r.replyRange t srv seqNo count.toNat (some (name, wf))).answer >>= fun p =>
        t.rangeReply (UInt32.ofNat (t.heard srv wf.elementSize)) count p.1 := by
  have hsmall := hrest.elementSize_lt
  have helSize := wooFMsgGetElSize_eq ha hwoof (by unfold Word.modulus; omega) hsize
  obtain ⟨hneg, hzero⟩ := count_accepted hpos hcount
  simp only [wooFGetRange, if_neg hneg, if_neg hzero, helSize, Exec.ok_bind,
    through32_eq_allOnes_iff]
  by_cases hbad : t.heard srv wf.elementSize % 2 ^ 32 = 2 ^ 32 - 1
  · rw [if_pos hbad, if_pos hbad]
    rfl
  · have hsized : (Request.getRange (UInt32.ofNat (t.heard srv wf.elementSize))
        (UInt32.ofNat seqNo) count).Sized :=
      fun h => hbad ((ofNat_eq_badSize_iff _).1 h)
    obtain ⟨frames, harrived, -, hcap, hexchange⟩ := exchange_of_admitted hrange hsized nofun
    have houtcome : r.outcome t c.hmac srv .getRange frames = _ :=
      Route.outcome_getRange ha hcap hcount harrived
    rw [toNat_ofNat_size hseq, hwoof] at houtcome
    simp only [if_neg hbad, wooFMsgGetRange, toUInt32_through32, hexchange, Request.operation]
    rw [houtcome]

end RangeReads

/-! ## One element and two readers -/

theorem isRun_sampleWoof {count : Nat} (h : 2 ≤ count) :
    IsRun (sampleWoof [7]).elementAt 1 count [[7]] where
  length_le := by simp; omega
  getElem? := by
    intro i hi
    have hzero : i = 0 := by simpa using hi
    subst hzero
    decide
  maximal := fun _ => by decide

end Cspot
