import Cspot.Dht.Lookup
import Cspot.Lib.Decimal

/-!
# Notifications

A node that takes itself for the predecessor of another one notifies it.  The notified node
keeps the closest of its notifiers: it compares each with the one it has, and any other node is
closer than the node itself.
-/

namespace Cspot.Dht

open Circle

/-! ## The handler -/

structure NotifyArg where
  node : Contact
  callbackWoof : Bytes
  callbackHandler : Bytes

/-- The records that `h_notify` reads and writes. -/
structure Neighbours where
  info : NodeInfo
  predecessor : Contact
  successor : Fin 3 → Contact

/-- What goes back to the notifier, for its list of successors. -/
structure NotifyCallback where
  monitor : Bytes
  woof : Bytes
  handler : Bytes
  successors : List Contact

structure NotifyEnv where
  /-- Whether a new predecessor can be put. -/
  stored : Bool
  uriIp : Bytes → Option Bytes
  /-- Zero for a URI without a port. -/
  uriPort : Bytes → Nat
  uriNamespace : Bytes → Option Bytes
  putCallback : NotifyCallback → Bool

/-- The node itself and its successors in front of the first empty one, three in all. -/
def notifySuccessors (state : Neighbours) : List Contact :=
  ⟨state.info.hash, state.info.replicas, state.info.leaderId⟩ ::
    [state.successor 0, state.successor 1].takeWhile fun contact => !isEmpty contact.hash

def callbackMonitor (ipaddr : Bytes) (port : Nat) (ns : Bytes) : Bytes :=
  let host := if 0 < port then ipaddr ++ Bytes.ofString ":" ++ Decimal.ofNat port else ipaddr
  Bytes.ofString "woof://" ++ host ++ ns ++ Bytes.ofString "/dht"

/-- The end of the handler: what it puts for the notifier, if that asks for it. -/
def notifyCallback (env : NotifyEnv) (state : Neighbours) (arg : NotifyArg) :
    Exec (Option NotifyCallback) :=
  if arg.callbackWoof = [] then .ok none
  else
    match env.uriIp arg.callbackWoof, env.uriNamespace arg.callbackWoof with
    | some ipaddr, some ns =>
      let callback : NotifyCallback :=
        { monitor := callbackMonitor ipaddr (env.uriPort arg.callbackWoof) ns
          woof := arg.callbackWoof
          handler := arg.callbackHandler
          successors := notifySuccessors state }
      if env.putCallback callback then .ok (some callback) else .error .exception
    | _, _ => .error .exception

/-- There is no predecessor, or it is the node itself, or the notifier lies behind it. -/
def takesNotifier (predecessor node notifier : Hash) : Bool :=
  isEmpty predecessor || predecessor = node || inRange notifier predecessor node

/-- The records afterwards, and the put to the notifier or the exit after a failure. -/
def hNotify (env : NotifyEnv) (state : Neighbours) (arg : NotifyArg) :
    Neighbours × Exec (Option NotifyCallback) :=
  if takesNotifier state.predecessor.hash state.info.hash arg.node.hash then
    if state.predecessor.hash = arg.node.hash then (state, .ok none)
    else if env.stored then
      ({ state with predecessor := arg.node },
        notifyCallback env { state with predecessor := arg.node } arg)
    else (state, .error .exception)
  else (state, notifyCallback env state arg)

def notified (state : Neighbours) (runs : List (NotifyEnv × NotifyArg)) : Neighbours :=
  runs.foldl (fun state run => (hNotify run.1 state run.2).1) state

/-! ## One notification -/

theorem takesNotifier_iff {predecessor node notifier : Hash} (hne : notifier ≠ predecessor) :
    takesNotifier predecessor node notifier = true ↔
      predecessor = 0 ∨ gap notifier node < gap predecessor node := by
  have hempty : isEmpty predecessor = true ↔ predecessor = 0 := by simp [isEmpty]
  rw [takesNotifier, Bool.or_eq_true, Bool.or_eq_true, hempty, decide_eq_true_iff, inRange_iff,
    or_assoc]
  apply or_congr_right
  rw [gap_lt_gap_iff_closer, or_iff_right_iff_imp]
  rintro rfl
  -- every other node is closer than the node itself
  rw [gap_self]
  exact gap_lt_of_ne hne

theorem hNotify_predecessor {env : NotifyEnv} (hstored : env.stored = true) (state : Neighbours)
    (arg : NotifyArg) (hnotifier : arg.node.hash ≠ 0) :
    (hNotify env state arg).1.info = state.info ∧
      (hNotify env state arg).1.predecessor =
        if state.predecessor.hash = 0 ∨
          gap arg.node.hash state.info.hash < gap state.predecessor.hash state.info.hash
        then arg.node else state.predecessor := by
  by_cases hsame : arg.node.hash = state.predecessor.hash
  · have hkeep : ¬ (state.predecessor.hash = 0 ∨
        gap arg.node.hash state.info.hash < gap state.predecessor.hash state.info.hash) := by
      rw [hsame] at hnotifier ⊢
      exact fun h => h.elim hnotifier (Nat.lt_irrefl _)
    unfold hNotify
    split
    · rw [if_pos hsame.symm]
      exact ⟨rfl, rfl⟩
    · exact ⟨rfl, rfl⟩
  · unfold hNotify
    by_cases htakes : takesNotifier state.predecessor.hash state.info.hash arg.node.hash = true
    · rw [if_pos htakes, if_neg (Ne.symm hsame), if_pos hstored,
        if_pos ((takesNotifier_iff hsame).1 htakes)]
      exact ⟨rfl, rfl⟩
    · rw [if_neg htakes, if_neg fun h => htakes ((takesNotifier_iff hsame).2 h)]
      exact ⟨rfl, rfl⟩

/-! ## All notifications -/

def notifiers (runs : List (NotifyEnv × NotifyArg)) : Set Hash :=
  {hash | ∃ run ∈ runs, run.2.node.hash = hash}

/-- Among the notifiers, if there are any, the closest one is the predecessor. -/
def Closest (state : Neighbours) (runs : List (NotifyEnv × NotifyArg)) (predecessor : Contact) :
    Prop :=
  (∃ run ∈ runs, predecessor = run.2.node) ∧
    IsPrevious (notifiers runs) state.info.hash predecessor.hash

theorem closest_append {state : Neighbours} {runs : List (NotifyEnv × NotifyArg)}
    {predecessor : Contact} (h : Closest state runs predecessor) (run : NotifyEnv × NotifyArg) :
    Closest state (runs ++ [run])
      (if gap run.2.node.hash state.info.hash < gap predecessor.hash state.info.hash
        then run.2.node else predecessor) := by
  obtain ⟨⟨found, hfound, rfl⟩, -, hclosest⟩ := h
  have hold : ∀ hash ∈ notifiers (runs ++ [run]), hash = run.2.node.hash ∨
      hash ∈ notifiers runs := by
    rintro hash ⟨other, hother, rfl⟩
    rcases List.mem_append.1 hother with hrun | hrun
    · exact .inr ⟨other, hrun, rfl⟩
    · exact .inl (by rw [List.mem_singleton.1 hrun])
  split
  · rename_i hcloser
    refine ⟨⟨run, by simp, rfl⟩, ⟨run, by simp, rfl⟩, fun hash hhash => ?_⟩
    rcases hold hash hhash with rfl | hbefore
    · exact Nat.le_refl _
    · exact Nat.le_of_lt (Nat.lt_of_lt_of_le hcloser (hclosest hash hbefore))
  · rename_i hfarther
    have hmem : found ∈ runs ++ [run] := List.mem_append_left _ hfound
    refine ⟨⟨found, hmem, rfl⟩, ⟨found, hmem, rfl⟩, fun hash hhash => ?_⟩
    rcases hold hash hhash with rfl | hbefore
    · exact Nat.le_of_not_lt hfarther
    · exact hclosest hash hbefore

/-- From an empty predecessor on, the handler keeps the closest of all notifiers. -/
theorem notified_closest {state : Neighbours} (hempty : state.predecessor.hash = 0)
    (runs : List (NotifyEnv × NotifyArg)) (hstored : ∀ run ∈ runs, run.1.stored = true)
    (hnotifiers : ∀ run ∈ runs, run.2.node.hash ≠ 0) :
    (notified state runs).info = state.info ∧
      (runs = [] ∧ (notified state runs).predecessor = state.predecessor ∨
        Closest state runs (notified state runs).predecessor) := by
  induction runs using List.reverseRecOn with
  | nil => exact ⟨rfl, .inl ⟨rfl, rfl⟩⟩
  | append_singleton runs run ih =>
    obtain ⟨hinfo, hbefore⟩ := ih (fun run h => hstored run (List.mem_append_left _ h))
      fun run h => hnotifiers run (List.mem_append_left _ h)
    have hrun : run ∈ runs ++ [run] := List.mem_append_right _ (List.mem_singleton_self _)
    have hlast : notified state (runs ++ [run]) =
        (hNotify run.1 (notified state runs) run.2).1 := by
      simp [notified]
    obtain ⟨hinfo', hpredecessor⟩ := hNotify_predecessor (hstored run hrun)
      (notified state runs) run.2 (hnotifiers run hrun)
    rw [hlast, hinfo', hpredecessor, hinfo]
    refine ⟨rfl, .inr ?_⟩
    rcases hbefore with ⟨rfl, hnone⟩ | hclosest
    · rw [if_pos (.inl (by rw [hnone, hempty]))]
      refine ⟨⟨run, by simp, rfl⟩, ⟨run, by simp, rfl⟩, ?_⟩
      rintro hash ⟨other, hother, rfl⟩
      rw [List.nil_append, List.mem_singleton] at hother
      rw [hother]
    · obtain ⟨found, hfound, heq⟩ := hclosest.1
      have hne : (notified state runs).predecessor.hash ≠ 0 := by
        rw [heq]
        exact hnotifiers found (List.mem_append_left _ hfound)
      simp only [hne, false_or]
      exact closest_append hclosest run

/-- The predecessor is the notifier closest counter-clockwise, and which one that is depends on
the set of notifiers alone. -/
theorem predecessor_closest {state : Neighbours} (hempty : isEmpty state.predecessor.hash = true)
    {runs : List (NotifyEnv × NotifyArg)} (hne : runs ≠ [])
    (hstored : ∀ run ∈ runs, run.1.stored = true)
    (hnotifiers : ∀ run ∈ runs, run.2.node.hash ≠ 0) :
    (∃ run ∈ runs, (notified state runs).predecessor = run.2.node) ∧
      IsPrevious (notifiers runs) state.info.hash (notified state runs).predecessor.hash ∧
      ∀ runs', (∀ run ∈ runs', run.1.stored = true) → notifiers runs' = notifiers runs →
        (notified state runs').predecessor.hash = (notified state runs).predecessor.hash := by
  have hzero : state.predecessor.hash = 0 := by simpa [isEmpty] using hempty
  obtain ⟨-, hnil | hclosest⟩ := notified_closest hzero runs hstored hnotifiers
  · exact absurd hnil.1 hne
  refine ⟨hclosest.1, hclosest.2, fun runs' hstored' hsame => ?_⟩
  have hnotifiers' : ∀ run ∈ runs', run.2.node.hash ≠ 0 := by
    intro run hrun
    have hmem : run.2.node.hash ∈ notifiers runs := hsame ▸ ⟨run, hrun, rfl⟩
    obtain ⟨other, hother, heq⟩ := hmem
    exact heq ▸ hnotifiers other hother
  obtain ⟨-, ⟨rfl, -⟩ | hclosest'⟩ := notified_closest hzero runs' hstored' hnotifiers'
  · have hmem := hclosest.2.1
    rw [← hsame] at hmem
    simp [notifiers] at hmem
  · exact IsPrevious.unique (hsame ▸ hclosest'.2) hclosest.2

def lonelyNode : Neighbours where
  info := ⟨10, [], fun _ => [], 0, 0⟩
  predecessor := .zero
  successor := fun _ => .zero

def plainRuns (hashes : List Hash) : List (NotifyEnv × NotifyArg) :=
  hashes.map fun hash =>
    ({ stored := true
       uriIp := fun _ => none
       uriPort := fun _ => 0
       uriNamespace := fun _ => none
       putCallback := fun _ => true },
      { node := ⟨hash, fun _ => [], 0⟩
        callbackWoof := []
        callbackHandler := [] })

theorem predecessor_closest_lonely :
    (notified lonelyNode (plainRuns [7, 10, 9, 200])).predecessor.hash = 9 ∧
      IsPrevious (notifiers (plainRuns [7, 10, 9, 200])) 10
        (notified lonelyNode (plainRuns [7, 10, 9, 200])).predecessor.hash :=
  ⟨by decide,
    (@predecessor_closest lonelyNode (by decide) (plainRuns [7, 10, 9, 200]) (by decide)
      (by decide) (by decide)).2.1⟩

end Cspot.Dht
