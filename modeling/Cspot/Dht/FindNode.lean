import Cspot.Dht.Cache

/-!
# Waiting for the node of a topic

`dht_find_node` takes the latest number of the result woof, puts its request, and polls the
woof for the result of its topic.  Results of other calls arrive while it polls: `arrivals k`
are those appended before its `k`-th operation on the woof, the first of which is the one that
takes the latest number.
-/

namespace Cspot.Dht

structure FindNodeResult where
  topic : Bytes
  nodeReplicas : Fin 5 → Bytes
  nodeLeader : Int

def dhtHistoryLengthLong : Nat := 512

def resultWoof (results : List FindNodeResult) : Window FindNodeResult :=
  (Window.empty dhtHistoryLengthLong 1 (by decide) Nat.one_pos).appendAll results

inductive FindNodeState
  | poll (i : Nat)
  | scan (i latestResultSeq : Nat)
  | failed
  | found (nodeLeader : Int) (nodeReplicas : Fin 5 → Bytes)

structure FindNodeCall where
  cache : Window TopicCache
  state : FindNodeState

def findNodeArg (dhtHash : Bytes → Hash) (info : NodeInfo) (topicName : Bytes) :
    FindSuccessorArg where
  key := topicName
  hashedKey := dhtHash topicName
  action := .findNode
  actionNamespace := []
  actionSeqno := 0
  callbackNamespace := info.addr
  tsCreated := 0

def findNodeRequest (dhtHash : Bytes → Hash) (info : NodeInfo) (topicName : Bytes) :
    Put where
  monitor := none
  woof :=
    if info.leaderId ≠ info.replicaId then
      nameIn (info.replicas info.leaderId) "dht_find_successor.woof"
    else Bytes.ofString "dht_find_successor.woof"
  handler := none
  message := .request (findNodeArg dhtHash info topicName)

/-- Up to the first poll: the cache, the node's own record and the request. -/
def findNodeStart (env : Env) (dhtHash : Bytes → Hash) (nodeInfo : Option NodeInfo)
    (topicName : Bytes) (cache : Window TopicCache) (results : Window FindNodeResult) :
    FindNodeCall :=
  match dhtCacheNodeGet cache topicName with
  | some (some entry) => ⟨cache, .found entry.nodeLeader entry.nodeReplicas⟩
  | _ =>
    match nodeInfo with
    | none => ⟨cache, .failed⟩
    | some info =>
      if env.put (findNodeRequest dhtHash info topicName) then
        ⟨cache, .poll results.latest⟩
      else ⟨cache, .failed⟩

def scanFrom (i latestResultSeq : Nat) : FindNodeState :=
  if i ≤ latestResultSeq then .scan i latestResultSeq else .poll i

def findNodeStep (topicName : Bytes) (results : Window FindNodeResult) (call : FindNodeCall) :
    FindNodeCall :=
  match call.state with
  | .poll i => { call with state := scanFrom i results.latest }
  | .scan i latestResultSeq =>
    -- number zero stands for the latest result
    match results.get i with
    | none => { call with state := .failed }
    | some result =>
      if result.topic = topicName then
        ⟨dhtCacheNodePut call.cache topicName result.nodeLeader result.nodeReplicas,
          .found result.nodeLeader result.nodeReplicas⟩
      else { call with state := scanFrom (i + 1) latestResultSeq }
  | .failed => call
  | .found _ _ => call

def arrived (arrivals : Nat → List FindNodeResult) : Nat → List FindNodeResult
  | 0 => arrivals 0
  | k + 1 => arrived arrivals k ++ arrivals (k + 1)

section Call

variable (env : Env) (dhtHash : Bytes → Hash) (nodeInfo : Option NodeInfo) (topicName : Bytes)
  (cache : Window TopicCache) (initial : List FindNodeResult)
  (arrivals : Nat → List FindNodeResult)

/-- The call after its `k`-th operation on the result woof. -/
def dhtFindNode : Nat → FindNodeCall
  | 0 => findNodeStart env dhtHash nodeInfo topicName cache
      (resultWoof (initial ++ arrived arrivals 0))
  | k + 1 => findNodeStep topicName (resultWoof (initial ++ arrived arrivals (k + 1)))
      (dhtFindNode k)

end Call

/-- A result that is to be read by its number has not been overwritten. -/
def InTime (results : Window FindNodeResult) : FindNodeState → Prop
  | .scan i _ => i ≠ 0 → results.earliest ≤ i
  | _ => True

section ResultWoof

variable {results : List FindNodeResult}

theorem resultWoof_latest (results : List FindNodeResult) :
    (resultWoof results).latest = results.length := by
  rw [resultWoof, Window.latest_appendAll_empty, Nat.add_sub_cancel_left]

theorem resultWoof_get_zero (results : List FindNodeResult) :
    (resultWoof results).get 0 = results.getLast? := by
  rw [Window.get, if_pos rfl, resultWoof, Window.readLatest_appendAll_empty]

theorem resultWoof_get {i : Nat} (hi : i ≠ 0) (htime : (resultWoof results).earliest ≤ i) :
    (resultWoof results).get i = results[i - 1]? := by
  rw [resultWoof, Window.earliest_appendAll_empty] at htime
  rw [Window.get, if_neg hi, resultWoof, Window.read_appendAll_empty, if_pos htime]

theorem inTime_of_length_le (h : results.length ≤ dhtHistoryLengthLong) (state : FindNodeState) :
    InTime (resultWoof results) state := by
  cases state with
  | scan i latestResultSeq =>
    intro hi
    rw [resultWoof, Window.earliest_appendAll_empty]
    omega
  | _ => trivial

end ResultWoof

/-! ## Own answers -/

/-- The call has not failed, and an answer is one that has arrived for its topic. -/
def OwnAnswer (topicName : Bytes) (answers : List FindNodeResult) : FindNodeState → Prop
  | .failed => False
  | .found nodeLeader nodeReplicas => ⟨topicName, nodeReplicas, nodeLeader⟩ ∈ answers
  | _ => True

/-- Numbers from here on belong to results that have arrived since the call began. -/
def PastInitial (topicName : Bytes) (initial answers : List FindNodeResult) :
    FindNodeState → Prop
  | .poll i => initial.length < i
  | .scan i latestResultSeq => initial.length < i ∧ i ≤ latestResultSeq ∧
      latestResultSeq ≤ (initial ++ answers).length
  | state => OwnAnswer topicName answers state

section Answers

variable {topicName : Bytes} {initial answers : List FindNodeResult} {call : FindNodeCall}

theorem PastInitial.own {state : FindNodeState} (h : PastInitial topicName initial answers state) :
    OwnAnswer topicName answers state := by
  cases state with
  | poll i => trivial
  | scan i latestResultSeq => trivial
  | failed => exact h
  | found nodeLeader nodeReplicas => exact h

theorem scanFrom_pastInitial {i latestResultSeq : Nat} (hi : initial.length < i)
    (hlatest : latestResultSeq ≤ (initial ++ answers).length) :
    PastInitial topicName initial answers (scanFrom i latestResultSeq) := by
  rw [scanFrom]
  split
  · next hle => exact ⟨hi, hle, hlatest⟩
  · exact hi

theorem get_of_pastInitial {i : Nat} (hi : initial.length < i)
    (hle : i ≤ (initial ++ answers).length)
    (htime : (resultWoof (initial ++ answers)).earliest ≤ i) :
    ∃ result ∈ answers, (resultWoof (initial ++ answers)).get i = some result := by
  rw [List.length_append] at hle
  have hlt : i - 1 - initial.length < answers.length := by omega
  refine ⟨answers[i - 1 - initial.length], List.getElem_mem hlt, ?_⟩
  rw [resultWoof_get (by omega) htime, List.getElem?_append_right (by omega),
    List.getElem?_eq_getElem hlt]

theorem findNodeStep_pastInitial {more : List FindNodeResult}
    (h : PastInitial topicName initial answers call.state)
    (htime : InTime (resultWoof (initial ++ (answers ++ more))) call.state) :
    PastInitial topicName initial (answers ++ more)
      (findNodeStep topicName (resultWoof (initial ++ (answers ++ more))) call).state := by
  have hgrow : (initial ++ answers).length ≤ (initial ++ (answers ++ more)).length := by
    simp only [List.length_append]
    omega
  obtain ⟨cache, state⟩ := call
  cases state with
  | poll i => exact scanFrom_pastInitial h (Nat.le_of_eq (resultWoof_latest _))
  | scan i latestResultSeq =>
    obtain ⟨hi, hle, hlatest⟩ := h
    obtain ⟨result, hmem, hget⟩ :=
      get_of_pastInitial hi (hle.trans (hlatest.trans hgrow)) (htime (by omega))
    simp only [findNodeStep, hget]
    by_cases htopic : result.topic = topicName
    · rw [if_pos htopic, ← htopic]
      exact hmem
    · rw [if_neg htopic]
      exact scanFrom_pastInitial (Nat.lt_succ_of_lt hi) (hlatest.trans hgrow)
  | failed => exact h
  | found nodeLeader nodeReplicas => exact List.mem_append_left more h

end Answers

/-! ## The first read -/

section FirstRead

variable {env : Env} {dhtHash : Bytes → Hash} {info : NodeInfo} {topicName : Bytes}
  {cache : Window TopicCache} {initial : List FindNodeResult}
  {arrivals : Nat → List FindNodeResult}

theorem findNodeStart_eq (hmiss : dhtCacheNodeGet cache topicName = some none)
    (hput : env.put (findNodeRequest dhtHash info topicName) = true)
    (results : Window FindNodeResult) :
    findNodeStart env dhtHash (some info) topicName cache results =
      ⟨cache, .poll results.latest⟩ := by
  simp [findNodeStart, hmiss, hput]

theorem length_arrived_le (arrivals : Nat → List FindNodeResult) (k : Nat) :
    (initial ++ arrived arrivals k).length ≤ (initial ++ arrived arrivals (k + 1)).length := by
  simp only [arrived, List.length_append]
  omega

theorem dhtFindNode_one (hmiss : dhtCacheNodeGet cache topicName = some none)
    (hput : env.put (findNodeRequest dhtHash info topicName) = true) :
    dhtFindNode env dhtHash (some info) topicName cache initial arrivals 1 =
      ⟨cache, .scan (initial ++ arrived arrivals 0).length
        (initial ++ arrived arrivals 1).length⟩ := by
  rw [dhtFindNode, dhtFindNode, findNodeStart_eq hmiss hput]
  simp only [findNodeStep, scanFrom, resultWoof_latest, if_pos (length_arrived_le arrivals 0)]

theorem dhtFindNode_pastInitial
    (htime : ∀ k, InTime (resultWoof (initial ++ arrived arrivals (k + 1)))
      (dhtFindNode env dhtHash (some info) topicName cache initial arrivals k).state) {k : Nat}
    (h : PastInitial topicName initial (arrived arrivals k)
      (dhtFindNode env dhtHash (some info) topicName cache initial arrivals k).state) (m : Nat) :
    PastInitial topicName initial (arrived arrivals (k + m))
      (dhtFindNode env dhtHash (some info) topicName cache initial arrivals (k + m)).state := by
  induction m with
  | zero => exact h
  | succ m ih => exact findNodeStep_pastInitial ih (htime (k + m))

/-- What the first read has to find when its number is not past the initial results. -/
def FirstReadOwn (topicName : Bytes) (initial answers : List FindNodeResult) : Prop :=
  initial ++ answers ≠ [] ∧
    ∀ last, initial.getLast? = some last → last.topic = topicName → last ∈ answers

theorem dhtFindNode_two_of_none (hmiss : dhtCacheNodeGet cache topicName = some none)
    (hput : env.put (findNodeRequest dhtHash info topicName) = true)
    (hnone : arrivals 0 = []) :
    dhtFindNode env dhtHash (some info) topicName cache initial arrivals 2 =
      findNodeStep topicName (resultWoof (initial ++ arrived arrivals 2))
        ⟨cache, .scan initial.length (initial ++ arrived arrivals 1).length⟩ := by
  rw [dhtFindNode, dhtFindNode_one hmiss hput]
  simp [arrived, hnone]

/-- The read of the number taken before the request: the last of the initial results, or the
latest result if there were none. -/
theorem get_initial (initial answers : List FindNodeResult)
    (htime : initial.length ≠ 0 → (resultWoof (initial ++ answers)).earliest ≤ initial.length) :
    (resultWoof (initial ++ answers)).get initial.length =
      if initial = [] then answers.getLast? else initial.getLast? := by
  by_cases hempty : initial = []
  · rw [if_pos hempty, hempty]
    exact resultWoof_get_zero answers
  · have hpos : 0 < initial.length := List.length_pos_iff.2 hempty
    rw [resultWoof_get (by omega) (htime (by omega)), if_neg hempty,
      List.getElem?_append_left (by omega), List.getLast?_eq_getElem?]

theorem findNodeStep_first (initial answers : List FindNodeResult) {latestResultSeq : Nat}
    (htime : initial.length ≠ 0 → (resultWoof (initial ++ answers)).earliest ≤ initial.length)
    (hle : latestResultSeq ≤ (initial ++ answers).length) :
    (FirstReadOwn topicName initial answers →
      PastInitial topicName initial answers (findNodeStep topicName
        (resultWoof (initial ++ answers)) ⟨cache, .scan initial.length latestResultSeq⟩).state) ∧
    (OwnAnswer topicName answers (findNodeStep topicName (resultWoof (initial ++ answers))
        ⟨cache, .scan initial.length latestResultSeq⟩).state →
      FirstReadOwn topicName initial answers) := by
  simp only [findNodeStep, get_initial initial answers htime]
  by_cases hempty : initial = []
  · subst hempty
    rw [if_pos rfl]
    cases hlast : answers.getLast? with
    | none =>
      have hnil : answers = [] := List.getLast?_eq_none_iff.1 hlast
      exact ⟨fun hown => absurd hnil hown.1, fun hfailed => hfailed.elim⟩
    | some result =>
      have hmem : result ∈ answers := List.mem_of_getLast? hlast
      refine ⟨fun _ => ?_, fun _ => ⟨List.ne_nil_of_mem hmem, fun last hinit => by simp at hinit⟩⟩
      by_cases htopic : result.topic = topicName
      · simp only [if_pos htopic]
        rw [← htopic]
        exact hmem
      · simp only [if_neg htopic]
        exact scanFrom_pastInitial (Nat.succ_pos _) hle
  · rw [if_neg hempty]
    have hlast := List.getLast?_eq_some_getLast hempty
    generalize initial.getLast hempty = last at hlast
    have hne : initial ++ answers ≠ [] := List.append_ne_nil_of_left_ne_nil hempty _
    simp only [hlast]
    by_cases htopic : last.topic = topicName
    · simp only [if_pos htopic]
      refine ⟨fun hown => ?_, fun hmem => ⟨hne, fun last' hlast' _ => ?_⟩⟩
      · have hmem := hown.2 last hlast htopic
        rw [← htopic]
        exact hmem
      · obtain rfl : last = last' := Option.some.inj (hlast.symm.trans hlast')
        rw [← htopic] at hmem
        exact hmem
    · simp only [if_neg htopic]
      refine ⟨fun _ => scanFrom_pastInitial (Nat.lt_succ_self _) hle, fun _ => ⟨hne, ?_⟩⟩
      intro last' hlast' htopic'
      obtain rfl : last = last' := Option.some.inj (hlast.symm.trans hlast')
      exact absurd htopic' htopic

end FirstRead

/-- A call whose topic is not cached, whose request is put and which reads no result too late
never fails and answers only with a result that arrived for its topic after it began, exactly if
one had arrived before it took the latest number, or else the woof is not empty at the first read
and the last of the earlier results is for another topic or has arrived again by then. -/
theorem dhtFindNode_own_iff {env : Env} {dhtHash : Bytes → Hash} {info : NodeInfo}
    {topicName : Bytes} {cache : Window TopicCache} (initial : List FindNodeResult)
    (arrivals : Nat → List FindNodeResult)
    (hmiss : dhtCacheNodeGet cache topicName = some none)
    (hput : env.put (findNodeRequest dhtHash info topicName) = true)
    (htime : ∀ k, InTime (resultWoof (initial ++ arrived arrivals (k + 1)))
      (dhtFindNode env dhtHash (some info) topicName cache initial arrivals k).state) :
    (∀ k, OwnAnswer topicName (arrived arrivals k)
        (dhtFindNode env dhtHash (some info) topicName cache initial arrivals k).state) ↔
      arrivals 0 ≠ [] ∨ FirstReadOwn topicName initial (arrived arrivals 2) := by
  have htimeOne : arrivals 0 = [] → initial.length ≠ 0 →
      (resultWoof (initial ++ arrived arrivals 2)).earliest ≤ initial.length := by
    intro hnone
    have htime' := htime 1
    rw [dhtFindNode_one hmiss hput] at htime'
    simpa only [InTime, arrived, hnone, List.append_nil] using htime'
  constructor
  · intro hown
    by_cases hnone : arrivals 0 = []
    · have htwo := hown 2
      rw [dhtFindNode_two_of_none hmiss hput hnone] at htwo
      exact .inr ((findNodeStep_first initial _ (htimeOne hnone)
        (length_arrived_le arrivals 1)).2 htwo)
    · exact .inl hnone
  · intro hcond k
    by_cases hnone : arrivals 0 = []
    · have hfirst := hcond.resolve_left (fun hne => hne hnone)
      have htwo : PastInitial topicName initial (arrived arrivals 2)
          (dhtFindNode env dhtHash (some info) topicName cache initial arrivals 2).state := by
        rw [dhtFindNode_two_of_none hmiss hput hnone]
        exact (findNodeStep_first initial _ (htimeOne hnone)
          (length_arrived_le arrivals 1)).1 hfirst
      match k with
      | 0 =>
        rw [dhtFindNode, findNodeStart_eq hmiss hput]
        trivial
      | 1 =>
        rw [dhtFindNode_one hmiss hput]
        trivial
      | m + 2 =>
        rw [Nat.add_comm]
        exact (dhtFindNode_pastInitial htime htwo m).own
    · have hzero : PastInitial topicName initial (arrived arrivals 0)
          (dhtFindNode env dhtHash (some info) topicName cache initial arrivals 0).state := by
        rw [dhtFindNode, findNodeStart_eq hmiss hput, resultWoof_latest, List.length_append]
        exact Nat.lt_add_of_pos_right (List.length_pos_iff.2 hnone)
      rw [← Nat.zero_add k]
      exact (dhtFindNode_pastInitial htime hzero k).own

section Runs

def loneNode : NodeInfo := ⟨1, [110], fun _ => [110], 0, 0⟩

def puttingEnv : Env := ⟨fun _ => true, fun _ _ => none, 0⟩

def resultOf (topic : Bytes) (nodeLeader : Int) : FindNodeResult := ⟨topic, fun _ => [], nodeLeader⟩

def oneArrival (k : Nat) : List FindNodeResult := if k = 1 then [resultOf [116] 2] else []

theorem length_arrived_oneArrival (k : Nat) :
    (arrived oneArrival k).length = if k = 0 then 0 else 1 := by
  induction k with
  | zero => rfl
  | succ k ih =>
    rw [arrived, List.length_append, ih]
    cases k <;> rfl

/-- The woof holds a result of another topic. -/
theorem dhtFindNode_own_second :
    (∀ k, OwnAnswer [116] (arrived oneArrival k)
      (dhtFindNode puttingEnv (fun _ => 0) (some loneNode) [116] (emptyCache _)
        [resultOf [117] 1] oneArrival k).state) ∧
      (dhtFindNode puttingEnv (fun _ => 0) (some loneNode) [116] (emptyCache _)
        [resultOf [117] 1] oneArrival 3).state = .found 2 (fun _ => []) := by
  refine ⟨(dhtFindNode_own_iff _ _ rfl rfl fun k => ?_).2 (.inr ⟨by simp, ?_⟩), rfl⟩
  · apply inTime_of_length_le
    rw [List.length_append, length_arrived_oneArrival, if_neg (Nat.succ_ne_zero k)]
    decide
  · intro last hlast htopic
    obtain rfl : resultOf [117] 1 = last := by simpa using hlast
    simp [resultOf] at htopic

/-- In an empty woof the first read fails; a result left by an earlier call is taken for the
answer. -/
theorem dhtFindNode_empty_or_stale :
    (dhtFindNode puttingEnv (fun _ => 0) (some loneNode) [116] (emptyCache _) []
        (fun _ => []) 2).state = .failed ∧
      (dhtFindNode puttingEnv (fun _ => 0) (some loneNode) [116] (emptyCache _)
        [resultOf [116] 1] (fun _ => []) 2).state = .found 1 (fun _ => []) :=
  ⟨rfl, rfl⟩

end Runs

end Cspot.Dht
