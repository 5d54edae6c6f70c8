import DynaRust.Foundation.Runs
import DynaRust.Network.Gossip

/-!
# The membership of one node over a run

Joins, gossip and health checks in any order.  Gossip checks the name and the
size of the map before it lets a node in, and the heartbeat before it replaces
an entry; a join makes neither check, and a health check writes the own clock
over whatever heartbeat is there.
-/

namespace DynaRust.Network

open DynaRust.Foundation

/-- One operation on the membership map. -/
inductive MembershipOperation where
  | join (request : JoinRequest) (now : Nat)
  | gossip (token : Option HeaderValue) (body : Option MembershipListing)
  | probe (target : String) (success : Bool) (timeoutThreshold now : Nat)

/-- The map after the operation; none of them can fail. -/
def operate (environment : Environment) (nodes : Membership) :
    MembershipOperation → Option Membership
  | .join request now => some (joinCluster environment nodes request now).1
  | .gossip token body =>
      some (updateMembership environment nodes token body).1
  | .probe target success timeoutThreshold now =>
      some (recordProbe nodes target success timeoutThreshold now)

theorem exists_run_operate (environment : Environment) (nodes : Membership)
    (operations : List MembershipOperation) :
    ∃ final, runSteps (operate environment) nodes operations = some final := by
  induction operations generalizing nodes with
  | nil =>
      exact ⟨nodes, rfl⟩
  | cons operation rest inductionHypothesis =>
      cases operation with
      | _ =>
          exact inductionHypothesis _

/-! ## What one operation does -/

theorem joinCluster_cases (environment : Environment) (nodes : Membership)
    (request : JoinRequest) (now : Nat) :
    (joinCluster environment nodes request now).1 = nodes ∨
      request.secret = environment.clusterSecret ∧ request.node ∉ nodes ∧
        (joinCluster environment nodes request now).1 =
          nodes.insert request.node ⟨.active, now⟩ := by
  by_cases accepted : request.secret = environment.clusterSecret
  · by_cases present : request.node ∈ nodes
    · left
      simp [joinCluster, accepted, present]
    · right
      exact ⟨accepted, present, by simp [joinCluster, accepted, present]⟩
  · left
    simp [joinCluster, accepted]

theorem updateMembership_cases (environment : Environment)
    (nodes : Membership) (token : Option HeaderValue)
    (body : Option MembershipListing) :
    (updateMembership environment nodes token body).1 = nodes ∨
      ∃ entries, (updateMembership environment nodes token body).1 =
        receiveEntries entries nodes := by
  unfold updateMembership
  split
  · cases body with
    | none =>
        exact Or.inl rfl
    | some incoming =>
        exact Or.inr ⟨incoming.entries, rfl⟩
  · exact Or.inl rfl

theorem recordProbe_cases (nodes : Membership) (target : String)
    (success : Bool) (timeoutThreshold now : Nat) :
    recordProbe nodes target success timeoutThreshold now = nodes ∨
      ∃ info written, nodes.lookup target = some info ∧
        recordProbe nodes target success timeoutThreshold now =
          nodes.insert target written ∧
        written.lastHeartbeat = if success then now else info.lastHeartbeat := by
  unfold recordProbe
  cases found : nodes.lookup target with
  | none =>
      exact Or.inl rfl
  | some info =>
      right
      cases success with
      | true =>
          exact ⟨info, _, rfl, rfl, rfl⟩
      | false =>
          refine ⟨info, _, rfl, rfl, ?_⟩
          unfold updateNodeStatus
          split
          · rfl
          · split <;> rfl
          · rfl

theorem keys_insert_of_mem {nodes : Membership} {node : String}
    (present : node ∈ nodes) (info : NodeInfo) :
    (nodes.insert node info).keys = nodes.keys := by
  rw [keys_insert, Finset.insert_eq_of_mem (Finmap.mem_keys.mpr present)]

theorem keys_recordProbe (nodes : Membership) (target : String)
    (success : Bool) (timeoutThreshold now : Nat) :
    (recordProbe nodes target success timeoutThreshold now).keys =
      nodes.keys := by
  rcases recordProbe_cases nodes target success timeoutThreshold now with
    same | ⟨info, written, found, result, _⟩
  · rw [same]
  · have present : target ∈ nodes := by
      rw [← Finmap.lookup_isSome, found]
      rfl
    rw [result, keys_insert_of_mem present]

/-! ## Size and names -/

/-- The map is within its bound, and every node but this one has a name
without blanks. -/
structure BoundedAndValid (currentNode : String) (nodes : Membership) :
    Prop where
  bounded : nodes.keys.card ≤ maxClusterSize
  valid : ∀ node ∈ nodes.keys,
    node = currentNode ∨ isRefusedName node = false

/-- The operation loses no entry. -/
def KeepsEntries (environment : Environment) (nodes : Membership)
    (operation : MembershipOperation) : Prop :=
  ∀ next, operate environment nodes operation = some next →
    nodes.keys ⊆ next.keys

/-- An accepted join of a new node has a name that gossip would take, and
there is room for it. -/
def JoinsWithinLimits (environment : Environment) (nodes : Membership) :
    MembershipOperation → Prop
  | .join request _ =>
      request.secret = environment.clusterSecret → request.node ∉ nodes →
        nodes.keys.card < maxClusterSize ∧ isRefusedName request.node = false
  | _ => True

theorem keepsEntries (environment : Environment) (nodes : Membership)
    (operation : MembershipOperation) :
    KeepsEntries environment nodes operation := by
  intro next taken
  cases operation with
  | join request now =>
      cases taken
      rcases joinCluster_cases environment nodes request now with
        same | ⟨_, _, result⟩
      · rw [same]
      · rw [result, keys_insert]
        exact Finset.subset_insert request.node nodes.keys
  | gossip token body =>
      cases taken
      rcases updateMembership_cases environment nodes token body with
        same | ⟨entries, result⟩
      · rw [same]
      · rw [result]
        exact keys_subset_receiveEntries entries nodes
  | probe target success timeoutThreshold now =>
      cases taken
      rw [keys_recordProbe]

theorem mem_keys_receiveEntries
    {entries : List (Sigma fun _ : String => NodeInfo)} {nodes : Membership}
    {node : String} (member : node ∈ (receiveEntries entries nodes).keys) :
    node ∈ nodes.keys ∨ isRefusedName node = false := by
  induction entries generalizing nodes with
  | nil =>
      exact Or.inl member
  | cons entry rest inductionHypothesis =>
      rcases inductionHypothesis member with before | accepted
      · rcases receiveEntry_cases nodes entry.1 entry.2 with
          same | ⟨accepted, _, result⟩
        · rw [same] at before
          exact Or.inl before
        · rw [result, keys_insert] at before
          rcases Finset.mem_insert.mp before with isNew | old
          · rw [isNew]
            exact Or.inr accepted
          · exact Or.inl old
      · exact Or.inr accepted

theorem boundedAndValid_initialNodes (currentNode : String) (now : Nat) :
    BoundedAndValid currentNode (initialNodes currentNode now) := by
  have keys : (initialNodes currentNode now).keys = {currentNode} := by
    rw [initialNodes, keys_insert]
    rfl
  constructor
  · rw [keys, Finset.card_singleton]
    decide
  · intro node member
    rw [keys] at member
    exact Or.inl (Finset.mem_singleton.mp member)

/-- A join keeps the limits only if it checks them. -/
theorem boundedAndValid_join_iff {environment : Environment}
    {currentNode : String} {nodes : Membership}
    (sound : BoundedAndValid currentNode nodes)
    (listed : currentNode ∈ nodes.keys) (request : JoinRequest) (now : Nat) :
    BoundedAndValid currentNode
        (joinCluster environment nodes request now).1 ↔
      JoinsWithinLimits environment nodes (.join request now) := by
  rcases joinCluster_cases environment nodes request now with
    same | ⟨accepted, absent, result⟩
  · rw [same]
    refine iff_of_true sound ?_
    intro accepted absent
    rw [joinCluster, if_neg (not_not.mpr accepted), if_neg absent] at same
    have present : request.node ∈ nodes := by
      rw [← same]
      exact Finmap.mem_insert.mpr (Or.inl rfl)
    exact absurd present absent
  · have fresh : request.node ∉ nodes.keys := fun present =>
      absent (Finmap.mem_keys.mp present)
    have size := Finset.card_insert_of_notMem fresh
    rw [result]
    constructor
    · intro after _ _
      have bounded := after.bounded
      rw [keys_insert, size] at bounded
      refine ⟨bounded, ?_⟩
      rcases after.valid request.node (by simp [keys_insert]) with own | valid
      · rw [own] at fresh
        exact absurd listed fresh
      · exact valid
    · intro within
      obtain ⟨room, valid⟩ := within accepted absent
      constructor
      · rw [keys_insert, size]
        exact room
      · intro node member
        rw [keys_insert] at member
        rcases Finset.mem_insert.mp member with isNew | old
        · rw [isNew]
          exact Or.inr valid
        · exact sound.valid node old

theorem boundedAndValid_operate_iff {environment : Environment}
    {currentNode : String} {nodes next : Membership}
    {operation : MembershipOperation}
    (sound : BoundedAndValid currentNode nodes)
    (listed : currentNode ∈ nodes.keys)
    (taken : operate environment nodes operation = some next) :
    BoundedAndValid currentNode next ↔
      JoinsWithinLimits environment nodes operation := by
  cases operation with
  | join request now =>
      cases taken
      exact boundedAndValid_join_iff sound listed request now
  | gossip token body =>
      cases taken
      refine iff_of_true ?_ trivial
      rcases updateMembership_cases environment nodes token body with
        same | ⟨entries, result⟩
      · rw [same]
        exact sound
      · rw [result]
        refine ⟨card_receiveEntries_le sound.bounded entries, ?_⟩
        intro node member
        rcases mem_keys_receiveEntries member with before | accepted
        · exact sound.valid node before
        · exact Or.inr accepted
  | probe target success timeoutThreshold now =>
      cases taken
      refine iff_of_true ?_ trivial
      have keys := keys_recordProbe nodes target success timeoutThreshold now
      constructor
      · rw [keys]
        exact sound.bounded
      · rw [keys]
        exact sound.valid

/-- Over every run from a node that knows itself only, no entry is lost, and
the map stays bounded and valid exactly if every accepted join of a new node
finds room and brings a valid name. -/
theorem membership_sound_iff (environment : Environment)
    (currentNode : String) (start : Nat)
    (operations : List MembershipOperation) :
    (Throughout (operate environment) (BoundedAndValid currentNode)
        (initialNodes currentNode start) operations ∧
      StepsMeet (operate environment) (KeepsEntries environment)
        (initialNodes currentNode start) operations) ↔
      StepsMeet (operate environment) (JoinsWithinLimits environment)
        (initialNodes currentNode start) operations := by
  have initial := boundedAndValid_initialNodes currentNode start
  have listed : currentNode ∈ (initialNodes currentNode start).keys := by
    rw [initialNodes, keys_insert]
    exact Finset.mem_insert_self _ _
  have alwaysListed : StepsMeet (operate environment)
      (fun nodes _ => currentNode ∈ nodes.keys)
      (initialNodes currentNode start) operations := by
    have preserved : ∀ nodes operation next,
        operate environment nodes operation = some next →
          currentNode ∈ nodes.keys → currentNode ∈ next.keys := by
      intro nodes operation next taken member
      exact keepsEntries environment nodes operation next taken member
    exact stepsMeet_of_preserved preserved listed operations
  obtain ⟨final, reached⟩ := exists_run_operate environment
    (initialNodes currentNode start) operations
  have kept : StepsMeet (operate environment) (KeepsEntries environment)
      (initialNodes currentNode start) operations := by
    apply (stepsMeet_congr _ _ operations).mpr (stepsMeet_true _ _ operations)
    intro nodes operation
    exact iff_of_true (keepsEntries environment nodes operation) trivial
  have bounded : Throughout (operate environment)
      (BoundedAndValid currentNode) (initialNodes currentNode start)
      operations ↔
    StepsMeet (operate environment) (JoinsWithinLimits environment)
      (initialNodes currentNode start) operations := by
    apply throughout_iff_stepsMeet (BoundedAndValid currentNode)
      (fun _ sound => sound) _ _ alwaysListed reached initial
    · intro nodes operation next member taken sound within
      exact (boundedAndValid_operate_iff sound member taken).mpr within
    · intro nodes operation next member taken sound after
      exact (boundedAndValid_operate_iff sound member taken).mp after
  rw [bounded]
  exact and_iff_left kept

/-- A node whose name has a blank in it joins. -/
theorem blank_name_joins :
    isRefusedName "b c" = true ∧
      "b c" ∈ (joinCluster bareEnvironment (initialNodes "a:1" 0)
        ⟨"b c", "default_secret"⟩ 5).1.keys ∧
      ¬ BoundedAndValid "a:1" (joinCluster bareEnvironment
        (initialNodes "a:1" 0) ⟨"b c", "default_secret"⟩ 5).1 := by
  have listed : "b c" ∈ (joinCluster bareEnvironment (initialNodes "a:1" 0)
      ⟨"b c", "default_secret"⟩ 5).1.keys := by decide
  refine ⟨by decide, listed, ?_⟩
  intro sound
  rcases sound.valid "b c" listed with own | valid
  · exact absurd own (by decide)
  · exact absurd valid (by decide)

/-! ## Heartbeats -/

/-- No recorded heartbeat is smaller after the operation. -/
def KeepsHeartbeats (environment : Environment) (nodes : Membership)
    (operation : MembershipOperation) : Prop :=
  ∀ next, operate environment nodes operation = some next →
    ∀ node info, nodes.lookup node = some info →
      ∃ later, next.lookup node = some later ∧
        info.lastHeartbeat ≤ later.lastHeartbeat

/-- A successful health check finds no heartbeat ahead of the own clock. -/
def ProbesInTime (nodes : Membership) : MembershipOperation → Prop
  | .probe target success _ now =>
      success = true → ∀ info, nodes.lookup target = some info →
        info.lastHeartbeat ≤ now
  | _ => True

theorem heartbeat_receiveEntry (nodes : Membership) (entry : String)
    (incoming : NodeInfo) {node : String} {info : NodeInfo}
    (found : nodes.lookup node = some info) :
    ∃ later, (receiveEntry nodes entry incoming).lookup node = some later ∧
      info.lastHeartbeat ≤ later.lastHeartbeat := by
  rcases receiveEntry_cases nodes entry incoming with
    same | ⟨_, _, result⟩
  · rw [same]
    exact ⟨info, found, le_rfl⟩
  · rw [result, HashMap.lookup_insert_eq_ite]
    by_cases same : node = entry
    · rw [if_pos same, ← same, found]
      refine ⟨_, rfl, ?_⟩
      cases outcome : heartbeatContest.beats incoming info with
      | true =>
          rw [heartbeatContest.offer_of_beats outcome]
          have newer := (heartbeatContest_beats_iff incoming info).mp outcome
          exact Nat.le_of_lt newer
      | false =>
          rw [heartbeatContest.offer_of_not_beats outcome]
    · rw [if_neg same]
      exact ⟨info, found, le_rfl⟩

theorem heartbeat_receiveEntries
    (entries : List (Sigma fun _ : String => NodeInfo)) {nodes : Membership}
    {node : String} {info : NodeInfo}
    (found : nodes.lookup node = some info) :
    ∃ later, (receiveEntries entries nodes).lookup node = some later ∧
      info.lastHeartbeat ≤ later.lastHeartbeat := by
  induction entries generalizing nodes info with
  | nil =>
      exact ⟨info, found, le_rfl⟩
  | cons entry rest inductionHypothesis =>
      obtain ⟨between, foundBetween, first⟩ :=
        heartbeat_receiveEntry nodes entry.1 entry.2 found
      obtain ⟨later, foundLater, second⟩ := inductionHypothesis foundBetween
      exact ⟨later, foundLater, le_trans first second⟩

theorem heartbeat_recordProbe_iff (nodes : Membership) (target : String)
    (success : Bool) (timeoutThreshold now : Nat) :
    (∀ node info, nodes.lookup node = some info →
      ∃ later, (recordProbe nodes target success timeoutThreshold
          now).lookup node = some later ∧
        info.lastHeartbeat ≤ later.lastHeartbeat) ↔
      ProbesInTime nodes (.probe target success timeoutThreshold now) := by
  rcases recordProbe_cases nodes target success timeoutThreshold now with
    same | ⟨held, written, foundHeld, result, heartbeat⟩
  · rw [same]
    refine iff_of_true (fun node info found => ⟨info, found, le_rfl⟩) ?_
    intro succeeded info found
    rw [recordProbe, found] at same
    simp only [succeeded, if_true] at same
    have overwritten : info = ⟨.active, now⟩ := by
      rw [← same, Finmap.lookup_insert] at found
      exact (Option.some.inj found).symm
    rw [overwritten]
  · rw [result]
    constructor
    · intro kept succeeded info found
      obtain ⟨later, foundLater, bound⟩ := kept target info found
      rw [Finmap.lookup_insert] at foundLater
      rw [← Option.some.inj foundLater, heartbeat, if_pos succeeded] at bound
      exact bound
    · intro inTime node info found
      rw [HashMap.lookup_insert_eq_ite]
      by_cases same : node = target
      · rw [if_pos same]
        refine ⟨written, rfl, ?_⟩
        rw [same] at found
        have isHeld : held = info :=
          Option.some.inj (foundHeld.symm.trans found)
        rw [heartbeat]
        split
        · rename_i succeeded
          exact inTime succeeded info found
        · rw [isHeld]
      · rw [if_neg same]
        exact ⟨info, found, le_rfl⟩

theorem keepsHeartbeats_iff (environment : Environment) (nodes : Membership)
    (operation : MembershipOperation) :
    KeepsHeartbeats environment nodes operation ↔
      ProbesInTime nodes operation := by
  cases operation with
  | join request now =>
      refine iff_of_true ?_ trivial
      intro next taken node info found
      cases taken
      rcases joinCluster_cases environment nodes request now with
        same | ⟨_, absent, result⟩
      · rw [same]
        exact ⟨info, found, le_rfl⟩
      · have other : node ≠ request.node := by
          intro same
          rw [same] at found
          exact absurd (Finmap.lookup_eq_none.mpr absent) (by simp [found])
        rw [result, Finmap.lookup_insert_of_ne _ other]
        exact ⟨info, found, le_rfl⟩
  | gossip token body =>
      refine iff_of_true ?_ trivial
      intro next taken node info found
      cases taken
      rcases updateMembership_cases environment nodes token body with
        same | ⟨entries, result⟩
      · rw [same]
        exact ⟨info, found, le_rfl⟩
      · rw [result]
        exact heartbeat_receiveEntries entries found
  | probe target success timeoutThreshold now =>
      rw [← heartbeat_recordProbe_iff nodes target success timeoutThreshold
        now]
      constructor
      · intro kept
        exact kept _ rfl
      · intro kept next taken
        cases taken
        exact kept

/-- Over every run, no recorded heartbeat ever goes backwards exactly if no
successful health check finds one that is ahead of the own clock. -/
theorem heartbeats_monotone_iff (environment : Environment)
    (nodes : Membership) (operations : List MembershipOperation) :
    StepsMeet (operate environment) (KeepsHeartbeats environment) nodes
        operations ↔
      StepsMeet (operate environment) ProbesInTime nodes operations :=
  stepsMeet_congr (keepsHeartbeats_iff environment) nodes operations

/-- Gossip from a node whose clock is ahead. -/
def earlyGossip : Membership :=
  (updateMembership bareEnvironment (initialNodes "a:1" 0)
    (some (.text "default_secret"))
    (some (AList.singleton "b:1" ⟨.active, 1000⟩))).1

theorem probe_turns_heartbeat_back :
    earlyGossip.lookup "b:1" = some ⟨.active, 1000⟩ ∧
      (recordProbe earlyGossip "b:1" true 15 10).lookup "b:1" =
        some ⟨.active, 10⟩ ∧
      ¬ KeepsHeartbeats bareEnvironment earlyGossip
        (.probe "b:1" true 15 10) := by
  have before : earlyGossip.lookup "b:1" = some ⟨.active, 1000⟩ := by decide
  have after : (recordProbe earlyGossip "b:1" true 15 10).lookup "b:1" =
      some ⟨.active, 10⟩ := by decide
  refine ⟨before, after, ?_⟩
  intro kept
  obtain ⟨later, found, bound⟩ := kept _ rfl "b:1" _ before
  rw [after] at found
  rw [← Option.some.inj found] at bound
  exact absurd bound (by decide)

end DynaRust.Network
