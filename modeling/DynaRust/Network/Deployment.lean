import DynaRust.Network.Gossip
import DynaRust.Network.WireRuns

/-!
# A deployment

The cluster together with what makes its memberships change: health checks,
gossip and joins, and processes that start again.  A node gossips to nodes it
lists as Active and never probes itself, so only the answer to its own join
can make a node stop listing itself as Active.

`step` hands over requests about records as they were sent; in `wireStep`
their receivers parse, route and decode them.
-/

namespace DynaRust.Network

open DynaRust.Foundation DynaRust.Storage

/-- `(interval_sec as u128) * 5000` with the interval of `main`. -/
def timeoutThreshold : Nat := 5 * 5000

/-- A membership on its way to a node. -/
structure GossipMessage where
  target : String
  listing : MembershipListing

structure Deployment where
  cluster : Cluster
  gossip : List GossipMessage
  /-- Memberships answered to joining nodes that have not taken them over. -/
  joinAnswers : List (String × Membership)

inductive MembershipEvent where
  /-- `check_node_health` writes the outcome of a probe. -/
  | probe (node target : String) (success : Bool) (now : Nat)
  | gossip (node target : String) (listing : MembershipListing)
  | receiveGossip (index : Nat)
  | loseGossip (index : Nat)
  | join (joiner seed : String) (now : Nat)
  | finishJoin (index : Nat)

inductive DeploymentEvent where
  | data (event : ClusterEvent)
  | membership (event : MembershipEvent)
  /-- The process of the node starts again with what it restores from disk. -/
  | restart (node : String) (restored : Store) (now : Nat)

def DeploymentEvent.clusterEvent : DeploymentEvent → Option ClusterEvent
  | .data event => some event
  | _ => none

namespace Deployment

def membersOf (deployment : Deployment) (node : String) : Membership :=
  (deployment.cluster.nodes node).nodes

def recordAt (deployment : Deployment) (node table key : String) :
    Option VersionedValue :=
  deployment.cluster.recordAt node table key

def setMembers (deployment : Deployment) (node : String)
    (members : Membership) : Deployment :=
  { deployment with
    cluster := { deployment.cluster with
      nodes := Function.update deployment.cluster.nodes node
        { deployment.cluster.nodes node with nodes := members } } }

def membershipStep (environment : Environment) (deployment : Deployment) :
    MembershipEvent → Option Deployment
  | .probe node target success now =>
      if target = node then none
      else
        some (deployment.setMembers node
          (recordProbe (deployment.membersOf node) target success
            timeoutThreshold now))
  | .gossip node target listing =>
      if listing.toFinmap = deployment.membersOf node ∧
          target ∈ otherActiveNodes (deployment.membersOf node) node then
        some { deployment with
          gossip := deployment.gossip ++ [⟨target, listing⟩] }
      else
        none
  | .receiveGossip index =>
      deployment.gossip[index]?.map fun message =>
        ({ deployment with gossip := deployment.gossip.eraseIdx index } :
          Deployment).setMembers message.target
          (updateMembership environment (deployment.membersOf message.target)
            (some (gossipToken environment)) (some message.listing)).1
  | .loseGossip index =>
      if index < deployment.gossip.length then
        some { deployment with gossip := deployment.gossip.eraseIdx index }
      else
        none
  | .join joiner seed now =>
      let result := joinCluster environment (deployment.membersOf seed)
        (joinRequest environment joiner) now
      match result.2 with
      | .ok answered =>
          some (({ deployment with
            joinAnswers := deployment.joinAnswers ++ [(joiner, answered)] } :
              Deployment).setMembers seed result.1)
      | .error _ => some deployment
  | .finishJoin index =>
      deployment.joinAnswers[index]?.map fun answer =>
        ({ deployment with
          joinAnswers := deployment.joinAnswers.eraseIdx index } :
            Deployment).setMembers answer.1
          (adoptNodes (deployment.membersOf answer.1) answer.2)

/-- A process that starts again knows only itself and has forgotten what it
was doing. -/
def restartNode (deployment : Deployment) (node : String) (restored : Store)
    (now : Nat) : Deployment where
  cluster := { deployment.cluster with
    nodes := Function.update deployment.cluster.nodes node
      ⟨restored, initialNodes node now⟩
    tasks := deployment.cluster.tasks.filter fun task => task.1 ≠ node
    snapshots := deployment.cluster.snapshots.filter fun snapshot =>
      snapshot.1 ≠ node }
  gossip := deployment.gossip
  joinAnswers := deployment.joinAnswers.filter fun answer => answer.1 ≠ node

def step (environment : Environment) (deployment : Deployment) :
    DeploymentEvent → Option Deployment
  | .data (.setMembership _ _) => none
  | .data event =>
      (Cluster.step environment deployment.cluster event).map fun cluster =>
        { deployment with cluster := cluster }
  | .membership event => membershipStep environment deployment event
  | .restart node restored now =>
      some (deployment.restartNode node restored now)

/-- The step in which requests about records travel as paths and headers. -/
def wireStep (environment : Environment) (deployment : Deployment) :
    DeploymentEvent → Option Deployment
  | .data (.setMembership _ _) => none
  | .data event =>
      (Cluster.wireStep environment deployment.cluster event).map
        fun cluster => { deployment with cluster := cluster }
  | event => step environment deployment event

/-- Every node has just been started. -/
def initial (startedAt : String → Nat) : Deployment where
  cluster := Cluster.initial fun node => initialNodes node (startedAt node)
  gossip := []
  joinAnswers := []

theorem step_data_eq_some {environment : Environment}
    {deployment next : Deployment} {event : ClusterEvent}
    (taken : step environment deployment (.data event) = some next) :
    (∀ node members, event ≠ .setMembership node members) ∧
      ∃ cluster, Cluster.step environment deployment.cluster event =
          some cluster ∧
        next = { deployment with cluster := cluster } := by
  cases event with
  | setMembership node members =>
      cases taken
  | _ =>
      obtain ⟨cluster, enabled, rfl⟩ := Option.map_eq_some_iff.mp taken
      exact ⟨nofun, cluster, enabled, rfl⟩

theorem wireStep_data_eq_some {environment : Environment}
    {deployment next : Deployment} {event : ClusterEvent}
    (taken : wireStep environment deployment (.data event) = some next) :
    (∀ node members, event ≠ .setMembership node members) ∧
      ∃ cluster, Cluster.wireStep environment deployment.cluster event =
          some cluster ∧
        next = { deployment with cluster := cluster } := by
  cases event with
  | setMembership node members =>
      cases taken
  | _ =>
      obtain ⟨cluster, enabled, rfl⟩ := Option.map_eq_some_iff.mp taken
      exact ⟨nofun, cluster, enabled, rfl⟩

/-- Everything one membership event can do. -/
inductive Changed (environment : Environment) (deployment : Deployment) :
    MembershipEvent → Deployment → Prop
  | probe (node target : String) (success : Bool) (now : Nat) :
      target ≠ node →
      Changed environment deployment (.probe node target success now)
        (deployment.setMembers node
          (recordProbe (deployment.membersOf node) target success
            timeoutThreshold now))
  | gossip (node target : String) (listing : MembershipListing) :
      listing.toFinmap = deployment.membersOf node →
      target ∈ otherActiveNodes (deployment.membersOf node) node →
      Changed environment deployment (.gossip node target listing)
        { deployment with gossip := deployment.gossip ++ [⟨target, listing⟩] }
  | receiveGossip (index : Nat) (message : GossipMessage) :
      deployment.gossip[index]? = some message →
      Changed environment deployment (.receiveGossip index)
        (({ deployment with gossip := deployment.gossip.eraseIdx index } :
          Deployment).setMembers message.target
          (updateMembership environment (deployment.membersOf message.target)
            (some (gossipToken environment)) (some message.listing)).1)
  | loseGossip (index : Nat) :
      Changed environment deployment (.loseGossip index)
        { deployment with gossip := deployment.gossip.eraseIdx index }
  | join (joiner seed : String) (now : Nat) (answered : Membership) :
      Changed environment deployment (.join joiner seed now)
        (({ deployment with
          joinAnswers := deployment.joinAnswers ++ [(joiner, answered)] } :
            Deployment).setMembers seed
          (joinCluster environment (deployment.membersOf seed)
            (joinRequest environment joiner) now).1)
  | joinRefused (joiner seed : String) (now : Nat) :
      Changed environment deployment (.join joiner seed now) deployment
  | finishJoin (index : Nat) (answer : String × Membership) :
      deployment.joinAnswers[index]? = some answer →
      Changed environment deployment (.finishJoin index)
        (({ deployment with
          joinAnswers := deployment.joinAnswers.eraseIdx index } :
            Deployment).setMembers answer.1
          (adoptNodes (deployment.membersOf answer.1) answer.2))

theorem changed_of_membershipStep {environment : Environment}
    {deployment next : Deployment} {event : MembershipEvent}
    (taken : membershipStep environment deployment event = some next) :
    Changed environment deployment event next := by
  cases event with
  | probe node target success now =>
      simp only [membershipStep] at taken
      split at taken
      · cases taken
      · rename_i different
        cases taken
        exact .probe node target success now different
  | gossip node target listing =>
      simp only [membershipStep] at taken
      split at taken
      · rename_i enabled
        cases taken
        exact .gossip node target listing enabled.1 enabled.2
      · cases taken
  | receiveGossip index =>
      obtain ⟨message, found, rfl⟩ := Option.map_eq_some_iff.mp taken
      exact .receiveGossip index message found
  | loseGossip index =>
      simp only [membershipStep] at taken
      split at taken
      · cases taken
        exact .loseGossip index
      · cases taken
  | join joiner seed now =>
      simp only [membershipStep] at taken
      split at taken
      · rename_i answered accepted
        cases taken
        exact .join joiner seed now answered
      · cases taken
        exact .joinRefused joiner seed now
  | finishJoin index =>
      obtain ⟨answer, found, rfl⟩ := Option.map_eq_some_iff.mp taken
      exact .finishJoin index answer found

/-! ## What does not change -/

@[simp]
theorem membersOf_setMembers (deployment : Deployment) (node : String)
    (members : Membership) (tested : String) :
    (deployment.setMembers node members).membersOf tested =
      if tested = node then members else deployment.membersOf tested := by
  by_cases same : tested = node
  · subst same
    simp [membersOf, setMembers]
  · simp [membersOf, setMembers, same]

@[simp]
theorem storeAt_setMembers (deployment : Deployment) (node : String)
    (members : Membership) (tested : String) :
    (deployment.setMembers node members).cluster.storeAt tested =
      deployment.cluster.storeAt tested := by
  by_cases same : tested = node
  · subst same
    simp [Cluster.storeAt, setMembers]
  · simp [Cluster.storeAt, setMembers, same]

/-- What membership events leave alone. -/
structure SameData (before after : Deployment) : Prop where
  stores : ∀ node, after.cluster.storeAt node = before.cluster.storeAt node
  tasks : after.cluster.tasks = before.cluster.tasks
  messages : after.cluster.messages = before.cluster.messages
  snapshots : after.cluster.snapshots = before.cluster.snapshots

theorem SameData.recordAt {before after : Deployment}
    (same : SameData before after) (node table key : String) :
    after.recordAt node table key = before.recordAt node table key := by
  unfold Deployment.recordAt Cluster.recordAt
  rw [same.stores]

theorem sameData_of_setMembers {before after : Deployment} {node : String}
    {members : Membership}
    (same : after.cluster = (before.setMembers node members).cluster) :
    SameData before after := by
  constructor
  · intro tested
    rw [same, storeAt_setMembers]
  · rw [same]
    rfl
  · rw [same]
    rfl
  · rw [same]
    rfl

theorem sameData_membershipStep {environment : Environment}
    {deployment next : Deployment} {event : MembershipEvent}
    (taken : membershipStep environment deployment event = some next) :
    SameData deployment next := by
  cases changed_of_membershipStep taken with
  | probe node target success now different =>
      exact sameData_of_setMembers rfl
  | receiveGossip index message found =>
      exact sameData_of_setMembers rfl
  | join joiner seed now answered =>
      exact sameData_of_setMembers rfl
  | finishJoin index answer found =>
      exact sameData_of_setMembers rfl
  | gossip node target listing whole listed =>
      exact ⟨fun _ => rfl, rfl, rfl, rfl⟩
  | loseGossip index =>
      exact ⟨fun _ => rfl, rfl, rfl, rfl⟩
  | joinRefused joiner seed now =>
      exact ⟨fun _ => rfl, rfl, rfl, rfl⟩

theorem nodes_setStore (cluster : Cluster) (target : String) (store : Store)
    (node : String) :
    ((cluster.setStore target store).nodes node).nodes =
      (cluster.nodes node).nodes := by
  by_cases same : node = target
  · subst same
    simp [Cluster.setStore]
  · simp [Cluster.setStore, same]

theorem membersOf_step_data {environment : Environment}
    {deployment next : Deployment} {event : ClusterEvent}
    (taken : step environment deployment (.data event) = some next)
    (node : String) :
    next.membersOf node = deployment.membersOf node := by
  obtain ⟨noMembers, cluster, enabled, rfl⟩ := step_data_eq_some taken
  cases Cluster.taken_of_step enabled with
  | client target header request now external =>
      exact nodes_setStore _ _ _ node
  | deliver index now message found =>
      exact nodes_setStore _ _ _ node
  | redeliver index now message found =>
      exact nodes_setStore _ _ _ node
  | remove index target table key found =>
      exact nodes_setStore _ _ _ node
  | mergeStore index target remote found =>
      exact nodes_setStore _ _ _ node
  | setMembership target members =>
      exact absurd rfl (noMembers target members)
  | lose index =>
      rfl
  | fanOut index active target pending found known =>
      rfl
  | beginRead index active target user table key found =>
      rfl
  | answer index origin target user table key targets answers found =>
      rfl
  | fail index origin target user table key targets answers found =>
      rfl
  | finishRead index target user table key targets answers found =>
      rfl
  | pullStore joiner seed =>
      rfl
  | pullRefused joiner seed =>
      rfl

theorem nodes_receiveArrived (environment : Environment) (cluster : Cluster)
    (message : Message) (now : Nat) (node : String) :
    ((Cluster.receiveArrived environment cluster message now).nodes
        node).nodes =
      (cluster.nodes node).nodes := by
  unfold Cluster.receiveArrived
  split
  · exact nodes_setStore _ _ _ node
  · rfl

theorem membersOf_wireStep_data {environment : Environment}
    {deployment next : Deployment} {event : ClusterEvent}
    (taken : wireStep environment deployment (.data event) = some next)
    (node : String) :
    next.membersOf node = deployment.membersOf node := by
  obtain ⟨noMembers, cluster, enabled, rfl⟩ := wireStep_data_eq_some taken
  cases Cluster.wireTaken_of_wireStep enabled with
  | deliver index now message found =>
      exact nodes_receiveArrived _ _ _ _ node
  | redeliver index now message found =>
      exact nodes_receiveArrived _ _ _ _ node
  | answer index origin target user table key targets answers answer found
      asked waiting same =>
      rfl
  | pullStore joiner seed =>
      rfl
  | pullRefused joiner seed =>
      rfl
  | offWire event cluster unsent plain =>
      have stepped : step environment deployment (.data event) =
          some { deployment with cluster := cluster } := by
        cases event with
        | setMembership target members =>
            exact absurd rfl (noMembers target members)
        | _ =>
            simp only [step, plain, Option.map_some]
      exact membersOf_step_data stepped node

/-! ## A node's own entry -/

/-- The node counts itself among the Active nodes. -/
def ListsItself (node : String) (members : Membership) : Prop :=
  ∃ info, members.lookup node = some info ∧ info.status = .active

/-- Whoever receives gossip is Active in it. -/
def GossipToActive (deployment : Deployment) : Prop :=
  ∀ message ∈ deployment.gossip, ∀ info,
    message.listing.lookup message.target = some info →
      info.status = .active

/-- A join answer that the node takes over does not list it as anything but
Active. -/
def TakesOverActive (node : String) (deployment : Deployment) :
    DeploymentEvent → Prop
  | .membership (.finishJoin index) =>
      ∀ answer ∈ deployment.joinAnswers[index]?, answer.1 = node →
        ∀ info ∈ answer.2.lookup node, info.status = .active
  | _ => True

instance (node : String) (deployment : Deployment) :
    ∀ event, Decidable (TakesOverActive node deployment event)
  | .membership (.finishJoin index) =>
      inferInstanceAs (Decidable (∀ answer ∈ deployment.joinAnswers[index]?,
        answer.1 = node →
          ∀ info ∈ answer.2.lookup node, info.status = .active))
  | .membership (.probe _ _ _ _) => .isTrue trivial
  | .membership (.gossip _ _ _) => .isTrue trivial
  | .membership (.receiveGossip _) => .isTrue trivial
  | .membership (.loseGossip _) => .isTrue trivial
  | .membership (.join _ _ _) => .isTrue trivial
  | .data _ => .isTrue trivial
  | .restart _ _ _ => .isTrue trivial

theorem listsItself_initialNodes (node : String) (now : Nat) :
    ListsItself node (initialNodes node now) :=
  ⟨⟨.active, now⟩, Finmap.lookup_insert _, rfl⟩

theorem listsItself_receiveEntry {node : String} {nodes : Membership}
    (lists : ListsItself node nodes) {name : String} {info : NodeInfo}
    (active : name = node → info.status = .active) :
    ListsItself node (receiveEntry nodes name info) := by
  obtain ⟨own, stored, isActive⟩ := lists
  rcases receiveEntry_cases nodes name info with same | ⟨-, -, inserted⟩
  · rw [same]
    exact ⟨own, stored, isActive⟩
  · rw [inserted]
    by_cases same : name = node
    · subst same
      refine ⟨_, Finmap.lookup_insert _, ?_⟩
      rcases heartbeatContest.offer_eq_or (nodes.lookup name) info with
        taken | kept
      · rw [taken]
        exact active rfl
      · rw [stored] at kept
        rw [stored, ← Option.some.inj kept]
        exact isActive
    · refine ⟨own, ?_, isActive⟩
      rw [Finmap.lookup_insert_of_ne _ (Ne.symm same)]
      exact stored

theorem listsItself_receiveEntries {node : String}
    {entries : List (Sigma fun _ : String => NodeInfo)} {nodes : Membership}
    (lists : ListsItself node nodes)
    (active : ∀ entry ∈ entries, entry.1 = node →
      entry.2.status = .active) :
    ListsItself node (receiveEntries entries nodes) := by
  induction entries generalizing nodes with
  | nil =>
      exact lists
  | cons entry rest inductionHypothesis =>
      apply inductionHypothesis
      · apply listsItself_receiveEntry lists
        exact active entry List.mem_cons_self
      · intro later member
        exact active later (List.mem_cons_of_mem entry member)

theorem listsItself_updateMembership {environment : Environment}
    {node : String} {nodes : Membership} (lists : ListsItself node nodes)
    {token : Option HeaderValue} {listing : MembershipListing}
    (active : ∀ info, listing.lookup node = some info →
      info.status = .active) :
    ListsItself node
      (updateMembership environment nodes token (some listing)).1 := by
  unfold updateMembership
  split
  · apply listsItself_receiveEntries lists
    rintro ⟨name, info⟩ member rfl
    exact active info (AList.mem_lookup_iff.mpr member)
  · exact lists

theorem listsItself_recordProbe {node target : String} {nodes : Membership}
    (lists : ListsItself node nodes) (different : target ≠ node)
    (success : Bool) (threshold now : Nat) :
    ListsItself node
      (recordProbe nodes target success threshold now) := by
  obtain ⟨own, stored, isActive⟩ := lists
  unfold recordProbe
  split
  · split
    · exact ⟨own, by rw [Finmap.lookup_insert_of_ne _ (Ne.symm different),
        stored], isActive⟩
    · exact ⟨own, by rw [Finmap.lookup_insert_of_ne _ (Ne.symm different),
        stored], isActive⟩
  · exact ⟨own, stored, isActive⟩

theorem listsItself_joinCluster {environment : Environment} {node : String}
    {nodes : Membership} (lists : ListsItself node nodes)
    (request : JoinRequest) (now : Nat) :
    ListsItself node (joinCluster environment nodes request now).1 := by
  unfold joinCluster
  split
  · exact lists
  · dsimp only
    split
    · exact lists
    · rename_i absent
      obtain ⟨own, stored, isActive⟩ := lists
      have different : node ≠ request.node := by
        intro same
        apply absent
        rw [← same]
        exact Finmap.lookup_isSome.mp (by rw [stored]; rfl)
      exact ⟨own, by rw [Finmap.lookup_insert_of_ne _ different, stored],
        isActive⟩

theorem listsItself_adoptNodes {node : String} {nodes answered : Membership}
    (lists : ListsItself node nodes)
    (active : ∀ info ∈ answered.lookup node, info.status = .active) :
    ListsItself node (adoptNodes nodes answered) := by
  unfold ListsItself adoptNodes
  rw [HashMap.lookup_insertAll]
  cases found : answered.lookup node with
  | none =>
      exact lists
  | some info =>
      exact ⟨info, rfl, active info found⟩

theorem gossipToActive_step {environment : Environment}
    {deployment next : Deployment} {event : DeploymentEvent}
    (taken : wireStep environment deployment event = some next)
    (before : deployment.GossipToActive) : next.GossipToActive := by
  have fewer : ∀ {index : Nat} {message : GossipMessage},
      message ∈ deployment.gossip.eraseIdx index →
        message ∈ deployment.gossip :=
    List.mem_of_mem_eraseIdx
  cases event with
  | data event =>
      obtain ⟨-, cluster, -, rfl⟩ := wireStep_data_eq_some taken
      exact before
  | restart node restored now =>
      cases taken
      exact before
  | membership event =>
      cases changed_of_membershipStep taken with
      | gossip node target listing whole listed =>
          intro message member info found
          rcases List.mem_append.mp member with old | new
          · exact before message old info found
          · rw [List.mem_singleton.mp new] at found
            have entry : (deployment.membersOf node).lookup target =
                some info := by
              rw [← whole]
              exact found
            obtain ⟨other, stored, active⟩ := mem_getActiveNodes.mp
              (Multiset.mem_filter.mp listed).1
            rw [entry] at stored
            rw [Option.some.inj stored]
            exact active
      | receiveGossip index message found =>
          exact fun other member => before other (fewer member)
      | loseGossip index =>
          exact fun other member => before other (fewer member)
      | probe node target success now different =>
          exact before
      | join joiner seed now answered =>
          exact before
      | joinRefused joiner seed now =>
          exact before
      | finishJoin index answer found =>
          exact before

theorem listsItself_setMembers {deployment : Deployment} {node : String}
    (lists : ListsItself node (deployment.membersOf node)) {target : String}
    {members : Membership}
    (own : target = node → ListsItself node members) :
    ListsItself node ((deployment.setMembers target members).membersOf
      node) := by
  rw [membersOf_setMembers]
  split
  · rename_i same
    exact own same.symm
  · exact lists

/-- A node goes on listing itself as Active unless a join answer says
otherwise. -/
theorem listsItself_step {environment : Environment} {node : String}
    {deployment next : Deployment} {event : DeploymentEvent}
    (taken : wireStep environment deployment event = some next)
    (gossip : deployment.GossipToActive)
    (takesOver : TakesOverActive node deployment event)
    (lists : ListsItself node (deployment.membersOf node)) :
    ListsItself node (next.membersOf node) := by
  cases event with
  | data event =>
      rw [membersOf_wireStep_data taken]
      exact lists
  | restart restarted restored now =>
      cases taken
      by_cases same : node = restarted
      · subst same
        simpa [membersOf, restartNode] using listsItself_initialNodes node now
      · simpa [membersOf, restartNode, same] using lists
  | membership event =>
      cases changed_of_membershipStep taken with
      | probe prober target success now different =>
          apply listsItself_setMembers lists
          rintro rfl
          exact listsItself_recordProbe lists different success _ now
      | receiveGossip index message found =>
          apply listsItself_setMembers lists
          rintro rfl
          apply listsItself_updateMembership lists
          exact gossip message (List.mem_of_getElem? found)
      | join joiner seed now answered =>
          apply listsItself_setMembers lists
          rintro rfl
          exact listsItself_joinCluster lists _ now
      | finishJoin index answer found =>
          apply listsItself_setMembers lists
          rintro rfl
          exact listsItself_adoptNodes lists (takesOver answer found rfl)
      | gossip sender target listing whole listed =>
          exact lists
      | loseGossip index =>
          exact lists
      | joinRefused joiner seed now =>
          exact lists

theorem gossipToActive_initial (startedAt : String → Nat) :
    (initial startedAt).GossipToActive := by
  intro message member
  cases member

theorem listsItself_run {environment : Environment} {node : String}
    {deployment final : Deployment} {events : List DeploymentEvent}
    (reached : runSteps (wireStep environment) deployment events = some final)
    (takesOver : StepsMeet (wireStep environment) (TakesOverActive node)
      deployment events)
    (gossip : deployment.GossipToActive)
    (lists : ListsItself node (deployment.membersOf node)) :
    final.GossipToActive ∧ ListsItself node (final.membersOf node) :=
  runSteps_induction
    (fun state => state.GossipToActive ∧
      ListsItself node (state.membersOf node))
    (fun _ _ _ takesOver taken before =>
      ⟨gossipToActive_step taken before.1,
        listsItself_step taken before.1 takesOver before.2⟩)
    takesOver reached ⟨gossip, lists⟩

end Deployment

end DynaRust.Network
