import DynaRust.Foundation.Runs
import DynaRust.Network.Dispatch
import DynaRust.Storage.GlobalMerge
import Mathlib.Logic.Function.Basic

/-!
# The cluster

All nodes with their stores and memberships, the handlers suspended at an
await point, the requests in flight between nodes, and the stores pulled by
joining nodes.  Clients reach any node; only nodes know the cluster secret.

A message may be delivered late, more than once (the sender repeats a request
whose answer it did not get) or never.  Memberships change in any way, which
covers joining, gossip and failure detection.

`step` hands a request over under the names it was sent with.  What its URL
and its headers make of them is in `Network.Wire`; where names and secret need
no encoding, both are the same (`Network.WireRuns`).
-/

namespace DynaRust.Network

open DynaRust.Foundation DynaRust.Security DynaRust.Storage

structure NodeState where
  store : Store
  nodes : Membership

structure Cluster where
  nodes : String → NodeState
  tasks : List (String × Task)
  messages : List Message
  snapshots : List (String × Store)

inductive ClusterEvent where
  /-- A client request, with the header it presents as `X-Internal-Request`. -/
  | client (node : String) (header : Option HeaderValue) (request : Request)
      (now : Nat)
  | deliver (index now : Nat)
  /-- The request is handled, but its sender does not get the answer. -/
  | redeliver (index now : Nat)
  | lose (index : Nat)
  | fanOut (index : Nat) (active : List String)
  | remove (index : Nat)
  | beginRead (index : Nat) (active : List String)
  | answer (index : Nat) (target : String)
  | fail (index : Nat) (target : String)
  | finishRead (index : Nat)
  | pullStore (joiner seed : String)
  | mergeStore (index : Nat)
  | setMembership (node : String) (members : Membership)
  deriving DecidableEq

def ClusterEvent.isClient : ClusterEvent → Bool
  | .client _ _ _ _ => true
  | _ => false

/-- The task that an event sends, with the nodes found Active. -/
def ClusterEvent.fansOut : ClusterEvent → Option (Nat × List String)
  | .fanOut index active => some (index, active)
  | _ => none

/-- The request that a suspended handler is about to send. -/
def Task.sends : Task → Option InternalRequest
  | .fanOut pending => some pending.content
  | _ => none

/-! ## The second half of a read -/

/-- What a replica answers to the internal GET. -/
def replicaAnswer (environment : Environment) (store : Store)
    (table key : String) : Option (Option VersionedValue) :=
  match (getValue environment.clusterSecret store
      (some (.text environment.clusterSecret)) .missing table key).response
    with
  | some ⟨200, .optionalRecord found⟩ => some found
  | _ => none

@[simp]
theorem replicaAnswer_eq (environment : Environment) (store : Store)
    (table key : String) :
    replicaAnswer environment store table key =
      some (store.record table key) := by
  simp [replicaAnswer, getValue, headerPresents]

/-- The answers that arrived, in the order of the targets. -/
def gatherAnswers
    (answers : List (String × Option (Option VersionedValue)))
    (targets : List String) : List (String × Option VersionedValue) :=
  targets.filterMap fun target =>
    (answers.lookup target).join.map fun answer => (target, answer)

/-- The read repair that `get_value` sends for its answers. -/
def repairMessages (environment : Environment) (table key : String)
    (gathered : List (String × Option VersionedValue)) : List Message :=
  match selectLatest (gathered.filterMap Prod.snd) with
  | none => []
  | some latest =>
      sendToEach environment.clusterSecret
        (.putValueInternal table key latest) (repairTargets latest gathered)

theorem mem_eraseIdx_or_eq {α : Type} {entries : List α} {index : Nat}
    {handled : α} (found : entries[index]? = some handled)
    {entry : α} (member : entry ∈ entries) :
    entry ∈ entries.eraseIdx index ∨ entry = handled := by
  obtain ⟨position, there⟩ := List.mem_iff_getElem?.mp member
  by_cases same : position = index
  · subst same
    exact Or.inr (Option.some.inj (there.symm.trans found))
  · exact Or.inl (List.mem_eraseIdx_iff_getElem?.mpr
      ⟨position, same, there⟩)

theorem mem_gatherAnswers
    {answers : List (String × Option (Option VersionedValue))}
    {targets : List String} {gathered : String × Option VersionedValue}
    (member : gathered ∈ gatherAnswers answers targets) :
    (gathered.1, some gathered.2) ∈ answers := by
  obtain ⟨target, -, found⟩ := List.mem_filterMap.mp member
  obtain ⟨answer, answered, rfl⟩ := Option.map_eq_some_iff.mp found
  have arrived : answers.lookup target = some (some answer) :=
    Option.join_eq_some_iff.mp answered
  obtain ⟨earlier, later, rfl, -⟩ := List.lookup_eq_some_iff.mp arrived
  simp

/-- Read repair sends a version that some replica answered. -/
theorem content_of_mem_repairMessages {environment : Environment}
    {table key : String}
    {answers : List (String × Option (Option VersionedValue))}
    {targets : List String} {message : Message}
    (member : message ∈ repairMessages environment table key
      (gatherAnswers answers targets)) :
    ∃ latest target, message.content = .putValueInternal table key latest ∧
      (target, some (some latest)) ∈ answers := by
  unfold repairMessages at member
  split at member
  · cases member
  · rename_i latest selected
    have listed := mem_of_selectLatest selected
    obtain ⟨⟨target, answer⟩, gathered, isLatest⟩ :=
      List.mem_filterMap.mp listed
    dsimp only at isLatest
    subst isLatest
    exact ⟨latest, target, (mem_sendToEach.mp member).2.2,
      mem_gatherAnswers gathered⟩

namespace Cluster

def storeAt (cluster : Cluster) (node : String) : Store :=
  (cluster.nodes node).store

/-- The record a node stores under a key. -/
def recordAt (cluster : Cluster) (node table key : String) :
    Option VersionedValue :=
  (cluster.storeAt node).record table key

def activeAt (cluster : Cluster) (node : String) : Multiset String :=
  getActiveNodes (cluster.nodes node).nodes

def setStore (cluster : Cluster) (node : String) (store : Store) : Cluster :=
  { cluster with
    nodes := Function.update cluster.nodes node
      { cluster.nodes node with store := store } }

/-- Take over what a handler did at a node. -/
def perform (cluster : Cluster) (node : String) (outcome : Outcome) :
    Cluster :=
  { cluster.setStore node outcome.store with
    tasks := cluster.tasks ++ (outcome.task.map fun task => (node, task)).toList }

/-- Handle a message at its target. -/
def receive (environment : Environment) (cluster : Cluster)
    (message : Message) (now : Nat) : Cluster :=
  cluster.perform message.target
    (handle environment message.target (cluster.storeAt message.target)
      message.header message.content.request now)

def step (environment : Environment) (cluster : Cluster) :
    ClusterEvent → Option Cluster
  | .client node header request now =>
      if providedSecret header = environment.clusterSecret then none
      else
        some (cluster.perform node
          (handle environment node (cluster.storeAt node) header request now))
  | .deliver index now =>
      match cluster.messages[index]? with
      | some message =>
          some (receive environment
            { cluster with messages := cluster.messages.eraseIdx index }
            message now)
      | none => none
  | .redeliver index now =>
      match cluster.messages[index]? with
      | some message => some (receive environment cluster message now)
      | none => none
  | .lose index =>
      if index < cluster.messages.length then
        some { cluster with messages := cluster.messages.eraseIdx index }
      else none
  | .fanOut index active =>
      match cluster.tasks[index]? with
      | some (node, .fanOut pending) =>
          if (active : Multiset String) = cluster.activeAt node then
            some { cluster with
              tasks := cluster.tasks.eraseIdx index
              messages := cluster.messages ++
                fanOutMessages environment node active pending }
          else none
      | _ => none
  | .remove index =>
      match cluster.tasks[index]? with
      | some (node, .remove table key) =>
          some (({ cluster with
              tasks := cluster.tasks.eraseIdx index } : Cluster).perform node
            (deleteRemove (cluster.storeAt node) table key))
      | _ => none
  | .beginRead index active =>
      match cluster.tasks[index]? with
      | some (node, .read user table key) =>
          if (active : Multiset String) = cluster.activeAt node then
            some { cluster with
              tasks := cluster.tasks.set index (node,
                .collect user table key
                  (getReplicationNodes environment.hash key active
                    active.length) []) }
          else none
      | _ => none
  | .answer index target =>
      match cluster.tasks[index]? with
      | some (node, .collect user table key targets answers) =>
          if target ∈ targets ∧ answers.lookup target = none then
            some { cluster with
              tasks := cluster.tasks.set index (node,
                .collect user table key targets (answers ++
                  [(target, replicaAnswer environment
                    (cluster.storeAt target) table key)])) }
          else none
      | _ => none
  | .fail index target =>
      match cluster.tasks[index]? with
      | some (node, .collect user table key targets answers) =>
          if target ∈ targets ∧ target ≠ node ∧
              answers.lookup target = none then
            some { cluster with
              tasks := cluster.tasks.set index (node,
                .collect user table key targets
                  (answers ++ [(target, none)])) }
          else none
      | _ => none
  | .finishRead index =>
      match cluster.tasks[index]? with
      | some (_, .collect _ table key targets answers) =>
          if targets.all fun target => (answers.lookup target).isSome then
            some { cluster with
              tasks := cluster.tasks.eraseIdx index
              messages := cluster.messages ++
                repairMessages environment table key
                  (gatherAnswers answers targets) }
          else none
      | _ => none
  | .pullStore joiner seed =>
      match (getGlobalStore environment.clusterSecret (cluster.storeAt seed)
          (some (.text environment.clusterSecretOrEmpty))).response with
      | some ⟨200, .store remote⟩ =>
          some { cluster with
            snapshots := cluster.snapshots ++ [(joiner, remote)] }
      | _ => some cluster
  | .mergeStore index =>
      match cluster.snapshots[index]? with
      | some (node, remote) =>
          some (({ cluster with
              snapshots := cluster.snapshots.eraseIdx index } :
                Cluster).setStore node
            (mergeGlobalStore (cluster.storeAt node) remote))
      | none => none
  | .setMembership node members =>
      some { cluster with
        nodes := Function.update cluster.nodes node
          { cluster.nodes node with nodes := members } }

/-- Everything one step can do: the next state, with the guard of the event. -/
inductive Taken (environment : Environment) (cluster : Cluster) :
    ClusterEvent → Cluster → Prop
  | client (node : String) (header : Option HeaderValue) (request : Request)
      (now : Nat) :
      providedSecret header ≠ environment.clusterSecret →
      Taken environment cluster (.client node header request now)
        (cluster.perform node (handle environment node
          (cluster.storeAt node) header request now))
  | deliver (index now : Nat) (message : Message) :
      cluster.messages[index]? = some message →
      Taken environment cluster (.deliver index now)
        (receive environment
          { cluster with messages := cluster.messages.eraseIdx index }
          message now)
  | redeliver (index now : Nat) (message : Message) :
      cluster.messages[index]? = some message →
      Taken environment cluster (.redeliver index now)
        (receive environment cluster message now)
  | lose (index : Nat) :
      Taken environment cluster (.lose index)
        { cluster with messages := cluster.messages.eraseIdx index }
  | fanOut (index : Nat) (active : List String) (node : String)
      (pending : FanOut) :
      cluster.tasks[index]? = some (node, .fanOut pending) →
      (active : Multiset String) = cluster.activeAt node →
      Taken environment cluster (.fanOut index active)
        { cluster with
          tasks := cluster.tasks.eraseIdx index
          messages := cluster.messages ++
            fanOutMessages environment node active pending }
  | remove (index : Nat) (node table key : String) :
      cluster.tasks[index]? = some (node, .remove table key) →
      Taken environment cluster (.remove index)
        (({ cluster with
            tasks := cluster.tasks.eraseIdx index } : Cluster).perform node
          (deleteRemove (cluster.storeAt node) table key))
  | beginRead (index : Nat) (active : List String)
      (node user table key : String) :
      cluster.tasks[index]? = some (node, .read user table key) →
      Taken environment cluster (.beginRead index active)
        { cluster with
          tasks := cluster.tasks.set index (node, .collect user table key
            (getReplicationNodes environment.hash key active active.length)
            []) }
  | answer (index : Nat) (node target user table key : String)
      (targets : List String)
      (answers : List (String × Option (Option VersionedValue))) :
      cluster.tasks[index]? =
        some (node, .collect user table key targets answers) →
      Taken environment cluster (.answer index target)
        { cluster with
          tasks := cluster.tasks.set index (node,
            .collect user table key targets (answers ++
              [(target, some (cluster.recordAt target table key))])) }
  | fail (index : Nat) (node target user table key : String)
      (targets : List String)
      (answers : List (String × Option (Option VersionedValue))) :
      cluster.tasks[index]? =
        some (node, .collect user table key targets answers) →
      Taken environment cluster (.fail index target)
        { cluster with
          tasks := cluster.tasks.set index (node,
            .collect user table key targets (answers ++ [(target, none)])) }
  | finishRead (index : Nat) (node user table key : String)
      (targets : List String)
      (answers : List (String × Option (Option VersionedValue))) :
      cluster.tasks[index]? =
        some (node, .collect user table key targets answers) →
      Taken environment cluster (.finishRead index)
        { cluster with
          tasks := cluster.tasks.eraseIdx index
          messages := cluster.messages ++
            repairMessages environment table key
              (gatherAnswers answers targets) }
  | pullStore (joiner seed : String) :
      Taken environment cluster (.pullStore joiner seed)
        { cluster with
          snapshots := cluster.snapshots ++
            [(joiner, cluster.storeAt seed)] }
  | pullRefused (joiner seed : String) :
      Taken environment cluster (.pullStore joiner seed) cluster
  | mergeStore (index : Nat) (node : String) (remote : Store) :
      cluster.snapshots[index]? = some (node, remote) →
      Taken environment cluster (.mergeStore index)
        (({ cluster with
            snapshots := cluster.snapshots.eraseIdx index } :
              Cluster).setStore node
          (mergeGlobalStore (cluster.storeAt node) remote))
  | setMembership (node : String) (members : Membership) :
      Taken environment cluster (.setMembership node members)
        { cluster with
          nodes := Function.update cluster.nodes node
            { cluster.nodes node with nodes := members } }

theorem taken_of_step {environment : Environment} {cluster next : Cluster}
    {event : ClusterEvent}
    (taken : step environment cluster event = some next) :
    Taken environment cluster event next := by
  cases event with
  | client node header request now =>
      simp only [step] at taken
      split at taken
      · cases taken
      · rename_i external
        cases Option.some.inj taken
        exact .client node header request now external
  | deliver index now =>
      simp only [step] at taken
      split at taken
      · rename_i message found
        cases Option.some.inj taken
        exact .deliver index now message found
      · cases taken
  | redeliver index now =>
      simp only [step] at taken
      split at taken
      · rename_i message found
        cases Option.some.inj taken
        exact .redeliver index now message found
      · cases taken
  | lose index =>
      simp only [step] at taken
      split at taken
      · cases Option.some.inj taken
        exact .lose index
      · cases taken
  | fanOut index active =>
      simp only [step] at taken
      split at taken
      · rename_i node pending found
        split at taken
        · rename_i known
          cases Option.some.inj taken
          exact .fanOut index active node pending found known
        · cases taken
      · cases taken
  | remove index =>
      simp only [step] at taken
      split at taken
      · rename_i node table key found
        cases Option.some.inj taken
        exact .remove index node table key found
      · cases taken
  | beginRead index active =>
      simp only [step] at taken
      split at taken
      · rename_i node user table key found
        split at taken
        · cases Option.some.inj taken
          exact .beginRead index active node user table key found
        · cases taken
      · cases taken
  | answer index target =>
      simp only [step, replicaAnswer_eq] at taken
      split at taken
      · rename_i node user table key targets answers found
        split at taken
        · cases Option.some.inj taken
          exact .answer index node target user table key targets answers
            found
        · cases taken
      · cases taken
  | fail index target =>
      simp only [step] at taken
      split at taken
      · rename_i node user table key targets answers found
        split at taken
        · cases Option.some.inj taken
          exact .fail index node target user table key targets answers found
        · cases taken
      · cases taken
  | finishRead index =>
      simp only [step] at taken
      split at taken
      · rename_i node user table key targets answers found
        split at taken
        · cases Option.some.inj taken
          exact .finishRead index node user table key targets answers found
        · cases taken
      · cases taken
  | pullStore joiner seed =>
      simp only [step] at taken
      split at taken
      · rename_i remote answered
        cases Option.some.inj taken
        simp only [getGlobalStore] at answered
        split at answered
        · cases answered
        · cases answered
          exact .pullStore joiner seed
      · cases Option.some.inj taken
        exact .pullRefused joiner seed
  | mergeStore index =>
      simp only [step] at taken
      split at taken
      · rename_i node remote found
        cases Option.some.inj taken
        exact .mergeStore index node remote found
      · cases taken
  | setMembership node members =>
      cases Option.some.inj taken
      exact .setMembership node members

/-- Clients do not know the cluster secret. -/
theorem external_of_step {environment : Environment}
    {cluster next : Cluster} {event : ClusterEvent}
    (taken : step environment cluster event = some next) :
    ∀ target header request now,
      event = .client target header request now →
        providedSecret header ≠ environment.clusterSecret := by
  intro target header request now same
  subst same
  cases taken_of_step taken with
  | client _ _ _ _ external =>
      exact external

/-- The messages in flight in `next` but not yet in `cluster`. -/
def sentSince (cluster next : Cluster) : List Message :=
  next.messages.drop cluster.messages.length

/-- The steps of a run, each with the state it was taken in. -/
abbrev History := List (Cluster × ClusterEvent)

/-- No records anywhere and nothing in flight. -/
def initial (members : String → Membership) : Cluster where
  nodes := fun node => ⟨∅, members node⟩
  tasks := []
  messages := []
  snapshots := []

/-! ## What one step does to one record -/

/-- What handling a message does to the record of a node. -/
def messageChange (environment : Environment) (cluster : Cluster)
    (index now : Nat) (node table key : String) : Change VersionedValue :=
  match cluster.messages[index]? with
  | some message =>
      .onlyIf (node = message.target)
        (requestChange environment message.target
          (cluster.storeAt message.target) message.header
          message.content.request now table key)
  | none => .keep

/-- What one event does to the record of a node. -/
def recordChange (environment : Environment) (cluster : Cluster)
    (event : ClusterEvent) (node table key : String) :
    Change VersionedValue :=
  match event with
  | .client target header request now =>
      .onlyIf (node = target)
        (requestChange environment target (cluster.storeAt target) header
          request now table key)
  | .deliver index now =>
      messageChange environment cluster index now node table key
  | .redeliver index now =>
      messageChange environment cluster index now node table key
  | .remove index =>
      match cluster.tasks[index]? with
      | some (target, .remove table' key') =>
          .onlyIf (node = target ∧ table = table' ∧ key = key') .remove
      | _ => .keep
  | .mergeStore index =>
      match cluster.snapshots[index]? with
      | some (target, remote) =>
          match remote.record table key with
          | some incoming => .onlyIf (node = target) (.receive incoming)
          | none => .keep
      | none => .keep
  | _ => .keep

/-- The node handles a delete of the key, its own or a replicated one. -/
def HandlesDelete (environment : Environment) (cluster : Cluster)
    (event : ClusterEvent) (node table key : String) : Prop :=
  recordChange environment cluster event node table key = .remove

instance (environment : Environment) (cluster : Cluster)
    (event : ClusterEvent) (node table key : String) :
    Decidable (HandlesDelete environment cluster event node table key) :=
  inferInstanceAs (Decidable (_ = _))

/-- What handling a message does to a record of its target. -/
inductive MessageEffect (node table key : String) (now : Nat) :
    InternalRequest → Change VersionedValue → Prop
  | merge (version : VersionedValue) :
      MessageEffect node table key now (.putValueInternal table key version)
        (.receive version)
  | delete :
      MessageEffect node table key now (.deleteValue table key) .remove
  | replicate (hashed : String) : table = "auth" →
      MessageEffect node table key now (.access key hashed)
        (.write (VersionedValue.new (secretMap hashed) key node now))

/-- An event does something to the record of a node. -/
inductive RecordEffect (environment : Environment) (cluster : Cluster)
    (node table key : String) : ClusterEvent → Change VersionedValue → Prop
  | client (header : Option HeaderValue) (request : Request) (now : Nat)
      (change : Change VersionedValue) :
      RequestEffect environment node (cluster.storeAt node) header now table
        key request change →
      RecordEffect environment cluster node table key
        (.client node header request now) change
  | message (event : ClusterEvent) (index now : Nat) (message : Message)
      (change : Change VersionedValue) :
      event = .deliver index now ∨ event = .redeliver index now →
      cluster.messages[index]? = some message → message.target = node →
      MessageEffect node table key now message.content change →
      RecordEffect environment cluster node table key event change
  | remove (index : Nat) :
      cluster.tasks[index]? = some (node, .remove table key) →
      RecordEffect environment cluster node table key (.remove index) .remove
  | merge (index : Nat) (remote : Store) (incoming : VersionedValue) :
      cluster.snapshots[index]? = some (node, remote) →
      remote.record table key = some incoming →
      RecordEffect environment cluster node table key (.mergeStore index)
        (.receive incoming)

private theorem messageChange_cases {environment : Environment}
    {cluster : Cluster} {event : ClusterEvent} {index now : Nat}
    (handles : event = .deliver index now ∨ event = .redeliver index now)
    (node table key : String) :
    messageChange environment cluster index now node table key = .keep ∨
      RecordEffect environment cluster node table key event
        (messageChange environment cluster index now node table key) := by
  unfold messageChange
  split
  · rename_i message found
    apply Change.onlyIf_cases
    intro same
    -- A message carries a hash, so it never registers a plain secret.
    have effect : ∀ change, RequestEffect environment message.target
        (cluster.storeAt message.target) message.header now table key
        message.content.request change →
        MessageEffect node table key now message.content change := by
      intro change acts
      cases content : message.content with
      | putValueInternal table' key' payload =>
          rw [content] at acts
          cases acts with
          | merge incoming presents =>
              exact .merge payload
      | deleteValue table' key' =>
          rw [content] at acts
          cases acts with
          | delete authorization presents =>
              exact .delete
      | access user hashed =>
          rw [content] at acts
          cases acts with
          | replicate userHeader hashed presents isAuth =>
              rw [← same]
              exact .replicate hashed isAuth
    refine (requestChange_cases environment message.target
      (cluster.storeAt message.target) message.header message.content.request
      now table key).imp_right fun acts => ?_
    exact .message event index now message _ handles found same.symm
      (effect _ acts)
  · exact Or.inl rfl

/-- All that an event does to a record of a node. -/
theorem recordChange_cases (environment : Environment) (cluster : Cluster)
    (event : ClusterEvent) (node table key : String) :
    recordChange environment cluster event node table key = .keep ∨
      RecordEffect environment cluster node table key event
        (recordChange environment cluster event node table key) := by
  cases event with
  | client target header request now =>
      apply Change.onlyIf_cases
      rintro rfl
      exact (requestChange_cases environment node (cluster.storeAt node)
        header request now table key).imp_right
          (RecordEffect.client header request now _)
  | deliver index now =>
      exact messageChange_cases (Or.inl rfl) node table key
  | redeliver index now =>
      exact messageChange_cases (Or.inr rfl) node table key
  | remove index =>
      simp only [recordChange]
      split
      · rename_i target table' key' found
        apply Change.onlyIf_cases
        rintro ⟨rfl, rfl, rfl⟩
        exact Or.inr (.remove index found)
      · exact Or.inl rfl
  | mergeStore index =>
      simp only [recordChange]
      split
      · rename_i target remote found
        split
        · rename_i incoming pulled
          apply Change.onlyIf_cases
          rintro rfl
          exact Or.inr (.merge index remote incoming found pulled)
        · exact Or.inl rfl
      · exact Or.inl rfl
  | _ =>
      exact Or.inl rfl

/-- A change that does something comes from one of the effects. -/
theorem recordEffect_of_recordChange {environment : Environment}
    {cluster : Cluster} {event : ClusterEvent} {node table key : String}
    {change : Change VersionedValue}
    (changed : recordChange environment cluster event node table key = change)
    (acts : change ≠ .keep) :
    RecordEffect environment cluster node table key event change := by
  rw [← changed] at acts ⊢
  exact (recordChange_cases environment cluster event node table
    key).resolve_left acts

theorem recordAt_setStore (cluster : Cluster) (node : String) (store : Store)
    (tested table key : String) :
    (cluster.setStore node store).recordAt tested table key =
      if tested = node then store.record table key
      else cluster.recordAt tested table key := by
  unfold recordAt storeAt setStore
  by_cases same : tested = node
  · subst same
    simp
  · simp [same]

theorem recordAt_perform (cluster : Cluster) (node : String)
    (outcome : Outcome) (tested table key : String) :
    (cluster.perform node outcome).recordAt tested table key =
      if tested = node then outcome.store.record table key
      else cluster.recordAt tested table key :=
  recordAt_setStore cluster node outcome.store tested table key

theorem recordAt_perform_handle (environment : Environment)
    (cluster : Cluster) (target : String) (header : Option HeaderValue)
    (request : Request) (now : Nat) (node table key : String) :
    (cluster.perform target (handle environment target
        (cluster.storeAt target) header request now)).recordAt node table key =
      (Change.onlyIf (node = target)
        (requestChange environment target (cluster.storeAt target) header
          request now table key)).apply mergeIncoming
        (cluster.recordAt node table key) := by
  rw [recordAt_perform, record_handle, Change.onlyIf_apply]
  by_cases same : node = target
  · rw [if_pos same, if_pos same, same]
    rfl
  · rw [if_neg same, if_neg same]

/-- One step changes the record of a node as `recordChange` says. -/
theorem recordAt_step {environment : Environment} {cluster next : Cluster}
    {event : ClusterEvent} (taken : step environment cluster event = some next)
    (node table key : String) :
    next.recordAt node table key =
      (recordChange environment cluster event node table key).apply
        mergeIncoming (cluster.recordAt node table key) := by
  cases taken_of_step taken with
  | client target header request now external =>
      exact recordAt_perform_handle environment cluster target header
        request now node table key
  | deliver index now message found =>
      simp only [recordChange, messageChange, found]
      exact recordAt_perform_handle environment
        { cluster with messages := cluster.messages.eraseIdx index }
        message.target message.header message.content.request now node
        table key
  | redeliver index now message found =>
      simp only [recordChange, messageChange, found]
      exact recordAt_perform_handle environment cluster message.target
        message.header message.content.request now node table key
  | remove index target table' key' found =>
      rw [recordAt_perform, deleteRemove]
      simp only [recordChange, found, Change.onlyIf_apply,
        Change.apply_remove, Store.record_removeRecord]
      by_cases same : node = target
      · rw [if_pos same, same]
        simp only [true_and]
        rfl
      · simp only [same, if_false, false_and]
        rfl
  | mergeStore index target remote found =>
      rw [recordAt_setStore, record_mergeGlobalStore]
      simp only [recordChange, found]
      cases pulled : remote.record table key with
      | none =>
          by_cases same : node = target
          · rw [if_pos same, same]
            rfl
          · rw [if_neg same]
            rfl
      | some incoming =>
          rw [Change.onlyIf_apply, Change.apply_receive]
          by_cases same : node = target
          · rw [if_pos same, if_pos same, same]
            rfl
          · rw [if_neg same, if_neg same]
            rfl
  | setMembership target members =>
      simp only [recordChange, Change.apply_keep, recordAt, storeAt]
      by_cases same : node = target
      · subst same
        simp
      · simp [same]
  | lose index =>
      rfl
  | fanOut index active target pending found known =>
      rfl
  | beginRead index active target user table' key' found =>
      rfl
  | answer index origin target user table' key' targets answers found =>
      rfl
  | fail index origin target user table' key' targets answers found =>
      rfl
  | finishRead index target user table' key' targets answers found =>
      rfl
  | pullStore joiner seed =>
      rfl
  | pullRefused joiner seed =>
      rfl

/-- After a run the record is what the changes of its steps make of it. -/
theorem recordAt_run {environment : Environment} {cluster final : Cluster}
    {events : List ClusterEvent}
    (reached : runSteps (step environment) cluster events = some final)
    (node table key : String) :
    final.recordAt node table key =
      Change.applyAll mergeIncoming (cluster.recordAt node table key)
        ((runTrace (step environment) cluster events).map fun taken =>
          recordChange environment taken.1 taken.2 node table key) := by
  induction events generalizing cluster with
  | nil =>
      cases Option.some.inj reached
      rfl
  | cons event rest inductionHypothesis =>
      obtain ⟨next, taken, finished⟩ := runSteps_cons_eq_some.mp reached
      rw [inductionHypothesis finished, runTrace_cons taken, List.map_cons,
        recordAt_step taken node table key]
      rfl

/-! ## A small cluster -/

/-- A deployment with a short hash function in place of the library ones. -/
def sampleEnvironment : Environment where
  clusterSecretVar := some "cluster-secret"
  adminPasswordVar := none
  hash := fun text =>
    text.toList.foldl (fun hash char => hash * 31 + char.toNat.toUInt64) 7
  sha256Hex := fun secret => "sha256:" ++ secret

def aliceToken : Authorization :=
  .bearer ⟨"alice", none⟩

def bobToken : Authorization :=
  .bearer ⟨"bob", none⟩

/-- Every node sees the listed nodes, all of them Active. -/
def allActive (nodes : List String) : String → Membership :=
  fun _ => nodes.foldl
    (fun members node => members.insert node ⟨.active, 0⟩) ∅

end Cluster

end DynaRust.Network
