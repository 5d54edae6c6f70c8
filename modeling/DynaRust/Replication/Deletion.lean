import DynaRust.Network.Provenance

/-!
# Deletes

A delete leaves no trace: a node that has removed a key takes the next
internal PUT of the key for a new record.  A deleted key stays absent exactly
as long as every node handles the delete after all internal PUTs of the key,
be they replication, repeated requests or read repair.
-/

namespace DynaRust.Network.Cluster

open DynaRust.Foundation DynaRust.Storage

/-- A PUT of the key is accepted at some node. -/
def AcceptsPut (environment : Environment) (cluster : Cluster)
    (event : ClusterEvent) (table key : String) : Prop :=
  ∃ node newValue,
    recordChange environment cluster event node table key = .write newValue

/-- An authorised DELETE of the key takes effect at `node`. -/
def AcceptsDelete (cluster : Cluster) (event : ClusterEvent)
    (node table key : String) : Prop :=
  ∃ index, event = .remove index ∧
    cluster.tasks[index]? = some (node, .remove table key)

/-- What the steps of a run do to the record of a node. -/
def changesAt (environment : Environment) (cluster : Cluster)
    (events : List ClusterEvent) (node table key : String) :
    List (Change VersionedValue) :=
  (runTrace (step environment) cluster events).map fun taken =>
    recordChange environment taken.1 taken.2 node table key

/-- Every internal PUT of the key that the node handles is followed by a
delete that it handles. -/
def InternalPutsDeleted (environment : Environment) (cluster : Cluster)
    (events : List ClusterEvent) (node table key : String) : Prop :=
  Change.RemovedAfter Change.isReceive
    (changesAt environment cluster events node table key)

instance (environment : Environment) (cluster : Cluster)
    (events : List ClusterEvent) (node table key : String) :
    Decidable (InternalPutsDeleted environment cluster events node table
      key) :=
  inferInstanceAs (Decidable (Change.RemovedAfter _ _))

theorem changesAt_append {environment : Environment}
    {cluster middle : Cluster} {first : List ClusterEvent}
    (reached : runSteps (step environment) cluster first = some middle)
    (second : List ClusterEvent) (node table key : String) :
    changesAt environment cluster (first ++ second) node table key =
      changesAt environment cluster first node table key ++
        changesAt environment middle second node table key := by
  rw [changesAt, runTrace_append reached, List.map_append]
  rfl

theorem handlesDelete_of_acceptsDelete (environment : Environment)
    {cluster : Cluster} {event : ClusterEvent} {node table key : String}
    (accepted : AcceptsDelete cluster event node table key) :
    HandlesDelete environment cluster event node table key := by
  obtain ⟨index, rfl, found⟩ := accepted
  simp [HandlesDelete, recordChange, found, Change.onlyIf]

theorem remove_mem_changesAt {environment : Environment} {cluster : Cluster}
    {events : List ClusterEvent} {node table key : String}
    (handled : ∃ taken ∈ runTrace (step environment) cluster events,
      HandlesDelete environment taken.1 taken.2 node table key) :
    .remove ∈ changesAt environment cluster events node table key := by
  obtain ⟨taken, member, isRemove⟩ := handled
  exact List.mem_map.mpr ⟨taken, member, isRemove⟩

/-- Outside of `auth` only client requests count as accepted PUTs. -/
theorem client_of_acceptsPut {environment : Environment}
    {cluster next : Cluster} {event : ClusterEvent} {table key : String}
    (taken : step environment cluster event = some next)
    (accepted : AcceptsPut environment cluster event table key)
    (notAuth : table ≠ "auth") : event.isClient = true := by
  obtain ⟨node, newValue, changed⟩ := accepted
  have written := writes_of_recordChange taken
    (congrArg Change.written changed)
  cases written with
  | put node table key header claims body now version stored =>
      rfl
  | patch node table key header claims body now version stored =>
      rfl
  | adminPut node table key header authorization body now admin =>
      rfl
  | register node user secret header userHeader now missing =>
      rfl
  | replicate event message user hashed now inFlight content =>
      exact absurd rfl notAuth

/-- Without accepted PUTs the internal ones are all that can fill a record. -/
theorem fills_eq_isReceive {environment : Environment} {cluster : Cluster}
    {events : List ClusterEvent} {table key : String}
    (noPut : ∀ taken ∈ runTrace (step environment) cluster events,
      ¬ AcceptsPut environment taken.1 taken.2 table key)
    (node : String) :
    ∀ change ∈ changesAt environment cluster events node table key,
      change.fills = change.isReceive := by
  intro change member
  obtain ⟨taken, inside, rfl⟩ := List.mem_map.mp member
  cases changed :
      recordChange environment taken.1 taken.2 node table key with
  | write newValue =>
      exact absurd ⟨node, newValue, changed⟩ (noPut taken inside)
  | keep =>
      rfl
  | remove =>
      rfl
  | modify newValue =>
      rfl
  | receive incoming =>
      rfl

/-- A node that handled a delete after the last accepted PUT ends without the
key exactly when all its internal PUTs came before its last delete. -/
theorem recordAt_eq_none_iff {environment : Environment}
    {start middle final : Cluster} {before after : List ClusterEvent}
    {node table key : String}
    (early : runSteps (step environment) start before = some middle)
    (late : runSteps (step environment) middle after = some final)
    (noPut : ∀ taken ∈ runTrace (step environment) middle after,
      ¬ AcceptsPut environment taken.1 taken.2 table key)
    (handled : ∃ taken ∈ runTrace (step environment) middle after,
      HandlesDelete environment taken.1 taken.2 node table key) :
    final.recordAt node table key = none ↔
      InternalPutsDeleted environment start (before ++ after) node table
        key := by
  have removed := remove_mem_changesAt handled
  have ended : final.recordAt node table key =
      Change.applyAll mergeIncoming (middle.recordAt node table key)
        (changesAt environment middle after node table key) :=
    recordAt_run late node table key
  rw [ended, Change.applyAll_eq_none_iff,
    and_iff_left (Or.inr removed), InternalPutsDeleted,
    changesAt_append early,
    Change.removedAfter_append_of_remove Change.isReceive removed]
  exact Change.removedAfter_congr (fills_eq_isReceive noPut node)

/-- After an accepted DELETE that reaches every node, and no PUT accepted
afterwards, the key is gone from all nodes exactly when each node handles a
delete after every internal PUT of the key. -/
theorem deleted_iff_internalPutsDeleted {environment : Environment}
    {start middle final : Cluster} {before after : List ClusterEvent}
    {event : ClusterEvent} {source table key : String} {members : List String}
    (early : runSteps (step environment) start before = some middle)
    (accepted : AcceptsDelete middle event source table key)
    (late : runSteps (step environment) middle (event :: after) = some final)
    (noPut : ∀ taken ∈ runTrace (step environment) middle (event :: after),
      ¬ AcceptsPut environment taken.1 taken.2 table key)
    (reached : ∀ node ∈ members, node ≠ source →
      ∃ taken ∈ runTrace (step environment) middle (event :: after),
        HandlesDelete environment taken.1 taken.2 node table key) :
    (∀ node ∈ members, final.recordAt node table key = none) ↔
      ∀ node ∈ members, InternalPutsDeleted environment start
        (before ++ event :: after) node table key := by
  have handled : ∀ node ∈ members,
      ∃ taken ∈ runTrace (step environment) middle (event :: after),
        HandlesDelete environment taken.1 taken.2 node table key := by
    intro node member
    by_cases own : node = source
    · subst own
      exact ⟨(middle, event), by simp [runTrace],
        handlesDelete_of_acceptsDelete environment accepted⟩
    · exact reached node member own
  constructor
  · intro gone node member
    exact (recordAt_eq_none_iff early late noPut (handled node member)).mp
      (gone node member)
  · intro deleted node member
    exact (recordAt_eq_none_iff early late noPut (handled node member)).mpr
      (deleted node member)

/-! ## Two nodes -/

/-- Alice creates a note at A; A has handled the copy it sent to itself, B not
yet.  Then A accepts her DELETE. -/
def noteUntilDelete : List ClusterEvent :=
  [.client "A" none (.putValue aliceToken "notes" "n" ∅) 1,
    .fanOut 0 ["A", "B"],
    .deliver 0 2,
    .client "A" none (.deleteValue aliceToken "notes" "n") 3]

/-- B handles the PUT and then the delete. -/
def deleteLast : List ClusterEvent :=
  [.fanOut 0 ["A", "B"], .deliver 0 4, .deliver 0 5]

/-- B handles the delete first. -/
def putLast : List ClusterEvent :=
  [.fanOut 0 ["A", "B"], .deliver 1 4, .deliver 0 5]

def beforeDelete : Cluster :=
  runResult (step sampleEnvironment) (initial (allActive ["A", "B"]))
    noteUntilDelete (by decide)

private theorem noPut_of_deliveries {after : List ClusterEvent}
    (enabled :
      (runSteps (step sampleEnvironment) beforeDelete after).isSome = true)
    (deliveries : ∀ event ∈ after, event.isClient = false) :
    ∀ taken ∈ runTrace (step sampleEnvironment) beforeDelete after,
      ¬ AcceptsPut sampleEnvironment taken.1 taken.2 "notes" "n" := by
  intro taken member accepted
  have late := runSteps_eq_some_runResult _ beforeDelete after enabled
  obtain ⟨next, possible⟩ := step_isSome_of_mem_runTrace late member
  have client := client_of_acceptsPut possible accepted (by decide)
  rw [deliveries taken.2 (mem_of_mem_runTrace member)] at client
  cases client

private theorem deleteAccepted :
    AcceptsDelete beforeDelete (.remove 0) "A" "notes" "n" :=
  ⟨0, rfl, by decide⟩

def afterDeleteLast : Cluster :=
  runResult (step sampleEnvironment) beforeDelete (.remove 0 :: deleteLast)
    (by decide)

/-- With the delete handled last, A and B end without the note. -/
theorem deleteLast_sticks :
    afterDeleteLast.recordAt "A" "notes" "n" = none ∧
      afterDeleteLast.recordAt "B" "notes" "n" = none := by
  have deleted : ∀ node ∈ ["A", "B"],
      afterDeleteLast.recordAt node "notes" "n" = none :=
    (deleted_iff_internalPutsDeleted
      (runSteps_eq_some_runResult _ _ noteUntilDelete (by decide))
      deleteAccepted
      (runSteps_eq_some_runResult _ beforeDelete (.remove 0 :: deleteLast)
        (by decide))
      (noPut_of_deliveries (by decide) (by decide))
      (by decide)).mpr (by decide)
  exact ⟨deleted "A" (by decide), deleted "B" (by decide)⟩

/-- With the PUT handled last, everything has been delivered and B stores the
deleted note. -/
theorem putLast_revives :
    ∃ final,
      runSteps (step sampleEnvironment) (initial (allActive ["A", "B"]))
        noteUntilDelete = some beforeDelete ∧
      AcceptsDelete beforeDelete (.remove 0) "A" "notes" "n" ∧
      runSteps (step sampleEnvironment) beforeDelete
        (.remove 0 :: putLast) = some final ∧
      (∀ taken ∈ runTrace (step sampleEnvironment) beforeDelete
          (.remove 0 :: putLast),
        ¬ AcceptsPut sampleEnvironment taken.1 taken.2 "notes" "n") ∧
      (∃ taken ∈ runTrace (step sampleEnvironment) beforeDelete
          (.remove 0 :: putLast),
        HandlesDelete sampleEnvironment taken.1 taken.2 "B" "notes" "n") ∧
      final.messages = [] ∧ final.tasks = [] ∧
      final.recordAt "B" "notes" "n" ≠ none := by
  refine ⟨runResult (step sampleEnvironment) beforeDelete
    (.remove 0 :: putLast) (by decide), ?_, deleteAccepted, ?_,
    noPut_of_deliveries (by decide) (by decide), ?_, ?_, ?_, ?_⟩
  · exact runSteps_eq_some_runResult _ _ _ _
  · exact runSteps_eq_some_runResult _ _ _ _
  · decide
  · decide
  · decide
  · decide

end DynaRust.Network.Cluster
