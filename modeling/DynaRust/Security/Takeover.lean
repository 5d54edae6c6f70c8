import DynaRust.Network.Provenance

/-!
# Whether a record changes hands

The write handlers check the owner of the stored record, the merge rule only
compares clocks and timestamps.  A record therefore changes its owner exactly
when a version of another owner arrives and beats it.
-/

namespace DynaRust.Network.Cluster

open DynaRust.Foundation DynaRust.Security DynaRust.Storage

def ownerAt (cluster : Cluster) (node table key : String) : Option String :=
  (cluster.recordAt node table key).map VersionedValue.owner

/-- If the step merges a version that beats the stored one, both have the same
owner. -/
def MergesOwn (environment : Environment) (node table key : String)
    (cluster : Cluster) (event : ClusterEvent) : Prop :=
  match recordChange environment cluster event node table key,
      cluster.recordAt node table key with
  | .receive incoming, some held =>
      incoming.beats held = true → incoming.owner = held.owner
  | _, _ => True

instance (environment : Environment) (node table key : String)
    (cluster : Cluster) (event : ClusterEvent) :
    Decidable (MergesOwn environment node table key cluster event) := by
  unfold MergesOwn
  split <;> infer_instance

/-- A local write to a stored record keeps its owner. -/
theorem owner_of_writes {environment : Environment} {cluster : Cluster}
    {event : ClusterEvent} {node table key : String}
    {held version : VersionedValue} (notAuth : table ≠ "auth")
    (stored : cluster.recordAt node table key = some held)
    (written : Writes environment cluster event node table key version) :
    version.owner = held.owner := by
  cases written with
  | put node table key header claims body now version accepted =>
      rcases putLocal_eq_ok_iff.mp accepted with
        ⟨missing, -⟩ | ⟨base, found, -, rfl⟩
      · cases stored.symm.trans missing
      · cases Option.some.inj (stored.symm.trans found)
        rfl
  | patch node table key header claims body now version accepted =>
      obtain ⟨base, found, -, rfl⟩ := patchLocal_eq_ok_iff.mp accepted
      cases Option.some.inj (stored.symm.trans found)
      rfl
  | adminPut node table key header authorization body now admin =>
      rw [stored]
      rfl
  | register node user secret header userHeader now missing =>
      exact absurd rfl notAuth
  | replicate event message user hashed now inFlight content =>
      exact absurd rfl notAuth

/-- A step that is no delete keeps the owner of a stored record exactly when
it merges no stronger version of somebody else. -/
theorem ownerAt_step_iff {environment : Environment} {cluster next : Cluster}
    {event : ClusterEvent} {node table key owner : String}
    (notAuth : table ≠ "auth")
    (noDelete : ¬ HandlesDelete environment cluster event node table key)
    (taken : step environment cluster event = some next)
    (owned : cluster.ownerAt node table key = some owner) :
    next.ownerAt node table key = some owner ↔
      MergesOwn environment node table key cluster event := by
  obtain ⟨held, stored, rfl⟩ := Option.map_eq_some_iff.mp owned
  unfold ownerAt MergesOwn
  rw [recordAt_step taken, stored]
  cases changed : recordChange environment cluster event node table key with
  | keep =>
      simp
  | remove =>
      exact absurd changed noDelete
  | write version =>
      have written := writes_of_recordChange taken
        (congrArg Change.written changed)
      simp [owner_of_writes notAuth stored written]
  | modify version =>
      have written := writes_of_recordChange taken
        (congrArg Change.written changed)
      simp [owner_of_writes notAuth stored written]
  | receive incoming =>
      simp only [Change.apply_receive, Option.map_some, mergeIncoming_some]
      by_cases wins : incoming.beats held = true
      · simp [wins]
      · simp [wins]

/-- As long as a node handles no delete of the key, its record keeps the owner
exactly when no stronger version of another owner is merged into it. -/
theorem ownerKept_iff_mergesOwn {environment : Environment}
    {cluster final : Cluster} {events : List ClusterEvent}
    {node table key owner : String} (notAuth : table ≠ "auth")
    (owned : cluster.ownerAt node table key = some owner)
    (noDelete : StepsMeet (step environment)
      (fun state event =>
        ¬ HandlesDelete environment state event node table key)
      cluster events)
    (reached : runSteps (step environment) cluster events = some final) :
    Throughout (step environment)
        (fun state => state.ownerAt node table key = some owner)
        cluster events ↔
      StepsMeet (step environment) (MergesOwn environment node table key)
        cluster events := by
  refine throughout_iff_stepsMeet _ (fun _ held => held) ?_ ?_ noDelete
    reached owned
  · intro state event next keeps taken held merges
    exact (ownerAt_step_iff notAuth keeps taken held).mpr merges
  · intro state event next keeps taken held kept
    exact (ownerAt_step_iff notAuth keeps taken held).mp kept

/-! ## One creator -/

/-- All versions of the key in the cluster have one owner. -/
def SingleOwner (table key : String) (cluster : Cluster) : Prop :=
  ∀ first second, Carries cluster table key first →
    Carries cluster table key second → first.owner = second.owner

/-- A node that creates the key does so for the owner of every version of it
that is around. -/
def CreatesOwn (environment : Environment) (table key : String)
    (cluster : Cluster) (event : ClusterEvent) : Prop :=
  ∀ node version, Writes environment cluster event node table key version →
    cluster.recordAt node table key = none →
    ∀ other, Carries cluster table key other → other.owner = version.owner

private theorem owner_of_writes_twice {environment : Environment}
    {cluster : Cluster} {event : ClusterEvent}
    {node node' table key : String} {first second : VersionedValue}
    (notAuth : table ≠ "auth")
    (one : Writes environment cluster event node table key first)
    (two : Writes environment cluster event node' table key second) :
    first.owner = second.owner := by
  cases one with
  | put node table key header claims body now version accepted =>
      cases two with
      | put node table key header claims body now version accepted' =>
          cases accepted.symm.trans accepted'
          rfl
      | replicate event message user hashed now inFlight content =>
          exact absurd rfl notAuth
  | patch node table key header claims body now version accepted =>
      cases two with
      | patch node table key header claims body now version accepted' =>
          cases accepted.symm.trans accepted'
          rfl
      | replicate event message user hashed now inFlight content =>
          exact absurd rfl notAuth
  | adminPut node table key header authorization body now admin =>
      cases two with
      | adminPut node table key header authorization body now admin =>
          rfl
      | replicate event message user hashed now inFlight content =>
          exact absurd rfl notAuth
  | register node user secret header userHeader now missing =>
      exact absurd rfl notAuth
  | replicate event message user hashed now inFlight content =>
      exact absurd rfl notAuth

private theorem owner_of_writes_of_carries {environment : Environment}
    {cluster : Cluster} {event : ClusterEvent} {node table key : String}
    {version other : VersionedValue} (notAuth : table ≠ "auth")
    (single : SingleOwner table key cluster)
    (creates : CreatesOwn environment table key cluster event)
    (written : Writes environment cluster event node table key version)
    (carried : Carries cluster table key other) :
    other.owner = version.owner := by
  cases stored : cluster.recordAt node table key with
  | none =>
      exact creates node version written stored other carried
  | some held =>
      rw [owner_of_writes notAuth stored written]
      exact single other held carried (.stored node stored)

theorem singleOwner_step {environment : Environment}
    {cluster next : Cluster} {event : ClusterEvent} {table key : String}
    (notAuth : table ≠ "auth")
    (creates : CreatesOwn environment table key cluster event)
    (taken : step environment cluster event = some next)
    (single : SingleOwner table key cluster) :
    SingleOwner table key next := by
  intro first second firstCarried secondCarried
  rcases carries_step taken firstCarried with firstOld | ⟨node, firstNew⟩
  · rcases carries_step taken secondCarried with
      secondOld | ⟨node', secondNew⟩
    · exact single first second firstOld secondOld
    · exact owner_of_writes_of_carries notAuth single creates secondNew
        firstOld
  · rcases carries_step taken secondCarried with
      secondOld | ⟨node', secondNew⟩
    · exact (owner_of_writes_of_carries notAuth single creates firstNew
        secondOld).symm
    · exact owner_of_writes_twice notAuth firstNew secondNew

/-- If nobody creates the key while a version of another owner is around, all
versions of it have one owner in every reachable state. -/
theorem singleOwner_of_createsOwn {environment : Environment}
    {members : String → Membership} {final : Cluster}
    {events : List ClusterEvent} {table key : String}
    (notAuth : table ≠ "auth")
    (creates : StepsMeet (step environment)
      (CreatesOwn environment table key) (initial members) events)
    (reached : runSteps (step environment) (initial members) events =
      some final) :
    SingleOwner table key final := by
  refine runSteps_induction _ ?_ creates reached ?_
  · intro state event next own taken single
    exact singleOwner_step notAuth own taken single
  · intro first second carried _
    exact absurd carried (not_carries_initial members table key first)

theorem mergesOwn_of_singleOwner {environment : Environment}
    {cluster next : Cluster} {event : ClusterEvent} {table key : String}
    (single : SingleOwner table key cluster)
    (taken : step environment cluster event = some next) (node : String) :
    MergesOwn environment node table key cluster event := by
  unfold MergesOwn
  split
  · rename_i incoming held changed stored
    intro _
    exact single incoming held
      (carries_of_incoming (incoming_of_recordChange taken changed))
      (.stored node stored)
  · trivial

/-! ## Two users, one key -/

/-- Alice creates the note at A. -/
def aliceCreates : ClusterEvent :=
  .client "A" none (.putValue aliceToken "notes" "n" ∅) 1

/-- Bob creates it at B before any message has crossed, and A handles his
version. -/
def bobCrosses : List ClusterEvent :=
  [.client "B" none (.putValue bobToken "notes" "n" ∅) 2,
    .fanOut 1 ["A", "B"],
    .deliver 0 3]

/-- B handles the version of alice, and bob's request is refused. -/
def bobComesLate : List ClusterEvent :=
  [.fanOut 0 ["A", "B"],
    .deliver 1 2,
    .client "B" none (.putValue bobToken "notes" "n" ∅) 3,
    .deliver 0 4]

def aliceOwns : Cluster :=
  runResult (step sampleEnvironment) (initial (allActive ["A", "B"]))
    [aliceCreates] (by decide)

theorem bobComesLate_keepsOwner :
    Throughout (step sampleEnvironment)
      (fun state => state.ownerAt "A" "notes" "n" = some "alice")
      aliceOwns bobComesLate :=
  (ownerKept_iff_mergesOwn (by decide) (by decide) (by decide)
    (runSteps_eq_some_runResult _ aliceOwns bobComesLate (by decide))).mpr
    (by decide)

/-- A stores alice's note, handles no delete, and ends with bob's. -/
theorem bobCrosses_takesOver :
    runSteps (step sampleEnvironment) (initial (allActive ["A", "B"]))
        [aliceCreates] = some aliceOwns ∧
      aliceOwns.ownerAt "A" "notes" "n" = some "alice" ∧
      ∃ final,
        runSteps (step sampleEnvironment) aliceOwns bobCrosses = some final ∧
        StepsMeet (step sampleEnvironment)
          (fun state event =>
            ¬ HandlesDelete sampleEnvironment state event "A" "notes" "n")
          aliceOwns bobCrosses ∧
        final.ownerAt "A" "notes" "n" = some "bob" := by
  refine ⟨runSteps_eq_some_runResult _ _ _ _, by decide,
    runResult (step sampleEnvironment) aliceOwns bobCrosses (by decide),
    runSteps_eq_some_runResult _ _ _ _, by decide, by decide⟩

end DynaRust.Network.Cluster
