import DynaRust.Network.Deployment
import DynaRust.Replication.Handoff

/-!
# Joining misses no write

A node joins, pulls the store of its seed and gets the later writes, while
memberships change in any way.  `join_cluster` leaves an entry that is there
as it is, and `put_value` sends to Active nodes only.  So a node that the seed
lists as Suspect or Down joins successfully and misses what the seed accepts
after the pull.
-/

namespace DynaRust.Network

open DynaRust.Foundation DynaRust.Security DynaRust.Storage VersionedValue

namespace Deployment

variable {environment : Environment} {deployment next : Deployment}
variable {seed joiner table key : String} {event : DeploymentEvent}

/-! ## Steps of a deployment during a handoff -/

/-- Memberships may change in any way while no process starts again. -/
def inHandoff (seed joiner : String) (deployment : Deployment) :
    DeploymentEvent → Bool
  | .data event => Cluster.inHandoff seed joiner deployment.cluster event
  | .membership _ => true
  | .restart _ _ _ => false

def acceptedVersion (environment : Environment) (seed table key : String)
    (deployment : Deployment) (event : DeploymentEvent) :
    Option VersionedValue :=
  event.clusterEvent.bind
    (Cluster.acceptedVersion environment seed table key deployment.cluster)

def offeredVersion (environment : Environment) (joiner table key : String)
    (deployment : Deployment) (event : DeploymentEvent) :
    Option VersionedValue :=
  event.clusterEvent.bind
    (Cluster.offeredVersion environment joiner table key deployment.cluster)

def CountsUp (environment : Environment) (seed table key : String)
    (deployment : Deployment) (event : DeploymentEvent) : Prop :=
  ∀ change ∈ event.clusterEvent,
    Cluster.CountsUp environment seed table key deployment.cluster change

def ReachesJoiner (environment : Environment) (seed joiner table key : String)
    (pulled : Option VersionedValue) (deployment : Deployment)
    (event : DeploymentEvent) : Prop :=
  ∀ change ∈ event.clusterEvent, Cluster.ReachesJoiner environment seed joiner table
    key pulled deployment.cluster change

instance : Decidable (CountsUp environment seed table key deployment event) :=
  inferInstanceAs (Decidable (∀ change ∈ event.clusterEvent, _))

instance {pulled : Option VersionedValue} : Decidable
    (ReachesJoiner environment seed joiner table key pulled deployment
      event) :=
  inferInstanceAs (Decidable (∀ change ∈ event.clusterEvent, _))

/-- The version of the key that the seed accepted last, `held` if it accepted
none. -/
def lastAccepted (environment : Environment) (seed table key : String)
    (held : Option VersionedValue)
    (trace : List (Deployment × DeploymentEvent)) : Option VersionedValue :=
  trace.foldl
    (fun last taken =>
      (acceptedVersion environment seed table key taken.1 taken.2).or last)
    held

theorem step_cases_of_inHandoff
    (handed : inHandoff seed joiner deployment event = true)
    (taken : step environment deployment event = some next) :
    (∃ change, event = .data change ∧
      Cluster.HandoffEvent seed joiner deployment.cluster change ∧
      Cluster.step environment deployment.cluster change =
        some next.cluster) ∨
    (event.clusterEvent = none ∧ SameData deployment next) := by
  cases event with
  | data change =>
      obtain ⟨-, cluster, enabled, rfl⟩ := step_data_eq_some taken
      exact Or.inl ⟨change, rfl,
        Cluster.handoffEvent_of_inHandoff handed, enabled⟩
  | membership change =>
      exact Or.inr ⟨rfl, sameData_membershipStep taken⟩
  | restart node restored now =>
      cases handed

theorem SameData.inFlight {before after : Deployment}
    (same : SameData before after) {version : VersionedValue}
    (flying : Cluster.InFlight after.cluster table key version) :
    Cluster.InFlight before.cluster table key version := by
  cases flying with
  | pending node task member holds =>
      exact .pending node task (same.tasks ▸ member) holds
  | sent message member content =>
      exact .sent message (same.messages ▸ member) content
  | pulled holder remote member found =>
      exact .pulled holder remote (same.snapshots ▸ member) found

theorem move_step (table key : String) (different : joiner ≠ seed)
    (only : Cluster.OnlyVersions deployment.cluster)
    (handed : inHandoff seed joiner deployment event = true)
    (countsUp : CountsUp environment seed table key deployment event)
    (taken : step environment deployment event = some next) :
    mergeSuccession.Move
      (acceptedVersion environment seed table key deployment event)
      (offeredVersion environment joiner table key deployment event)
      (Cluster.feed seed joiner table key deployment.cluster)
      (Cluster.feed seed joiner table key next.cluster) := by
  rcases step_cases_of_inHandoff handed taken with
    ⟨change, rfl, handed, enabled⟩ | ⟨noData, same⟩
  · exact Cluster.move_step different only handed (countsUp change rfl)
      enabled
  · rw [acceptedVersion, offeredVersion, noData]
    exact Succession.Move.idle mergeSuccession
      (same.recordAt seed table key) (same.recordAt joiner table key)
      (fun _ flying => Or.inl (same.inFlight flying))

/-- One key before the joiner has pulled: nothing flies but versions that the
seed stored. -/
structure Handing (seed joiner table key : String)
    (earlier : Option VersionedValue) (deployment : Deployment) : Prop where
  only : Cluster.OnlyVersions deployment.cluster
  sound : mergeSuccession.Sound earlier
    (Cluster.feed seed joiner table key deployment.cluster)

variable {earlier : Option VersionedValue}

theorem Handing.step (different : joiner ≠ seed)
    (handing : Handing seed joiner table key earlier deployment)
    (handed : inHandoff seed joiner deployment event = true)
    (countsUp : CountsUp environment seed table key deployment event)
    (taken : step environment deployment event = some next) :
    Handing seed joiner table key earlier next where
  only := by
    rcases step_cases_of_inHandoff handed taken with
      ⟨change, rfl, handed, enabled⟩ | ⟨-, same⟩
    · exact handing.only.step handed enabled
    · constructor
      · rw [same.tasks]
        exact handing.only.tasks
      · rw [same.messages]
        exact handing.only.messages
  sound :=
    handing.sound.move
      (move_step table key different handing.only handed countsUp taken)

/-- What the seed stores is what it accepted last. -/
theorem recordAt_eq_lastAccepted (different : joiner ≠ seed)
    {final : Deployment} {events : List DeploymentEvent}
    (reached : runSteps (step environment) deployment events = some final)
    (handed : StepsMeet (step environment)
      (fun state event => inHandoff seed joiner state event = true)
      deployment events)
    (countsUp : StepsMeet (step environment)
      (CountsUp environment seed table key) deployment events)
    (handing : Handing seed joiner table key earlier deployment) :
    final.recordAt seed table key =
      lastAccepted environment seed table key
        (deployment.recordAt seed table key)
        (runTrace (step environment) deployment events) := by
  induction events generalizing deployment with
  | nil =>
      cases Option.some.inj reached
      rfl
  | cons event rest inductionHypothesis =>
      obtain ⟨next, taken, finished⟩ := runSteps_cons_eq_some.mp reached
      have moved := move_step table key different
        handing.only handed.1 countsUp.1 taken
      have source : next.recordAt seed table key =
          (acceptedVersion environment seed table key deployment event).or
            (deployment.recordAt seed table key) :=
        moved.source_eq handing.sound
      rw [inductionHypothesis finished (handed.2 next taken)
        (countsUp.2 next taken)
        (handing.step different handed.1 countsUp.1 taken)]
      rw [runTrace_cons taken, lastAccepted, lastAccepted, List.foldl_cons,
        source]

theorem Handing.run (different : joiner ≠ seed)
    {final : Deployment} {events : List DeploymentEvent}
    (handing : Handing seed joiner table key earlier deployment)
    (handed : StepsMeet (Deployment.step environment)
      (fun state event => inHandoff seed joiner state event = true)
      deployment events)
    (countsUp : StepsMeet (Deployment.step environment)
      (CountsUp environment seed table key) deployment events)
    (reached : runSteps (Deployment.step environment) deployment events =
      some final) :
    Handing seed joiner table key earlier final :=
  runSteps_induction (Handing seed joiner table key earlier)
    (fun _ _ _ meets taken before =>
      before.step different meets.1 meets.2 taken)
    (handed.and countsUp) reached handing

/-- One key after the joiner has pulled: what the seed stores is on its way to
the joiner or is there, unless the earlier record withstands it. -/
structure Following (environment : Environment)
    (seed joiner table key : String)
    (earlier pulled : Option VersionedValue) (deployment : Deployment) :
    Prop where
  handing : Handing seed joiner table key earlier deployment
  past : ∀ version ∈ pulled,
    mergeSuccession.IsPast (deployment.recordAt seed table key) version
  covered : mergeSuccession.Covered earlier
    {version | Cluster.Due environment seed joiner table key pulled
      deployment.cluster version}
    (Cluster.feed seed joiner table key deployment.cluster)

variable {pulled : Option VersionedValue}

theorem Following.step (different : joiner ≠ seed)
    (sameSecret : environment.clusterSecretOrEmpty = environment.clusterSecret)
    (following : Following environment seed joiner table key earlier pulled
      deployment)
    (handed : inHandoff seed joiner deployment event = true)
    (countsUp : CountsUp environment seed table key deployment event)
    (reaches : ReachesJoiner environment seed joiner table key pulled
      deployment event)
    (taken : step environment deployment event = some next) :
    Following environment seed joiner table key earlier pulled next := by
  have handing := following.handing
  have moved := move_step table key different
    handing.only handed countsUp taken
  refine ⟨handing.step different handed countsUp taken, ?_, ?_⟩
  · intro version isPulled
    exact (following.past version isPulled).move moved handing.sound
  · apply following.covered.move handing.sound moved
    intro current isCurrent isDue
    rcases step_cases_of_inHandoff handed taken with
      ⟨change, rfl, handed, enabled⟩ | ⟨-, same⟩
    · cases client : change.isClient with
      | true =>
          exact Or.inl (Cluster.due_of_client handed client following.past
            (countsUp change rfl) enabled isCurrent isDue)
      | false =>
          have source := moved.source_eq handing.sound
          have noneAccepted : acceptedVersion environment seed table key
              deployment (.data change) = none := by
            simp [acceptedVersion, DeploymentEvent.clusterEvent,
              Cluster.acceptedVersion, client]
          rw [noneAccepted, Option.none_or] at source
          rw [source] at isCurrent
          rcases isDue with isDue | isNew
          · exact Cluster.due_of_other different sameSecret handed client
              (reaches change rfl) enabled isCurrent isDue
          · exact absurd isCurrent isNew
    · rcases isDue with isDue | isNew
      · refine Or.inl (isDue.mono ?_ ?_ ?_)
        · rw [same.snapshots]
          exact fun _ member => member
        · rw [same.messages]
          exact fun _ member => member
        · rw [same.tasks]
          exact fun _ member => member
      · have kept := same.recordAt seed table key
        exact absurd (kept.symm.trans isCurrent) isNew

/-- A pull makes the stored version of the seed due to the joiner. -/
theorem following_of_pull (different : joiner ≠ seed)
    (sameSecret : environment.clusterSecretOrEmpty = environment.clusterSecret)
    (handing : Handing seed joiner table key earlier deployment)
    (taken : step environment deployment (.data (.pullStore joiner seed)) =
      some next) :
    Following environment seed joiner table key earlier
      (deployment.recordAt seed table key) next := by
  have handed : inHandoff seed joiner deployment
      (.data (.pullStore joiner seed)) = true := by
    simp [inHandoff, Cluster.inHandoff]
  have countsUp : CountsUp environment seed table key deployment
      (.data (.pullStore joiner seed)) := by
    rintro change ⟨⟩ accepted
    cases accepted
  obtain ⟨-, cluster, enabled, rfl⟩ := step_data_eq_some taken
  have isPulled : cluster = { deployment.cluster with
      snapshots := deployment.cluster.snapshots ++
        [(joiner, deployment.cluster.storeAt seed)] } := by
    simp only [Cluster.step, getGlobalStore, sameSecret, ne_eq,
      not_true_eq_false, if_false] at enabled
    exact (Option.some.inj enabled).symm
  subst isPulled
  refine ⟨handing.step different handed countsUp taken, ?_, ?_⟩
  · intro version held
    exact Succession.isPast_self held
  · intro current isCurrent
    refine Or.inl (.snapshot (deployment.cluster.storeAt seed) ?_ isCurrent)
    exact List.mem_append_right _ (List.mem_singleton.mpr rfl)

/-- Nothing is on its way. -/
structure Quiet (deployment : Deployment) : Prop where
  tasks : deployment.cluster.tasks = []
  messages : deployment.cluster.messages = []
  snapshots : deployment.cluster.snapshots = []

theorem Quiet.not_inFlight (quiet : Quiet deployment)
    (version : VersionedValue) :
    ¬ Cluster.InFlight deployment.cluster table key version := by
  intro flying
  cases flying with
  | pending node task member holds =>
      rw [quiet.tasks] at member
      cases member
  | sent message member content =>
      rw [quiet.messages] at member
      cases member
  | pulled holder remote member found =>
      rw [quiet.snapshots] at member
      cases member

theorem handing_of_quiet (seed joiner table key : String)
    (quiet : Quiet deployment) :
    Handing seed joiner table key (deployment.recordAt joiner table key)
      deployment where
  only := by
    constructor
    · rw [quiet.tasks]
      nofun
    · rw [quiet.messages]
      nofun
  sound := by
    constructor
    · intro version flying
      exact absurd flying (quiet.not_inFlight version)
    · intro held isHeld
      exact Or.inr isHeld

/-- Nothing that the step offers to the joiner replaces the record. -/
def Withstands (environment : Environment) (joiner table key : String)
    (old : VersionedValue) (deployment : Deployment)
    (event : DeploymentEvent) : Prop :=
  ∀ version ∈ offeredVersion environment joiner table key deployment event,
    version.beats old = false

/-- An earlier record of the joiner that nothing replaces is kept. -/
theorem withstands_run (different : joiner ≠ seed)
    {final : Deployment} {events : List DeploymentEvent}
    (reached : runSteps (step environment) deployment events = some final)
    (handed : StepsMeet (step environment)
      (fun state event => inHandoff seed joiner state event = true)
      deployment events)
    (countsUp : StepsMeet (step environment)
      (CountsUp environment seed table key) deployment events)
    (handing : Handing seed joiner table key earlier deployment)
    {old : VersionedValue}
    (withstands : StepsMeet (step environment)
      (Withstands environment joiner table key old) deployment events)
    (stored : deployment.recordAt joiner table key = some old) :
    final.recordAt joiner table key = some old := by
  induction events generalizing deployment with
  | nil =>
      cases Option.some.inj reached
      exact stored
  | cons event rest inductionHypothesis =>
      obtain ⟨next, taken, finished⟩ := runSteps_cons_eq_some.mp reached
      have moved := move_step table key different
        handing.only handed.1 countsUp.1 taken
      have replica : next.recordAt joiner table key =
          mergeSuccession.offerAll (deployment.recordAt joiner table key)
            (offeredVersion environment joiner table key deployment
              event).toList :=
        moved.replica_eq
      apply inductionHypothesis finished (handed.2 next taken)
        (countsUp.2 next taken)
        (handing.step different handed.1 countsUp.1 taken)
        (withstands.2 next taken)
      rw [replica, stored]
      apply mergeSuccession.offerAll_refused
      intro version offered
      exact withstands.1 version (Option.mem_toList.mp offered)

theorem sameSecret_of_joinCluster {nodes : Membership} {now : Nat}
    (accepted : (joinCluster environment nodes
      (joinRequest environment joiner) now).2.isOk = true) :
    environment.clusterSecretOrEmpty = environment.clusterSecret := by
  by_contra other
  simp [joinCluster, joinRequest, other, Except.isOk, Except.toBool] at accepted

/-! ## Joining -/

/-- A run in which the seed accepts the join of a node, the node pulls the
store of the seed, and everything that is sent to it arrives. -/
structure Joining (environment : Environment) (seed joiner : String) where
  start : Deployment
  before : List DeploymentEvent
  asked : Deployment
  joinedAt : Nat
  between : List DeploymentEvent
  pulling : Deployment
  after : List DeploymentEvent
  final : Deployment
  different : joiner ≠ seed
  quiet : Quiet start
  untilJoin : runSteps (step environment) start before = some asked
  accepted : (joinCluster environment (asked.membersOf seed)
    (joinRequest environment joiner) joinedAt).2.isOk = true
  untilPull : runSteps (step environment) asked
    (.membership (.join joiner seed joinedAt) :: between) = some pulling
  untilEnd : runSteps (step environment) pulling
    (.data (.pullStore joiner seed) :: after) = some final
  handed : StepsMeet (step environment)
    (fun state event => inHandoff seed joiner state event = true) start
    ((before ++ .membership (.join joiner seed joinedAt) :: between) ++
      .data (.pullStore joiner seed) :: after)
  finished : final.cluster.tasks = []
  merged : final.cluster.snapshots = []
  delivered : ∀ message ∈ final.cluster.messages, message.target ≠ joiner

namespace Joining

/-- All events of the run. -/
def events (joining : Joining environment seed joiner) :
    List DeploymentEvent :=
  (joining.before ++
      .membership (.join joiner seed joining.joinedAt) :: joining.between) ++
    .data (.pullStore joiner seed) :: joining.after

def lastAccepted (joining : Joining environment seed joiner)
    (table key : String) : Option VersionedValue :=
  Deployment.lastAccepted environment seed table key
    (joining.start.recordAt seed table key)
    (runTrace (step environment) joining.start joining.events)

/-- In the end the joiner holds the version that the seed accepted last, or
one that the merge rule prefers to it. -/
def MissesNothing (joining : Joining environment seed joiner)
    (table key : String) : Prop :=
  ∀ last ∈ joining.lastAccepted table key,
    ∃ held ∈ joining.final.recordAt joiner table key,
      held = last ∨ held.beats last = true

/-- What the joiner stored earlier gives way to the last version of the seed,
or it is preferred to that and no version offered to the joiner replaces
it. -/
def EarlierSettled (joining : Joining environment seed joiner)
    (table key : String) : Prop :=
  ∀ old ∈ joining.start.recordAt joiner table key,
    ∀ last ∈ joining.lastAccepted table key,
      (last = old ∨ last.beats old = true) ∨
        (old.beats last = true ∧
          StepsMeet (step environment)
            (Withstands environment joiner table key old) joining.start
            joining.events)

theorem reachesPull (joining : Joining environment seed joiner) :
    runSteps (step environment) joining.start
      (joining.before ++
        .membership (.join joiner seed joining.joinedAt) :: joining.between) =
      some joining.pulling :=
  runSteps_append_eq_some.mpr
    ⟨joining.asked, joining.untilJoin, joining.untilPull⟩

theorem reached (joining : Joining environment seed joiner) :
    runSteps (step environment) joining.start joining.events =
      some joining.final :=
  runSteps_append_eq_some.mpr
    ⟨joining.pulling, joining.reachesPull, joining.untilEnd⟩

/-- After the pull the joiner follows the seed to the end of the run. -/
theorem following (joining : Joining environment seed joiner)
    {table key : String}
    (countsUp : StepsMeet (step environment)
      (CountsUp environment seed table key) joining.start joining.events)
    (reaches : StepsMeet (step environment)
      (ReachesJoiner environment seed joiner table key
        (joining.pulling.recordAt seed table key))
      joining.pulling (.data (.pullStore joiner seed) :: joining.after)) :
    Following environment seed joiner table key
      (joining.start.recordAt joiner table key)
      (joining.pulling.recordAt seed table key) joining.final := by
  have sameSecret := sameSecret_of_joinCluster joining.accepted
  obtain ⟨handedBefore, handedAfter⟩ :=
    stepsMeet_append joining.reachesPull joining.handed
  obtain ⟨countsBefore, countsAfter⟩ :=
    stepsMeet_append joining.reachesPull countsUp
  have quiet := handing_of_quiet seed joiner table key joining.quiet
  have handing := quiet.run joining.different handedBefore countsBefore
    joining.reachesPull
  obtain ⟨fetched, pulled, later⟩ :=
    runSteps_cons_eq_some.mp joining.untilEnd
  have follows := following_of_pull joining.different sameSecret handing
    pulled
  exact runSteps_induction
    (Following environment seed joiner table key _ _)
    (fun _ _ _ meets taken before => before.step joining.different sameSecret
      meets.1.1 meets.1.2 meets.2 taken)
    (((handedAfter.2 fetched pulled).and (countsAfter.2 fetched pulled)).and
      (reaches.2 fetched pulled))
    later follows

/-- If the seed lists the joiner as Active whenever it sends a version that
was not pulled, the joiner misses no write. -/
theorem misses_nothing (joining : Joining environment seed joiner)
    (table key : String)
    (countsUp : StepsMeet (step environment)
      (CountsUp environment seed table key) joining.start joining.events)
    (reaches : StepsMeet (step environment)
      (ReachesJoiner environment seed joiner table key
        (joining.pulling.recordAt seed table key))
      joining.pulling (.data (.pullStore joiner seed) :: joining.after))
    (settled : joining.EarlierSettled table key) :
    joining.MissesNothing table key := by
  intro last isLast
  have handing := handing_of_quiet seed joiner table key joining.quiet
  have source : joining.final.recordAt seed table key = some last := by
    rw [← isLast]
    exact recordAt_eq_lastAccepted joining.different joining.reached
      joining.handed countsUp handing
  have follows := joining.following countsUp reaches
  have nothingDue : {version | Cluster.Due environment seed joiner table key
      (joining.pulling.recordAt seed table key) joining.final.cluster
        version} = (∅ : Set VersionedValue) := by
    apply Set.eq_empty_of_forall_notMem
    intro version isDue
    cases isDue with
    | snapshot remote member found =>
        rw [joining.merged] at member
        cases member
    | sent message member target header content =>
        exact joining.delivered message member target
    | pending change member content notPulled =>
        rw [joining.finished] at member
        cases member
  have covered := follows.covered
  rw [nothingDue] at covered
  by_cases givesWay : ∀ old ∈ joining.start.recordAt joiner table key,
      last = old ∨ last.beats old = true
  · exact ⟨last, covered.caughtUp source givesWay, Or.inl rfl⟩
  · push Not at givesWay
    obtain ⟨old, stored, resists⟩ := givesWay
    rcases settled old stored last isLast with
      replaced | ⟨preferred, withstands⟩
    · rcases replaced with same | wins
      · exact absurd same resists.1
      · exact absurd wins resists.2
    · have kept := withstands_run joining.different joining.reached
        joining.handed countsUp handing withstands stored
      exact ⟨old, kept, Or.inr preferred⟩

end Joining

open Cluster (sampleEnvironment aliceToken)

/-- B was started with a note it had stored before. -/
def restored : Deployment :=
  (initial fun _ => 0).restartNode "B"
    ((∅ : Store).insertRecord "notes" "n" (.new ∅ "alice" "B" 0)) 1

def noteAtA (now : Nat) : DeploymentEvent :=
  .data (.client "A" none (.putValue aliceToken "notes" "n" ∅) now)

def joinOfB : DeploymentEvent :=
  .membership (.join "B" "A" 3)

def pullOfB : DeploymentEvent :=
  .data (.pullStore "B" "A")

def askedAtA : Deployment :=
  runResult (step sampleEnvironment) restored [noteAtA 2] (by decide)

/-- B joins while A's first PUT still waits. -/
def pullingFromA : Deployment :=
  runResult (step sampleEnvironment) askedAtA
    (joinOfB :: [.membership (.finishJoin 0)]) (by decide)

/-- A second PUT at A comes after the pull. -/
def afterPull : List DeploymentEvent :=
  [.data (.fanOut 0 ["A", "B"]), noteAtA 4, .data (.fanOut 0 ["A", "B"]),
    .data (.mergeStore 0), .data (.deliver 0 5), .data (.deliver 0 5),
    .data (.deliver 0 5), .data (.deliver 0 5)]

def caughtUp : Deployment :=
  runResult (step sampleEnvironment) pullingFromA (pullOfB :: afterPull)
    (by decide)

def joiningOnce : Joining sampleEnvironment "A" "B" where
  start := restored
  before := [noteAtA 2]
  asked := askedAtA
  joinedAt := 3
  between := [.membership (.finishJoin 0)]
  pulling := pullingFromA
  after := afterPull
  final := caughtUp
  different := by decide
  quiet := ⟨rfl, rfl, rfl⟩
  untilJoin := runSteps_eq_some_runResult _ _ _ _
  accepted := by decide
  untilPull := runSteps_eq_some_runResult _ _ _ _
  untilEnd := runSteps_eq_some_runResult _ _ _ _
  handed := by decide
  finished := by decide
  merged := by decide
  delivered := by decide

theorem joiningOnce_missesNothing :
    (joiningOnce.lastAccepted "notes" "n").isSome = true ∧
      joiningOnce.MissesNothing "notes" "n" := by
  refine ⟨by decide, ?_⟩
  apply joiningOnce.misses_nothing "notes" "n"
  · decide
  · decide
  · intro old stored last isLast
    refine Or.inl (Or.inr ?_)
    have replaces : ∀ old ∈ joiningOnce.start.recordAt "B" "notes" "n",
        ∀ last ∈ joiningOnce.lastAccepted "notes" "n",
          last.beats old = true := by
      decide
    exact replaces old stored last isLast

/-! ## A node that is listed already -/

/-- B has joined A once, a probe of B has failed, and B starts again. -/
def restarting : List DeploymentEvent :=
  [.membership (.join "B" "A" 1), .membership (.finishJoin 0),
    .membership (.probe "A" "B" false 2), .restart "B" ∅ 3]

def restarted : Deployment :=
  runResult (step sampleEnvironment) (initial fun _ => 0) restarting
    (by decide)

def pullingAgain : Deployment :=
  runResult (step sampleEnvironment) restarted
    (joinOfB :: [.membership (.finishJoin 0)]) (by decide)

/-- A's PUT after the pull is sent to A alone. -/
def afterSecondPull : List DeploymentEvent :=
  [.data (.mergeStore 0), noteAtA 4, .data (.fanOut 0 ["A"]),
    .data (.deliver 0 5)]

def leftBehind : Deployment :=
  runResult (step sampleEnvironment) pullingAgain (pullOfB :: afterSecondPull)
    (by decide)

def joiningAgain : Joining sampleEnvironment "A" "B" where
  start := restarted
  before := []
  asked := restarted
  joinedAt := 3
  between := [.membership (.finishJoin 0)]
  pulling := pullingAgain
  after := afterSecondPull
  final := leftBehind
  different := by decide
  quiet := ⟨by decide, by decide, by decide⟩
  untilJoin := rfl
  accepted := by decide
  untilPull := runSteps_eq_some_runResult _ _ _ _
  untilEnd := runSteps_eq_some_runResult _ _ _ _
  handed := by decide
  finished := by decide
  merged := by decide
  delivered := by decide

/-- The seed answers the second join with success and does not make B
Active. -/
theorem joiningAgain_missesNote :
    runSteps (step sampleEnvironment) (initial fun _ => 0) restarting =
        some joiningAgain.start ∧
      (joiningAgain.pulling.membersOf "A").lookup "B" =
        some ⟨.suspect, 1⟩ ∧
      joiningAgain.lastAccepted "notes" "n" =
        some (.new ∅ "alice" "A" 4) ∧
      joiningAgain.final.recordAt "B" "notes" "n" = none ∧
      ¬ joiningAgain.MissesNothing "notes" "n" := by
  have last : joiningAgain.lastAccepted "notes" "n" =
      some (.new ∅ "alice" "A" 4) := by
    decide
  have absent : joiningAgain.final.recordAt "B" "notes" "n" = none := by
    decide
  have reached : runSteps (step sampleEnvironment) (initial fun _ => 0)
      restarting = some joiningAgain.start :=
    runSteps_eq_some_runResult _ _ _ (by decide)
  refine ⟨reached, by decide, last, absent, ?_⟩
  intro missesNothing
  obtain ⟨held, stored, -⟩ := missesNothing _ last
  rw [absent] at stored
  cases stored

end Deployment

end DynaRust.Network
