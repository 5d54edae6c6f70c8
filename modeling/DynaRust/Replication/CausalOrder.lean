import DynaRust.Network.Provenance

/-!
# The causal order of what one node stores

A merge never replaces a version by one that it dominates.  Between two
versions of which neither dominates it decides by the timestamps, though, and
this can let a version back in that is dominated by one stored before.
-/

namespace DynaRust.Network.Cluster

open DynaRust.Foundation DynaRust.Security DynaRust.Storage VectorClock
open VersionedValue

/-- The versions that the node stored in the states of a history. -/
def storedBefore (past : History) (node table key : String) :
    List VersionedValue :=
  past.filterMap fun taken => taken.1.recordAt node table key

/-- The stored version is not dominated by one stored before. -/
def NotSteppedBack (node table key : String) (state : History × Cluster) :
    Prop :=
  ∀ earlier ∈ storedBefore state.1 node table key,
    ∀ held ∈ state.2.recordAt node table key, earlier.dominates held = false

instance (node table key : String) (state : History × Cluster) :
    Decidable (NotSteppedBack node table key state) :=
  inferInstanceAs (Decidable
    (∀ earlier ∈ storedBefore _ _ _ _, ∀ held ∈ recordAt _ _ _ _,
      earlier.dominates held = false))

/-- The request replicates a registration, which is stored under the key. -/
def registersKey (table key : String) : InternalRequest → Bool
  | .access username _ => table = "auth" && key = username
  | _ => false

/-- The node handles no delete of the key, and no replicated registration
waits to overwrite it. -/
def PutsOnly (environment : Environment) (node table key : String)
    (cluster : Cluster) (event : ClusterEvent) : Prop :=
  ¬ HandlesDelete environment cluster event node table key ∧
    ∀ message ∈ cluster.messages,
      registersKey table key message.content = false

instance (environment : Environment) (node table key : String)
    (cluster : Cluster) (event : ClusterEvent) :
    Decidable (PutsOnly environment node table key cluster event) :=
  inferInstanceAs (Decidable (_ ∧ _))

/-- A version that is merged for its timestamp alone is not dominated by one
that the node stored before, and a local write does not increment a counter
that stands at `u64::MAX`. -/
def KeepsCausalOrder (environment : Environment) (node table key : String)
    (state : History × Cluster) (event : ClusterEvent) : Prop :=
  (∀ incoming ∈
      (recordChange environment state.2 event node table key).received,
    ∀ held ∈ state.2.recordAt node table key,
      incoming.dominates held = false → held.dominates incoming = false →
        held.timestamp < incoming.timestamp →
          ∀ earlier ∈ storedBefore state.1 node table key,
            earlier.dominates incoming = false) ∧
    ((recordChange environment state.2 event node table
        key).written.isSome = true →
      ∀ held ∈ state.2.recordAt node table key,
        reading held.vectorClock node + 1 < UInt64.size)

instance (environment : Environment) (node table key : String)
    (state : History × Cluster) (event : ClusterEvent) :
    Decidable (KeepsCausalOrder environment node table key state event) :=
  inferInstanceAs (Decidable
    ((∀ _ ∈ Change.received _, ∀ _ ∈ recordAt _ _ _ _, _ → _ → _ → _) ∧
      (_ → ∀ _ ∈ recordAt _ _ _ _, _)))

/-- A local write of a stored record increments its clock. -/
theorem clock_of_writes {environment : Environment} {cluster : Cluster}
    {event : ClusterEvent} {node table key : String}
    {held version : VersionedValue}
    (noRegistration : ∀ message ∈ cluster.messages,
      registersKey table key message.content = false)
    (stored : cluster.recordAt node table key = some held)
    (written : Writes environment cluster event node table key version) :
    version.vectorClock = increment held.vectorClock node := by
  cases written with
  | put node table key header claims body now version accepted =>
      rcases putLocal_eq_ok_iff.mp accepted with
        ⟨missing, -⟩ | ⟨base, found, -, rfl⟩
      · cases stored.symm.trans missing
      · cases Option.some.inj (stored.symm.trans found)
        rfl
  | patch node table key header claims body now version accepted =>
      obtain ⟨base, found, -, rfl⟩ := patchLocal_eq_ok_iff.mp accepted
      cases Option.some.inj (stored.symm.trans found)
      rfl
  | adminPut node table key header authorization body now admin =>
      rw [stored]
      rfl
  | register node user secret header userHeader now missing =>
      cases stored.symm.trans missing
  | replicate event message user hashed now inFlight content =>
      have registers := noRegistration message inFlight
      rw [content] at registers
      simp [registersKey] at registers

theorem storedBefore_append (past : History) (cluster : Cluster)
    (event : ClusterEvent) (node table key : String) :
    storedBefore (past ++ [(cluster, event)]) node table key =
      storedBefore past node table key ++
        (cluster.recordAt node table key).toList := by
  rw [storedBefore, List.filterMap_append]
  cases stored : cluster.recordAt node table key <;>
    simp [storedBefore, stored]

/-- Nothing stored so far dominates what is stored now, and a node that stores
nothing has stored nothing. -/
structure InCausalOrder (node table key : String)
    (state : History × Cluster) : Prop where
  notSteppedBack : NotSteppedBack node table key state
  nothingBefore : state.2.recordAt node table key = none →
    storedBefore state.1 node table key = []

/-- Whatever is not dominated by the old version and those before it may be
stored next. -/
private theorem InCausalOrder.append {past : History}
    {cluster next : Cluster} {event : ClusterEvent}
    {node table key : String} {version : VersionedValue}
    (stored : next.recordAt node table key = some version)
    (notOlder : ∀ held ∈ cluster.recordAt node table key,
      held.dominates version = false)
    (notEarlier : ∀ earlier ∈ storedBefore past node table key,
      earlier.dominates version = false) :
    InCausalOrder node table key (past ++ [(cluster, event)], next) where
  notSteppedBack := by
    intro earlier before held isHeld
    cases Option.some.inj (stored.symm.trans isHeld)
    rw [storedBefore_append] at before
    rcases List.mem_append.mp before with old | last
    · exact notEarlier earlier old
    · exact notOlder earlier (Option.mem_toList.mp last)
  nothingBefore := by
    intro missing
    cases stored.symm.trans missing

/-- A version that dominates the stored one is not dominated by anything
stored before. -/
private theorem notEarlier_of_dominates {past : History} {cluster : Cluster}
    {node table key : String} {held version : VersionedValue}
    (ordered : NotSteppedBack node table key (past, cluster))
    (stored : cluster.recordAt node table key = some held)
    (newer : version.dominates held = true) :
    ∀ earlier ∈ storedBefore past node table key,
      earlier.dominates version = false := by
  intro earlier before
  rw [Bool.eq_false_iff]
  intro older
  have below := ordered earlier before held stored
  rw [dominates_trans older newer] at below
  cases below

theorem inCausalOrder_step {environment : Environment} {past : History}
    {cluster next : Cluster} {event : ClusterEvent} {node table key : String}
    (puts : PutsOnly environment node table key cluster event)
    (taken : step environment cluster event = some next)
    (ordered : InCausalOrder node table key (past, cluster))
    (keeps : KeepsCausalOrder environment node table key (past, cluster)
      event) :
    InCausalOrder node table key (past ++ [(cluster, event)], next) := by
  have after := recordAt_step taken node table key
  cases stored : cluster.recordAt node table key with
  | none =>
      have nothing := ordered.nothingBefore stored
      have nothingYet : storedBefore (past ++ [(cluster, event)]) node table
          key = [] := by
        rw [storedBefore_append, stored, nothing]
        rfl
      refine ⟨?_, fun _ => nothingYet⟩
      intro earlier before
      rw [nothingYet] at before
      cases before
  | some held =>
      have kept : next.recordAt node table key = some held →
          InCausalOrder node table key
            (past ++ [(cluster, event)], next) := by
        intro same
        apply InCausalOrder.append same
        · intro old isOld
          cases Option.some.inj (stored.symm.trans isOld)
          exact dominates_irrefl held
        · intro earlier before
          exact ordered.notSteppedBack earlier before held stored
      have replaced : ∀ version, next.recordAt node table key = some version →
          version.dominates held = true →
          InCausalOrder node table key
            (past ++ [(cluster, event)], next) := by
        intro version isStored newer
        apply InCausalOrder.append isStored
        · intro old isOld
          cases Option.some.inj (stored.symm.trans isOld)
          exact dominates_asymm newer
        · exact notEarlier_of_dominates ordered.notSteppedBack stored newer
      have writes : ∀ version,
          (recordChange environment cluster event node table key).written =
            some version → next.recordAt node table key = some version →
          InCausalOrder node table key
            (past ++ [(cluster, event)], next) := by
        intro version written isStored
        have room := keeps.2 (by rw [written]; rfl) held stored
        have clock := clock_of_writes puts.2 stored
          (writes_of_recordChange taken written)
        exact replaced version isStored (dominates_of_increment clock room)
      rw [stored] at after
      cases changed : recordChange environment cluster event node table key
        with
      | keep =>
          rw [changed] at after
          exact kept after
      | remove =>
          exact absurd changed puts.1
      | write version =>
          rw [changed] at after
          exact writes version (by rw [changed]; rfl) after
      | modify version =>
          rw [changed] at after
          exact writes version (by rw [changed]; rfl) after
      | receive incoming =>
          rw [changed, Change.apply_receive, mergeIncoming_some] at after
          by_cases wins : incoming.beats held = true
          · rw [if_pos wins] at after
            rcases (beats_iff incoming held).mp wins with
              newer | ⟨notOlder, later⟩
            · exact replaced incoming after newer
            · cases newer : incoming.dominates held with
              | true =>
                  exact replaced incoming after newer
              | false =>
                  apply InCausalOrder.append after
                  · intro old isOld
                    cases Option.some.inj (stored.symm.trans isOld)
                    exact notOlder
                  · exact keeps.1 incoming (by rw [changed]; rfl) held stored
                      newer notOlder later
          · rw [if_neg wins] at after
            exact kept after

/-- A step that keeps the order meets the condition. -/
theorem keepsCausalOrder_of_notSteppedBack {environment : Environment}
    {past : History} {cluster next : Cluster} {event : ClusterEvent}
    {node table key : String}
    (puts : PutsOnly environment node table key cluster event)
    (taken : step environment cluster event = some next)
    (ordered : NotSteppedBack node table key
      (past ++ [(cluster, event)], next)) :
    KeepsCausalOrder environment node table key (past, cluster) event := by
  have after := recordAt_step taken node table key
  have before : ∀ version, next.recordAt node table key = some version →
      (∀ held ∈ cluster.recordAt node table key,
        held.dominates version = false) ∧
      ∀ earlier ∈ storedBefore past node table key,
        earlier.dominates version = false := by
    intro version isStored
    constructor
    · intro held isHeld
      apply ordered held ?_ version isStored
      rw [storedBefore_append]
      exact List.mem_append_right _ (Option.mem_toList.mpr isHeld)
    · intro earlier isEarlier
      apply ordered earlier ?_ version isStored
      rw [storedBefore_append]
      exact List.mem_append_left _ isEarlier
  constructor
  · intro incoming received held stored notNewer notOlder later
    have changed : recordChange environment cluster event node table key =
        .receive incoming := by
      cases change : recordChange environment cluster event node table key
      all_goals
        rw [change] at received
        cases received
      rfl
    have wins : incoming.beats held = true :=
      (beats_iff incoming held).mpr (Or.inr ⟨notOlder, later⟩)
    rw [changed, stored, Change.apply_receive, mergeIncoming_some,
      if_pos wins] at after
    exact (before incoming after).2
  · intro isWrite held stored
    by_contra full
    obtain ⟨version, written⟩ := Option.isSome_iff_exists.mp isWrite
    have isStored : next.recordAt node table key = some version := by
      rw [after, stored]
      cases change : recordChange environment cluster event node table key
      all_goals
        rw [change] at written
        cases written
      all_goals rfl
    have clock := clock_of_writes puts.2 stored
      (writes_of_recordChange taken written)
    have older := dominates_of_increment_full clock (Nat.not_lt.mp full)
    rw [(before version isStored).1 held stored] at older
    cases older

/-- As long as a node handles no delete of a key, no version it stores is
dominated by one it stored before, if and only if every step of the run meets
the condition. -/
theorem notSteppedBack_iff_keepsCausalOrder {environment : Environment}
    {start final : Cluster} {events : List ClusterEvent}
    {node table key : String}
    (puts : StepsMeet (step environment)
      (PutsOnly environment node table key) start events)
    (reached : runSteps (step environment) start events = some final) :
    Throughout (withHistory (step environment))
        (NotSteppedBack node table key) ([], start) events ↔
      StepsMeet (withHistory (step environment))
        (KeepsCausalOrder environment node table key) ([], start) events := by
  have remembered :
      runSteps (withHistory (step environment)) ([], start) events =
        some (runTrace (step environment) start events, final) := by
    rw [runSteps_withHistory, reached]
    rfl
  apply throughout_iff_stepsMeet (InCausalOrder node table key)
    (fun _ ordered => ordered.notSteppedBack) ?_ ?_ (puts.withHistory [])
    remembered
  · constructor
    · intro earlier before
      cases before
    · intro _
      rfl
  · rintro ⟨past, cluster⟩ event ⟨grown, next⟩ puts taken ordered keeps
    obtain ⟨enabled, rfl⟩ := withHistory_eq_some.mp taken
    exact inCausalOrder_step puts enabled ordered keeps
  · rintro ⟨past, cluster⟩ event ⟨grown, next⟩ puts taken _ after
    obtain ⟨enabled, rfl⟩ := withHistory_eq_some.mp taken
    exact keepsCausalOrder_of_notSteppedBack puts enabled after

/-! ## An old version comes back -/

/-- Alice writes at B; A, whose clock is behind, takes her patch of that; C,
which has heard of neither, takes another write of hers. -/
def threeWrites : List ClusterEvent :=
  [.client "B" none (.putValue aliceToken "notes" "n" ∅) 100,
    .fanOut 0 ["A", "B", "C", "D"],
    .deliver 0 101,
    .client "A" none (.patchValue aliceToken "notes" "n" ∅) 5,
    .fanOut 0 ["A", "B", "C", "D"],
    .client "C" none (.putValue aliceToken "notes" "n" ∅) 50,
    .fanOut 0 ["A", "B", "C", "D"]]

/-- D gets B's write, the patch and C's write. -/
def inOrder : List ClusterEvent :=
  threeWrites ++ [.deliver 2 102, .deliver 4 103, .deliver 7 104]

/-- D gets the patch, C's write and only then B's. -/
def patchFirst : List ClusterEvent :=
  threeWrites ++ [.deliver 5 102, .deliver 8 103, .deliver 2 104]

def fourNodes : Cluster :=
  initial (allActive ["A", "B", "C", "D"])

set_option maxRecDepth 4000 in
theorem inOrder_keepsOrder :
    Throughout (withHistory (step sampleEnvironment))
      (NotSteppedBack "D" "notes" "n") ([], fourNodes) inOrder :=
  (notSteppedBack_iff_keepsCausalOrder (by decide)
    (runSteps_eq_some_runResult _ fourNodes inOrder (by decide))).mpr
    (by decide)

set_option maxRecDepth 4000 in
/-- D stores the patch first and B's write, which it dominates, last. -/
theorem patchFirst_stepsBack :
    (runSteps (step sampleEnvironment) fourNodes patchFirst).isSome = true ∧
      StepsMeet (step sampleEnvironment)
        (PutsOnly sampleEnvironment "D" "notes" "n") fourNodes patchFirst ∧
      ¬ Throughout (withHistory (step sampleEnvironment))
        (NotSteppedBack "D" "notes" "n") ([], fourNodes) patchFirst := by
  refine ⟨by decide, by decide, by decide⟩

end DynaRust.Network.Cluster
