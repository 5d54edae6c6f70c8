import DynaRust.Network.Provenance

/-!
# What a delete removes

`delete_value` checks the owner in one store step and removes the key in
another one.  In between the record can be deleted and created anew, or be
replaced by replication, so that the removal hits a record of somebody else.
-/

namespace DynaRust.Network.Cluster

open DynaRust.Foundation DynaRust.Security DynaRust.Storage

/-- A removal that took place now would find a record of the user or none. -/
def RemovesOwn (node table key user : String) (cluster : Cluster) : Prop :=
  ∀ held ∈ cluster.recordAt node table key, held.owner = user

instance (node table key user : String) (cluster : Cluster) :
    Decidable (RemovesOwn node table key user cluster) :=
  inferInstanceAs (Decidable (∀ held ∈ recordAt _ _ _ _, _))

/-- The step writes no version of another owner under the key and merges none
that replaces the record or fills its place. -/
def KeepsFor (environment : Environment) (node table key user : String)
    (cluster : Cluster) (event : ClusterEvent) : Prop :=
  (∀ version ∈ (recordChange environment cluster event node table key).written,
    version.owner = user) ∧
    ∀ incoming ∈
        (recordChange environment cluster event node table key).received,
      (∀ held ∈ cluster.recordAt node table key,
        incoming.beats held = true) → incoming.owner = user

instance (environment : Environment) (node table key user : String)
    (cluster : Cluster) (event : ClusterEvent) :
    Decidable (KeepsFor environment node table key user cluster event) :=
  inferInstanceAs (Decidable ((∀ _ ∈ Change.written _, _) ∧
    ∀ _ ∈ Change.received _, (∀ _ ∈ recordAt _ _ _ _, _) → _))

/-- The check of an external delete passes only for the owner, and leaves the
record alone. -/
theorem recordAt_of_checked {environment : Environment}
    {cluster checked : Cluster} {node table key : String}
    {header : Option HeaderValue} {claims : TokenClaims} {now : Nat}
    (taken : step environment cluster (.client node header
      (.deleteValue (.bearer claims) table key) now) = some checked)
    (passed : (deleteValue environment.clusterSecret (cluster.storeAt node)
      header (.bearer claims) table key).task = some (.remove table key)) :
    ∃ held, checked.recordAt node table key = some held ∧
      held.owner = claims.sub := by
  have left : (handle environment node (cluster.storeAt node) header
      (.deleteValue (.bearer claims) table key) now).task =
        some (.remove table key) :=
    passed
  cases handlerTask_of_handle left with
  | delete claims table key held stored own =>
      refine ⟨held, ?_, own⟩
      rw [recordAt_step taken]
      have external : headerPresents environment.clusterSecret header =
          false := by
        cases presents : headerPresents environment.clusterSecret header with
        | false =>
            rfl
        | true =>
            rw [deleteValue, if_pos presents] at passed
            cases passed
      simp only [recordChange, requestChange, external, Bool.false_eq_true,
        and_false, Change.onlyIf_apply, if_false, ite_self]
      exact stored

/-- Only a PATCH rewrites a record in place, and only one that is there. -/
private theorem stored_of_modify {environment : Environment}
    {cluster : Cluster} {event : ClusterEvent} {node table key : String}
    {version : VersionedValue}
    (changed : recordChange environment cluster event node table key =
      .modify version) :
    (cluster.recordAt node table key).isSome = true := by
  cases recordEffect_of_recordChange changed (by simp) with
  | client header request now change acts =>
      cases acts with
      | patch claims body newValue patched =>
          obtain ⟨base, found, -, -⟩ := patchLocal_eq_ok_iff.mp patched
          exact Option.isSome_iff_exists.mpr ⟨base, found⟩
  | message event index now message change handles found target acts =>
      generalize message.content = sent at acts
      cases acts

theorem removesOwn_step_iff {environment : Environment}
    {cluster next : Cluster} {event : ClusterEvent}
    {node table key user : String}
    (taken : step environment cluster event = some next)
    (own : RemovesOwn node table key user cluster) :
    RemovesOwn node table key user next ↔
      KeepsFor environment node table key user cluster event := by
  have after := recordAt_step taken node table key
  unfold RemovesOwn at own ⊢
  unfold KeepsFor
  cases changed : recordChange environment cluster event node table key with
  | keep =>
      rw [changed, Change.apply_keep] at after
      rw [after]
      simpa [Change.written, Change.received] using own
  | remove =>
      rw [changed, Change.apply_remove] at after
      simp [after, Change.written, Change.received]
  | write version =>
      rw [changed, Change.apply_write] at after
      simp [after, Change.written, Change.received]
  | modify version =>
      obtain ⟨held, stored⟩ :=
        Option.isSome_iff_exists.mp (stored_of_modify changed)
      rw [changed, stored, Change.apply_modify, Option.map_some] at after
      simp [after, Change.written, Change.received]
  | receive incoming =>
      rw [changed, Change.apply_receive] at after
      cases stored : cluster.recordAt node table key with
      | none =>
          rw [stored] at after
          simp [after, mergeIncoming, Change.written, Change.received]
      | some held =>
          have isOwn : held.owner = user := own held stored
          rw [stored, mergeIncoming_some] at after
          by_cases wins : incoming.beats held = true
          · rw [if_pos wins] at after
            simp [after, wins, Change.written, Change.received]
          · rw [if_neg wins] at after
            simp [after, wins, isOwn, Change.written, Change.received]

/-- Between the check of a user's delete and its removal the record is never
somebody else's, if and only if no step in between puts a version of another
owner in its place. -/
theorem removesOwn_iff_keepsFor {environment : Environment}
    {cluster checked final : Cluster} {gap : List ClusterEvent}
    {node table key : String} {header : Option HeaderValue}
    {claims : TokenClaims} {now : Nat}
    (taken : step environment cluster (.client node header
      (.deleteValue (.bearer claims) table key) now) = some checked)
    (passed : (deleteValue environment.clusterSecret (cluster.storeAt node)
      header (.bearer claims) table key).task = some (.remove table key))
    (reached : runSteps (step environment) checked gap = some final) :
    Throughout (step environment) (RemovesOwn node table key claims.sub)
        checked gap ↔
      StepsMeet (step environment)
        (KeepsFor environment node table key claims.sub) checked gap := by
  obtain ⟨held, stored, own⟩ := recordAt_of_checked taken passed
  have start : RemovesOwn node table key claims.sub checked := by
    intro found isFound
    rw [Option.mem_def, stored] at isFound
    rw [← Option.some.inj isFound, own]
  apply throughout_iff_stepsMeet _ (fun _ removes => removes) ?_ ?_
    (stepsMeet_true (step environment) checked gap) reached start
  · intro state event next _ enabled removes keeps
    exact (removesOwn_step_iff enabled removes).mpr keeps
  · intro state event next _ enabled removes later
    exact (removesOwn_step_iff enabled removes).mp later

/-! ## Two deletes and a new record -/

/-- Alice's note, and her first delete up to its check. -/
def firstDelete : List ClusterEvent :=
  [.client "A" none (.putValue aliceToken "notes" "n" ∅) 1,
    .client "A" none (.deleteValue aliceToken "notes" "n") 2]

/-- Her second delete goes through, and bob creates the note anew. -/
def bobRecreates : List ClusterEvent :=
  [.client "A" none (.deleteValue aliceToken "notes" "n") 3,
    .remove 2,
    .client "A" none (.putValue bobToken "notes" "n" ∅) 4]

/-- She patches the note, and bob's attempt is refused. -/
def bobRefused : List ClusterEvent :=
  [.client "A" none (.patchValue aliceToken "notes" "n" ∅) 3,
    .client "A" none (.putValue bobToken "notes" "n" ∅) 4]

def noteStored : Cluster :=
  runResult (step sampleEnvironment) (initial (allActive ["A"]))
    (firstDelete.take 1) (by decide)

def deleteChecked : Cluster :=
  (step sampleEnvironment noteStored (.client "A" none
    (.deleteValue aliceToken "notes" "n") 2)).get (by decide)

def bobOwns : Cluster :=
  runResult (step sampleEnvironment) deleteChecked bobRecreates (by decide)

def bobRemoved : Cluster :=
  (step sampleEnvironment bobOwns (.remove 1)).get (by decide)

theorem bobRefused_removesOwn :
    Throughout (step sampleEnvironment) (RemovesOwn "A" "notes" "n" "alice")
      deleteChecked bobRefused :=
  (removesOwn_iff_keepsFor (Option.some_get _).symm (by decide)
    (runSteps_eq_some_runResult _ deleteChecked bobRefused
      (by decide))).mpr (by decide)

/-- Alice's first delete removes the note of bob. -/
theorem bobRecreates_removed :
    runSteps (step sampleEnvironment) (initial (allActive ["A"]))
        (firstDelete.take 1) = some noteStored ∧
      step sampleEnvironment noteStored (.client "A" none
        (.deleteValue aliceToken "notes" "n") 2) = some deleteChecked ∧
      runSteps (step sampleEnvironment) deleteChecked bobRecreates =
        some bobOwns ∧
      step sampleEnvironment bobOwns (.remove 1) = some bobRemoved ∧
      deleteChecked.tasks[1]? = some ("A", .remove "notes" "n") ∧
      bobOwns.tasks[1]? = some ("A", .remove "notes" "n") ∧
      (bobOwns.recordAt "A" "notes" "n").map VersionedValue.owner =
        some "bob" ∧
      bobRemoved.recordAt "A" "notes" "n" = none ∧
      ¬ RemovesOwn "A" "notes" "n" "alice" bobOwns := by
  refine ⟨runSteps_eq_some_runResult _ _ _ _, (Option.some_get _).symm,
    runSteps_eq_some_runResult _ _ _ _, (Option.some_get _).symm, by decide,
    by decide, by decide, by decide, by decide⟩

end DynaRust.Network.Cluster
