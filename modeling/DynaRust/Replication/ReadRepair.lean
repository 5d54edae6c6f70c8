import DynaRust.Network.Cluster

/-!
# Read repair

`get_value` decides by `needs_repair` which replicas get the selected version,
`put_value_internal` by its merge rule which of them take it.  The first
condition asks for a smaller timestamp even where the selected clock
dominates, so a replica with a fast clock is left behind.
-/

namespace DynaRust.Network.Cluster

open DynaRust.Foundation DynaRust.Storage VersionedValue

/-- Merging `latest` would change the record to it. -/
def Adopts (latest : VersionedValue) (held : Option VersionedValue) : Prop :=
  held ≠ some latest ∧ mergeIncoming held latest = latest

/-- The selected version dominates only versions with smaller timestamps. -/
def NewerIsLater (latest : VersionedValue)
    (gathered : List (String × Option VersionedValue)) : Prop :=
  ∀ answer ∈ gathered, ∀ held ∈ answer.2,
    latest.dominates held = true → held.timestamp < latest.timestamp

instance (latest : VersionedValue)
    (gathered : List (String × Option VersionedValue)) :
    Decidable (NewerIsLater latest gathered) :=
  inferInstanceAs (Decidable (∀ answer ∈ gathered, ∀ held ∈ answer.2, _))

/-- A read that ends with `next` repairs the replicas that answered it; in
`final` its repair messages have been delivered. -/
structure Repairs (table key : String) (latest : VersionedValue)
    (gathered : List (String × Option VersionedValue))
    (cluster next final : Cluster) : Prop where
  exactly : ∀ answer ∈ gathered,
    (∃ message ∈ sentSince cluster next, message.target = answer.1 ∧
      message.content = .putValueInternal table key latest) ↔
    Adopts latest answer.2
  upToDate : ∀ answer ∈ gathered,
    ∀ held ∈ final.recordAt answer.1 table key, latest.beats held = false

theorem beats_irrefl (version : VersionedValue) :
    version.beats version = false :=
  mergeContest.beats_irrefl version

theorem adopts_none (latest : VersionedValue) : Adopts latest none :=
  ⟨nofun, rfl⟩

theorem adopts_some_iff (latest held : VersionedValue) :
    Adopts latest (some held) ↔ latest.beats held = true := by
  rw [Adopts, mergeIncoming_some]
  constructor
  · rintro ⟨different, taken⟩
    by_contra loses
    rw [if_neg loses] at taken
    exact different (congrArg some taken)
  · intro wins
    refine ⟨?_, if_pos wins⟩
    intro same
    rw [Option.some.inj same, beats_irrefl] at wins
    cases wins

theorem needsRepair_some_iff (latest held : VersionedValue) :
    needsRepair latest (some held) = true ↔
      held.dominates latest = false ∧ held.timestamp < latest.timestamp := by
  simp [needsRepair]

/-- What is sent is always taken. -/
theorem adopts_of_needsRepair {latest : VersionedValue}
    {held : Option VersionedValue} (needed : needsRepair latest held = true) :
    Adopts latest held := by
  cases held with
  | none =>
      exact adopts_none latest
  | some held =>
      have parts := (needsRepair_some_iff latest held).mp needed
      rw [adopts_some_iff, beats_iff]
      exact Or.inr parts

/-- The two conditions agree on versions that are not dominated or are
earlier. -/
theorem needsRepair_iff_adopts {latest : VersionedValue}
    {answer : Option VersionedValue}
    (later : ∀ held ∈ answer, latest.dominates held = true →
      held.timestamp < latest.timestamp) :
    needsRepair latest answer = true ↔ Adopts latest answer := by
  refine ⟨adopts_of_needsRepair, ?_⟩
  intro adopted
  cases answer with
  | none =>
      rfl
  | some held =>
      rw [adopts_some_iff, beats_iff] at adopted
      rw [needsRepair_some_iff]
      rcases adopted with newer | concurrent
      · exact ⟨dominates_asymm newer, later held rfl newer⟩
      · exact concurrent

/-- Merging one version twice is merging it once. -/
theorem mergeIncoming_twice (held : Option VersionedValue)
    (incoming : VersionedValue) :
    mergeIncoming (some (mergeIncoming held incoming)) incoming =
      mergeIncoming held incoming := by
  rcases mergeIncoming_eq_or held incoming with taken | kept
  · rw [taken, mergeIncoming_some, beats_irrefl]
    rfl
  · rw [← kept]

/-! ## Delivering the repairs -/

/-- A state in which some of the repairs have been delivered. -/
structure Repairing (environment : Environment) (table key : String)
    (latest : VersionedValue) (targets : List String)
    (before state : Cluster) : Prop where
  waiting : ∃ rest, state.messages = before.messages ++ rest ∧
    (∀ message ∈ rest, message ∈ sendToEach environment.clusterSecret
      (.putValueInternal table key latest) targets) ∧
    ∀ target ∈ targets, (∃ message ∈ rest, message.target = target) ∨
      state.recordAt target table key =
        some (mergeIncoming (before.recordAt target table key) latest)
  records : ∀ node,
    state.recordAt node table key = before.recordAt node table key ∨
      node ∈ targets ∧ state.recordAt node table key =
        some (mergeIncoming (before.recordAt node table key) latest)

/-- What a repair does to the record of a node. -/
private theorem recordAt_of_repair {environment : Environment}
    {cluster next : Cluster} {index now : Nat} {message : Message}
    {table key : String} {latest : VersionedValue} {targets : List String}
    (taken : step environment cluster (.deliver index now) = some next)
    (found : cluster.messages[index]? = some message)
    (repair : message ∈ sendToEach environment.clusterSecret
      (.putValueInternal table key latest) targets) (node : String) :
    next.recordAt node table key =
      if node = message.target then
        some (mergeIncoming (cluster.recordAt node table key) latest)
      else cluster.recordAt node table key := by
  obtain ⟨-, header, content⟩ := mem_sendToEach.mp repair
  rw [recordAt_step taken]
  simp only [recordChange, messageChange, found, Change.onlyIf_apply, content,
    InternalRequest.request, requestChange, header, providedSecret,
    Option.bind_some, HeaderValue.toStr, Option.getD_some, and_self, if_true,
    Change.apply_receive]

private theorem messages_of_deliver {environment : Environment}
    {cluster next : Cluster} {index now : Nat}
    (taken : step environment cluster (.deliver index now) = some next) :
    index < cluster.messages.length ∧
      next.messages = cluster.messages.eraseIdx index := by
  cases taken_of_step taken with
  | deliver index now message found =>
      exact ⟨(List.getElem?_eq_some_iff.mp found).1, rfl⟩

private theorem Repairing.deliver {environment : Environment}
    {table key : String} {latest : VersionedValue} {targets : List String}
    {before state next : Cluster} {index now : Nat}
    (repairing : Repairing environment table key latest targets before state)
    (late : before.messages.length ≤ index)
    (taken : step environment state (.deliver index now) = some next) :
    Repairing environment table key latest targets before next := by
  obtain ⟨rest, messages, repairs, open_⟩ := repairing.waiting
  obtain ⟨bound, erased⟩ := messages_of_deliver taken
  have position : index - before.messages.length < rest.length := by
    rw [messages, List.length_append] at bound
    omega
  have inRest : state.messages[index]? =
      some rest[index - before.messages.length] := by
    rw [messages, List.getElem?_append_right late,
      List.getElem?_eq_getElem position]
  have member : rest[index - before.messages.length] ∈ rest :=
    List.getElem_mem position
  have changed := recordAt_of_repair taken inRest (repairs _ member)
  have targeted := (mem_sendToEach.mp (repairs _ member)).1
  constructor
  · refine ⟨rest.eraseIdx (index - before.messages.length), ?_, ?_, ?_⟩
    · rw [erased, messages, List.eraseIdx_append_of_length_le late]
    · intro message remaining
      exact repairs message (List.mem_of_mem_eraseIdx remaining)
    · intro target among
      rw [changed]
      by_cases same :
          target = (rest[index - before.messages.length]).target
      · refine Or.inr ?_
        rw [if_pos same]
        rcases repairing.records target with untouched | ⟨-, merged⟩
        · rw [untouched]
        · rw [merged, mergeIncoming_twice]
      · rw [if_neg same]
        rcases open_ target among with ⟨message, remaining, isTarget⟩ | done
        · refine Or.inl ⟨message, ?_, isTarget⟩
          refine List.mem_eraseIdx_iff_getElem.mpr ?_
          obtain ⟨other, inside, isMessage⟩ := List.mem_iff_getElem.mp remaining
          refine ⟨other, inside, ?_, isMessage⟩
          rintro rfl
          rw [isMessage] at same
          exact same isTarget.symm
        · exact Or.inr done
  · intro node
    rw [changed]
    split
    · rename_i same
      refine Or.inr ⟨same ▸ targeted, ?_⟩
      rcases repairing.records node with untouched | ⟨-, merged⟩
      · rw [untouched]
      · rw [merged, mergeIncoming_twice]
    · exact repairing.records node

private theorem repairing_of_run {environment : Environment}
    {table key : String} {latest : VersionedValue} {targets : List String}
    {before state final : Cluster} {events : List ClusterEvent}
    (deliveries : ∀ event ∈ events, ∃ position now,
      event = .deliver position now ∧ before.messages.length ≤ position)
    (reached : runSteps (step environment) state events = some final)
    (repairing : Repairing environment table key latest targets before
      state) :
    Repairing environment table key latest targets before final := by
  refine runSteps_induction _ ?_
    (stepsMeet_of_forall_mem deliveries state) reached repairing
  rintro state event next ⟨position, now, rfl, late⟩ taken holds
  exact holds.deliver late taken

/-- The state right after the read, and what it has sent. -/
private theorem repairing_finishRead {environment : Environment}
    {cluster next : Cluster} {index : Nat} {node user table key : String}
    {targets : List String}
    {answers : List (String × Option (Option VersionedValue))}
    {latest : VersionedValue}
    (waiting : cluster.tasks[index]? =
      some (node, .collect user table key targets answers))
    (selected : selectLatest
      ((gatherAnswers answers targets).filterMap Prod.snd) = some latest)
    (finished : step environment cluster (.finishRead index) = some next) :
    sentSince cluster next = sendToEach environment.clusterSecret
        (.putValueInternal table key latest)
        (repairTargets latest (gatherAnswers answers targets)) ∧
      Repairing environment table key latest
        (repairTargets latest (gatherAnswers answers targets)) cluster
        next := by
  cases taken_of_step finished with
  | finishRead index node' user' table' key' targets' answers' found =>
      cases found.symm.trans waiting
      have sent : repairMessages environment table key
          (gatherAnswers answers targets) =
          sendToEach environment.clusterSecret
            (.putValueInternal table key latest)
            (repairTargets latest (gatherAnswers answers targets)) := by
        rw [repairMessages, selected]
      refine ⟨?_, ?_, ?_⟩
      · rw [sentSince, List.drop_left, sent]
      · refine ⟨_, rfl, ?_, ?_⟩
        · intro message member
          rw [sent] at member
          exact member
        · intro target among
          refine Or.inl ⟨⟨target, some (.text environment.clusterSecret),
            .putValueInternal table key latest⟩, ?_, rfl⟩
          rw [sent]
          exact mem_sendToEach.mpr ⟨among, rfl, rfl⟩
      · intro node
        exact Or.inl rfl

private theorem mem_repairTargets {latest : VersionedValue}
    {gathered : List (String × Option VersionedValue)} {target : String} :
    target ∈ repairTargets latest gathered ↔
      ∃ answer ∈ gathered, answer.1 = target ∧
        needsRepair latest answer.2 = true := by
  simp only [repairTargets, List.mem_map, List.mem_filter]
  constructor
  · rintro ⟨answer, ⟨member, needed⟩, same⟩
    exact ⟨answer, member, same, needed⟩
  · rintro ⟨answer, member, same, needed⟩
    exact ⟨answer, ⟨member, needed⟩, same⟩

/-- Read repair reaches exactly the replicas that would take the selected
version, and leaves none behind it, if and only if the selected version has a
larger timestamp than every answered version it dominates. -/
theorem repairs_iff_newerIsLater {environment : Environment}
    {cluster next final : Cluster} {events : List ClusterEvent} {index : Nat}
    {node user table key : String} {targets : List String}
    {answers : List (String × Option (Option VersionedValue))}
    {latest : VersionedValue}
    (waiting : cluster.tasks[index]? =
      some (node, .collect user table key targets answers))
    (unchanged : ∀ answer ∈ gatherAnswers answers targets,
      cluster.recordAt answer.1 table key = answer.2)
    (selected : selectLatest
      ((gatherAnswers answers targets).filterMap Prod.snd) = some latest)
    (finished : step environment cluster (.finishRead index) = some next)
    (deliveries : ∀ event ∈ events, ∃ position now,
      event = .deliver position now ∧ cluster.messages.length ≤ position)
    (reached : runSteps (step environment) next events = some final)
    (delivered : final.messages = cluster.messages) :
    Repairs table key latest (gatherAnswers answers targets) cluster next
        final ↔
      NewerIsLater latest (gatherAnswers answers targets) := by
  obtain ⟨sent, started⟩ :=
    repairing_finishRead waiting selected finished
  have isTarget : ∀ answer ∈ gatherAnswers answers targets,
      (∃ message ∈ sentSince cluster next, message.target = answer.1 ∧
        message.content = .putValueInternal table key latest) ↔
      needsRepair latest answer.2 = true := by
    intro answer member
    rw [sent]
    constructor
    · rintro ⟨message, inFlight, target, -⟩
      have among := (mem_sendToEach.mp inFlight).1
      obtain ⟨other, gathered, same, needed⟩ := mem_repairTargets.mp among
      have sameRecord : other.2 = answer.2 := by
        rw [← unchanged other gathered, ← unchanged answer member, same,
          target]
      rw [← sameRecord]
      exact needed
    · intro needed
      have among := mem_repairTargets.mpr ⟨answer, member, rfl, needed⟩
      exact ⟨⟨answer.1, some (.text environment.clusterSecret),
        .putValueInternal table key latest⟩,
        mem_sendToEach.mpr ⟨among, rfl, rfl⟩, rfl, rfl⟩
  constructor
  · intro repaired answer member held isHeld newer
    have adopted : Adopts latest answer.2 := by
      rw [Option.mem_def.mp isHeld, adopts_some_iff]
      exact beats_of_dominates newer
    have needed :=
      (isTarget answer member).mp ((repaired.exactly answer member).mpr adopted)
    rw [Option.mem_def.mp isHeld, needsRepair_some_iff] at needed
    exact needed.2
  · intro later
    have agree : ∀ answer ∈ gatherAnswers answers targets,
        needsRepair latest answer.2 = true ↔ Adopts latest answer.2 :=
      fun answer member => needsRepair_iff_adopts (later answer member)
    refine ⟨fun answer member =>
      (isTarget answer member).trans (agree answer member), ?_⟩
    intro answer member held isHeld
    have ended := repairing_of_run deliveries reached started
    obtain ⟨rest, messages, -, arrived⟩ := ended.waiting
    have nothingLeft : rest = [] := by
      rw [delivered] at messages
      exact List.append_right_eq_self.mp messages.symm
    have before := unchanged answer member
    by_cases repairedHere :
        answer.1 ∈ repairTargets latest (gatherAnswers answers targets)
    · have merged := (arrived answer.1 repairedHere).resolve_left <| by
        rintro ⟨message, waitingStill, -⟩
        rw [nothingLeft] at waitingStill
        cases waitingStill
      rw [Option.mem_def.mp isHeld] at merged
      obtain ⟨other, gathered, same, needed⟩ :=
        mem_repairTargets.mp repairedHere
      have taken := adopts_of_needsRepair needed
      rw [← same, unchanged other gathered, taken.2] at merged
      rw [Option.some.inj merged, beats_irrefl]
    · have untouched := (ended.records answer.1).resolve_right
        fun repaired => repairedHere repaired.1
      rw [Option.mem_def.mp isHeld, before] at untouched
      have notNeeded : needsRepair latest answer.2 ≠ true := fun needed =>
        repairedHere (mem_repairTargets.mpr ⟨answer, member, rfl, needed⟩)
      rw [Ne, agree answer member, ← untouched, adopts_some_iff,
        Bool.not_eq_true] at notNeeded
      exact notNeeded

/-! ## A slow clock at the writer -/

/-- Alice writes at A, B gets a copy and takes her patch at the given clock
reading, and before the patch is replicated she reads at A. -/
def patchThenRead (clock : Nat) : List ClusterEvent :=
  [.client "A" none (.putValue aliceToken "notes" "n" ∅) 5,
    .fanOut 0 ["A", "B"],
    .deliver 0 6,
    .deliver 0 6,
    .client "B" none (.patchValue aliceToken "notes" "n" ∅) clock,
    .client "A" none (.getValue aliceToken "notes" "n") 8,
    .beginRead 1 ["A", "B"],
    .answer 1 "A",
    .answer 1 "B"]

def written : VersionedValue :=
  VersionedValue.new ∅ "alice" "A" 5

/-- What A and B answer. -/
def patchAnswers (clock : Nat) :
    List (String × Option (Option VersionedValue)) :=
  [("A", some (some written)),
    ("B", some (some (written.patch ∅ "B" clock)))]

/-- B's clock is behind A's: the patch dominates, but its timestamp is
smaller. -/
def slowAnswered : Cluster :=
  runResult (step sampleEnvironment) (initial (allActive ["A", "B"]))
    (patchThenRead 3) (by decide)

def slowFinished : Cluster :=
  (step sampleEnvironment slowAnswered (.finishRead 1)).get (by decide)

def laterAnswered : Cluster :=
  runResult (step sampleEnvironment) (initial (allActive ["A", "B"]))
    (patchThenRead 7) (by decide)

def laterFinished : Cluster :=
  (step sampleEnvironment laterAnswered (.finishRead 1)).get (by decide)

def laterRepaired : Cluster :=
  runResult (step sampleEnvironment) laterFinished [.deliver 0 9] (by decide)

theorem laterPatch_repaired :
    Repairs "notes" "n" (written.patch ∅ "B" 7)
      (gatherAnswers (patchAnswers 7) ["A", "B"])
      laterAnswered laterFinished laterRepaired := by
  have waiting : laterAnswered.tasks[1]? = some ("A",
      .collect "alice" "notes" "n" ["A", "B"] (patchAnswers 7)) := by
    decide
  apply (repairs_iff_newerIsLater waiting (by decide) (by decide)
    (Option.some_get _).symm ?_ (runSteps_eq_some_runResult _ _ _ _)
    (by decide)).mpr (by decide)
  exact List.forall_mem_singleton.mpr ⟨0, 9, rfl, by decide⟩

/-- A answered an older version and is sent nothing. -/
theorem slowPatch_notRepaired :
    runSteps (step sampleEnvironment) (initial (allActive ["A", "B"]))
        (patchThenRead 3) = some slowAnswered ∧
      step sampleEnvironment slowAnswered (.finishRead 1) =
        some slowFinished ∧
      sentSince slowAnswered slowFinished = [] ∧
      slowFinished.recordAt "A" "notes" "n" = some written ∧
      (written.patch ∅ "B" 3).beats written = true ∧
      ¬ Repairs "notes" "n" (written.patch ∅ "B" 3)
        (gatherAnswers (patchAnswers 3) ["A", "B"])
        slowAnswered slowFinished slowFinished := by
  refine ⟨runSteps_eq_some_runResult _ _ _ _, (Option.some_get _).symm,
    by decide, by decide, by decide, ?_⟩
  intro repaired
  have member : ("A", some written) ∈
      gatherAnswers (patchAnswers 3) ["A", "B"] := by
    decide
  have upToDate := repaired.upToDate _ member written (by decide)
  exact absurd upToDate (by decide)

end DynaRust.Network.Cluster
