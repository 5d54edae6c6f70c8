import DynaRust.Network.Deployment
import DynaRust.Network.FanOut

/-!
# Reading one's own writes

`get_value` asks the local store only if the node lists itself as Active, and
gives away what it finds there if a version of another replica is preferred.
What another replica answers is what it holds under the names that the request
arrives with.
-/

namespace DynaRust.Network.Deployment

open DynaRust.Foundation DynaRust.Storage

/-- A step of one read, or of the membership meanwhile. -/
inductive ReadStep where
  | beginRead (active : List String)
  | answer (target : String)
  | fail (target : String)
  | membership (event : MembershipEvent)

/-- The step of the read that is the task `index`. -/
def ReadStep.event (index : Nat) : ReadStep → DeploymentEvent
  | .beginRead active => .data (.beginRead index active)
  | .answer target => .data (.answer index target)
  | .fail target => .data (.fail index target)
  | .membership event => .membership event

/-- What the read answers once it has heard of all its replicas. -/
def readAnswer (deployment : Deployment) (index : Nat) : Option Response :=
  match deployment.cluster.tasks[index]? with
  | some (_, .collect user _ _ targets answers) =>
      if targets.all fun target => (answers.lookup target).isSome then
        some (readResponse user
          (selectLatest ((gatherAnswers answers targets).filterMap Prod.snd)))
      else
        none
  | _ => none

/-- The version itself, or one of its user that the merge rule prefers. -/
def Acceptable (user : String) (version candidate : VersionedValue) : Prop :=
  candidate.owner = user ∧
    (candidate = version ∨ candidate.beats version = true)

instance (user : String) (version candidate : VersionedValue) :
    Decidable (Acceptable user version candidate) :=
  inferInstanceAs (Decidable (_ ∧ _))

/-- Of what the listed nodes hold, the acceptable versions beat all others. -/
def AcceptablePrevail (deployment : Deployment) (nodes : List String)
    (table key user : String) (version : VersionedValue) : Prop :=
  ∀ first ∈ nodes, ∀ candidate ∈ deployment.recordAt first table key,
    Acceptable user version candidate →
      ∀ second ∈ nodes, ∀ other ∈ deployment.recordAt second table key,
        ¬ Acceptable user version other → candidate.beats other = true

instance (deployment : Deployment) (nodes : List String)
    (table key user : String) (version : VersionedValue) :
    Decidable (AcceptablePrevail deployment nodes table key user version) :=
  inferInstanceAs (Decidable (∀ first ∈ nodes, ∀ candidate ∈ _, _ →
    ∀ second ∈ nodes, ∀ other ∈ _, _))

/-- If other nodes are asked, the names of the record arrive there. -/
def NamedAlike (node table key : String) (nodes : List String) : Prop :=
  ∀ target ∈ nodes, target ≠ node → PeerCall.read.Lands table key

instance (node table key : String) (nodes : List String) :
    Decidable (NamedAlike node table key nodes) :=
  inferInstanceAs (Decidable (∀ target ∈ nodes, target ≠ node → _))

/-- The condition on the steps of a read. -/
def FindsOwn (environment : Environment) (node table key user : String)
    (version : VersionedValue) (deployment : Deployment) :
    DeploymentEvent → Prop
  | .data (.beginRead _ active) =>
      NoLabelCollisions environment.hash active ∧
        NamedAlike node table key active ∧
        AcceptablePrevail deployment active table key user version
  | event => TakesOverActive node deployment event

/-- The replicas of the read and their answers. -/
structure Collects (node table key user : String) (version : VersionedValue)
    (before : Deployment) (targets : List String)
    (answers : List (String × Option (Option VersionedValue))) : Prop where
  asked : node ∈ targets
  named : NamedAlike node table key targets
  prevail : AcceptablePrevail before targets table key user version
  heard : ∀ target found, (target, some found) ∈ answers →
    found = before.recordAt target table key
  ownAnswer : ∀ answer, (node, answer) ∈ answers →
    answer = some (some version)

theorem Collects.mem_gathered {node table key user : String}
    {version : VersionedValue} {before : Deployment} {targets : List String}
    {answers : List (String × Option (Option VersionedValue))}
    (collects : Collects node table key user version before targets answers)
    (complete : (targets.all fun target =>
      (answers.lookup target).isSome) = true) :
    version ∈ (gatherAnswers answers targets).filterMap Prod.snd := by
  obtain ⟨answer, found⟩ := Option.isSome_iff_exists.mp
    (List.all_eq_true.mp complete node collects.asked)
  obtain ⟨earlier, later, split, -⟩ := List.lookup_eq_some_iff.mp found
  have own : answer = some (some version) := by
    apply collects.ownAnswer
    rw [split]
    exact List.mem_append_right earlier List.mem_cons_self
  have gathered : (node, some version) ∈ gatherAnswers answers targets := by
    refine List.mem_filterMap.mpr ⟨node, collects.asked, ?_⟩
    rw [found, own]
    rfl
  exact List.mem_filterMap.mpr ⟨_, gathered, rfl⟩

theorem Collects.held_of_mem {node table key user : String}
    {version : VersionedValue} {before : Deployment} {targets : List String}
    {answers : List (String × Option (Option VersionedValue))}
    (collects : Collects node table key user version before targets answers)
    {held : VersionedValue}
    (member : held ∈ (gatherAnswers answers targets).filterMap Prod.snd) :
    ∃ target ∈ targets, before.recordAt target table key = some held := by
  obtain ⟨⟨target, answer⟩, gathered, isHeld⟩ := List.mem_filterMap.mp member
  dsimp only at isHeld
  subst isHeld
  have heard := mem_gatherAnswers gathered
  obtain ⟨asked, inside, found⟩ := List.mem_filterMap.mp gathered
  obtain ⟨_, _, same⟩ := Option.map_eq_some_iff.mp found
  have isTarget : asked = target := congrArg Prod.fst same
  rw [isTarget] at inside
  exact ⟨target, inside, (collects.heard target _ heard).symm⟩

/-- The acceptable versions are selected. -/
theorem Collects.response {node table key user : String}
    {version : VersionedValue} {before : Deployment} {targets : List String}
    {answers : List (String × Option (Option VersionedValue))}
    (collects : Collects node table key user version before targets answers)
    (own : version.owner = user)
    (complete : (targets.all fun target =>
      (answers.lookup target).isSome) = true) :
    ∃ latest, Acceptable user version latest ∧
      readResponse user (selectLatest
        ((gatherAnswers answers targets).filterMap Prod.snd)) =
          ⟨200, .record latest⟩ := by
  have listed := collects.mem_gathered complete
  have held : ∀ found ∈ (gatherAnswers answers targets).filterMap Prod.snd,
      ∃ target ∈ targets, before.recordAt target table key = some found :=
    fun _ member => collects.held_of_mem member
  cases versions : (gatherAnswers answers targets).filterMap Prod.snd with
  | nil =>
      rw [versions] at listed
      cases listed
  | cons first rest =>
      rw [versions] at listed held
      have acceptable : rest.foldl mergeContest.defend first ∈
          {found | Acceptable user version found} := by
        apply mergeContest.foldl_defend_mem
        · intro candidate isHeld isAcceptable other otherHeld notAcceptable
          obtain ⟨source, asked, found⟩ := held candidate isHeld
          obtain ⟨second, secondAsked, otherFound⟩ := held other otherHeld
          exact collects.prevail source asked candidate found isAcceptable
            second secondAsked other otherFound notAcceptable
        · exact ⟨version, listed, own, Or.inl rfl⟩
      refine ⟨_, acceptable, ?_⟩
      rw [selectLatest_cons, readResponse]
      simp [acceptable.1]

/-! ## The steps of a read -/

/-- A read at its node while only the membership changes otherwise. -/
structure Reads (index : Nat) (node table key user : String)
    (version : VersionedValue) (before deployment : Deployment) :
    Prop where
  records : ∀ target,
    deployment.recordAt target table key = before.recordAt target table key
  gossip : deployment.GossipToActive
  lists : ListsItself node (deployment.membersOf node)
  task : deployment.cluster.tasks[index]? =
      some (node, .read user table key) ∨
    ∃ targets answers,
      deployment.cluster.tasks[index]? =
          some (node, .collect user table key targets answers) ∧
        Collects node table key user version before targets answers

variable {environment : Environment} {index : Nat}
variable {node table key user : String} {version : VersionedValue}

theorem AcceptablePrevail.of_records {before deployment : Deployment}
    {active targets : List String}
    (prevail : AcceptablePrevail deployment active table key user version)
    (records : ∀ target, deployment.recordAt target table key =
      before.recordAt target table key)
    (among : ∀ target ∈ targets, target ∈ active) :
    AcceptablePrevail before targets table key user version := by
  intro first asked candidate found acceptable second secondAsked other
    otherFound notAcceptable
  rw [← records] at found otherFound
  exact prevail first (among first asked) candidate found acceptable second
    (among second secondAsked) other otherFound notAcceptable

theorem Reads.beginRead {before deployment next : Deployment}
    {active : List String}
    (reads : Reads index node table key user version before deployment)
    (taken : wireStep environment deployment
      (.data (.beginRead index active)) = some next)
    (meets : FindsOwn environment node table key user version deployment
      (.data (.beginRead index active))) :
    ∃ answers,
      next.cluster.tasks[index]? = some (node, .collect user table key
        (getReplicationNodes environment.hash key active active.length)
        answers) ∧
      Collects node table key user version before
        (getReplicationNodes environment.hash key active active.length)
        answers := by
  obtain ⟨-, cluster, enabled, rfl⟩ := wireStep_data_eq_some taken
  simp only [Cluster.wireStep, Cluster.step] at enabled
  split at enabled
  · rename_i reader readUser readTable readKey found
    split at enabled
    · rename_i known
      cases enabled
      have inside : index < deployment.cluster.tasks.length :=
        (List.getElem?_eq_some_iff.mp found).1
      rcases reads.task with isRead | ⟨targets, answers, isCollect, -⟩
      · rw [found] at isRead
        cases isRead
        have distinct : active.Nodup := by
          rw [← Multiset.coe_nodup, known]
          exact nodup_getActiveNodes _
        have all := perm_getReplicationNodes key distinct meets.1
        have among : ∀ target ∈ getReplicationNodes environment.hash key
            active active.length, target ∈ active :=
          fun target member => all.mem_iff.mp member
        have ownActive : node ∈ active := by
          rw [← Multiset.mem_coe, known]
          exact mem_getActiveNodes.mpr reads.lists
        refine ⟨[], List.getElem?_set_self inside, ?_⟩
        exact {
          asked := all.mem_iff.mpr ownActive
          named := fun target member => meets.2.1 target
            (among target member)
          prevail := meets.2.2.of_records reads.records among
          heard := fun _ _ member => by cases member
          ownAnswer := fun _ member => by cases member }
      · rw [found] at isCollect
        cases isCollect
    · cases enabled
  · cases enabled

theorem Collects.hear {before : Deployment} {targets : List String}
    {answers : List (String × Option (Option VersionedValue))}
    (collects : Collects node table key user version before targets answers)
    {target : String} {answer : Option (Option VersionedValue)}
    (heard : ∀ found, answer = some found →
      found = before.recordAt target table key)
    (ownAnswer : target = node → answer = some (some version)) :
    Collects node table key user version before targets
      (answers ++ [(target, answer)]) where
  asked := collects.asked
  named := collects.named
  prevail := collects.prevail
  heard := fun source found member => by
    rcases List.mem_append.mp member with old | new
    · exact collects.heard source found old
    · cases List.mem_singleton.mp new
      exact heard found rfl
  ownAnswer := fun other member => by
    rcases List.mem_append.mp member with old | new
    · exact collects.ownAnswer other old
    · cases List.mem_singleton.mp new
      exact ownAnswer rfl

/-- Answers under way at `index` belong to the read. -/
theorem Reads.collects_of_collect {before deployment : Deployment}
    (reads : Reads index node table key user version before deployment)
    {reader readUser readTable readKey : String} {targets : List String}
    {answers : List (String × Option (Option VersionedValue))}
    (found : deployment.cluster.tasks[index]? =
      some (reader, .collect readUser readTable readKey targets answers)) :
    (reader = node ∧ readUser = user ∧ readTable = table ∧ readKey = key) ∧
      Collects node table key user version before targets answers := by
  rcases reads.task with isRead | ⟨_, _, isCollect, collects⟩
  · rw [found] at isRead
    cases isRead
  · rw [found] at isCollect
    cases isCollect
    exact ⟨⟨rfl, rfl, rfl, rfl⟩, collects⟩

theorem Reads.answer {before deployment next : Deployment} {target : String}
    (reads : Reads index node table key user version before deployment)
    (own : before.recordAt node table key = some version)
    (taken : wireStep environment deployment (.data (.answer index target)) =
      some next) :
    ∃ targets answers,
      next.cluster.tasks[index]? =
          some (node, .collect user table key targets answers) ∧
        Collects node table key user version before targets answers := by
  obtain ⟨-, cluster, enabled, rfl⟩ := wireStep_data_eq_some taken
  cases Cluster.wireTaken_of_wireStep enabled with
  | answer _ reader _ readUser readTable readKey targets answers answer found
      asked waiting isAnswer =>
      have inside : index < deployment.cluster.tasks.length :=
        (List.getElem?_eq_some_iff.mp found).1
      obtain ⟨⟨rfl, rfl, rfl, rfl⟩, collects⟩ :=
        reads.collects_of_collect found
      refine ⟨_, _, List.getElem?_set_self inside, ?_⟩
      have current : deployment.cluster.recordAt target readTable readKey =
          before.recordAt target readTable readKey := reads.records target
      apply collects.hear
      · intro heard isHeard
        rw [isHeard] at isAnswer
        split at isAnswer
        · rename_i same
          rw [Option.some.inj isAnswer, ← current, same]
        · rename_i other
          rw [← current]
          exact eq_record_of_remoteAnswer (collects.named target asked other)
            isAnswer.symm
      · intro same
        rw [isAnswer, if_pos same, ← same, current, same, own]
  | offWire event next unsent plain =>
      cases unsent

theorem Reads.fail {before deployment next : Deployment} {target : String}
    (reads : Reads index node table key user version before deployment)
    (taken : wireStep environment deployment (.data (.fail index target)) =
      some next) :
    ∃ targets answers,
      next.cluster.tasks[index]? =
          some (node, .collect user table key targets answers) ∧
        Collects node table key user version before targets answers := by
  obtain ⟨-, cluster, enabled, rfl⟩ := wireStep_data_eq_some taken
  simp only [Cluster.wireStep, Cluster.step] at enabled
  split at enabled
  · rename_i reader readUser readTable readKey targets answers found
    split at enabled
    · rename_i allowed
      cases enabled
      have inside : index < deployment.cluster.tasks.length :=
        (List.getElem?_eq_some_iff.mp found).1
      obtain ⟨⟨rfl, rfl, rfl, rfl⟩, collects⟩ :=
        reads.collects_of_collect found
      refine ⟨_, _, List.getElem?_set_self inside, ?_⟩
      apply collects.hear
      · exact fun _ failed => by cases failed
      · exact fun same => absurd same allowed.2.1
    · cases enabled
  · cases enabled

theorem recordAt_of_read {deployment next : Deployment} {event : ReadStep}
    (taken : wireStep environment deployment (event.event index) = some next)
    (target : String) :
    next.recordAt target table key = deployment.recordAt target table key := by
  cases event with
  | membership event =>
      exact (sameData_membershipStep taken).recordAt target table key
  | beginRead active =>
      obtain ⟨-, cluster, enabled, rfl⟩ := wireStep_data_eq_some taken
      have plain : Cluster.step environment deployment.cluster
          (.beginRead index active) = some cluster := enabled
      exact Cluster.recordAt_step plain target table key
  | answer source =>
      obtain ⟨-, cluster, enabled, rfl⟩ := wireStep_data_eq_some taken
      cases Cluster.wireTaken_of_wireStep enabled with
      | answer index reader source readUser readTable readKey targets answers
          answer found asked waiting isAnswer =>
          rfl
      | offWire event next unsent plain =>
          cases unsent
  | fail source =>
      obtain ⟨-, cluster, enabled, rfl⟩ := wireStep_data_eq_some taken
      have plain : Cluster.step environment deployment.cluster
          (.fail index source) = some cluster := enabled
      exact Cluster.recordAt_step plain target table key

theorem Reads.step {before deployment next : Deployment} {event : ReadStep}
    (reads : Reads index node table key user version before deployment)
    (own : before.recordAt node table key = some version)
    (taken : wireStep environment deployment (event.event index) = some next)
    (meets : FindsOwn environment node table key user version deployment
      (event.event index)) :
    Reads index node table key user version before next := by
  have takesOver : TakesOverActive node deployment (event.event index) := by
    cases event with
    | membership event =>
        exact meets
    | beginRead active =>
        trivial
    | answer target =>
        trivial
    | fail target =>
        trivial
  constructor
  · intro target
    rw [recordAt_of_read taken]
    exact reads.records target
  · exact gossipToActive_step taken reads.gossip
  · exact listsItself_step taken reads.gossip takesOver reads.lists
  · cases event with
    | membership event =>
        rw [(sameData_membershipStep taken).tasks]
        exact reads.task
    | beginRead active =>
        obtain ⟨answers, collecting⟩ := reads.beginRead taken meets
        exact Or.inr ⟨_, answers, collecting⟩
    | answer target =>
        exact Or.inr (reads.answer own taken)
    | fail target =>
        exact Or.inr (reads.fail taken)

/-! ## Reads come to an end -/

theorem exists_answers (environment : Environment)
    {deployment : Deployment} {targets : List String}
    {answers : List (String × Option (Option VersionedValue))}
    (collecting : deployment.cluster.tasks[index]? =
      some (node, .collect user table key targets answers))
    (remaining : List String) (among : ∀ target ∈ remaining,
      target ∈ targets) :
    ∃ (steps : List ReadStep) (final : Deployment)
        (later : List (String × Option (Option VersionedValue))),
      runSteps (wireStep environment) deployment
          (steps.map (ReadStep.event index)) = some final ∧
        final.cluster.tasks[index]? =
          some (node, .collect user table key targets later) ∧
        (∀ target, (answers.lookup target).isSome = true →
          (later.lookup target).isSome = true) ∧
        ∀ target ∈ remaining, (later.lookup target).isSome = true := by
  induction remaining generalizing deployment answers with
  | nil =>
      exact ⟨[], deployment, answers, rfl, collecting, fun _ kept => kept,
        nofun⟩
  | cons target rest inductionHypothesis =>
      have restAmong : ∀ other ∈ rest, other ∈ targets :=
        fun other member => among other (List.mem_cons_of_mem target member)
      cases heard : answers.lookup target with
      | some answer =>
          obtain ⟨steps, final, later, reached, still, kept, all⟩ :=
            inductionHypothesis collecting restAmong
          refine ⟨steps, final, later, reached, still, kept, ?_⟩
          intro other member
          rcases List.mem_cons.mp member with rfl | inRest
          · apply kept
            rw [heard]
            rfl
          · exact all other inRest
      | none =>
          have inside : index < deployment.cluster.tasks.length :=
            (List.getElem?_eq_some_iff.mp collecting).1
          have asked : target ∈ targets := among target List.mem_cons_self
          let answer := if target = node then
              some (deployment.cluster.recordAt node table key)
            else remoteAnswer environment (deployment.cluster.storeAt target)
              table key
          let asking : Deployment := { deployment with
            cluster := { deployment.cluster with
              tasks := deployment.cluster.tasks.set index (node,
                .collect user table key targets
                  (answers ++ [(target, answer)])) } }
          have taken : wireStep environment deployment
              (.data (.answer index target)) = some asking := by
            simp [wireStep, Cluster.wireStep, collecting, asked, heard,
              asking, answer]
          have asked' : asking.cluster.tasks[index]? =
              some (node, .collect user table key targets
                (answers ++ [(target, answer)])) :=
            List.getElem?_set_self inside
          obtain ⟨steps, final, later, reached, still, kept, all⟩ :=
            inductionHypothesis asked' restAmong
          refine ⟨.answer target :: steps, final, later, ?_, still, ?_, ?_⟩
          · exact runSteps_cons_eq_some.mpr ⟨asking, taken, reached⟩
          · intro other before
            apply kept
            rw [List.lookup_append, Option.isSome_or, before]
            rfl
          · intro other member
            rcases List.mem_cons.mp member with rfl | inRest
            · apply kept
              simp [List.lookup_append]
            · exact all other inRest

/-- However far the read is, it can get an answer. -/
theorem Reads.completes {before deployment : Deployment}
    (environment : Environment)
    (reads : Reads index node table key user version before deployment) :
    ∃ (steps : List ReadStep) (final : Deployment),
      runSteps (wireStep environment) deployment
          (steps.map (ReadStep.event index)) = some final ∧
        (final.readAnswer index).isSome = true := by
  have collected : ∀ {collecting : Deployment} {targets : List String}
      {answers : List (String × Option (Option VersionedValue))},
      collecting.cluster.tasks[index]? =
        some (node, .collect user table key targets answers) →
      ∃ (steps : List ReadStep) (final : Deployment),
        runSteps (wireStep environment) collecting
            (steps.map (ReadStep.event index)) = some final ∧
          (final.readAnswer index).isSome = true := by
    intro collecting targets answers isCollect
    obtain ⟨steps, final, later, reached, still, -, all⟩ :=
      exists_answers environment isCollect targets fun _ member => member
    refine ⟨steps, final, reached, ?_⟩
    rw [readAnswer, still]
    simp [List.all_eq_true.mpr all]
  rcases reads.task with isRead | ⟨targets, answers, isCollect, -⟩
  · obtain ⟨active, known⟩ :=
      Quot.exists_rep (deployment.cluster.activeAt node)
    have inside : index < deployment.cluster.tasks.length :=
      (List.getElem?_eq_some_iff.mp isRead).1
    let begun : Deployment := { deployment with
      cluster := { deployment.cluster with
        tasks := deployment.cluster.tasks.set index (node,
          .collect user table key
            (getReplicationNodes environment.hash key active active.length)
            []) } }
    have listed : (active : Multiset String) =
        deployment.cluster.activeAt node := known
    have taken : wireStep environment deployment
        (.data (.beginRead index active)) = some begun := by
      simp [wireStep, Cluster.wireStep, Cluster.step, isRead, listed, begun]
    have isCollect : begun.cluster.tasks[index]? =
        some (node, .collect user table key
          (getReplicationNodes environment.hash key active active.length)
          []) :=
      List.getElem?_set_self inside
    obtain ⟨steps, final, reached, answered⟩ := collected isCollect
    exact ⟨.beginRead active :: steps, final,
      runSteps_cons_eq_some.mpr ⟨begun, taken, reached⟩, answered⟩
  · exact collected isCollect

/-! ## A PUT, changes of the membership, and a GET -/

theorem recordAt_of_put {deployment next : Deployment}
    {header : Option HeaderValue} {claims : TokenClaims}
    {body : HashMap String Value} {now : Nat}
    (put : wireStep environment deployment (.data (.client node header
      (.putValue (.bearer claims) table key body) now)) = some next)
    (accepted : (putValue node (deployment.cluster.storeAt node)
      (.bearer claims) table key body now).response =
        some ⟨201, .record version⟩) :
    next.recordAt node table key = some version ∧
      version.owner = claims.sub := by
  obtain ⟨-, cluster, enabled, rfl⟩ := wireStep_data_eq_some put
  have plain : Cluster.step environment deployment.cluster (.client node
      header (.putValue (.bearer claims) table key body) now) =
        some cluster := enabled
  have written : putLocal
      ((deployment.cluster.storeAt node).record table key) claims.sub body
        node now = .ok version := by
    simp only [putValue, extractUserFromToken, Store.record_orDefault]
      at accepted
    split at accepted
    · rename_i refused
      cases accepted
      rcases existing : (deployment.cluster.storeAt node).record table key
        with _ | held
      · simp [existing, putLocal] at refused
      · rw [existing, putLocal] at refused
        split at refused
        · cases refused
        · cases refused
    · rename_i newValue stored
      cases accepted
      exact stored
  constructor
  · have changed := Cluster.recordAt_step plain node table key
    simpa [Deployment.recordAt, Cluster.recordChange, requestChange,
      putChange, extractUserFromToken, Change.onlyIf_apply, written]
      using changed
  · rcases putLocal_eq_ok_iff.mp written with
      ⟨-, rfl⟩ | ⟨base, -, own, rfl⟩
    · rfl
    · exact own

theorem reads_of_get {deployment next : Deployment}
    {header : Option HeaderValue} {claims : TokenClaims} {now : Nat}
    (asked : wireStep environment deployment (.data (.client node header
      (.getValue (.bearer claims) table key) now)) = some next) :
    next.cluster.tasks = deployment.cluster.tasks ++
        [(node, .read claims.sub table key)] ∧
      ∀ target, next.recordAt target table key =
        deployment.recordAt target table key := by
  obtain ⟨-, cluster, enabled, rfl⟩ := wireStep_data_eq_some asked
  have plain : Cluster.step environment deployment.cluster (.client node
      header (.getValue (.bearer claims) table key) now) = some cluster :=
    enabled
  constructor
  · cases Cluster.taken_of_step plain with
    | client _ _ _ _ external =>
        have notInternal :
            headerPresents environment.clusterSecret header = false := by
          rw [Bool.eq_false_iff]
          exact fun presents =>
            external (providedSecret_eq_of_headerPresents presents)
        simp [Cluster.perform, handle, getValue, notInternal,
          extractUserFromToken, Cluster.setStore]
  · intro target
    have changed := Cluster.recordAt_step plain target table key
    simpa [Deployment.recordAt, Cluster.recordChange, requestChange,
      Change.onlyIf_apply] using changed

/-- After an acknowledged PUT and any changes of the membership a GET of the
same user at the same node comes to an end, and answers with the version of
the PUT or one that is preferred to it: as long as the node never takes over
a join answer that lists it as not Active, no labels collide on the ring, the
names of the record arrive at the other nodes that are asked, and what the
user may be answered prevails among the replicas. -/
theorem reads_own_write {startedAt : String → Nat}
    {past : List DeploymentEvent} {later : List MembershipEvent}
    {steps : List ReadStep}
    {state acknowledged settled reading final : Deployment}
    {header readHeader : Option HeaderValue}
    {claims readClaims : TokenClaims} {body : HashMap String Value}
    {now readNow : Nat}
    (reached : runSteps (wireStep environment) (initial startedAt) past =
      some state)
    (put : wireStep environment state (.data (.client node header
      (.putValue (.bearer claims) table key body) now)) = some acknowledged)
    (accepted : (putValue node (state.cluster.storeAt node)
      (.bearer claims) table key body now).response =
        some ⟨201, .record version⟩)
    (changed : runSteps (wireStep environment) acknowledged
      (later.map .membership) = some settled)
    (asked : wireStep environment settled (.data (.client node readHeader
      (.getValue (.bearer readClaims) table key) readNow)) = some reading)
    (sameUser : readClaims.sub = claims.sub)
    (read : runSteps (wireStep environment) reading
      (steps.map (ReadStep.event settled.cluster.tasks.length)) =
        some final)
    (takesOverBefore : StepsMeet (wireStep environment) (TakesOverActive node)
      (initial startedAt) past)
    (takesOverAfter : StepsMeet (wireStep environment) (TakesOverActive node)
      acknowledged (later.map .membership))
    (findsOwn : StepsMeet (wireStep environment)
      (FindsOwn environment node table key claims.sub version) reading
      (steps.map (ReadStep.event settled.cluster.tasks.length))) :
    (∃ (more : List ReadStep) (done : Deployment),
      runSteps (wireStep environment) final
          (more.map (ReadStep.event settled.cluster.tasks.length)) =
            some done ∧
        (done.readAnswer settled.cluster.tasks.length).isSome = true) ∧
    ∀ response,
      final.readAnswer settled.cluster.tasks.length = some response →
        ∃ latest, response = ⟨200, .record latest⟩ ∧
          (latest = version ∨ latest.beats version = true) := by
  obtain ⟨stored, owned⟩ := recordAt_of_put put accepted
  obtain ⟨gossip, lists⟩ := listsItself_run reached takesOverBefore
    (gossipToActive_initial startedAt) (listsItself_initialNodes node _)
  obtain ⟨gossip, lists⟩ := listsItself_run changed takesOverAfter
    (gossipToActive_step put gossip) (listsItself_step put gossip trivial lists)
  have recordsKept : ∀ target, settled.recordAt target table key =
      acknowledged.recordAt target table key := by
    clear * - changed
    induction later generalizing acknowledged with
    | nil =>
        cases Option.some.inj changed
        exact fun _ => rfl
    | cons event rest inductionHypothesis =>
        obtain ⟨next, taken, finished⟩ := runSteps_cons_eq_some.mp changed
        intro target
        rw [inductionHypothesis finished]
        exact (sameData_membershipStep taken).recordAt target table key
  obtain ⟨tasks, asking⟩ := reads_of_get asked
  have start : Reads settled.cluster.tasks.length node table key claims.sub
      version acknowledged reading := by
    constructor
    · intro target
      rw [asking, recordsKept]
    · exact gossipToActive_step asked gossip
    · exact listsItself_step asked gossip trivial lists
    · refine Or.inl ?_
      rw [tasks, sameUser, List.getElem?_append_right (Nat.le_refl _),
        Nat.sub_self]
      rfl
  have reads : Reads settled.cluster.tasks.length node table key claims.sub
      version acknowledged final := by
    clear * - read findsOwn start stored
    induction steps generalizing reading with
    | nil =>
        cases Option.some.inj read
        exact start
    | cons event rest inductionHypothesis =>
        obtain ⟨next, taken, finished⟩ := runSteps_cons_eq_some.mp read
        exact inductionHypothesis finished (findsOwn.2 next taken)
          (start.step stored taken findsOwn.1)
  refine ⟨reads.completes environment, ?_⟩
  intro response answered
  unfold readAnswer at answered
  rcases reads.task with isRead | ⟨targets, answers, isCollect, collects⟩
  · rw [isRead] at answered
    cases answered
  · rw [isCollect] at answered
    dsimp only at answered
    split at answered
    · rename_i complete
      obtain ⟨latest, acceptable, response'⟩ :=
        collects.response owned complete
      rw [response'] at answered
      exact ⟨latest, (Option.some.inj answered).symm, acceptable.2⟩
    · cases answered

/-! ## A node that joins again -/

open Cluster (sampleEnvironment aliceToken bobToken)

def freshDeployment : Deployment :=
  initial fun _ => 0

/-- B joins A's cluster. -/
def joining : List DeploymentEvent :=
  [.membership (.join "B" "A" 1), .membership (.finishJoin 0)]

/-- A probe of B fails, and B is started and joins again. -/
def rejoining : List DeploymentEvent :=
  joining ++
    [.membership (.probe "A" "B" false 2), .restart "B" ∅ 3,
      .membership (.join "B" "A" 4), .membership (.finishJoin 0)]

def putNote : DeploymentEvent :=
  .data (.client "B" none (.putValue aliceToken "notes" "n" ∅) 5)

def getNote : DeploymentEvent :=
  .data (.client "B" none (.getValue aliceToken "notes" "n") 6)

def note : VersionedValue :=
  VersionedValue.new ∅ "alice" "B" 5

/-- B reads while both nodes are listed. -/
def readBoth : List ReadStep :=
  [.beginRead ["A", "B"], .answer "A", .answer "B"]

/-- B reads while only A is listed. -/
def readOther : List ReadStep :=
  [.beginRead ["A"], .answer "A"]

def joined : Deployment :=
  runResult (wireStep sampleEnvironment) freshDeployment joining (by decide)

def joinedPut : Deployment :=
  (wireStep sampleEnvironment joined putNote).get (by decide)

/-- A's probe of B fails after the PUT. -/
def joinedLater : List MembershipEvent :=
  [.probe "A" "B" false 6]

def joinedSettled : Deployment :=
  runResult (wireStep sampleEnvironment) joinedPut
    (joinedLater.map .membership) (by decide)

def joinedGet : Deployment :=
  (wireStep sampleEnvironment joinedSettled getNote).get (by decide)

def joinedRead : Deployment :=
  runResult (wireStep sampleEnvironment) joinedGet
    (readBoth.map (ReadStep.event 1)) (by decide)

theorem joined_readsOwn :
    joinedRead.readAnswer 1 = some ⟨200, .record note⟩ ∧
      ∃ latest, (⟨200, .record note⟩ : Response) = ⟨200, .record latest⟩ ∧
        (latest = note ∨ latest.beats note = true) := by
  have answered : joinedRead.readAnswer 1 = some ⟨200, .record note⟩ := by
    decide
  have accepted : (putValue "B" (joined.cluster.storeAt "B") aliceToken
      "notes" "n" ∅ 5).response = some ⟨201, .record note⟩ := by
    decide
  have takesOver : StepsMeet (wireStep sampleEnvironment) (TakesOverActive "B")
      freshDeployment joining := by
    decide
  have takesOverLater : StepsMeet (wireStep sampleEnvironment)
      (TakesOverActive "B") joinedPut (joinedLater.map .membership) := by
    decide
  have findsOwn : StepsMeet (wireStep sampleEnvironment)
      (FindsOwn sampleEnvironment "B" "notes" "n" "alice" note) joinedGet
      (readBoth.map (ReadStep.event 1)) := by
    refine ⟨⟨by decide, by decide, by decide⟩, fun _ _ => ⟨trivial, fun _ _ =>
      ⟨trivial, fun _ _ => trivial⟩⟩⟩
  refine ⟨answered, ?_⟩
  exact (reads_own_write
    (runSteps_eq_some_runResult _ freshDeployment joining (by decide))
    (Option.some_get _).symm accepted
    (runSteps_eq_some_runResult _ joinedPut
      (joinedLater.map DeploymentEvent.membership)
      (by decide))
    (Option.some_get _).symm rfl
    (runSteps_eq_some_runResult _ joinedGet
      (readBoth.map (ReadStep.event 1)) (by decide))
    takesOver takesOverLater findsOwn).2 _ answered

def rejoined : Deployment :=
  runResult (wireStep sampleEnvironment) freshDeployment rejoining (by decide)

def rejoinedPut : Deployment :=
  (wireStep sampleEnvironment rejoined putNote).get (by decide)

def rejoinedGet : Deployment :=
  (wireStep sampleEnvironment rejoinedPut getNote).get (by decide)

def rejoinedRead : Deployment :=
  runResult (wireStep sampleEnvironment) rejoinedGet
    (readOther.map (ReadStep.event 1)) (by decide)

/-- Bob's note, whose name is the path of Alice's, is newer by B's clock. -/
def putBeside : DeploymentEvent :=
  .data (.client "B" none (.putValue bobToken "notes" "n" ∅) 9)

def putMarked : DeploymentEvent :=
  .data (.client "A" none (.putValue aliceToken "notes" "n?1" ∅) 5)

def getMarked : DeploymentEvent :=
  .data (.client "A" none (.getValue aliceToken "notes" "n?1") 6)

def markedNote : VersionedValue :=
  VersionedValue.new ∅ "alice" "A" 5

def beside : Deployment :=
  runResult (wireStep sampleEnvironment) freshDeployment
    (joining ++ [putBeside]) (by decide)

def besidePut : Deployment :=
  (wireStep sampleEnvironment beside putMarked).get (by decide)

def besideGet : Deployment :=
  (wireStep sampleEnvironment besidePut getMarked).get (by decide)

def besideRead : Deployment :=
  runResult (wireStep sampleEnvironment) besideGet
    (readBoth.map (ReadStep.event 2)) (by decide)

/-- After the second join B lists itself as Suspect and does not find what it
has stored; and A hears of Bob's note when it asks for Alice's. -/
theorem ownNotes_notRead :
    (runSteps (wireStep sampleEnvironment) freshDeployment rejoining =
        some rejoined ∧
      wireStep sampleEnvironment rejoined putNote = some rejoinedPut ∧
      (putValue "B" (rejoined.cluster.storeAt "B") aliceToken "notes" "n" ∅
        5).response = some ⟨201, .record note⟩ ∧
      wireStep sampleEnvironment rejoinedPut getNote = some rejoinedGet ∧
      runSteps (wireStep sampleEnvironment) rejoinedGet
          (readOther.map (ReadStep.event 1)) = some rejoinedRead ∧
      (rejoined.membersOf "B").lookup "B" = some ⟨.suspect, 1⟩ ∧
      rejoinedRead.recordAt "B" "notes" "n" = some note ∧
      rejoinedRead.readAnswer 1 =
        some ⟨404, .error "Key not found on any replica"⟩) ∧
    runSteps (wireStep sampleEnvironment) freshDeployment
        (joining ++ [putBeside]) = some beside ∧
      wireStep sampleEnvironment beside putMarked = some besidePut ∧
      (putValue "A" (beside.cluster.storeAt "A") aliceToken "notes" "n?1" ∅
        5).response = some ⟨201, .record markedNote⟩ ∧
      wireStep sampleEnvironment besidePut getMarked = some besideGet ∧
      runSteps (wireStep sampleEnvironment) besideGet
          (readBoth.map (ReadStep.event 2)) = some besideRead ∧
      besideRead.recordAt "A" "notes" "n?1" = some markedNote ∧
      besideRead.readAnswer 2 =
        some ⟨401, .error "Not authorized to view record"⟩ := by
  refine ⟨⟨runSteps_eq_some_runResult _ _ _ _, (Option.some_get _).symm,
    by decide, (Option.some_get _).symm, runSteps_eq_some_runResult _ _ _ _,
    by decide, by decide, by decide⟩, runSteps_eq_some_runResult _ _ _ _,
    (Option.some_get _).symm, by decide, (Option.some_get _).symm,
    runSteps_eq_some_runResult _ _ _ _, by decide, by decide⟩

end DynaRust.Network.Deployment
