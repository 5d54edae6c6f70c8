import DynaRust.Network.Cluster

/-!
# Where records, tasks and messages come from

What one step of the cluster can add, with the guard under which it does.
Every record, pending task and message of the next state is an old one or
comes from exactly one of the cases below.
-/

namespace DynaRust.Network.Cluster

open DynaRust.Foundation DynaRust.Security DynaRust.Storage

/-! ## Records -/

/-- A step writes `version` into a record of a node. -/
inductive Writes (environment : Environment) (cluster : Cluster) :
    ClusterEvent → String → String → String → VersionedValue → Prop
  | put (node table key : String) (header : Option HeaderValue)
      (claims : TokenClaims) (body : HashMap String Value) (now : Nat)
      (version : VersionedValue) :
      putLocal (cluster.recordAt node table key) claims.sub body node now =
        .ok version →
      Writes environment cluster
        (.client node header (.putValue (.bearer claims) table key body) now)
        node table key version
  | patch (node table key : String) (header : Option HeaderValue)
      (claims : TokenClaims) (body : HashMap String Value) (now : Nat)
      (version : VersionedValue) :
      patchLocal (cluster.recordAt node table key) claims.sub body node now =
        .ok version →
      Writes environment cluster
        (.client node header (.patchValue (.bearer claims) table key body)
          now) node table key version
  | adminPut (node table key : String) (header : Option HeaderValue)
      (authorization : Authorization) (body : HashMap String Value)
      (now : Nat) :
      validateAdminToken authorization = true →
      Writes environment cluster
        (.client node header (.adminPutRecord authorization table key body)
          now) node table key
        (adminPutLocal (cluster.recordAt node table key) body node now)
  | register (node user secret : String) (header : Option HeaderValue)
      (userHeader : Option HeaderValue) (now : Nat) :
      cluster.recordAt node "auth" user = none →
      Writes environment cluster
        (.client node header (.access user userHeader (.json secret)) now)
        node "auth" user
        (VersionedValue.new (secretMap (environment.sha256Hex secret)) user
          node now)
  | replicate (event : ClusterEvent) (message : Message)
      (user hashed : String) (now : Nat) :
      message ∈ cluster.messages →
      message.content = .access user hashed →
      Writes environment cluster event message.target "auth" user
        (VersionedValue.new (secretMap hashed) user message.target now)

/-- A version that a step merges into the record of a node. -/
inductive Incoming (cluster : Cluster) (event : ClusterEvent)
    (node table key : String) (version : VersionedValue) : Prop
  | sent (index now : Nat) (message : Message) :
      event = .deliver index now ∨ event = .redeliver index now →
      cluster.messages[index]? = some message → message.target = node →
      message.content = .putValueInternal table key version →
      Incoming cluster event node table key version
  | pulled (remote : Store) : (node, remote) ∈ cluster.snapshots →
      remote.record table key = some version →
      Incoming cluster event node table key version

private theorem writes_of_requestEffect {environment : Environment}
    {cluster : Cluster} {node table key : String}
    {header : Option HeaderValue} {request : Request} {now : Nat}
    {change : Change VersionedValue} {version : VersionedValue}
    (external : providedSecret header ≠ environment.clusterSecret)
    (acts : RequestEffect environment node (cluster.storeAt node) header now
      table key request change)
    (changed : change.written = some version) :
    Writes environment cluster (.client node header request now) node
      table key version := by
  cases acts with
  | put claims body newValue stored =>
      cases changed
      exact .put node table key header claims body now version stored
  | patch claims body newValue stored =>
      cases changed
      exact .patch node table key header claims body now version stored
  | adminPut authorization body admin =>
      cases changed
      exact .adminPut node table key header authorization body now admin
  | register userHeader secret notInternal isAuth missing =>
      cases changed
      subst isAuth
      exact .register node key secret header userHeader now missing
  | replicate userHeader hashed presents isAuth =>
      exact absurd (providedSecret_eq_of_headerPresents presents) external
  | delete authorization presents =>
      cases changed
  | merge incoming presents =>
      cases changed
  | adminDelete authorization admin =>
      cases changed

/-- What a step writes into a record of a node. -/
theorem writes_of_recordChange {environment : Environment}
    {cluster next : Cluster} {event : ClusterEvent}
    (taken : step environment cluster event = some next)
    {node table key : String} {version : VersionedValue}
    (changed : (recordChange environment cluster event node table
        key).written = some version) :
    Writes environment cluster event node table key version := by
  rcases recordChange_cases environment cluster event node table key with
    kept | effect
  · rw [kept] at changed
    cases changed
  · generalize recordChange environment cluster event node table key =
      change at effect changed
    cases effect with
    | client header request now change acts =>
        have external := external_of_step taken _ _ _ _ rfl
        exact writes_of_requestEffect external acts changed
    | message event index now message change handles found target acts =>
        subst target
        generalize content : message.content = sent at acts
        cases acts with
        | replicate hashed isAuth =>
            cases changed
            subst isAuth
            exact .replicate event message key hashed now
              (List.mem_of_getElem? found) content
        | merge incoming =>
            cases changed
        | delete =>
            cases changed
    | remove index found =>
        cases changed
    | merge index remote incoming found pulled =>
        cases changed

/-- What a step merges into a record of a node. -/
theorem incoming_of_recordChange {environment : Environment}
    {cluster next : Cluster} {event : ClusterEvent}
    (taken : step environment cluster event = some next)
    {node table key : String} {version : VersionedValue}
    (changed : recordChange environment cluster event node table key =
      .receive version) :
    Incoming cluster event node table key version := by
  cases recordEffect_of_recordChange changed (by simp) with
  | client header request now change acts =>
      have external := external_of_step taken _ _ _ _ rfl
      cases acts with
      | merge incoming presents =>
          exact absurd presents external
  | message event index now message change handles found target acts =>
      generalize content : message.content = sent at acts
      cases acts with
      | merge incoming =>
          exact .sent index now message handles found target content
  | merge index remote incoming found pulled =>
      exact .pulled remote (List.mem_of_getElem? found) pulled

/-- A record of the next state is an old one of its node, was written by the
step, or came in. -/
theorem recordAt_step_cases {environment : Environment}
    {cluster next : Cluster} {event : ClusterEvent}
    (taken : step environment cluster event = some next)
    {node table key : String} {version : VersionedValue}
    (stored : next.recordAt node table key = some version) :
    cluster.recordAt node table key = some version ∨
      Writes environment cluster event node table key version ∨
      Incoming cluster event node table key version := by
  rw [recordAt_step taken] at stored
  cases changed : recordChange environment cluster event node table key with
  | keep =>
      rw [changed] at stored
      exact Or.inl stored
  | remove =>
      rw [changed] at stored
      cases stored
  | write written =>
      rw [changed] at stored
      cases Option.some.inj stored
      exact Or.inr (Or.inl (writes_of_recordChange taken (by
        rw [changed]; rfl)))
  | modify written =>
      rw [changed, Change.apply_modify, Option.map_eq_some_iff] at stored
      obtain ⟨-, -, rfl⟩ := stored
      exact Or.inr (Or.inl (writes_of_recordChange taken (by
        rw [changed]; rfl)))
  | receive incoming =>
      rw [changed, Change.apply_receive] at stored
      rcases mergeIncoming_eq_or (cluster.recordAt node table key) incoming
        with isNew | isOld
      · rw [isNew] at stored
        cases Option.some.inj stored
        exact Or.inr (Or.inr (incoming_of_recordChange taken changed))
      · exact Or.inl (isOld.trans stored)

/-! ## Tasks -/

/-- A step leaves `task` at a node. -/
inductive NewTask (environment : Environment) (cluster : Cluster) :
    ClusterEvent → String → Task → Prop
  | handled (node : String) (header : Option HeaderValue)
      (request : Request) (now : Nat) (task : Task) :
      HandlerTask environment node (cluster.storeAt node) header now request
        task →
      NewTask environment cluster (.client node header request now) node task
  | removed (index : Nat) (node table key : String) :
      cluster.tasks[index]? = some (node, .remove table key) →
      NewTask environment cluster (.remove index) node
        (.fanOut (.deleteValue table key))
  | opened (index : Nat) (active : List String)
      (node user table key : String) (targets : List String) :
      cluster.tasks[index]? = some (node, .read user table key) →
      NewTask environment cluster (.beginRead index active) node
        (.collect user table key targets [])
  | answered (index : Nat) (node target user table key : String)
      (targets : List String)
      (answers : List (String × Option (Option VersionedValue))) :
      cluster.tasks[index]? =
        some (node, .collect user table key targets answers) →
      NewTask environment cluster (.answer index target) node
        (.collect user table key targets (answers ++
          [(target, some (cluster.recordAt target table key))]))
  | failed (index : Nat) (node target user table key : String)
      (targets : List String)
      (answers : List (String × Option (Option VersionedValue))) :
      cluster.tasks[index]? =
        some (node, .collect user table key targets answers) →
      NewTask environment cluster (.fail index target) node
        (.collect user table key targets (answers ++ [(target, none)]))

private theorem mem_tasks_perform {cluster : Cluster} {node : String}
    {outcome : Outcome} {entry : String × Task}
    (member : entry ∈ (cluster.perform node outcome).tasks) :
    entry ∈ cluster.tasks ∨
      (entry.1 = node ∧ outcome.task = some entry.2) := by
  rcases List.mem_append.mp member with old | added
  · exact Or.inl old
  · rw [Option.mem_toList, Option.map_eq_some_iff] at added
    obtain ⟨task, left, rfl⟩ := added
    exact Or.inr ⟨rfl, left⟩

private theorem mem_tasks_receive {environment : Environment}
    {cluster : Cluster} {message : Message} {now : Nat}
    {entry : String × Task}
    (member : entry ∈ (receive environment cluster message now).tasks) :
    entry ∈ cluster.tasks := by
  rcases mem_tasks_perform member with old | ⟨-, left⟩
  · exact old
  · rw [task_handle_internalRequest] at left
    cases left

/-- A task of the next state is an old one or was left by the step. -/
theorem tasks_step_cases {environment : Environment}
    {cluster next : Cluster} {event : ClusterEvent}
    (taken : step environment cluster event = some next)
    {node : String} {task : Task} (member : (node, task) ∈ next.tasks) :
    (node, task) ∈ cluster.tasks ∨
      NewTask environment cluster event node task := by
  cases taken_of_step taken with
  | client target header request now external =>
      rcases mem_tasks_perform member with old | ⟨rfl, left⟩
      · exact Or.inl old
      · exact Or.inr (.handled node header request now task
          (handlerTask_of_handle left))
  | deliver index now message found =>
      exact Or.inl (mem_tasks_receive member)
  | redeliver index now message found =>
      exact Or.inl (mem_tasks_receive member)
  | remove index target table key found =>
      rcases mem_tasks_perform member with old | ⟨rfl, left⟩
      · exact Or.inl (List.mem_of_mem_eraseIdx old)
      · cases Option.some.inj left
        exact Or.inr (.removed index node table key found)
  | beginRead index active target user table key found =>
      rcases List.mem_or_eq_of_mem_set member with old | same
      · exact Or.inl old
      · obtain ⟨rfl, rfl⟩ := Prod.mk.inj same
        exact Or.inr (.opened index active node user table key _ found)
  | answer index origin target user table key targets answers found =>
      rcases List.mem_or_eq_of_mem_set member with old | same
      · exact Or.inl old
      · obtain ⟨rfl, rfl⟩ := Prod.mk.inj same
        exact Or.inr (.answered index node target user table key targets
          answers found)
  | fail index origin target user table key targets answers found =>
      rcases List.mem_or_eq_of_mem_set member with old | same
      · exact Or.inl old
      · obtain ⟨rfl, rfl⟩ := Prod.mk.inj same
        exact Or.inr (.failed index node target user table key targets
          answers found)
  | fanOut index active target pending found known =>
      exact Or.inl (List.mem_of_mem_eraseIdx member)
  | finishRead index target user table key targets answers found =>
      exact Or.inl (List.mem_of_mem_eraseIdx member)
  | lose index =>
      exact Or.inl member
  | pullStore joiner seed =>
      exact Or.inl member
  | pullRefused joiner seed =>
      exact Or.inl member
  | mergeStore index target remote found =>
      exact Or.inl member
  | setMembership target members =>
      exact Or.inl member

/-! ## Messages -/

/-- A step sends `message`. -/
inductive NewMessage (environment : Environment) (cluster : Cluster) :
    ClusterEvent → Message → Prop
  | fanOut (index : Nat) (active : List String) (node : String)
      (pending : FanOut) (message : Message) :
      cluster.tasks[index]? = some (node, .fanOut pending) →
      message ∈ fanOutMessages environment node active pending →
      NewMessage environment cluster (.fanOut index active) message
  | repair (index : Nat) (node user table key : String)
      (targets : List String)
      (answers : List (String × Option (Option VersionedValue)))
      (message : Message) :
      cluster.tasks[index]? =
        some (node, .collect user table key targets answers) →
      message ∈ repairMessages environment table key
        (gatherAnswers answers targets) →
      NewMessage environment cluster (.finishRead index) message

/-- A message of the next state is an old one or was sent by the step. -/
theorem messages_step_cases {environment : Environment}
    {cluster next : Cluster} {event : ClusterEvent}
    (taken : step environment cluster event = some next)
    {message : Message} (member : message ∈ next.messages) :
    message ∈ cluster.messages ∨
      NewMessage environment cluster event message := by
  cases taken_of_step taken with
  | fanOut index active node pending found known =>
      rcases List.mem_append.mp member with old | sent
      · exact Or.inl old
      · exact Or.inr (.fanOut index active node pending message found sent)
  | finishRead index node user table key targets answers found =>
      rcases List.mem_append.mp member with old | sent
      · exact Or.inl old
      · exact Or.inr (.repair index node user table key targets answers
          message found sent)
  | deliver index now handled found =>
      exact Or.inl (List.mem_of_mem_eraseIdx member)
  | lose index =>
      exact Or.inl (List.mem_of_mem_eraseIdx member)
  | client node header request now external =>
      exact Or.inl member
  | redeliver index now handled found =>
      exact Or.inl member
  | remove index node table key found =>
      exact Or.inl member
  | beginRead index active node user table key found =>
      exact Or.inl member
  | answer index node target user table key targets answers found =>
      exact Or.inl member
  | fail index node target user table key targets answers found =>
      exact Or.inl member
  | pullStore joiner seed =>
      exact Or.inl member
  | pullRefused joiner seed =>
      exact Or.inl member
  | mergeStore index node remote found =>
      exact Or.inl member
  | setMembership node members =>
      exact Or.inl member

/-! ## Pulled stores -/

/-- A pulled store of the next state is an old one or the store of the node
that is asked, as it is now. -/
theorem snapshots_step_cases {environment : Environment}
    {cluster next : Cluster} {event : ClusterEvent}
    (taken : step environment cluster event = some next)
    {joiner : String} {remote : Store}
    (member : (joiner, remote) ∈ next.snapshots) :
    (joiner, remote) ∈ cluster.snapshots ∨
      ∃ seed, event = .pullStore joiner seed ∧
        remote = cluster.storeAt seed := by
  cases taken_of_step taken with
  | pullStore target seed =>
      rcases List.mem_append.mp member with old | added
      · exact Or.inl old
      · cases List.mem_singleton.mp added
        exact Or.inr ⟨seed, rfl, rfl⟩
  | mergeStore index node pulled found =>
      exact Or.inl (List.mem_of_mem_eraseIdx member)
  | client node header request now external =>
      exact Or.inl member
  | deliver index now message found =>
      exact Or.inl member
  | redeliver index now message found =>
      exact Or.inl member
  | lose index =>
      exact Or.inl member
  | fanOut index active node pending found known =>
      exact Or.inl member
  | remove index node table key found =>
      exact Or.inl member
  | beginRead index active node user table key found =>
      exact Or.inl member
  | answer index node target user table key targets answers found =>
      exact Or.inl member
  | fail index node target user table key targets answers found =>
      exact Or.inl member
  | finishRead index node user table key targets answers found =>
      exact Or.inl member
  | pullRefused target seed =>
      exact Or.inl member
  | setMembership node members =>
      exact Or.inl member

/-! ## Versions anywhere in the cluster -/

/-- A suspended handler holds `version` for the key. -/
def Holds (table key : String) (version : VersionedValue) : Task → Prop
  | .fanOut pending =>
      pending.content = .putValueInternal table key version
  | .collect _ table' key' _ answers =>
      table' = table ∧ key' = key ∧
        ∃ target, (target, some (some version)) ∈ answers
  | _ => False

/-- A version of the key that is stored or in flight. -/
inductive Carries (cluster : Cluster) (table key : String)
    (version : VersionedValue) : Prop
  | stored (node : String) :
      cluster.recordAt node table key = some version →
      Carries cluster table key version
  | pending (node : String) (task : Task) : (node, task) ∈ cluster.tasks →
      Holds table key version task → Carries cluster table key version
  | sent (message : Message) : message ∈ cluster.messages →
      message.content = .putValueInternal table key version →
      Carries cluster table key version
  | pulled (joiner : String) (remote : Store) :
      (joiner, remote) ∈ cluster.snapshots →
      remote.record table key = some version →
      Carries cluster table key version

theorem carries_of_incoming {cluster : Cluster} {event : ClusterEvent}
    {node table key : String} {version : VersionedValue}
    (incoming : Incoming cluster event node table key version) :
    Carries cluster table key version := by
  cases incoming with
  | sent index now message handles found target content =>
      exact .sent message (List.mem_of_getElem? found) content
  | pulled remote joined found =>
      exact .pulled node remote joined found

/-- A change that a step leaves to be sent is one that it wrote. -/
theorem writes_of_newTask {environment : Environment} {cluster : Cluster}
    {event : ClusterEvent} {node : String} {pending : FanOut}
    {table key : String} {version : VersionedValue}
    (left : NewTask environment cluster event node (.fanOut pending))
    (content : pending.content = .putValueInternal table key version) :
    Writes environment cluster event node table key version := by
  cases left with
  | handled origin header request now finished handled =>
      cases handled with
      | put authorization table' key' body newValue accepted =>
          cases content
          obtain ⟨claims, rfl, stored⟩ := putChange_written_iff.mp accepted
          exact .put node table key header claims body now version stored
      | patch authorization table' key' body newValue accepted =>
          cases content
          obtain ⟨claims, rfl, stored⟩ := patchChange_written_iff.mp accepted
          exact .patch node table key header claims body now version stored
      | adminPut authorization table' key' body admin =>
          cases content
          exact .adminPut node table key header authorization body now admin
      | register user secret userHeader missing =>
          cases content
      | adminDelete authorization table' key' admin =>
          cases content
  | removed index target table' key' found =>
      cases content

private theorem carries_or_writes_of_newTask {environment : Environment}
    {cluster : Cluster} {event : ClusterEvent} {node : String} {task : Task}
    {table key : String} {version : VersionedValue}
    (left : NewTask environment cluster event node task)
    (holds : Holds table key version task) :
    Carries cluster table key version ∨
      Writes environment cluster event node table key version := by
  cases task with
  | fanOut pending =>
      exact Or.inr (writes_of_newTask left holds)
  | collect user table' key' targets answers =>
      obtain ⟨rfl, rfl, replica, arrived⟩ := holds
      cases left with
      | handled origin header request now finished handled =>
          cases handled
      | opened index active target user table' key' targets found =>
          cases arrived
      | answered index origin target user table' key' targets answers found =>
          rcases List.mem_append.mp arrived with earlier | last
          · exact Or.inl (.pending node _ (List.mem_of_getElem? found)
              ⟨rfl, rfl, replica, earlier⟩)
          · obtain ⟨rfl, answered⟩ :=
              Prod.mk.inj (List.mem_singleton.mp last)
            exact Or.inl (.stored replica (Option.some.inj answered).symm)
      | failed index origin target user table' key' targets answers found =>
          rcases List.mem_append.mp arrived with earlier | last
          · exact Or.inl (.pending node _ (List.mem_of_getElem? found)
              ⟨rfl, rfl, replica, earlier⟩)
          · cases (Prod.mk.inj (List.mem_singleton.mp last)).2
  | remove table' key' =>
      cases holds
  | read user table' key' =>
      cases holds

private theorem carries_of_newMessage {environment : Environment}
    {cluster : Cluster} {event : ClusterEvent} {message : Message}
    {table key : String} {version : VersionedValue}
    (sent : NewMessage environment cluster event message)
    (content : message.content = .putValueInternal table key version) :
    Carries cluster table key version := by
  cases sent with
  | fanOut index active node pending message found member =>
      have carried := content_of_mem_fanOutMessages member
      exact .pending node (.fanOut pending) (List.mem_of_getElem? found)
        (carried.symm.trans content)
  | repair index node user table' key' targets answers message found member =>
      obtain ⟨latest, target, isLatest, answered⟩ :=
        content_of_mem_repairMessages member
      cases isLatest.symm.trans content
      exact .pending node _ (List.mem_of_getElem? found)
        ⟨rfl, rfl, target, answered⟩

/-- A version carried after a step was carried before it, or is what the step
wrote. -/
theorem carries_step {environment : Environment} {cluster next : Cluster}
    {event : ClusterEvent} (taken : step environment cluster event = some next)
    {table key : String} {version : VersionedValue}
    (carried : Carries next table key version) :
    Carries cluster table key version ∨
      ∃ node, Writes environment cluster event node table key version := by
  cases carried with
  | stored node found =>
      rcases recordAt_step_cases taken found with old | written | incoming
      · exact Or.inl (.stored node old)
      · exact Or.inr ⟨node, written⟩
      · exact Or.inl (carries_of_incoming incoming)
  | pending node task member holds =>
      rcases tasks_step_cases taken member with old | left
      · exact Or.inl (.pending node task old holds)
      · rcases carries_or_writes_of_newTask left holds with held | written
        · exact Or.inl held
        · exact Or.inr ⟨node, written⟩
  | sent message member content =>
      rcases messages_step_cases taken member with old | sent
      · exact Or.inl (.sent message old content)
      · exact Or.inl (carries_of_newMessage sent content)
  | pulled joiner remote member found =>
      rcases snapshots_step_cases taken member with old | ⟨seed, -, rfl⟩
      · exact Or.inl (.pulled joiner remote old found)
      · exact Or.inl (.stored seed found)

theorem not_carries_initial (members : String → Membership)
    (table key : String) (version : VersionedValue) :
    ¬ Carries (initial members) table key version := by
  intro carried
  cases carried with
  | stored node found =>
      simp [recordAt, storeAt, initial] at found
  | pending node task member holds =>
      cases member
  | sent message member content =>
      cases member
  | pulled joiner remote member found =>
      cases member

end DynaRust.Network.Cluster
