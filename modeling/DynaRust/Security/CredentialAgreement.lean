import DynaRust.Security.Registration

/-!
# Agreement on a user's credential

A registration is replicated by requests that overwrite whatever the receiver
stores.  The nodes agree on the hash in the end if all first registrations of
the user presented the same one.
-/

namespace DynaRust.Network.Cluster

open DynaRust.Foundation DynaRust.Security DynaRust.Storage

/-- Registrations of one user at some of the nodes, and the replication they
cause.  No request is lost. -/
def RegistersOnly (user : String) (nodes : List String) :
    ClusterEvent → Prop
  | .client node _ (.access username _ _) _ => username = user ∧ node ∈ nodes
  | .deliver _ _ => True
  | .redeliver _ _ => True
  | .fanOut _ _ => True
  | _ => False

/-- A user who is not known at a node registers there with a secret whose hash
is that of all registrations before, and a fan-out addresses every node. -/
def SameHashEverywhere (environment : Environment) (user : String)
    (nodes : List String) (state : History × Cluster) : ClusterEvent → Prop
  | .client node _ (.access _ _ (.json secret)) _ =>
      state.2.recordAt node "auth" user = none →
      ∀ earlier, Registered environment state.1 user earlier →
        environment.sha256Hex earlier = environment.sha256Hex secret
  | .fanOut _ active =>
      ∀ node ∈ nodes, node ∈
        getReplicationNodes environment.hash user active active.length
  | _ => True

/-- What such runs keep: everything stored or in flight is the one registered
hash, and no node has been forgotten. -/
structure Replicating (environment : Environment) (user : String)
    (nodes : List String) (state : History × Cluster) : Prop where
  stored : ∀ node record, state.2.recordAt node "auth" user = some record →
    ∃ secret, Registered environment state.1 user secret ∧
      storedHash record = some (environment.sha256Hex secret)
  sent : ∀ message ∈ state.2.messages,
    message.header = some (.text environment.clusterSecret) ∧
      ∃ secret, Registered environment state.1 user secret ∧
        message.content = .access user (environment.sha256Hex secret)
  pending : ∀ node task, (node, task) ∈ state.2.tasks →
    (state.2.recordAt node "auth" user).isSome ∧
      ∃ secret, Registered environment state.1 user secret ∧
        task = .fanOut (.access user (environment.sha256Hex secret))
  notPulled : state.2.snapshots = []
  oneHash : ∀ first second, Registered environment state.1 user first →
    Registered environment state.1 user second →
      environment.sha256Hex first = environment.sha256Hex second
  reached : ∀ secret, Registered environment state.1 user secret →
    ∀ node ∈ nodes, (state.2.recordAt node "auth" user).isSome ∨
      state.2.tasks ≠ [] ∨
      ∃ message ∈ state.2.messages, message.target = node

theorem Registered.append {environment : Environment} {history : History}
    {user secret : String}
    (registered : Registered environment history user secret)
    (later : History) :
    Registered environment (history ++ later) user secret := by
  obtain ⟨taken, member, registers⟩ := registered
  exact ⟨taken, List.mem_append_left later member, registers⟩

theorem registered_snoc {environment : Environment} {history : History}
    {cluster : Cluster} {event : ClusterEvent} {user secret : String}
    (registered : Registered environment (history ++ [(cluster, event)]) user
      secret) :
    Registered environment history user secret ∨
      Registers environment cluster event user secret := by
  obtain ⟨taken, member, registers⟩ := registered
  rcases List.mem_append.mp member with old | last
  · exact Or.inl ⟨taken, old, registers⟩
  · cases List.mem_singleton.mp last
    exact Or.inr registers

theorem registered_of_registers {environment : Environment}
    {history : History} {cluster : Cluster} {event : ClusterEvent}
    {user secret : String}
    (registers : Registers environment cluster event user secret) :
    Registered environment (history ++ [(cluster, event)]) user secret :=
  ⟨(cluster, event),
    List.mem_append_right history (List.mem_singleton_self _), registers⟩

namespace Replicating

variable {environment : Environment} {user : String} {nodes : List String}
variable {history : History} {cluster next : Cluster} {event : ClusterEvent}

/-- The node ends with a record of the user after handling a request. -/
private theorem recordAt_of_message
    (replicating : Replicating environment user nodes (history, cluster))
    {index : Nat} {message : Message}
    (found : cluster.messages[index]? = some message) (now : Nat) :
    ∃ record, messageChange environment cluster index now message.target
      "auth" user = .write record := by
  obtain ⟨header, secret, -, content⟩ :=
    replicating.sent message (List.mem_of_getElem? found)
  refine ⟨VersionedValue.new
    (secretMap (environment.sha256Hex secret)) user message.target now, ?_⟩
  simp [messageChange, found, content, header, requestChange, accessChange,
    InternalRequest.request, headerPresents]

private theorem not_remove
    (replicating : Replicating environment user nodes (history, cluster))
    (only : RegistersOnly user nodes event)
    (node : String) :
    ¬ HandlesDelete environment cluster event node "auth" user := by
  intro removes
  cases recordEffect_of_recordChange removes (by simp) with
  | client header request now change acts =>
      cases acts with
      | delete authorization presents =>
          exact only
      | adminDelete authorization admin =>
          exact only
  | message event index now message change handles found target acts =>
      obtain ⟨-, secret, -, content⟩ :=
        replicating.sent message (List.mem_of_getElem? found)
      rw [content] at acts
      cases acts
  | remove index found =>
      exact only

private theorem isSome_step
    (replicating : Replicating environment user nodes (history, cluster))
    (only : RegistersOnly user nodes event)
    (taken : step environment cluster event = some next) {node : String}
    (present : (cluster.recordAt node "auth" user).isSome) :
    (next.recordAt node "auth" user).isSome := by
  have keeps := replicating.not_remove only node
  rw [recordAt_step taken]
  cases changed : recordChange environment cluster event node "auth" user with
  | keep =>
      exact present
  | remove =>
      exact absurd changed keeps
  | write version =>
      rfl
  | modify version =>
      simpa using present
  | receive version =>
      rfl

/-- A stored record holds the hash of a registered secret. -/
private theorem stored_step
    (replicating : Replicating environment user nodes (history, cluster))
    (only : RegistersOnly user nodes event)
    (taken : step environment cluster event = some next) {node : String}
    {record : VersionedValue}
    (found : next.recordAt node "auth" user = some record) :
    ∃ secret, Registered environment (history ++ [(cluster, event)]) user
        secret ∧
      storedHash record = some (environment.sha256Hex secret) := by
  rcases recordAt_step_cases taken found with old | written | incoming
  · obtain ⟨secret, registered, hash⟩ := replicating.stored node record old
    exact ⟨secret, registered.append _, hash⟩
  · cases written with
    | register node user secret header userHeader now missing =>
        have external := external_of_step taken _ _ _ _ rfl
        exact ⟨secret, registered_of_registers
          (registers_of_absent external missing secret userHeader now),
          storedHash_new _ _ _ _⟩
    | replicate event message user hashed now inFlight content =>
        obtain ⟨-, secret, registered, same⟩ :=
          replicating.sent message inFlight
        cases content.symm.trans same
        exact ⟨secret, registered.append _, storedHash_new _ _ _ _⟩
    | put node table key header claims body now version accepted =>
        exact absurd only (by simp [RegistersOnly])
    | patch node table key header claims body now version accepted =>
        exact absurd only (by simp [RegistersOnly])
    | adminPut node table key header authorization body now admin =>
        exact absurd only (by simp [RegistersOnly])
  · cases incoming with
    | sent index now message handles inFlight target content =>
        obtain ⟨-, secret, -, same⟩ :=
          replicating.sent message (List.mem_of_getElem? inFlight)
        cases content.symm.trans same
    | pulled remote joined found =>
        have none := replicating.notPulled
        dsimp only at none
        rw [none] at joined
        cases joined

private theorem sent_step
    (replicating : Replicating environment user nodes (history, cluster))
    (taken : step environment cluster event = some next) {message : Message}
    (member : message ∈ next.messages) :
    message.header = some (.text environment.clusterSecret) ∧
      ∃ secret, Registered environment (history ++ [(cluster, event)]) user
          secret ∧
        message.content = .access user (environment.sha256Hex secret) := by
  rcases messages_step_cases taken member with old | new
  · obtain ⟨header, secret, registered, content⟩ :=
      replicating.sent message old
    exact ⟨header, secret, registered.append _, content⟩
  · cases new with
    | fanOut index active node task message found inside =>
        obtain ⟨-, secret, registered, same⟩ :=
          replicating.pending node _ (List.mem_of_getElem? found)
        cases same
        obtain ⟨-, header, content⟩ := mem_sendToEach.mp inside
        exact ⟨header, secret, registered.append _, content⟩
    | repair index node reader table key targets answers message found
        inside =>
        obtain ⟨-, secret, -, same⟩ :=
          replicating.pending node _ (List.mem_of_getElem? found)
        cases same

private theorem pending_step
    (replicating : Replicating environment user nodes (history, cluster))
    (only : RegistersOnly user nodes event)
    (taken : step environment cluster event = some next) {node : String}
    {task : Task} (member : (node, task) ∈ next.tasks) :
    (next.recordAt node "auth" user).isSome ∧
      ∃ secret, Registered environment (history ++ [(cluster, event)]) user
          secret ∧
        task = .fanOut (.access user (environment.sha256Hex secret)) := by
  rcases tasks_step_cases taken member with old | left
  · obtain ⟨present, secret, registered, same⟩ :=
      replicating.pending node task old
    exact ⟨replicating.isSome_step only taken present, secret,
      registered.append _, same⟩
  · cases left with
    | handled target header request now finished handled =>
        cases handled with
        | register username secret userHeader missing =>
            obtain ⟨rfl, -⟩ := only
            have external := external_of_step taken _ _ _ _ rfl
            refine ⟨?_, secret, registered_of_registers
              (registers_of_absent external missing secret userHeader now),
              rfl⟩
            have notInternal :
                ¬ headerPresents environment.clusterSecret header = true :=
              fun presents =>
                external (providedSecret_eq_of_headerPresents presents)
            rw [recordAt_step taken]
            simp [recordChange, requestChange, accessChange, notInternal,
              missing]
        | put authorization table key body newValue accepted =>
            exact absurd only (by simp [RegistersOnly])
        | patch authorization table key body newValue accepted =>
            exact absurd only (by simp [RegistersOnly])
        | delete claims table key existing found own =>
            exact absurd only (by simp [RegistersOnly])
        | read claims table key =>
            exact absurd only (by simp [RegistersOnly])
        | adminPut authorization table key body admin =>
            exact absurd only (by simp [RegistersOnly])
        | adminDelete authorization table key admin =>
            exact absurd only (by simp [RegistersOnly])
    | removed index target table key found =>
        exact absurd only (by simp [RegistersOnly])
    | opened index active target reader table key targets found =>
        exact absurd only (by simp [RegistersOnly])
    | answered index origin target reader table key targets answers found =>
        exact absurd only (by simp [RegistersOnly])
    | failed index origin target reader table key targets answers found =>
        exact absurd only (by simp [RegistersOnly])

/-- A new registration has the hash of the earlier ones. -/
private theorem oneHash_step
    (replicating : Replicating environment user nodes (history, cluster))
    (same : SameHashEverywhere environment user nodes (history, cluster)
      event)
    {first second : String}
    (firstRegistered : Registered environment
      (history ++ [(cluster, event)]) user first)
    (secondRegistered : Registered environment
      (history ++ [(cluster, event)]) user second) :
    environment.sha256Hex first = environment.sha256Hex second := by
  have newest : ∀ secret, Registers environment cluster event user secret →
      ∀ earlier, Registered environment history user earlier →
        environment.sha256Hex earlier = environment.sha256Hex secret := by
    intro secret registers
    obtain ⟨node, header, userHeader, now, rfl, missing⟩ :=
      absent_of_registers registers
    exact same missing
  rcases registered_snoc firstRegistered with firstOld | firstNew
  · rcases registered_snoc secondRegistered with secondOld | secondNew
    · exact replicating.oneHash first second firstOld secondOld
    · exact newest second secondNew first firstOld
  · rcases registered_snoc secondRegistered with secondOld | secondNew
    · exact (newest first firstNew second secondOld).symm
    · obtain ⟨_, _, _, _, isFirst, -⟩ := absent_of_registers firstNew
      obtain ⟨_, _, _, _, isSecond, -⟩ := absent_of_registers secondNew
      cases isFirst.symm.trans isSecond
      rfl

/-- Every node stores the user, will be sent the registration, or has it in
flight to it. -/
private theorem reached_step
    (replicating : Replicating environment user nodes (history, cluster))
    (only : RegistersOnly user nodes event)
    (covers : SameHashEverywhere environment user nodes (history, cluster)
      event)
    (taken : step environment cluster event = some next) {secret : String}
    (registered : Registered environment (history ++ [(cluster, event)]) user
      secret) {node : String} (inside : node ∈ nodes) :
    (next.recordAt node "auth" user).isSome ∨ next.tasks ≠ [] ∨
      ∃ message ∈ next.messages, message.target = node := by
  have stays : (cluster.recordAt node "auth" user).isSome →
      (next.recordAt node "auth" user).isSome :=
    fun present => replicating.isSome_step only taken present
  have handledStores : ∀ index now message,
      cluster.messages[index]? = some message → message.target = node →
      recordChange environment cluster event node "auth" user =
        messageChange environment cluster index now node "auth" user →
      (next.recordAt node "auth" user).isSome := by
    intro index now message found target change
    obtain ⟨record, written⟩ := replicating.recordAt_of_message found now
    rw [target] at written
    rw [recordAt_step taken, change, written]
    rfl
  have before : (∀ added, ¬ Registers environment cluster event user added) →
      (cluster.recordAt node "auth" user).isSome ∨ cluster.tasks ≠ [] ∨
        ∃ message ∈ cluster.messages, message.target = node := by
    intro registersNobody
    rcases registered_snoc registered with old | new
    · exact replicating.reached secret old node inside
    · exact absurd new (registersNobody secret)
  cases taken_of_step taken with
  | client target header request now external =>
      rcases registered_snoc registered with old | new
      · rcases replicating.reached secret old node inside with
          present | waiting | inFlight
        · exact Or.inl (stays present)
        · exact Or.inr (Or.inl (List.append_ne_nil_of_left_ne_nil waiting _))
        · exact Or.inr (Or.inr inFlight)
      · obtain ⟨_, _, userHeader, _, same, missing⟩ :=
          absent_of_registers new
        cases same
        have notInternal :
            ¬ headerPresents environment.clusterSecret header = true :=
          fun presents =>
            external (providedSecret_eq_of_headerPresents presents)
        have absent : (cluster.storeAt target).record "auth" user = none :=
          missing
        refine Or.inr (Or.inl (List.append_ne_nil_of_right_ne_nil _ ?_))
        simp [handle, access, notInternal, absent]
  | deliver index now message found =>
      rcases before (fun added registers => by
        obtain ⟨_, _, _, _, same, -⟩ := registers
        cases same) with present | waiting | ⟨sent, member, target⟩
      · exact Or.inl (stays present)
      · exact Or.inr (Or.inl (List.append_ne_nil_of_left_ne_nil waiting _))
      · rcases mem_eraseIdx_or_eq found member with left | rfl
        · exact Or.inr (Or.inr ⟨sent, left, target⟩)
        · exact Or.inl (handledStores index now sent found target rfl)
  | redeliver index now message found =>
      rcases before (fun added registers => by
        obtain ⟨_, _, _, _, same, -⟩ := registers
        cases same) with present | waiting | inFlight
      · exact Or.inl (stays present)
      · exact Or.inr (Or.inl (List.append_ne_nil_of_left_ne_nil waiting _))
      · exact Or.inr (Or.inr inFlight)
  | fanOut index active origin pending found known =>
      obtain ⟨present, hashed, -, same⟩ :=
        replicating.pending origin _ (List.mem_of_getElem? found)
      cases same
      by_cases own : node = origin
      · subst own
        exact Or.inl (stays present)
      · have target : node ∈ (getReplicationNodes environment.hash user
            active active.length).filter (fun target => target ≠ origin) := by
          simpa using ⟨covers node inside, own⟩
        refine Or.inr (Or.inr ⟨⟨node, some (.text environment.clusterSecret),
          .access user (environment.sha256Hex hashed)⟩, ?_, rfl⟩)
        exact List.mem_append_right _ (mem_sendToEach.mpr ⟨target, rfl, rfl⟩)
  | _ => exact absurd only (by simp [RegistersOnly])

private theorem snapshots_step
    (only : RegistersOnly user nodes event)
    (taken : step environment cluster event = some next) :
    next.snapshots = cluster.snapshots := by
  cases taken_of_step taken with
  | client target header request now external =>
      rfl
  | deliver index now message found =>
      rfl
  | redeliver index now message found =>
      rfl
  | fanOut index active origin pending found known =>
      rfl
  | _ => exact absurd only (by simp [RegistersOnly])

end Replicating

theorem Replicating.step {environment : Environment} {user : String}
    {nodes : List String} {state next : History × Cluster}
    {event : ClusterEvent}
    (replicating : Replicating environment user nodes state)
    (only : RegistersOnly user nodes event)
    (same : SameHashEverywhere environment user nodes state event)
    (taken : withHistory (Cluster.step environment) state event =
      some next) :
    Replicating environment user nodes next := by
  obtain ⟨history, cluster⟩ := state
  obtain ⟨grown, after⟩ := next
  obtain ⟨enabled, rfl⟩ := withHistory_eq_some.mp taken
  constructor
  · intro node record found
    exact replicating.stored_step only enabled found
  · intro message member
    exact replicating.sent_step enabled member
  · intro node task member
    exact replicating.pending_step only enabled member
  · exact (snapshots_step only enabled).trans replicating.notPulled
  · intro first second firstRegistered secondRegistered
    exact replicating.oneHash_step same firstRegistered secondRegistered
  · intro secret registered node inside
    exact replicating.reached_step only same enabled registered inside

/-- A node has handled the replicated registration `hashed` of the user. -/
def storesHash (cluster : Cluster) (node user : String) : Option String :=
  (cluster.recordAt node "auth" user).bind storedHash

/-- A delivered registration replaces the hash of its target and of no other
node. -/
theorem storesHash_deliver {environment : Environment} {cluster : Cluster}
    {index : Nat} {target user hashed : String}
    (found : cluster.messages[index]? =
      some ⟨target, some (.text environment.clusterSecret),
        .access user hashed⟩) (now : Nat) :
    ∃ next, step environment cluster (.deliver index now) = some next ∧
      next.messages = cluster.messages.eraseIdx index ∧
      next.tasks = cluster.tasks ∧
      ∀ node, next.storesHash node user =
        if node = target then some hashed
        else cluster.storesHash node user := by
  have enabled : ∃ next, step environment cluster (.deliver index now) =
      some next ∧ next.messages = cluster.messages.eraseIdx index ∧
        next.tasks = cluster.tasks := by
    refine ⟨_, by rw [step, found], rfl, ?_⟩
    simp [receive, perform, task_handle_internalRequest]
  obtain ⟨next, taken, messages, tasks⟩ := enabled
  refine ⟨next, taken, messages, tasks, ?_⟩
  intro node
  unfold storesHash
  rw [recordAt_step taken]
  by_cases same : node = target
  · subst same
    simp [recordChange, messageChange, found, requestChange, accessChange,
      InternalRequest.request, headerPresents]
  · simp [recordChange, messageChange, found, same]

/-- When the replication of two different hashes crosses, each of the two
nodes ends with the hash of the other. -/
theorem crossing_disagrees {environment : Environment} {cluster : Cluster}
    {first second user firstHash secondHash : String}
    (distinct : first ≠ second) (differ : firstHash ≠ secondHash)
    (idle : cluster.tasks = [])
    (crossing : cluster.messages =
      [⟨second, some (.text environment.clusterSecret),
          .access user firstHash⟩,
        ⟨first, some (.text environment.clusterSecret),
          .access user secondHash⟩]) :
    ∃ events final, runSteps (step environment) cluster events = some final ∧
      final.tasks = [] ∧ final.messages = [] ∧
      final.storesHash first user ≠ final.storesHash second user := by
  have firstFound : cluster.messages[0]? =
      some ⟨second, some (.text environment.clusterSecret),
        .access user firstHash⟩ := by
    rw [crossing]
    rfl
  obtain ⟨middle, takenFirst, messages, tasks, hashes⟩ :=
    storesHash_deliver firstFound 0
  rw [crossing] at messages
  have secondFound : middle.messages[0]? =
      some ⟨first, some (.text environment.clusterSecret),
        .access user secondHash⟩ := by
    rw [messages]
    rfl
  obtain ⟨final, takenSecond, messages', tasks', hashes'⟩ :=
    storesHash_deliver secondFound 0
  rw [messages] at messages'
  refine ⟨[.deliver 0 0, .deliver 0 0], final, ?_, ?_, messages', ?_⟩
  · rw [runSteps, takenFirst, Option.bind_some, runSteps, takenSecond,
      Option.bind_some, runSteps_nil]
  · rw [tasks', tasks, idle]
  · rw [hashes', hashes', if_pos rfl, if_neg (Ne.symm distinct), hashes,
      if_pos rfl]
    intro same
    exact differ (Option.some.inj same).symm

end DynaRust.Network.Cluster
