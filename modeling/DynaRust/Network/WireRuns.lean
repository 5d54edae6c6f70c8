import DynaRust.Network.FanOut
import DynaRust.Network.Provenance
import DynaRust.Network.Wire

/-!
# Runs on the wire

What one step can do when requests are parsed on their way, and when such
steps are those of the plain cluster: if the secret can be read from a header
and the names of tables, keys and users need no encoding.
-/

namespace DynaRust.Network

open DynaRust.Foundation DynaRust.Security DynaRust.Storage

/-- The events in which a request travels between two nodes. -/
def ClusterEvent.onWire : ClusterEvent → Bool
  | .deliver _ _ => true
  | .redeliver _ _ => true
  | .answer _ _ => true
  | .pullStore _ _ => true
  | _ => false

namespace Cluster

/-! ## Steps -/

/-- Everything one step on the wire can do. -/
inductive WireTaken (environment : Environment) (cluster : Cluster) :
    ClusterEvent → Cluster → Prop
  | deliver (index now : Nat) (message : Message) :
      cluster.messages[index]? = some message →
      WireTaken environment cluster (.deliver index now)
        (receiveArrived environment
          { cluster with messages := cluster.messages.eraseIdx index }
          message now)
  | redeliver (index now : Nat) (message : Message) :
      cluster.messages[index]? = some message →
      WireTaken environment cluster (.redeliver index now)
        (receiveArrived environment cluster message now)
  | answer (index : Nat) (node target user table key : String)
      (targets : List String)
      (answers : List (String × Option (Option VersionedValue)))
      (answer : Option (Option VersionedValue)) :
      cluster.tasks[index]? =
        some (node, .collect user table key targets answers) →
      target ∈ targets → answers.lookup target = none →
      answer = (if target = node then some (cluster.recordAt node table key)
        else remoteAnswer environment (cluster.storeAt target) table key) →
      WireTaken environment cluster (.answer index target)
        { cluster with
          tasks := cluster.tasks.set index (node,
            .collect user table key targets
              (answers ++ [(target, answer)])) }
  | pullStore (joiner seed : String) :
      WireTaken environment cluster (.pullStore joiner seed)
        { cluster with
          snapshots := cluster.snapshots ++
            [(joiner, cluster.storeAt seed)] }
  | pullRefused (joiner seed : String) :
      WireTaken environment cluster (.pullStore joiner seed) cluster
  | offWire (event : ClusterEvent) (next : Cluster) :
      event.onWire = false → step environment cluster event = some next →
      WireTaken environment cluster event next

theorem wireTaken_of_wireStep {environment : Environment}
    {cluster next : Cluster} {event : ClusterEvent}
    (taken : wireStep environment cluster event = some next) :
    WireTaken environment cluster event next := by
  cases event with
  | deliver index now =>
      obtain ⟨message, found, rfl⟩ := Option.map_eq_some_iff.mp taken
      exact .deliver index now message found
  | redeliver index now =>
      obtain ⟨message, found, rfl⟩ := Option.map_eq_some_iff.mp taken
      exact .redeliver index now message found
  | answer index target =>
      simp only [wireStep] at taken
      split at taken
      · rename_i node user table key targets answers found
        split at taken
        · rename_i waiting
          cases taken
          exact .answer index node target user table key targets answers _
            found waiting.1 waiting.2 rfl
        · cases taken
      · cases taken
  | pullStore joiner seed =>
      simp only [wireStep] at taken
      split at taken
      · rename_i header arrives
        have pulled : ∀ remote, (getGlobalStore environment.clusterSecret
            (cluster.storeAt seed) (some header)).response =
              some ⟨200, .store remote⟩ → remote = cluster.storeAt seed := by
          intro remote answered
          unfold getGlobalStore at answered
          split at answered
          · split at answered
            · cases answered
            · cases answered
              rfl
          · cases answered
          · cases answered
        split at taken
        · rename_i remote answered
          cases taken
          rw [pulled remote answered]
          exact .pullStore joiner seed
        · cases taken
          exact .pullRefused joiner seed
      · cases taken
        exact .pullRefused joiner seed
  | _ =>
      exact .offWire _ next rfl taken

/-! ## What a message does where it arrives -/

theorem content_arrives {message : Message} {header : HeaderValue}
    {request : Request} (arrived : message.arrives = some (header, request)) :
    message.content.arrives = some request := by
  obtain ⟨_, -, rest⟩ := Option.bind_eq_some_iff.mp arrived
  obtain ⟨_, -, parts⟩ := Option.bind_eq_some_iff.mp rest
  obtain ⟨request', content, same⟩ := Option.map_eq_some_iff.mp parts
  rw [content, (Prod.mk.inj same).2]

/-- An arriving request stores `version` over what is held under the key. -/
inductive ArrivalStores (environment : Environment)
    (held : Option VersionedValue) (node table key : String) (now : Nat)
    (header : HeaderValue) : Request → VersionedValue → Prop
  | merge (version : VersionedValue) :
      providedSecret (some header) = environment.clusterSecret →
      (∀ existing ∈ held, version.beats existing = true) →
      ArrivalStores environment held node table key now header
        (.putValueInternal table key version) version
  | replicate (userHeader : Option HeaderValue) (hashed : String) :
      headerPresents environment.clusterSecret (some header) = true →
      table = "auth" →
      ArrivalStores environment held node table key now header
        (.access key userHeader (.bincode hashed))
        (VersionedValue.new (secretMap hashed)
          ((userHeader.bind HeaderValue.toStr).getD key) node now)

variable {environment : Environment} {cluster : Cluster} {message : Message}

theorem receiveArrived_nodes_only (now : Nat) :
    (receiveArrived environment cluster message now).tasks = cluster.tasks ∧
      (receiveArrived environment cluster message now).messages =
        cluster.messages ∧
      (receiveArrived environment cluster message now).snapshots =
        cluster.snapshots := by
  unfold receiveArrived
  split
  · rename_i header request arrived
    refine ⟨?_, rfl, rfl⟩
    have noTask : (handle environment message.target
        (cluster.storeAt message.target) (some header) request now).task =
          none := by
      rw [Option.eq_none_iff_forall_ne_some]
      intro task left
      have known := handlerTask_of_handle left
      have shape := arrivesAs_of_arrives (content_arrives arrived)
      generalize message.content = content at shape
      cases shape <;> cases known
    simp [perform, noTask, setStore]
  · exact ⟨rfl, rfl, rfl⟩

/-- What an arriving request leaves under a key was there, or it stores it. -/
theorem change_of_arrival {content : InternalRequest} {request : Request}
    (arrived : content.arrives = some request) {node table key : String}
    {store : Store} {header : HeaderValue} {now : Nat}
    {held : Option VersionedValue} {version : VersionedValue}
    (stored : (requestChange environment node store (some header) request now
      table key).apply mergeIncoming held = some version) :
    held = some version ∨
      ArrivalStores environment held node table key now header request
        version := by
  rcases requestChange_cases environment node store (some header) request now
    table key with kept | acts
  · rw [kept, Change.apply_keep] at stored
    exact Or.inl stored
  · generalize requestChange environment node store (some header) request now
      table key = change at stored acts
    cases arrivesAs_of_arrives arrived with
    | putValueInternal table' key' arrivedTable arrivedKey payload =>
        cases acts with
        | merge incoming presents =>
            rw [Change.apply_receive] at stored
            cases held with
            | none =>
                cases Option.some.inj stored
                exact Or.inr (.merge _ presents nofun)
            | some existing =>
                rw [mergeIncoming_some] at stored
                split at stored
                · rename_i beats
                  cases Option.some.inj stored
                  refine Or.inr (.merge _ presents ?_)
                  intro other same
                  rw [← Option.mem_some_iff.mp same]
                  exact beats
                · exact Or.inl stored
    | deleteValue table' key' arrivedTable arrivedKey =>
        cases acts with
        | delete authorization presents =>
            cases stored
    | access username hashed user userHeader =>
        cases acts with
        | replicate userHeader hashed presents isAuth =>
            cases Option.some.inj stored
            exact Or.inr (.replicate _ hashed presents isAuth)

/-- A record after a message is the one before, or what arrived of the message
stores it at its target. -/
theorem recordAt_receiveArrived_cases {node table key : String} {now : Nat}
    {version : VersionedValue}
    (stored : (receiveArrived environment cluster message now).recordAt node
      table key = some version) :
    cluster.recordAt node table key = some version ∨
      node = message.target ∧ ∃ header request,
        message.arrives = some (header, request) ∧
          ArrivalStores environment (cluster.recordAt node table key) node
            table key now header request version := by
  unfold receiveArrived at stored
  split at stored
  · rename_i header request arrived
    rw [recordAt_perform_handle, Change.onlyIf_apply] at stored
    by_cases here : node = message.target
    · subst here
      rw [if_pos rfl] at stored
      exact (change_of_arrival (content_arrives arrived) stored).imp_right
        fun stores => ⟨rfl, header, request, arrived, stores⟩
    · rw [if_neg here] at stored
      exact Or.inl stored
  · exact Or.inl stored

/-- What an arriving request stores is there afterwards. -/
theorem recordAt_of_arrivalStores {table key : String} {now : Nat}
    {header : HeaderValue} {request : Request} {version : VersionedValue}
    (arrived : message.arrives = some (header, request))
    (stores : ArrivalStores environment
      (cluster.recordAt message.target table key) message.target table key now
      header request version) :
    (receiveArrived environment cluster message now).recordAt message.target
      table key = some version := by
  rw [receiveArrived, arrived]
  dsimp only
  rw [recordAt_perform_handle, Change.onlyIf_apply, if_pos rfl]
  cases stores with
  | merge version presents beats =>
      have change : requestChange environment message.target
          (cluster.storeAt message.target) (some header)
          (.putValueInternal table key version) now table key =
            .receive version := by
        simp [requestChange, Change.onlyIf, presents]
      rw [change, Change.apply_receive]
      cases held : cluster.recordAt message.target table key with
      | none =>
          rfl
      | some existing =>
          rw [mergeIncoming_some, if_pos (beats existing held)]
  | replicate userHeader hashed presents isAuth =>
      subst isAuth
      have change : requestChange environment message.target
          (cluster.storeAt message.target) (some header)
          (.access key userHeader (.bincode hashed)) now "auth" key =
            .write (VersionedValue.new (secretMap hashed)
              ((userHeader.bind HeaderValue.toStr).getD key) message.target
              now) := by
        simp [requestChange, Change.onlyIf, accessChange, presents]
      rw [change]
      rfl

/-! ## Names and secrets that arrive -/

/-- All messages carry the cluster secret. -/
def SendsSecret (environment : Environment) (cluster : Cluster) : Prop :=
  ∀ message ∈ cluster.messages,
    message.header = some (.text environment.clusterSecret)

theorem sendsSecret_step {environment : Environment}
    (sameSecret : environment.clusterSecretOrEmpty = environment.clusterSecret)
    {cluster next : Cluster} {event : ClusterEvent}
    (taken : step environment cluster event = some next)
    (sends : SendsSecret environment cluster) :
    SendsSecret environment next := by
  intro message member
  rcases messages_step_cases taken member with old | sent
  · exact sends message old
  · cases sent with
    | fanOut index active node pending message found inside =>
        exact header_of_mem_fanOutMessages sameSecret inside
    | repair index node user table key targets answers message found
        inside =>
        unfold repairMessages at inside
        split at inside
        · cases inside
        · exact (mem_sendToEach.mp inside).2.1

theorem receiveArrived_eq {environment : Environment} {cluster : Cluster}
    {message : Message} (plain : IsPlainHeader environment.clusterSecret)
    (carries : message.header = some (.text environment.clusterSecret))
    (lands : message.content.Lands) (now : Nat) :
    receiveArrived environment cluster message now =
      receive environment cluster message now := by
  have arrives : message.arrives =
      some (.text environment.clusterSecret, message.content.request) := by
    rw [Message.arrives, carries, Option.bind_some,
      (arrives_text_iff _).mpr plain, Option.bind_some, lands.arrives]
    rfl
  rw [receiveArrived, arrives, receive, carries]

/-- With a plain secret, a step under names that land is one of the plain
cluster. -/
theorem wireStep_eq_step {environment : Environment}
    (plain : IsPlainHeader environment.clusterSecret)
    (sameSecret : environment.clusterSecretOrEmpty = environment.clusterSecret)
    {cluster : Cluster} (sends : SendsSecret environment cluster)
    {event : ClusterEvent} (lands : NamesLand cluster event) :
    wireStep environment cluster event = step environment cluster event := by
  have handled : ∀ (index now : Nat) (rest : Cluster),
      (∀ message ∈ cluster.messages[index]?, message.content.Lands) →
      (cluster.messages[index]?.map fun message =>
          receiveArrived environment rest message now) =
        cluster.messages[index]?.map fun message =>
          receive environment rest message now := by
    intro index now rest names
    apply Option.map_congr
    intro message found
    exact receiveArrived_eq plain
      (sends message (List.mem_of_getElem? found)) (names message found) now
  cases event with
  | deliver index now =>
      rw [wireStep, step, handled index now _ lands]
      cases cluster.messages[index]? <;> rfl
  | redeliver index now =>
      rw [wireStep, step, handled index now _ lands]
      cases cluster.messages[index]? <;> rfl
  | answer index target =>
      simp only [wireStep]
      split
      · rename_i node user table key targets answers found
        have same : (if target = node then
              some (cluster.recordAt node table key)
            else remoteAnswer environment (cluster.storeAt target) table
              key) =
            replicaAnswer environment (cluster.storeAt target) table key := by
          rw [replicaAnswer_eq]
          simp only [NamesLand, found] at lands
          rcases lands with own | names
          · rw [if_pos own, own]
            rfl
          · rw [remoteAnswer_eq plain names, ite_eq_right_iff]
            rintro rfl
            rfl
        simp only [step, found, same]
      · simp only [step]
  | pullStore joiner seed =>
      have arrives : (HeaderValue.text
          environment.clusterSecretOrEmpty).arrives =
            some (.text environment.clusterSecretOrEmpty) := by
        rw [sameSecret]
        exact (arrives_text_iff _).mpr plain
      rw [wireStep, arrives]
      rfl
  | _ =>
      rfl

/-- A run of the plain cluster in which all names land is a run on the
wire. -/
theorem runSteps_wireStep {environment : Environment}
    (plain : IsPlainHeader environment.clusterSecret)
    (sameSecret : environment.clusterSecretOrEmpty = environment.clusterSecret)
    {cluster : Cluster} (sends : SendsSecret environment cluster)
    {events : List ClusterEvent}
    (lands : StepsMeet (step environment) NamesLand cluster events) :
    runSteps (wireStep environment) cluster events =
      runSteps (step environment) cluster events := by
  induction events generalizing cluster with
  | nil =>
      rfl
  | cons event rest inductionHypothesis =>
      rw [runSteps, runSteps, wireStep_eq_step plain sameSecret sends lands.1]
      apply Option.bind_congr
      intro next taken
      exact inductionHypothesis (sendsSecret_step sameSecret taken sends)
        (lands.2 next taken)

end Cluster

end DynaRust.Network
