import DynaRust.Network.WireRuns
import DynaRust.Security.Registration

/-!
# The `auth` table under the generic routes

Credentials live in an ordinary table.  Registrations keep it well formed, but
`PUT` and `PATCH` on `/auth/key/{user}` reach it as well and check nothing
beyond the owner of the record that is there.  So do the requests between
nodes, whose paths can lead to a credential that the sender did not name.
-/

namespace DynaRust.Network.Cluster

open DynaRust.Foundation DynaRust.Security DynaRust.Storage

/-! ## Credentials -/

/-- The hash of a secret that was registered for `user`. -/
def IsSecretOf (environment : Environment) (history : History)
    (user : String) (value : Option Value) : Prop :=
  ∃ secret, Registered environment history user secret ∧
    value = some (.string (environment.sha256Hex secret))

/-- A credential of `user` as a registration makes it. -/
def IsCredential (environment : Environment) (history : History)
    (user : String) (record : VersionedValue) : Prop :=
  record.owner = user ∧
    IsSecretOf environment history user (record.value.lookup "secret")

theorem IsSecretOf.append {environment : Environment} {history : History}
    {user : String} {value : Option Value}
    (isSecret : IsSecretOf environment history user value)
    (later : History) :
    IsSecretOf environment (history ++ later) user value := by
  obtain ⟨secret, ⟨taken, member, registers⟩, same⟩ := isSecret
  exact ⟨secret, ⟨taken, List.mem_append_left later member, registers⟩, same⟩

theorem IsCredential.append {environment : Environment} {history : History}
    {user : String} {record : VersionedValue}
    (credential : IsCredential environment history user record)
    (later : History) :
    IsCredential environment (history ++ later) user record :=
  ⟨credential.1, credential.2.append later⟩

/-- A step that registers nobody adds no secret. -/
theorem IsSecretOf.of_append {environment : Environment} {history : History}
    {cluster : Cluster} {event : ClusterEvent} {user : String}
    {value : Option Value}
    (isSecret : IsSecretOf environment (history ++ [(cluster, event)]) user
      value)
    (registersNobody : ∀ secret,
      ¬ Registers environment cluster event user secret) :
    IsSecretOf environment history user value := by
  obtain ⟨secret, ⟨taken, member, registers⟩, same⟩ := isSecret
  rcases List.mem_append.mp member with old | last
  · exact ⟨secret, ⟨taken, old, registers⟩, same⟩
  · cases List.mem_singleton.mp last
    exact absurd registers (registersNobody secret)

theorem IsCredential.of_append {environment : Environment}
    {history : History} {cluster : Cluster} {event : ClusterEvent}
    {user : String} {record : VersionedValue}
    (credential : IsCredential environment (history ++ [(cluster, event)])
      user record)
    (registersNobody : ∀ secret,
      ¬ Registers environment cluster event user secret) :
    IsCredential environment history user record :=
  ⟨credential.1, credential.2.of_append registersNobody⟩

/-- A registration stores a credential of its user. -/
theorem isCredential_new {environment : Environment} {history : History}
    {user hashed : String} (nodeId : String) (now : Nat)
    (isSecret : IsSecretOf environment history user
      (some (.string hashed))) :
    IsCredential environment history user
      (VersionedValue.new (secretMap hashed) user nodeId now) := by
  refine ⟨rfl, ?_⟩
  have stored : (VersionedValue.new (secretMap hashed) user nodeId
      now).value.lookup "secret" = some (.string hashed) := by
    simp [VersionedValue.new, secretMap]
  rw [stored]
  exact isSecret

/-! ## The table is sound -/

/-- Every record of `auth` is a credential of its user. -/
def AuthTableSound (environment : Environment) (state : History × Cluster) :
    Prop :=
  ∀ node user record, state.2.recordAt node "auth" user = some record →
    IsCredential environment state.1 user record

/-- A client that is given a token by `access` presents a secret whose hash is
that of a registered secret of the token's subject, maybe the one it registers
with this request. -/
def TokensSound (environment : Environment) (state : History × Cluster) :
    Prop :=
  ∀ node header user userHeader secret now status claims note,
    providedSecret header ≠ environment.clusterSecret →
    (handle environment node (state.2.storeAt node) header
      (.access user userHeader (.json secret)) now).response =
        some ⟨status, .token claims note⟩ →
    claims.sub = user ∧
      IsSecretOf environment
        (state.1 ++ [(state.2, .client node header
          (.access user userHeader (.json secret)) now)])
        user (some (.string (environment.sha256Hex secret)))

/-- Credentials in stores, messages and pending handlers alike, as long as
their names arrive. -/
structure CredentialsCarried (environment : Environment)
    (state : History × Cluster) : Prop where
  stored : AuthTableSound environment state
  pulled : ∀ joiner remote, (joiner, remote) ∈ state.2.snapshots →
    ∀ user version, remote.record "auth" user = some version →
      IsCredential environment state.1 user version
  written : ∀ node task, (node, .fanOut task) ∈ state.2.tasks →
    ∀ user version, task.content = .putValueInternal "auth" user version →
      IsCredential environment state.1 user version
  answered : ∀ node reader user targets answers,
    (node, .collect reader "auth" user targets answers) ∈ state.2.tasks →
    PeerCall.read.Lands "auth" user →
    ∀ target version, (target, some (some version)) ∈ answers →
      IsCredential environment state.1 user version
  sent : ∀ message ∈ state.2.messages, ∀ user version,
    message.content = .putValueInternal "auth" user version →
    PeerCall.write.Lands "auth" user →
      IsCredential environment state.1 user version
  registering : ∀ node task, (node, .fanOut task) ∈ state.2.tasks →
    ∀ user hashed, task.content = .access user hashed →
      IsSecretOf environment state.1 user (some (.string hashed))
  registered : ∀ message ∈ state.2.messages, ∀ user hashed,
    message.content = .access user hashed →
      IsSecretOf environment state.1 user (some (.string hashed))

/-- No request of the run presents an admin token. -/
def PresentsNoAdminToken : ClusterEvent → Prop
  | .client _ _ request _ => validateAdminToken request.authorization = false
  | _ => True

/-- What the request stores under a name of `auth`, if anything, is a
credential of that user. -/
def ArrivesWithCredential (environment : Environment)
    (state : History × Cluster) (target : String) (header : HeaderValue) :
    Request → Prop
  | .putValueInternal table key version =>
      table = "auth" →
      providedSecret (some header) = environment.clusterSecret →
      (∀ held ∈ state.2.recordAt target "auth" key,
        version.beats held = true) →
      IsCredential environment state.1 key version
  | .access user userHeader (.bincode hashed) =>
      headerPresents environment.clusterSecret (some header) = true →
      (userHeader.bind HeaderValue.toStr).getD user = user ∧
        IsSecretOf environment state.1 user (some (.string hashed))
  | _ => True

/-- The message arrives under the names it was sent with, or brings a
credential to where it arrives. -/
def DeliversCredential (environment : Environment)
    (state : History × Cluster) (message : Message) : Prop :=
  message.content.Lands ∨
    ∀ header request, message.arrives = some (header, request) →
      ArrivesWithCredential environment state message.target header request

/-- An accepted PUT on a key of `auth` comes from the user of that name and
stores the hash of a registered secret; an accepted PATCH that sets the secret
sets such a hash; and no message leads to a credential that it does not name
with anything else. -/
def StoresCredential (environment : Environment)
    (state : History × Cluster) : ClusterEvent → Prop
  | .client node _ (.putValue (.bearer claims) table key body) _ =>
      table = "auth" →
      (∀ held ∈ state.2.recordAt node "auth" key, held.owner = claims.sub) →
      claims.sub = key ∧
        IsSecretOf environment state.1 key (body.lookup "secret")
  | .client node _ (.patchValue (.bearer claims) table key body) _ =>
      table = "auth" →
      (∃ held ∈ state.2.recordAt node "auth" key, held.owner = claims.sub) →
      body.lookup "secret" = none ∨
        IsSecretOf environment state.1 key (body.lookup "secret")
  | .deliver index _ =>
      ∀ message ∈ state.2.messages[index]?,
        DeliversCredential environment state message
  | .redeliver index _ =>
      ∀ message ∈ state.2.messages[index]?,
        DeliversCredential environment state message
  | _ => True

theorem credentialsCarried_initial (environment : Environment)
    (members : String → Membership) :
    CredentialsCarried environment ([], initial members) where
  stored := by
    intro node user record found
    simp [recordAt, storeAt, initial] at found
  pulled := by
    intro joiner remote member
    cases member
  written := by
    intro node task member
    cases member
  answered := by
    intro node reader user targets answers member
    cases member
  sent := by
    intro message member
    cases member
  registering := by
    intro node task member
    cases member
  registered := by
    intro message member
    cases member

/-- What was carried before a step is carried into the longer history. -/
theorem CredentialsCarried.append {environment : Environment}
    {history : History} {cluster : Cluster}
    (carried : CredentialsCarried environment (history, cluster))
    (later : History) :
    CredentialsCarried environment (history ++ later, cluster) where
  stored := fun node user record found =>
    (carried.stored node user record found).append later
  pulled := fun joiner remote member user version found =>
    (carried.pulled joiner remote member user version found).append later
  written := fun node task member user version content =>
    (carried.written node task member user version content).append later
  answered := fun node reader user targets answers member lands target
      version answered =>
    (carried.answered node reader user targets answers member lands target
      version answered).append later
  sent := fun message member user version content lands =>
    (carried.sent message member user version content lands).append later
  registering := fun node task member user hashed content =>
    (carried.registering node task member user hashed content).append later
  registered := fun message member user hashed content =>
    (carried.registered message member user hashed content).append later

/-- Over a sound table `access` issues sound tokens. -/
theorem AuthTableSound.tokensSound {environment : Environment}
    {state : History × Cluster} (sound : AuthTableSound environment state) :
    TokensSound environment state := by
  intro node header user userHeader secret now status claims note external
    issued
  have notInternal :
      ¬ headerPresents environment.clusterSecret header = true :=
    fun presents => external (providedSecret_eq_of_headerPresents presents)
  cases stored : state.2.recordAt node "auth" user with
  | none =>
      have registers := registers_of_absent external stored secret userHeader
        now
      obtain ⟨_, _, _, _, same, answered⟩ := registers
      cases same
      have tokens := issued.symm.trans answered
      simp only [Option.some.injEq, Response.mk.injEq,
        ResponseBody.token.injEq] at tokens
      refine ⟨congrArg TokenClaims.sub tokens.2.1, secret, ?_, rfl⟩
      exact ⟨_, List.mem_append_right _ (List.mem_singleton_self _),
        registers_of_absent external stored secret userHeader now⟩
  | some record =>
      have held : (state.2.storeAt node).record "auth" user = some record :=
        stored
      simp only [handle, access, if_neg notInternal, Store.record_orDefault,
        held] at issued
      obtain ⟨registered, isRegistered, isString⟩ :=
        (sound node user record stored).2
      have hash : storedHash record =
          some (environment.sha256Hex registered) := by
        simp [storedHash, isString, Value.asStr]
      rw [hash] at issued
      dsimp only at issued
      split at issued
      · cases issued
      · rename_i same
        cases Option.some.inj issued
        refine ⟨rfl, IsSecretOf.append
          ⟨registered, isRegistered, ?_⟩ _⟩
        rw [not_ne_iff.mp same]

/-! ## One step -/

private theorem isCredential_of_writes {environment : Environment}
    {history : History} {cluster : Cluster} {event : ClusterEvent}
    {node user : String} {version : VersionedValue}
    (external : ∀ target header request now,
      event = .client target header request now →
        providedSecret header ≠ environment.clusterSecret)
    (noAdmin : PresentsNoAdminToken event)
    (carried : CredentialsCarried environment (history, cluster))
    (stores : StoresCredential environment (history, cluster) event)
    (written : Writes environment cluster event node "auth" user version) :
    IsCredential environment (history ++ [(cluster, event)]) user version := by
  cases written with
  | put node table key header claims body now version accepted =>
      have ownRecord : ∀ held ∈ cluster.recordAt node "auth" user,
          held.owner = claims.sub := by
        intro held stored
        rcases putLocal_eq_ok_iff.mp accepted with
          ⟨missing, -⟩ | ⟨base, found, own, -⟩
        · cases missing.symm.trans stored
        · cases found.symm.trans stored
          exact own
      obtain ⟨sameUser, isSecret⟩ := stores rfl ownRecord
      rcases putLocal_eq_ok_iff.mp accepted with
        ⟨missing, rfl⟩ | ⟨base, found, own, rfl⟩
      · exact ⟨sameUser, isSecret.append _⟩
      · exact ⟨own.trans sameUser, isSecret.append _⟩
  | patch node table key header claims body now version accepted =>
      obtain ⟨base, found, own, rfl⟩ := patchLocal_eq_ok_iff.mp accepted
      have before := carried.stored node user base found
      refine ⟨before.1, ?_⟩
      have combined : (base.patch body node now).value.lookup "secret" =
          (body.lookup "secret").or (base.value.lookup "secret") :=
        HashMap.lookup_insertAll body base.value "secret"
      rw [combined]
      rcases stores rfl ⟨base, found, own⟩ with unset | isSecret
      · rw [unset, Option.none_or]
        exact before.2.append _
      · obtain ⟨secret, registered, same⟩ := isSecret
        rw [same, Option.some_or]
        exact IsSecretOf.append ⟨secret, registered, rfl⟩ _
  | adminPut node table key header authorization body now admin =>
      cases admin.symm.trans noAdmin
  | register node user secret header userHeader now missing =>
      apply isCredential_new
      refine ⟨secret, ⟨_, List.mem_append_right _
        (List.mem_singleton_self _), ?_⟩, rfl⟩
      exact registers_of_absent (external _ _ _ _ rfl) missing secret
        userHeader now
  | replicate event message user hashed now inFlight content =>
      exact isCredential_new _ now
        ((carried.registered message inFlight user hashed content).append _)

private theorem isSecretOf_of_newTask {environment : Environment}
    {history : History} {cluster : Cluster} {event : ClusterEvent}
    {node : String} {task : FanOut}
    (external : ∀ target header request now,
      event = .client target header request now →
        providedSecret header ≠ environment.clusterSecret)
    (left : NewTask environment cluster event node (.fanOut task))
    {user hashed : String} (content : task.content = .access user hashed) :
    IsSecretOf environment (history ++ [(cluster, event)]) user
      (some (.string hashed)) := by
  cases left with
  | handled target header request now finished handled =>
      cases handled with
      | register user' secret userHeader missing =>
          cases content
          refine ⟨secret, ⟨_, List.mem_append_right _
            (List.mem_singleton_self _), ?_⟩, rfl⟩
          exact registers_of_absent (external _ _ _ _ rfl) missing secret
            userHeader now
      | put authorization table key body newValue accepted =>
          cases content
      | patch authorization table key body newValue accepted =>
          cases content
      | adminPut authorization table key body admin =>
          cases content
      | adminDelete authorization table key admin =>
          cases content
  | removed index target table key found =>
      cases content

/-- What arrives of a message stores a credential. -/
private theorem isCredential_of_arrival {environment : Environment}
    {history : History} {cluster : Cluster} {message : Message}
    (carried : CredentialsCarried environment (history, cluster))
    (inFlight : message ∈ cluster.messages)
    (delivers : DeliversCredential environment (history, cluster) message)
    {header : HeaderValue} {request : Request}
    (arrived : message.arrives = some (header, request)) {user : String}
    {now : Nat} {version : VersionedValue}
    (stores : ArrivalStores environment
      (cluster.recordAt message.target "auth" user) message.target "auth" user
      now header request version) :
    IsCredential environment history user version := by
  rcases delivers with lands | delivers
  · have same : message.content.request = request :=
      Option.some.inj (lands.arrives.symm.trans (content_arrives arrived))
    subst same
    generalize content : message.content = sent at lands stores
    cases sent with
    | putValueInternal table key payload =>
        cases stores with
        | merge version presents beats =>
            exact carried.sent message inFlight user version content lands
    | deleteValue table key =>
        cases stores
    | access username hashed =>
        cases stores with
        | replicate userHeader hashed presents isAuth =>
            exact isCredential_new _ now
              (carried.registered message inFlight user hashed content)
  · have arrives := delivers header request arrived
    cases stores with
    | merge version presents beats =>
        exact arrives rfl presents beats
    | replicate userHeader hashed presents isAuth =>
        obtain ⟨owner, isSecret⟩ := arrives presents
        rw [owner]
        exact isCredential_new _ now isSecret

/-- A message that is handled leaves the rest of the cluster alone. -/
private theorem CredentialsCarried.received {environment : Environment}
    {history : History} {cluster : Cluster} {message : Message}
    (carried : CredentialsCarried environment (history, cluster))
    {remaining : List Message} (fewer : remaining ⊆ cluster.messages)
    (inFlight : message ∈ cluster.messages)
    (delivers : DeliversCredential environment (history, cluster) message)
    (now : Nat) :
    CredentialsCarried environment (history, receiveArrived environment
      { cluster with messages := remaining } message now) := by
  constructor
  · intro node user record found
    rcases recordAt_receiveArrived_cases found with
      old | ⟨rfl, header, request, arrived, stores⟩
    · exact carried.stored node user record old
    · exact isCredential_of_arrival carried inFlight delivers arrived stores
  · rw [(receiveArrived_nodes_only now).2.2]
    exact carried.pulled
  · rw [(receiveArrived_nodes_only now).1]
    exact carried.written
  · rw [(receiveArrived_nodes_only now).1]
    exact carried.answered
  · rw [(receiveArrived_nodes_only now).2.1]
    exact fun other member => carried.sent other (fewer member)
  · rw [(receiveArrived_nodes_only now).1]
    exact carried.registering
  · rw [(receiveArrived_nodes_only now).2.1]
    exact fun other member => carried.registered other (fewer member)

/-- A replica whose name arrives answers a credential. -/
private theorem CredentialsCarried.answer {environment : Environment}
    {history : History} {cluster : Cluster} {index : Nat}
    {node target reader table key : String} {targets : List String}
    {answers : List (String × Option (Option VersionedValue))}
    {answer : Option (Option VersionedValue)}
    (carried : CredentialsCarried environment (history, cluster))
    (found : cluster.tasks[index]? =
      some (node, .collect reader table key targets answers))
    (isAnswer : answer = if target = node then
        some (cluster.recordAt node table key)
      else remoteAnswer environment (cluster.storeAt target) table key) :
    CredentialsCarried environment (history, { cluster with
      tasks := cluster.tasks.set index (node,
        .collect reader table key targets (answers ++ [(target, answer)])) })
    where
  stored := carried.stored
  pulled := carried.pulled
  written := by
    intro origin task member user version content
    rcases List.mem_or_eq_of_mem_set member with old | same
    · exact carried.written origin task old user version content
    · cases (Prod.mk.inj same).2
  answered := by
    intro origin user name asked others member lands replica version arrived
    rcases List.mem_or_eq_of_mem_set member with old | same
    · exact carried.answered origin user name asked others old lands replica
        version arrived
    · cases (Prod.mk.inj same).2
      rcases List.mem_append.mp arrived with earlier | last
      · exact carried.answered node reader key targets answers
          (List.mem_of_getElem? found) lands replica version earlier
      · have answered := (Prod.mk.inj (List.mem_singleton.mp last)).2
        rw [isAnswer] at answered
        split at answered
        · exact carried.stored node key version
            (Option.some.inj answered).symm
        · exact carried.stored target key version
            (eq_record_of_remoteAnswer lands answered.symm).symm
  sent := carried.sent
  registering := by
    intro origin task member user hashed content
    rcases List.mem_or_eq_of_mem_set member with old | same
    · exact carried.registering origin task old user hashed content
    · cases (Prod.mk.inj same).2
  registered := carried.registered

/-- A step in which nothing travels between nodes. -/
private theorem CredentialsCarried.offWire {environment : Environment}
    {history : History} {cluster next : Cluster} {event : ClusterEvent}
    (carried : CredentialsCarried environment (history, cluster))
    (noAdmin : PresentsNoAdminToken event)
    (stores : StoresCredential environment (history, cluster) event)
    (unsent : event.onWire = false)
    (taken : step environment cluster event = some next) :
    CredentialsCarried environment (history ++ [(cluster, event)], next) := by
  have external := external_of_step taken
  have kept := carried.append [(cluster, event)]
  constructor
  · intro node user version found
    rcases recordAt_step_cases taken found with old | written | incoming
    · exact kept.stored node user version old
    · exact isCredential_of_writes external noAdmin carried stores written
    · cases incoming with
      | sent index now message handles present target content =>
          rcases handles with rfl | rfl <;> cases unsent
      | pulled remote member present =>
          exact kept.pulled node remote member user version present
  · intro joiner remote member
    rcases snapshots_step_cases taken member with old | ⟨seed, rfl, -⟩
    · exact kept.pulled joiner remote old
    · cases unsent
  · intro node task member user version content
    rcases tasks_step_cases taken member with old | left
    · exact kept.written node task old user version content
    · exact isCredential_of_writes external noAdmin carried stores
        (writes_of_newTask left content)
  · intro node reader user targets answers member lands target version
      answered
    rcases tasks_step_cases taken member with old | left
    · exact kept.answered node reader user targets answers old lands target
        version answered
    · cases left with
      | handled origin header request now finished handled =>
          cases handled
      | opened index active origin reader user table targets found =>
          cases answered
      | answered index origin asked reader table user targets answers found =>
          cases unsent
      | failed index origin asked reader table user targets answers found =>
          rcases List.mem_append.mp answered with earlier | last
          · exact kept.answered node reader user targets _
              (List.mem_of_getElem? found) lands target version earlier
          · cases (Prod.mk.inj (List.mem_singleton.mp last)).2
  · intro message member user version content lands
    rcases messages_step_cases taken member with old | sent
    · exact kept.sent message old user version content lands
    · cases sent with
      | fanOut index active node task message found inside =>
          have same := content_of_mem_fanOutMessages inside
          exact kept.written node task (List.mem_of_getElem? found) user
            version (same.symm.trans content)
      | repair index node reader table key targets answers message found
          inside =>
          obtain ⟨latest, target, same, answered⟩ :=
            content_of_mem_repairMessages inside
          cases same.symm.trans content
          exact kept.answered node reader user targets answers
            (List.mem_of_getElem? found) (lands.other .read) target version
            answered
  · intro node task member user hashed content
    rcases tasks_step_cases taken member with old | left
    · exact kept.registering node task old user hashed content
    · exact isSecretOf_of_newTask external left content
  · intro message member user hashed content
    rcases messages_step_cases taken member with old | sent
    · exact kept.registered message old user hashed content
    · cases sent with
      | fanOut index active node task message found inside =>
          have same := content_of_mem_fanOutMessages inside
          exact kept.registering node task (List.mem_of_getElem? found) user
            hashed (same.symm.trans content)
      | repair index node reader table key targets answers message found
          inside =>
          obtain ⟨latest, target, same, -⟩ :=
            content_of_mem_repairMessages inside
          cases same.symm.trans content

theorem CredentialsCarried.step {environment : Environment}
    {state next : History × Cluster} {event : ClusterEvent}
    (carried : CredentialsCarried environment state)
    (noAdmin : PresentsNoAdminToken event)
    (stores : StoresCredential environment state event)
    (taken : withHistory (wireStep environment) state event = some next) :
    CredentialsCarried environment next := by
  obtain ⟨history, cluster⟩ := state
  obtain ⟨grown, after⟩ := next
  obtain ⟨enabled, rfl⟩ := withHistory_eq_some.mp taken
  have kept := carried.append [(cluster, event)]
  dsimp only at enabled
  cases wireTaken_of_wireStep enabled with
  | deliver index now message found =>
      have inFlight := List.mem_of_getElem? found
      exact (carried.received List.eraseIdx_subset inFlight
        (stores message found) now).append _
  | redeliver index now message found =>
      have inFlight := List.mem_of_getElem? found
      exact (carried.received (List.Subset.refl _) inFlight
        (stores message found) now).append _
  | answer index node target reader table user targets answers answer found
      asked waiting same =>
      exact kept.answer found same
  | pullStore joiner seed =>
      refine { kept with pulled := ?_ }
      intro target remote member user version found
      rcases List.mem_append.mp member with old | added
      · exact kept.pulled target remote old user version found
      · cases List.mem_singleton.mp added
        exact kept.stored seed user version found
  | pullRefused joiner seed =>
      exact kept
  | offWire event next unsent plain =>
      exact carried.offWire noAdmin stores unsent plain

private theorem recordAt_of_put {environment : Environment}
    {cluster next : Cluster} {node table key : String}
    {header : Option HeaderValue} {claims : TokenClaims}
    {body : HashMap String Value} {now : Nat} {version : VersionedValue}
    (taken : step environment cluster (.client node header
      (.putValue (.bearer claims) table key body) now) = some next)
    (accepted : putLocal (cluster.recordAt node table key) claims.sub body
      node now = .ok version) :
    next.recordAt node table key = some version := by
  have change : putChange ((cluster.storeAt node).record table key)
      (.bearer claims) body node now = .write version := by
    unfold putChange extractUserFromToken
    dsimp only
    rw [show putLocal ((cluster.storeAt node).record table key) claims.sub
      body node now = .ok version from accepted]
  rw [recordAt_step taken]
  simp [recordChange, requestChange, change]

private theorem recordAt_of_patch {environment : Environment}
    {cluster next : Cluster} {node table key : String}
    {header : Option HeaderValue} {claims : TokenClaims}
    {body : HashMap String Value} {now : Nat} {held : VersionedValue}
    (taken : step environment cluster (.client node header
      (.patchValue (.bearer claims) table key body) now) = some next)
    (stored : cluster.recordAt node table key = some held)
    (own : held.owner = claims.sub) :
    next.recordAt node table key = some (held.patch body node now) := by
  have found : (cluster.storeAt node).record table key = some held :=
    stored
  rw [recordAt_step taken, stored]
  simp [recordChange, requestChange, patchChange, extractUserFromToken,
    patchLocal, found, own]

/-- A message that leaves the table sound delivers a credential. -/
private theorem deliversCredential_of_sound {environment : Environment}
    {history : History} {cluster : Cluster} {event : ClusterEvent}
    {message : Message} {remaining : List Message} {now : Nat}
    (registersNobody : ∀ user secret,
      ¬ Registers environment cluster event user secret)
    (sound : AuthTableSound environment (history ++ [(cluster, event)],
      receiveArrived environment { cluster with messages := remaining }
        message now)) :
    DeliversCredential environment (history, cluster) message := by
  refine Or.inr fun header request arrived => ?_
  have credential : ∀ user version,
      ArrivalStores environment
        (cluster.recordAt message.target "auth" user) message.target "auth"
        user now header request version →
      IsCredential environment history user version := by
    intro user version stores
    exact (sound message.target user version
      (recordAt_of_arrivalStores arrived stores)).of_append
        (registersNobody user)
  unfold ArrivesWithCredential
  split
  · rename_i table key version
    intro isAuth presents beats
    subst isAuth
    exact credential key version (.merge version presents beats)
  · rename_i user userHeader hashed
    intro presents
    have stored := credential user _ (.replicate userHeader hashed presents
      rfl)
    exact ⟨stored.1, stored.2⟩
  · trivial

/-- A step that keeps the table sound stores a credential, if it stores
anything in it. -/
theorem storesCredential_of_sound {environment : Environment}
    {state next : History × Cluster} {event : ClusterEvent}
    (taken : withHistory (wireStep environment) state event = some next)
    (sound : AuthTableSound environment next) :
    StoresCredential environment state event := by
  obtain ⟨history, cluster⟩ := state
  obtain ⟨grown, after⟩ := next
  obtain ⟨enabled, rfl⟩ := withHistory_eq_some.mp taken
  dsimp only at enabled
  unfold StoresCredential
  split
  · rename_i node header claims table key body now
    intro isAuth own
    subst isAuth
    obtain ⟨version, accepted, owner, value⟩ :=
      putLocal_eq_ok_of_own own body node now
    have credential := (sound node key version
      (recordAt_of_put enabled accepted)).of_append
        (registersNobody_of_ne (by simp))
    refine ⟨owner.symm.trans credential.1, ?_⟩
    rw [← value]
    exact credential.2
  · rename_i node header claims table key body now
    intro isAuth own
    subst isAuth
    obtain ⟨held, stored, own⟩ := own
    have credential := (sound node key _
      (recordAt_of_patch enabled stored own)).of_append
        (registersNobody_of_ne (by simp))
    have combined : (held.patch body node now).value.lookup "secret" =
        (body.lookup "secret").or (held.value.lookup "secret") :=
      HashMap.lookup_insertAll body held.value "secret"
    cases set : body.lookup "secret" with
    | none =>
        exact Or.inl rfl
    | some value =>
        rw [set, Option.some_or] at combined
        have isSecret := credential.2
        rw [combined] at isSecret
        exact Or.inr isSecret
  · rename_i index now
    intro message found
    cases wireTaken_of_wireStep enabled with
    | deliver index now handled found' =>
        cases found'.symm.trans found
        exact deliversCredential_of_sound
          (registersNobody_of_not_client rfl) sound
    | offWire event next unsent plain =>
        cases unsent
  · rename_i index now
    intro message found
    cases wireTaken_of_wireStep enabled with
    | redeliver index now handled found' =>
        cases found'.symm.trans found
        exact deliversCredential_of_sound
          (registersNobody_of_not_client rfl) sound
    | offWire event next unsent plain =>
        cases unsent
  · trivial

/-- Under names that land, only clients can store anything else. -/
theorem storesCredential_of_namesLand {environment : Environment}
    {state : History × Cluster} {event : ClusterEvent}
    (lands : NamesLand state.2 event) (notClient : event.isClient = false) :
    StoresCredential environment state event := by
  cases event with
  | client node header request now =>
      cases notClient
  | deliver index now =>
      exact fun message found => Or.inl (lands message found)
  | redeliver index now =>
      exact fun message found => Or.inl (lands message found)
  | _ =>
      trivial

/-- In a cluster without admins the table stays sound, and so do the tokens
issued over it, exactly when everything that is stored in it is a credential
of the name it is stored under: by an accepted PUT or PATCH, and by a message
that arrives under another name than it was sent with. -/
theorem authSound_iff_storesCredential {environment : Environment}
    {members : String → Membership} {events : List ClusterEvent}
    {final : Cluster}
    (noAdmin : ∀ event ∈ events, PresentsNoAdminToken event)
    (reached : runSteps (wireStep environment) (initial members) events =
      some final) :
    Throughout (withHistory (wireStep environment))
        (fun state => AuthTableSound environment state ∧
          TokensSound environment state)
        ([], initial members) events ↔
      StepsMeet (withHistory (wireStep environment))
        (StoresCredential environment) ([], initial members) events := by
  have remembered :
      runSteps (withHistory (wireStep environment)) ([], initial members)
          events =
        some (runTrace (wireStep environment) (initial members) events,
          final) := by
    rw [runSteps_withHistory, reached]
    rfl
  refine throughout_iff_stepsMeet (CredentialsCarried environment) ?_ ?_ ?_
    (stepsMeet_of_forall_mem noAdmin _) remembered
    (credentialsCarried_initial environment members)
  · intro state carried
    exact ⟨carried.stored, carried.stored.tokensSound⟩
  · intro state event next noToken taken carried stores
    exact carried.step noToken stores taken
  · intro state event next _ taken _ sound
    exact storesCredential_of_sound taken sound.1

/-! ## Runs -/

/-- Alice registers, adds a note to her credential and stores it anew;
everything reaches B. -/
def aliceRegisters : List ClusterEvent :=
  [.client "A" none (.access "alice" none (.json "pw")) 1,
    .client "A" none (.patchValue aliceToken "auth" "alice"
      ((∅ : HashMap String Value).insert "note" (.string "here"))) 2,
    .client "A" none (.putValue aliceToken "auth" "alice"
      (secretMap (sampleEnvironment.sha256Hex "pw"))) 3,
    .fanOut 0 ["A", "B"],
    .fanOut 0 ["A", "B"],
    .fanOut 0 ["A", "B"],
    .deliver 0 4,
    .deliver 0 5,
    .deliver 0 6,
    .deliver 0 7]

def malloryToken : Authorization :=
  .bearer ⟨"mallory", none⟩

/-- Mallory registers and then creates a credential under another name, with
the hash of a secret of his choice. -/
def malloryPuts : List ClusterEvent :=
  [.client "A" none (.access "mallory" none (.json "pw")) 1,
    .client "A" none (.putValue malloryToken "auth" "victim"
      (secretMap (sampleEnvironment.sha256Hex "evil"))) 2]

/-- He does so in another table, whose name leads the request that his node
sends to itself into `auth`. -/
def malloryPutsBeside : List ClusterEvent :=
  [.client "A" none (.access "mallory" none (.json "pw")) 1,
    .client "A" none (.putValue malloryToken "x/../auth" "victim"
      (secretMap (sampleEnvironment.sha256Hex "evil"))) 2,
    .fanOut 1 ["A"],
    .deliver 0 3]

/-- Somebody registers under a name whose end is not part of the path. -/
def malloryRegistersBeside : List ClusterEvent :=
  [.client "A" none (.access "victim?x" none (.json "evil")) 1,
    .fanOut 0 ["A", "B"],
    .deliver 0 2]

theorem aliceRegisters_sound :
    Throughout (withHistory (wireStep sampleEnvironment))
      (fun state => AuthTableSound sampleEnvironment state ∧
        TokensSound sampleEnvironment state)
      ([], initial (allActive ["A", "B"])) aliceRegisters := by
  have names : StepsMeet (withHistory (wireStep sampleEnvironment))
      (fun state event => NamesLand state.2 event)
      ([], initial (allActive ["A", "B"])) aliceRegisters :=
    StepsMeet.withHistory (by unfold aliceRegisters; decide) []
  refine (authSound_iff_storesCredential ?_
    (runSteps_eq_some_runResult _ _ aliceRegisters (by decide))).mpr ?_
  · simp [aliceRegisters, PresentsNoAdminToken, Request.authorization,
      validateAdminToken, aliceToken]
  · refine ⟨trivial, fun ⟨_, afterFirst⟩ first => ?_⟩
    have namesFirst := names.2 _ first
    cases (withHistory_eq_some.mp first).2
    refine ⟨fun _ _ => Or.inl rfl, fun ⟨_, afterSecond⟩ second => ?_⟩
    have namesSecond := namesFirst.2 _ second
    cases (withHistory_eq_some.mp second).2
    -- the first step registered the secret whose hash is put
    have isSecret : IsSecretOf sampleEnvironment
        ([(initial (allActive ["A", "B"]), .client "A" none
            (.access "alice" none (.json "pw")) 1)] ++
          [(afterFirst, .client "A" none (.patchValue aliceToken "auth"
            "alice" ((∅ : HashMap String Value).insert "note"
              (.string "here"))) 2)]) "alice"
        (some (.string (sampleEnvironment.sha256Hex "pw"))) :=
      ⟨"pw", ⟨_, List.mem_cons_self,
        registers_of_absent (by decide) (by decide) "pw" none 1⟩, rfl⟩
    refine ⟨fun _ _ => ⟨rfl, isSecret⟩, fun after third => ?_⟩
    have namesThird := namesSecond.2 _ third
    have fromNodes : StepsMeet (withHistory (wireStep sampleEnvironment))
        (fun _ event => event.isClient = false) after
        (aliceRegisters.drop 3) :=
      stepsMeet_of_forall_mem (by decide) after
    refine (namesThird.and fromNodes).mono ?_
    intro state event met
    exact storesCredential_of_namesLand met.1 met.2

/-- Nobody registers as victim or presents an admin token, yet a record of
somebody else is there under that name, and his secret gets a token for it. -/
structure Impersonates (nodes : List String) (events : List ClusterEvent)
    (node owner : String) (final : Cluster) : Prop where
  reached : runSteps (wireStep sampleEnvironment) (initial (allActive nodes))
    events = some final
  noAdmin : ∀ event ∈ events, PresentsNoAdminToken event
  unregistered : ∀ secret, ¬ Registered sampleEnvironment
    (runTrace (wireStep sampleEnvironment) (initial (allActive nodes)) events)
    "victim" secret
  stored : (final.recordAt node "auth" "victim").map VersionedValue.owner =
    some owner
  different : owner ≠ "victim"
  issued : (handle sampleEnvironment node (final.storeAt node) none
    (.access "victim" none (.json "evil")) 9).response =
      some ⟨200, .token ⟨"victim", none⟩ none⟩

theorem malloryImpersonates_unsound :
    (∃ final, Impersonates ["A"] malloryPuts "A" "mallory" final) ∧
      (∃ final, Impersonates ["A"] malloryPutsBeside "A" "mallory" final) ∧
      ∃ final, Impersonates ["A", "B"] malloryRegistersBeside "B" "victim?x"
        final := by
  refine ⟨⟨_, runSteps_eq_some_runResult _ _ malloryPuts (by decide), ?_, ?_,
      by decide, by decide, by decide⟩,
    ⟨_, runSteps_eq_some_runResult _ _ malloryPutsBeside (by decide), ?_, ?_,
      by decide, by decide, by decide⟩,
    ⟨_, runSteps_eq_some_runResult _ _ malloryRegistersBeside (by decide),
      ?_, ?_, by decide, by decide, by decide⟩⟩
  · simp [malloryPuts, PresentsNoAdminToken, Request.authorization,
      validateAdminToken, malloryToken]
  · exact unregistered_of_events (by simp [malloryPuts])
  · simp [malloryPutsBeside, PresentsNoAdminToken, Request.authorization,
      validateAdminToken, malloryToken]
  · exact unregistered_of_events (by simp [malloryPutsBeside])
  · simp [malloryRegistersBeside, PresentsNoAdminToken, Request.authorization,
      validateAdminToken]
  · exact unregistered_of_events (by simp [malloryRegistersBeside])

end DynaRust.Network.Cluster
