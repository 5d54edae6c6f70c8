import DynaRust.Network.Membership
import DynaRust.Network.Wire

/-!
# The cluster secret at its senders and checkers

Each sender and each handler reads `CLUSTER_SECRET` itself.  Most of them fall
back to `"default_secret"`, the replication of admin writes and a joining node
to the empty string, and `put_value_internal` reads a missing header as an
empty one.  A header is read as what arrives of it, so not every secret that
can be sent is read as it was set.
-/

namespace DynaRust.Security

open DynaRust.Foundation DynaRust.Network DynaRust.Storage

/-- The handlers that check the cluster secret. -/
inductive Checkpoint where
  | getValue
  | putValueInternal
  | deleteValue
  | access
  | getGlobalStore
  | updateMembership
  | joinCluster
  deriving DecidableEq, Repr

/-- The check of each handler on what a request presents: its
`X-Internal-Request`, `x-api-key` or `X-Cluster-Token` header, or the secret in
the body of a join. -/
def Checkpoint.passes (secret : String) (presented : Option HeaderValue) :
    Checkpoint → Bool
  | .getValue => headerPresents secret presented
  | .putValueInternal => providedSecret presented == secret
  | .deleteValue => headerPresents secret presented
  | .access => headerPresents secret presented
  | .getGlobalStore => presentsToken secret presented
  | .updateMembership => presentsToken secret presented
  | .joinCluster => presentsToken secret presented

/-! ## The handlers behind the checks -/

/-- The handler that a replicated change is addressed to. -/
def checkpointOf : InternalRequest → Checkpoint
  | .putValueInternal _ _ _ => .putValueInternal
  | .deleteValue _ _ => .deleteValue
  | .access _ _ => .access

/-- A replicated change that fails the check changes no record. -/
theorem record_of_not_passes {environment : Environment}
    {currentAddr : String} {store : Store} {header : Option HeaderValue}
    {content : InternalRequest} {now : Nat}
    (refused : (checkpointOf content).passes environment.clusterSecret header =
      false) (table key : String) :
    (handle environment currentAddr store header content.request
        now).store.record table key = store.record table key := by
  rw [record_handle]
  cases content with
  | putValueInternal table' key' payload =>
      have other : providedSecret header ≠ environment.clusterSecret :=
        fun same => by simp [checkpointOf, Checkpoint.passes, same] at refused
      simp [InternalRequest.request, requestChange, other]
  | deleteValue table' key' =>
      have other : headerPresents environment.clusterSecret header = false :=
        refused
      simp [InternalRequest.request, requestChange, other]
  | access user hashed =>
      have other : headerPresents environment.clusterSecret header = false :=
        refused
      simp [InternalRequest.request, requestChange, accessChange, other]

theorem getGlobalStore_eq (secret : String) (store : Store)
    (apiKey : Option HeaderValue) :
    (getGlobalStore secret store apiKey).response =
        some ⟨200, .store store⟩ ↔
      Checkpoint.getGlobalStore.passes secret apiKey = true := by
  cases apiKey with
  | none =>
      simp [getGlobalStore, Checkpoint.passes, presentsToken]
  | some header =>
      cases header with
      | binary =>
          simp [getGlobalStore, Checkpoint.passes, presentsToken]
      | text key =>
          by_cases same : key = secret
          · simp [getGlobalStore, Checkpoint.passes, presentsToken, same]
          · simp [getGlobalStore, Checkpoint.passes, presentsToken, same]

theorem joinCluster_isOk_iff (environment : Environment) (nodes : Membership)
    (request : JoinRequest) (now : Nat) :
    (joinCluster environment nodes request now).2.isOk = true ↔
      Checkpoint.joinCluster.passes environment.clusterSecret
        (some (.text request.secret)) = true := by
  by_cases same : request.secret = environment.clusterSecret
  · simp [joinCluster, Checkpoint.passes, presentsToken, same, Except.isOk,
      Except.toBool]
  · simp [joinCluster, Checkpoint.passes, presentsToken, same, Except.isOk,
      Except.toBool]

/-! ## Who sends what -/

/-- What arrives at each of the handlers of what the program sends.  The
secret of a join travels in the body, all others in a header. -/
inductive Sends (environment : Environment) :
    Checkpoint → Option HeaderValue → Prop
  /-- Replication of user and admin writes, deletes and registrations. -/
  | fanOut (currentAddr : String) (active : List String) (pending : FanOut)
      (message : Message) (header arrived : HeaderValue) :
      message ∈ fanOutMessages environment currentAddr active pending →
      message.header = some header → header.arrives = some arrived →
      Sends environment (checkpointOf message.content) (some arrived)
  | readRepair (table key : String)
      (gathered : List (String × Option VersionedValue)) (message : Message)
      (header arrived : HeaderValue) :
      message ∈ repairMessages environment table key gathered →
      message.header = some header → header.arrives = some arrived →
      Sends environment (checkpointOf message.content) (some arrived)
  | remoteRead (arrived : HeaderValue) :
      (HeaderValue.text environment.clusterSecret).arrives = some arrived →
      Sends environment .getValue (some arrived)
  | gossip (arrived : HeaderValue) :
      (gossipToken environment).arrives = some arrived →
      Sends environment .updateMembership (some arrived)
  | join (currentNode : String) :
      Sends environment .joinCluster
        (some (.text (joinRequest environment currentNode).secret))
  | pullStore (arrived : HeaderValue) :
      (HeaderValue.text environment.clusterSecretOrEmpty).arrives =
        some arrived →
      Sends environment .getGlobalStore (some arrived)

/-- Whatever the program sends passes the check it is addressed to, and
nothing but the secret passes any check. -/
structure SecretsAgree (environment : Environment) : Prop where
  ownPass : ∀ checkpoint presented,
    Sends environment checkpoint presented →
      checkpoint.passes environment.clusterSecret presented = true
  othersFail : ∀ (checkpoint : Checkpoint) (presented : Option HeaderValue),
    checkpoint.passes environment.clusterSecret presented = true →
      presented = some (.text environment.clusterSecret)

theorem passes_secret (checkpoint : Checkpoint) (secret : String) :
    checkpoint.passes secret (some (.text secret)) = true := by
  cases checkpoint <;>
    simp [Checkpoint.passes, headerPresents, providedSecret, presentsToken]

theorem eq_text_of_presentsToken {secret : String}
    {presented : Option HeaderValue}
    (passes : presentsToken secret presented = true) :
    presented = some (.text secret) := by
  cases presented with
  | none =>
      cases passes
  | some header =>
      cases header with
      | binary =>
          cases passes
      | text token =>
          rw [beq_iff_eq.mp passes]

/-- A non-empty secret is provided by nothing but itself. -/
theorem eq_text_of_providedSecret {secret : String}
    {presented : Option HeaderValue} (nonempty : secret ≠ "")
    (provided : providedSecret presented = secret) :
    presented = some (.text secret) := by
  cases presented with
  | none =>
      exact absurd provided.symm nonempty
  | some header =>
      cases header with
      | binary =>
          exact absurd provided.symm nonempty
      | text token =>
          exact congrArg (fun text => some (HeaderValue.text text)) provided

theorem eq_text_of_passes {secret : String} {checkpoint : Checkpoint}
    {presented : Option HeaderValue} (nonempty : secret ≠ "")
    (passes : checkpoint.passes secret presented = true) :
    presented = some (.text secret) := by
  have internal : headerPresents secret presented = true →
      presented = some (.text secret) := fun presents =>
    eq_text_of_providedSecret nonempty
      (providedSecret_eq_of_headerPresents presents)
  cases checkpoint with
  | getValue =>
      exact internal passes
  | deleteValue =>
      exact internal passes
  | access =>
      exact internal passes
  | putValueInternal =>
      exact eq_text_of_providedSecret nonempty (beq_iff_eq.mp passes)
  | getGlobalStore =>
      exact eq_text_of_presentsToken passes
  | updateMembership =>
      exact eq_text_of_presentsToken passes
  | joinCluster =>
      exact eq_text_of_presentsToken passes

/-- All changes are sent with one of the two readings of the variable. -/
theorem header_of_mem_fanOutMessages_cases {environment : Environment}
    {currentAddr : String} {active : List String} {pending : FanOut}
    {message : Message}
    (member : message ∈
      fanOutMessages environment currentAddr active pending) :
    message.header = some (.text environment.clusterSecret) ∨
      message.header = some (.text environment.clusterSecretOrEmpty) := by
  cases pending with
  | replicateAdminChange table key payload =>
      exact Or.inr (mem_sendToEach.mp member).2.1
  | _ =>
      exact Or.inl (mem_sendToEach.mp member).2.1

/-- Where the variable is set to a plain text, that text arrives everywhere. -/
theorem presented_of_sends {environment : Environment} {secret : String}
    (set : environment.clusterSecretVar = some secret)
    (plain : IsPlainHeader secret)
    {checkpoint : Checkpoint} {presented : Option HeaderValue}
    (sent : Sends environment checkpoint presented) :
    presented = some (.text secret) := by
  have withDefault : environment.clusterSecret = secret := by
    rw [Environment.clusterSecret, set, Option.getD_some]
  have orEmpty : environment.clusterSecretOrEmpty = secret := by
    rw [Environment.clusterSecretOrEmpty, set, Option.getD_some]
  have unchanged : ∀ {header arrived : HeaderValue},
      header = .text secret → header.arrives = some arrived →
        some arrived = some (.text secret) := by
    rintro _ arrived rfl arrives
    rw [← arrives, (arrives_text_iff secret).mpr plain]
  cases sent with
  | fanOut currentAddr active pending message header arrived member carries
      arrives =>
      refine unchanged ?_ arrives
      have known := header_of_mem_fanOutMessages_cases member
      rw [withDefault, orEmpty, or_self, carries] at known
      exact Option.some.inj known
  | readRepair table key gathered message header arrived member carries
      arrives =>
      refine unchanged ?_ arrives
      unfold repairMessages at member
      split at member
      · cases member
      · have known := (mem_sendToEach.mp member).2.1
        rw [withDefault, carries] at known
        exact Option.some.inj known
  | remoteRead arrived arrives =>
      exact unchanged (by rw [withDefault]) arrives
  | gossip arrived arrives =>
      exact unchanged (by rw [gossipToken, withDefault]) arrives
  | join currentNode =>
      rw [joinRequest, orEmpty]
  | pullStore arrived arrives =>
      exact unchanged (by rw [orEmpty]) arrives

/-- A secret that can be sent is agreed on exactly when it is set, not to the
empty string, and plain: visible ASCII without a blank at either end. -/
theorem secretsAgree_iff {environment : Environment}
    (sendable : ∀ secret ∈ environment.clusterSecretVar,
      IsHeaderText secret) :
    SecretsAgree environment ↔
      ∃ secret, environment.clusterSecretVar = some secret ∧ secret ≠ "" ∧
        IsPlainHeader secret := by
  constructor
  · intro agree
    cases set : environment.clusterSecretVar with
    | none =>
        have empty : environment.clusterSecretOrEmpty = "" := by
          rw [Environment.clusterSecretOrEmpty, set, Option.getD_none]
        have pulled := agree.ownPass _ _ (.pullStore (.text "") (by
          rw [empty]
          decide))
        simp [Checkpoint.passes, presentsToken, Environment.clusterSecret,
          set] at pulled
    | some secret =>
        have same : environment.clusterSecret = secret := by
          rw [Environment.clusterSecret, set, Option.getD_some]
        have nonempty : secret ≠ "" := by
          rintro rfl
          have missing : Checkpoint.putValueInternal.passes
              environment.clusterSecret none = true := by
            rw [same]
            rfl
          cases agree.othersFail _ _ missing
        obtain ⟨arrived, arrives⟩ := exists_arrives (sendable secret set)
        have read := agree.ownPass _ _ (.remoteRead arrived (by
          rw [same]
          exact arrives))
        rw [same] at read
        have unchanged := Option.some.inj (eq_text_of_passes nonempty read)
        rw [unchanged] at arrives
        exact ⟨secret, rfl, nonempty, (arrives_text_iff secret).mp arrives⟩
  · rintro ⟨secret, set, nonempty, plain⟩
    have same : environment.clusterSecret = secret := by
      rw [Environment.clusterSecret, set, Option.getD_some]
    rw [← same] at nonempty
    constructor
    · intro checkpoint presented sent
      rw [presented_of_sends set plain sent, same]
      exact passes_secret checkpoint secret
    · intro checkpoint presented passes
      exact eq_text_of_passes nonempty passes

theorem sampleSecret_agrees : SecretsAgree Cluster.sampleEnvironment := by
  refine (secretsAgree_iff ?_).mpr ⟨"cluster-secret", rfl, ?_, ?_⟩
  · intro secret set
    cases set
    decide
  · decide
  · decide

/-- A process whose secret is set. -/
def environmentWith (secret : String) : Environment :=
  { bareEnvironment with clusterSecretVar := some secret }

/-- Without the variable the replication of an admin write, the join and the
pull are refused.  With an empty secret a request without any header passes.
A secret with a letter that is not ASCII, or with a blank in front, can be
sent, but the program's own reads are refused. -/
theorem secrets_disagree :
    (∃ message ∈ fanOutMessages bareEnvironment "A" ["A", "B"]
        (.replicateAdminChange "notes" "n" (.new ∅ "admin" "A" 1)),
      (checkpointOf message.content).passes bareEnvironment.clusterSecret
        (message.header.bind HeaderValue.arrives) = false) ∧
      Checkpoint.joinCluster.passes bareEnvironment.clusterSecret
        (some (.text (joinRequest bareEnvironment "C").secret)) = false ∧
      Checkpoint.getGlobalStore.passes bareEnvironment.clusterSecret
        (HeaderValue.text bareEnvironment.clusterSecretOrEmpty).arrives =
          false ∧
      ¬ SecretsAgree bareEnvironment ∧
      Checkpoint.putValueInternal.passes (environmentWith "").clusterSecret
        none = true ∧
      ¬ SecretsAgree (environmentWith "") ∧
      (IsHeaderText "é" ∧ Checkpoint.getValue.passes "é"
        (HeaderValue.text "é").arrives = false) ∧
      ¬ SecretsAgree (environmentWith "é") ∧
      (IsHeaderText " a" ∧ Checkpoint.getValue.passes " a"
        (HeaderValue.text " a").arrives = false) ∧
      ¬ SecretsAgree (environmentWith " a") := by
  refine ⟨by decide, by decide, by decide, ?_, by decide, ?_,
    ⟨by decide, by decide⟩, ?_, ⟨by decide, by decide⟩, ?_⟩
  · intro agree
    have pulled := agree.ownPass _ _ (.pullStore (.text "") (by decide))
    exact absurd pulled (by decide)
  · intro agree
    have missing := agree.othersFail .putValueInternal none (by decide)
    cases missing
  · intro agree
    have read := agree.ownPass _ _ (.remoteRead .binary (by decide))
    exact absurd read (by decide)
  · intro agree
    have read := agree.ownPass _ _ (.remoteRead (.text "a") (by decide))
    exact absurd read (by decide)

end DynaRust.Security
