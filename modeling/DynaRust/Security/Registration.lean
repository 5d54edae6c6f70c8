import DynaRust.Network.Provenance

/-!
# Registrations in a run
-/

namespace DynaRust.Network.Cluster

open DynaRust.Foundation DynaRust.Security DynaRust.Storage

/-- The step acknowledges a registration of `user` with `secret`. -/
def Registers (environment : Environment) (cluster : Cluster)
    (event : ClusterEvent) (user secret : String) : Prop :=
  ∃ node header userHeader now,
    event = .client node header (.access user userHeader (.json secret)) now ∧
    (handle environment node (cluster.storeAt node) header
      (.access user userHeader (.json secret)) now).response =
        some ⟨201, .token ⟨user, none⟩ (some "User created")⟩

def Registered (environment : Environment) (history : History)
    (user secret : String) : Prop :=
  ∃ taken ∈ history, Registers environment taken.1 taken.2 user secret

theorem registers_of_absent {environment : Environment} {cluster : Cluster}
    {node user : String} {header : Option HeaderValue}
    (external : providedSecret header ≠ environment.clusterSecret)
    (missing : cluster.recordAt node "auth" user = none)
    (secret : String) (userHeader : Option HeaderValue) (now : Nat) :
    Registers environment cluster
      (.client node header (.access user userHeader (.json secret)) now)
      user secret := by
  refine ⟨node, header, userHeader, now, rfl, ?_⟩
  have notInternal :
      ¬ headerPresents environment.clusterSecret header = true :=
    fun presents => external (providedSecret_eq_of_headerPresents presents)
  have absent : (cluster.storeAt node).record "auth" user = none :=
    missing
  simp [handle, access, notInternal, absent]

/-- Only users without a record at the node are registered. -/
theorem absent_of_registers {environment : Environment} {cluster : Cluster}
    {event : ClusterEvent} {user secret : String}
    (registers : Registers environment cluster event user secret) :
    ∃ node header userHeader now,
      event = .client node header (.access user userHeader (.json secret))
        now ∧
      cluster.recordAt node "auth" user = none := by
  obtain ⟨node, header, userHeader, now, same, answered⟩ := registers
  refine ⟨node, header, userHeader, now, same, ?_⟩
  cases stored : cluster.recordAt node "auth" user with
  | none =>
      rfl
  | some record =>
      have held : (cluster.storeAt node).record "auth" user = some record :=
        stored
      simp only [handle, access, Store.record_orDefault, held] at answered
      split at answered
      · cases answered
      · split at answered
        · cases answered
        · split at answered <;> cases answered

theorem registersNobody_of_ne {environment : Environment}
    {cluster : Cluster} {node user : String} {header : Option HeaderValue}
    {request : Request} {now : Nat}
    (notAccess : ∀ userHeader secret,
      request ≠ .access user userHeader (.json secret)) (secret : String) :
    ¬ Registers environment cluster (.client node header request now) user
      secret := by
  intro registers
  obtain ⟨_, _, userHeader, _, same, -⟩ := registers
  cases same
  exact notAccess userHeader secret rfl

theorem registersNobody_of_not_client {environment : Environment}
    {cluster : Cluster} {event : ClusterEvent}
    (notClient : event.isClient = false) (user secret : String) :
    ¬ Registers environment cluster event user secret := by
  rintro ⟨_, _, _, _, rfl, -⟩
  cases notClient

/-- A run registers only whom its events ask to register. -/
theorem unregistered_of_events {environment : Environment}
    {taking : Cluster → ClusterEvent → Option Cluster} {cluster : Cluster}
    {events : List ClusterEvent} {user : String}
    (never : ∀ node header userHeader secret now,
      .client node header (.access user userHeader (.json secret)) now ∉
        events) (secret : String) :
    ¬ Registered environment (runTrace taking cluster events) user secret := by
  rintro ⟨taken, member, node, header, userHeader, now, same, -⟩
  have listed := mem_of_mem_runTrace member
  rw [same] at listed
  exact never node header userHeader secret now listed

end DynaRust.Network.Cluster
