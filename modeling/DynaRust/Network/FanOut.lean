import DynaRust.Network.Cluster
import DynaRust.Network.RingWalk

/-!
# Whom a change is sent to

The six write paths compute their targets in the same way and take their own
node out of them, except for `put_value`: it sends its change to its own node
as well, if that is listed as Active.
-/

namespace DynaRust.Network

open DynaRust.Foundation

theorem nodup_getActiveNodes (nodes : Membership) :
    (getActiveNodes nodes).Nodup := by
  have below : getActiveNodes nodes ≤ nodes.entries.keys :=
    Multiset.map_le_map (Multiset.filter_le _ nodes.entries)
  exact Multiset.nodup_of_le below nodes.nodupKeys.nodup_keys

def FanOut.isPut : FanOut → Bool
  | .putValue _ _ _ => true
  | _ => false

/-- The name that is hashed to find the place on the ring. -/
def FanOut.ringKey : FanOut → String
  | .putValue _ key _ => key
  | .patchValue _ key _ => key
  | .deleteValue _ key => key
  | .replicateAdminChange _ key _ => key
  | .adminDeleteRecord _ key => key
  | .access username _ => username

theorem target_sendToEach (secret : String) (content : InternalRequest)
    (targets : List String) :
    (sendToEach secret content targets).map Message.target = targets := by
  rw [sendToEach, List.map_map]
  exact List.map_id targets

/-- The targets of a PUT are all replication nodes, those of the other changes
all but the own node. -/
theorem target_fanOutMessages (environment : Environment)
    (currentAddr : String) (active : List String) (pending : FanOut) :
    (fanOutMessages environment currentAddr active pending).map
        Message.target =
      (getReplicationNodes environment.hash pending.ringKey active
        active.length).filter
          fun target => pending.isPut = true ∨ target ≠ currentAddr := by
  cases pending with
  | putValue table key payload =>
      simp [fanOutMessages, target_sendToEach, FanOut.ringKey, FanOut.isPut]
  | patchValue table key payload =>
      simp [fanOutMessages, target_sendToEach, FanOut.ringKey, FanOut.isPut]
  | deleteValue table key =>
      simp [fanOutMessages, target_sendToEach, FanOut.ringKey, FanOut.isPut]
  | replicateAdminChange table key payload =>
      simp [fanOutMessages, target_sendToEach, FanOut.ringKey, FanOut.isPut]
  | adminDeleteRecord table key =>
      simp [fanOutMessages, target_sendToEach, FanOut.ringKey, FanOut.isPut]
  | access username hashedSecret =>
      simp [fanOutMessages, target_sendToEach, FanOut.ringKey, FanOut.isPut]

/-- Every listed node other than the own one is sent the change. -/
theorem exists_fanOutMessage {environment : Environment}
    {currentAddr target : String} {active : List String}
    (pending : FanOut) (distinct : active.Nodup)
    (noCollisions : NoLabelCollisions environment.hash active)
    (listed : target ∈ active) (different : target ≠ currentAddr) :
    ∃ message ∈ fanOutMessages environment currentAddr active pending,
      message.target = target := by
  have all := perm_getReplicationNodes pending.ringKey distinct noCollisions
  rw [← List.mem_map, target_fanOutMessages, List.mem_filter]
  exact ⟨all.mem_iff.mpr listed, by simp [different]⟩

/-- Where the variable is set, all changes are sent with one secret. -/
theorem header_of_mem_fanOutMessages {environment : Environment}
    (sameSecret : environment.clusterSecretOrEmpty = environment.clusterSecret)
    {currentAddr : String} {active : List String} {pending : FanOut}
    {message : Message}
    (member : message ∈
      fanOutMessages environment currentAddr active pending) :
    message.header = some (.text environment.clusterSecret) := by
  cases pending with
  | replicateAdminChange table key payload =>
      rw [← sameSecret]
      exact (mem_sendToEach.mp member).2.1
  | _ =>
      exact (mem_sendToEach.mp member).2.1

namespace Cluster

/-- Every listed node other than the sender is sent the request once, and
nobody else is sent anything. -/
structure AddressesOthers (active : Multiset String) (currentAddr : String)
    (content : InternalRequest) (sent : List Message) : Prop where
  targets : ((sent.map Message.target : List String) : Multiset String) =
    active.filter fun node => node ≠ currentAddr
  content : ∀ message ∈ sent, message.content = content

theorem sentSince_fanOut {environment : Environment}
    {cluster next : Cluster} {index : Nat} {active : List String}
    {node : String} {pending : FanOut}
    (found : cluster.tasks[index]? = some (node, .fanOut pending))
    (taken : step environment cluster (.fanOut index active) = some next) :
    (active : Multiset String) = cluster.activeAt node ∧
      sentSince cluster next =
        fanOutMessages environment node active pending := by
  cases taken_of_step taken with
  | fanOut index active node' pending' found' known =>
      cases found.symm.trans found'
      exact ⟨known, List.drop_left⟩

/-- A change is sent to every Active node other than its own exactly once and
to no other node, if and only if it is no PUT or its node is not listed as
Active. -/
theorem addressesOthers_iff {environment : Environment}
    {cluster next : Cluster} {index : Nat} {active : List String}
    {node : String} {pending : FanOut}
    (found : cluster.tasks[index]? = some (node, .fanOut pending))
    (taken : step environment cluster (.fanOut index active) = some next)
    (noCollisions : NoLabelCollisions environment.hash active) :
    AddressesOthers (cluster.activeAt node) node pending.content
        (sentSince cluster next) ↔
      (pending.isPut = true → node ∉ cluster.activeAt node) := by
  obtain ⟨known, sent⟩ := sentSince_fanOut found taken
  have distinct : active.Nodup := by
    rw [← Multiset.coe_nodup, known]
    exact nodup_getActiveNodes _
  have all := perm_getReplicationNodes pending.ringKey distinct noCollisions
  have addressed :
      (((sentSince cluster next).map Message.target : List String) :
          Multiset String) =
        (cluster.activeAt node).filter
          fun target => pending.isPut = true ∨ target ≠ node := by
    rw [sent, target_fanOutMessages, ← known, Multiset.filter_coe]
    exact Multiset.coe_eq_coe.mpr (all.filter _)
  have carries : ∀ message ∈ sentSince cluster next,
      message.content = pending.content := by
    intro message member
    rw [sent] at member
    exact content_of_mem_fanOutMessages member
  constructor
  · rintro ⟨targets, -⟩ isPut own
    rw [addressed] at targets
    have listed : node ∈ (cluster.activeAt node).filter
        fun target => pending.isPut = true ∨ target ≠ node :=
      Multiset.mem_filter.mpr ⟨own, by simp [isPut]⟩
    rw [targets] at listed
    exact (Multiset.mem_filter.mp listed).2 rfl
  · intro notSelf
    refine ⟨?_, carries⟩
    rw [addressed]
    apply Multiset.filter_congr
    intro target member
    cases isPut : pending.isPut with
    | false =>
        simp
    | true =>
        have different : target ≠ node := by
          rintro rfl
          exact notSelf isPut member
        simp [different]

/-- Alice PUTs, then DELETEs, her note at A. -/
def putAtA : List ClusterEvent :=
  [.client "A" none (.putValue aliceToken "notes" "n" ∅) 1]

def deleteAtA : List ClusterEvent :=
  putAtA ++ [.fanOut 0 ["A", "B"],
    .client "A" none (.deleteValue aliceToken "notes" "n") 2,
    .remove 0]

def afterPut : Cluster :=
  runResult (step sampleEnvironment) (initial (allActive ["A", "B"])) putAtA
    (by decide)

def afterDelete : Cluster :=
  runResult (step sampleEnvironment) (initial (allActive ["A", "B"]))
    deleteAtA (by decide)

def putSent : Cluster :=
  (step sampleEnvironment afterPut (.fanOut 0 ["A", "B"])).get (by decide)

def deleteSent : Cluster :=
  (step sampleEnvironment afterDelete (.fanOut 0 ["A", "B"])).get (by decide)

theorem delete_addressesOthers :
    AddressesOthers (afterDelete.activeAt "A") "A" (.deleteValue "notes" "n")
      (sentSince afterDelete deleteSent) := by
  have pending : afterDelete.tasks[0]? =
      some ("A", .fanOut (.deleteValue "notes" "n")) := by
    decide
  exact (addressesOthers_iff pending (Option.some_get _).symm
    (by decide)).mpr (by decide)

/-- A sends its PUT to itself. -/
theorem put_addressesItself :
    runSteps (step sampleEnvironment) (initial (allActive ["A", "B"]))
        putAtA = some afterPut ∧
      step sampleEnvironment afterPut (.fanOut 0 ["A", "B"]) = some putSent ∧
      (∃ message ∈ sentSince afterPut putSent, message.target = "A") ∧
      ¬ AddressesOthers (afterPut.activeAt "A") "A"
        (.putValueInternal "notes" "n" (.new ∅ "alice" "A" 1))
        (sentSince afterPut putSent) := by
  refine ⟨runSteps_eq_some_runResult _ _ _ _, (Option.some_get _).symm,
    by decide, ?_⟩
  intro addresses
  exact absurd addresses.targets (by decide)

end Cluster

end DynaRust.Network
