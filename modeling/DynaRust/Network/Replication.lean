import DynaRust.Network.Http

/-!
# Replication targets and the requests sent to them
-/

namespace DynaRust.Network

open DynaRust.Foundation DynaRust.Storage

inductive NodeStatus where
  | active
  | suspect
  | down
  | leaving
  deriving DecidableEq, Repr

structure NodeInfo where
  status : NodeStatus
  lastHeartbeat : Nat
  deriving DecidableEq, Repr

/-- `ClusterData::nodes`. -/
abbrev Membership := HashMap String NodeInfo

/-- Extract active nodes from the cluster membership map; their order is the
iteration order of the map. -/
def getActiveNodes (nodes : Membership) : Multiset String :=
  (nodes.entries.filter fun entry => entry.2.status = .active).map Sigma.fst

theorem mem_getActiveNodes {nodes : Membership} {node : String} :
    node ∈ getActiveNodes nodes ↔
      ∃ info, nodes.lookup node = some info ∧ info.status = .active := by
  rw [getActiveNodes, Multiset.mem_map]
  constructor
  · rintro ⟨⟨name, info⟩, member, rfl⟩
    obtain ⟨inside, active⟩ := Multiset.mem_filter.mp member
    exact ⟨info, Finmap.lookup_eq_some_iff.mpr inside, active⟩
  · rintro ⟨info, found, active⟩
    exact ⟨⟨node, info⟩, Multiset.mem_filter.mpr
      ⟨Finmap.lookup_eq_some_iff.mp found, active⟩, rfl⟩

/-! ## The hash ring -/

/-- `BTreeMap::insert` on the ring, kept in ascending order. -/
def ringInsert (position : UInt64) (node : String) :
    List (UInt64 × String) → List (UInt64 × String)
  | [] => [(position, node)]
  | (position', node') :: rest =>
      if position < position' then
        (position, node) :: (position', node') :: rest
      else if position = position' then
        (position, node) :: rest
      else
        (position', node') :: ringInsert position node rest

def virtualNodes : Nat := 10

/-- `format!("{}#{}", node, v)`. -/
def virtualLabel (node : String) (v : Nat) : String :=
  node ++ "#" ++ toString v

/-- The nested loops that fill the ring. -/
def buildRing (hash : String → UInt64) (nodes : List String) :
    List (UInt64 × String) :=
  nodes.foldl
    (fun ring node => (List.range virtualNodes).foldl
      (fun ring v => ringInsert (hash (virtualLabel node v)) node ring) ring)
    []

/-- The walk: take nodes not yet taken until there are enough. -/
def collectTargets (replicationFactor : Nat) :
    List String → List String → List String
  | targets, [] => targets
  | targets, node :: rest =>
      if node ∈ targets then
        collectTargets replicationFactor targets rest
      else if (targets ++ [node]).length = replicationFactor then
        targets ++ [node]
      else
        collectTargets replicationFactor (targets ++ [node]) rest

/-- Computes replication targets for a given key. -/
def getReplicationNodes (hash : String → UInt64) (key : String)
    (nodes : List String) (replicationFactor : Nat) : List String :=
  if nodes.isEmpty then
    []
  else
    let ring := buildRing hash nodes
    let keyHash := hash key
    let iter1 := (ring.filter fun entry => keyHash ≤ entry.1).map Prod.snd
    let iter2 := (ring.filter fun entry => entry.1 < keyHash).map Prod.snd
    collectTargets (min replicationFactor nodes.length) [] (iter1 ++ iter2)

/-! ## Requests to the other nodes -/

/-- The requests that nodes send each other to replicate a change. -/
inductive InternalRequest where
  | putValueInternal (table key : String) (payload : VersionedValue)
  | deleteValue (table key : String)
  | access (username hashedSecret : String)
  deriving DecidableEq

/-- The request as its receiver sees it. -/
def InternalRequest.request : InternalRequest → Request
  | .putValueInternal table key payload => .putValueInternal table key payload
  | .deleteValue table key => .deleteValue .missing table key
  | .access username hashedSecret =>
      .access username (some (.text username)) (.bincode hashedSecret)

/-- A request in flight, with its `X-Internal-Request` header. -/
structure Message where
  target : String
  header : Option HeaderValue
  content : InternalRequest
  deriving DecidableEq

/-- One message to each listed node. -/
def sendToEach (secret : String) (content : InternalRequest)
    (targets : List String) : List Message :=
  targets.map fun target => ⟨target, some (.text secret), content⟩

@[simp]
theorem mem_sendToEach {secret : String} {content : InternalRequest}
    {targets : List String} {message : Message} :
    message ∈ sendToEach secret content targets ↔
      message.target ∈ targets ∧ message.header = some (.text secret) ∧
        message.content = content := by
  obtain ⟨target, header, sent⟩ := message
  simp only [sendToEach, List.mem_map, Message.mk.injEq]
  constructor
  · intro member
    obtain ⟨node, inside, rfl, rfl, rfl⟩ := member
    exact ⟨inside, rfl, rfl⟩
  · intro parts
    exact ⟨target, parts.1, rfl, parts.2.1.symm, parts.2.2.symm⟩

/-- The request a change is replicated by. -/
def FanOut.content : FanOut → InternalRequest
  | .putValue table key payload => .putValueInternal table key payload
  | .patchValue table key payload => .putValueInternal table key payload
  | .deleteValue table key => .deleteValue table key
  | .replicateAdminChange table key payload =>
      .putValueInternal table key payload
  | .adminDeleteRecord table key => .deleteValue table key
  | .access username hashedSecret => .access username hashedSecret

/-- The messages of a handler once it has read the active nodes.  Only
`put_value` also sends to its own node, and `replicate_admin_change` alone
defaults to an empty secret. -/
def fanOutMessages (environment : Environment) (currentAddr : String)
    (active : List String) (pending : FanOut) : List Message :=
  let targets := fun ringKey =>
    getReplicationNodes environment.hash ringKey active active.length
  let others := fun ringKey =>
    (targets ringKey).filter fun target => target ≠ currentAddr
  match pending with
  | .putValue _ key _ =>
      sendToEach environment.clusterSecret pending.content (targets key)
  | .patchValue _ key _ =>
      sendToEach environment.clusterSecret pending.content (others key)
  | .deleteValue _ key =>
      sendToEach environment.clusterSecret pending.content (others key)
  | .replicateAdminChange _ key _ =>
      sendToEach environment.clusterSecretOrEmpty pending.content (others key)
  | .adminDeleteRecord _ key =>
      sendToEach environment.clusterSecret pending.content (others key)
  | .access username _ =>
      sendToEach environment.clusterSecret pending.content (others username)

theorem content_of_mem_fanOutMessages {environment : Environment}
    {currentAddr : String} {active : List String} {pending : FanOut}
    {message : Message}
    (member : message ∈
      fanOutMessages environment currentAddr active pending) :
    message.content = pending.content := by
  cases pending <;> exact (mem_sendToEach.mp member).2.2

end DynaRust.Network
