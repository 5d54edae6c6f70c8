import DynaRust.Network.Replication

/-!
# The membership of a node

What joins, gossip and health checks do to the membership map of one node.
Heartbeats are milliseconds in a `u128`; a map is gossiped with its entries in
any order.
-/

namespace DynaRust.Network

open DynaRust.Foundation

/-- `MAX_CLUSTER_SIZE`, a safe upper bound for the cluster size. -/
def maxClusterSize : Nat := 100

/-- The entries of a membership map in some order of iteration. -/
abbrev MembershipListing := AList fun _ : String => NodeInfo

/-- A process with no variable set and a trivial hash function. -/
def bareEnvironment : Environment where
  clusterSecretVar := none
  adminPasswordVar := none
  hash := fun _ => 0
  sha256Hex := id

/-! ## Gossip -/

/-- `node.is_empty() || node.contains(' ')`. -/
def isRefusedName (node : String) : Bool :=
  node.isEmpty || node.toList.contains ' '

/-- The body of the loop in `update_membership`. -/
def receiveEntry (nodes : Membership) (node : String) (info : NodeInfo) :
    Membership :=
  if isRefusedName node then
    nodes
  else
    match nodes.lookup node with
    | none =>
        if nodes.keys.card ≥ maxClusterSize then nodes
        else nodes.insert node info
    | some existing =>
        if info.lastHeartbeat > existing.lastHeartbeat then
          nodes.insert node info
        else
          nodes

/-- The loop itself, over the entries in the order of iteration. -/
def receiveEntries :
    List (Sigma fun _ : String => NodeInfo) → Membership → Membership
  | [], nodes => nodes
  | ⟨node, info⟩ :: rest, nodes =>
      receiveEntries rest (receiveEntry nodes node info)

/-- `h.to_str().ok().map_or(false, |token| token == expected_token)`. -/
def presentsToken (expectedToken : String) : Option HeaderValue → Bool
  | some (.text token) => token == expectedToken
  | _ => false

/-- Process membership updates received from other nodes; `none` is a body
that `bincode` refuses. -/
def updateMembership (environment : Environment) (nodes : Membership)
    (token : Option HeaderValue) (body : Option MembershipListing) :
    Membership × Response :=
  if presentsToken environment.clusterSecret token then
    match body with
    | some incoming =>
        (receiveEntries incoming.entries nodes, ⟨200, .empty⟩)
    | none => (nodes, ⟨400, .empty⟩)
  else
    (nodes, ⟨401, .error "Unauthorized: Invalid or missing cluster token"⟩)

/-- The `X-Cluster-Token` that `send_membership_update` sends. -/
def gossipToken (environment : Environment) : HeaderValue :=
  .text environment.clusterSecret

/-- The nodes that `gossip_membership` and the indirect pings choose from. -/
def otherActiveNodes (nodes : Membership) (currentAddr : String) :
    Multiset String :=
  (getActiveNodes nodes).filter fun node => node ≠ currentAddr

/-! ## Health checks -/

/-- `now - info.last_heartbeat` on `u128` in a release build. -/
def silence (now lastHeartbeat : Nat) : Nat :=
  (now + 2 ^ 128 - lastHeartbeat) % 2 ^ 128

/-- Update a node's status based on heartbeat failures. -/
def updateNodeStatus (info : NodeInfo) (timeoutThreshold now : Nat) :
    NodeInfo :=
  match info.status with
  | .active => { info with status := .suspect }
  | .suspect =>
      if silence now info.lastHeartbeat > timeoutThreshold then
        { info with status := .down }
      else
        info
  | _ => info

/-- The nodes that `check_node_health` probes three of. -/
def isProbed (currentAddr node : String) (info : NodeInfo) : Bool :=
  node ≠ currentAddr && (info.status = .active || info.status = .suspect ||
    info.status = .down)

/-- What `check_node_health` writes after probing `target`. -/
def recordProbe (nodes : Membership) (target : String) (success : Bool)
    (timeoutThreshold now : Nat) : Membership :=
  match nodes.lookup target with
  | some info =>
      if success then
        nodes.insert target ⟨.active, now⟩
      else
        nodes.insert target (updateNodeStatus info timeoutThreshold now)
  | none => nodes

/-! ## Joining -/

structure JoinRequest where
  node : String
  secret : String
  deriving DecidableEq

/-- `join_cluster`; the answer is the membership of the seed. -/
def joinCluster (environment : Environment) (nodes : Membership)
    (request : JoinRequest) (now : Nat) :
    Membership × Except Response Membership :=
  if request.secret ≠ environment.clusterSecret then
    (nodes, .error ⟨401, .text "Invalid cluster secret"⟩)
  else
    let nodes :=
      if request.node ∈ nodes then nodes
      else nodes.insert request.node ⟨.active, now⟩
    (nodes, .ok nodes)

/-- The request that `main` sends to its seed. -/
def joinRequest (environment : Environment) (currentNode : String) :
    JoinRequest where
  node := currentNode
  secret := environment.clusterSecretOrEmpty

/-- The membership a node starts with. -/
def initialNodes (currentNode : String) (now : Nat) : Membership :=
  (∅ : Membership).insert currentNode ⟨.active, now⟩

/-- `main` inserts every entry of the answer, its own included. -/
def adoptNodes (nodes answered : Membership) : Membership :=
  HashMap.insertAll answered nodes

end DynaRust.Network
