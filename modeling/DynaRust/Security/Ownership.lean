import DynaRust.Network.Provenance

/-!
# Who contributes to a record

Replication, read repair and joins overwrite records without looking at the
owner.  They only ever copy whole versions, though, and every version is made
by requests of its owner or of the admin.
-/

namespace DynaRust.Network.Cluster

open DynaRust.Foundation DynaRust.Security DynaRust.Storage

/-- The versions of a key that are made whole by one creation and the updates
and patches after it, all of them requested in the run under a token of the
version's owner or of the admin. -/
inductive Produced (history : History) (table key : String) :
    VersionedValue → Prop
  | created (cluster : Cluster) (node : String) (header : Option HeaderValue)
      (claims : TokenClaims) (body : HashMap String Value) (now : Nat) :
      (cluster, .client node header
        (.putValue (.bearer claims) table key body) now) ∈ history →
      cluster.recordAt node table key = none →
      Produced history table key
        (VersionedValue.new body claims.sub node now)
  | adminCreated (cluster : Cluster) (node : String)
      (header : Option HeaderValue) (authorization : Authorization)
      (body : HashMap String Value) (now : Nat) :
      (cluster, .client node header
        (.adminPutRecord authorization table key body) now) ∈ history →
      validateAdminToken authorization = true →
      cluster.recordAt node table key = none →
      Produced history table key (VersionedValue.new body "admin" node now)
  | updated (base : VersionedValue) (cluster : Cluster) (node : String)
      (header : Option HeaderValue) (claims : TokenClaims)
      (body : HashMap String Value) (now : Nat) :
      Produced history table key base →
      (cluster, .client node header
        (.putValue (.bearer claims) table key body) now) ∈ history →
      cluster.recordAt node table key = some base →
      claims.sub = base.owner →
      Produced history table key (base.update body node now)
  | patched (base : VersionedValue) (cluster : Cluster) (node : String)
      (header : Option HeaderValue) (claims : TokenClaims)
      (body : HashMap String Value) (now : Nat) :
      Produced history table key base →
      (cluster, .client node header
        (.patchValue (.bearer claims) table key body) now) ∈ history →
      cluster.recordAt node table key = some base →
      claims.sub = base.owner →
      Produced history table key (base.patch body node now)
  | adminUpdated (base : VersionedValue) (cluster : Cluster) (node : String)
      (header : Option HeaderValue) (authorization : Authorization)
      (body : HashMap String Value) (now : Nat) :
      Produced history table key base →
      (cluster, .client node header
        (.adminPutRecord authorization table key body) now) ∈ history →
      validateAdminToken authorization = true →
      cluster.recordAt node table key = some base →
      Produced history table key (base.update body node now)

theorem Produced.append {history : History} {table key : String}
    {version : VersionedValue} (made : Produced history table key version)
    (later : History) : Produced (history ++ later) table key version := by
  induction made with
  | created cluster node header claims body now requested missing =>
      exact .created cluster node header claims body now
        (List.mem_append_left later requested) missing
  | adminCreated cluster node header authorization body now requested admin
      missing =>
      exact .adminCreated cluster node header authorization body now
        (List.mem_append_left later requested) admin missing
  | updated base cluster node header claims body now _ requested found own
      inductionHypothesis =>
      exact .updated base cluster node header claims body now
        inductionHypothesis (List.mem_append_left later requested) found own
  | patched base cluster node header claims body now _ requested found own
      inductionHypothesis =>
      exact .patched base cluster node header claims body now
        inductionHypothesis (List.mem_append_left later requested) found own
  | adminUpdated base cluster node header authorization body now _ requested
      admin found inductionHypothesis =>
      exact .adminUpdated base cluster node header authorization body now
        inductionHypothesis (List.mem_append_left later requested) admin found

end DynaRust.Network.Cluster
