import DynaRust.Foundation.Runs
import DynaRust.Network.Cluster
import DynaRust.Security.Concealment

/-!
# Credentials and outsiders

Two runs of a node on stores that differ in the credentials of one user only,
with the same requests of outsiders.  GET by key, PUT, PATCH and DELETE look at
the owner of a record; the reads of whole tables do not.
-/

namespace DynaRust.Network

open DynaRust.Foundation DynaRust.Security DynaRust.Storage
open Cluster (sampleEnvironment aliceToken)

/-! ## Requests of outsiders -/

/-- The handlers do the same, and leave the stores alike. -/
structure OutcomesAlike (user : String) (first second : Outcome) : Prop where
  stores : StoresAlike user first.store second.store
  response : first.response = second.response
  notification : first.notification = second.notification
  task : first.task = second.task

section Handlers

variable {user : String} {first second : Store}
  (alike : StoresAlike user first second)
  (environment : Environment) (currentAddr : String)
  (header : Option HeaderValue) (authorization : Authorization)
  (table key : String) (body : HashMap String Value) (now : Nat)

include alike

end Handlers

namespace ServingNode

/-- Equal but for the secret in the stores. -/
structure NodesAlike (user : String) (first second : ServingNode) : Prop where
  stores : StoresAlike user first.store second.store
  removals : first.removals = second.removals
  changes : first.changes = second.changes
  pending : first.pending = second.pending
  answers : first.answers = second.answers
  manager : first.manager = second.manager

theorem NodesAlike.takeOver {user : String} {first second : ServingNode}
    (alike : NodesAlike user first second) {left right : Outcome}
    (outcomes : OutcomesAlike user left right) (request : Request)
    {response response' : Option Response} (same : response = response') :
    NodesAlike user (first.takeOver request left response)
      (second.takeOver request right response') where
  stores := outcomes.stores
  removals := by
    simp only [ServingNode.takeOver, removalOf, alike.removals, outcomes.task]
  changes := by
    simp only [ServingNode.takeOver, alike.changes, outcomes.notification]
  pending := by
    simp only [ServingNode.takeOver, alike.changes, alike.pending,
      outcomes.notification]
  answers := by
    simp only [ServingNode.takeOver, alike.answers, same]
  manager := alike.manager

variable {environment : Environment} {currentAddr : String}

end ServingNode

end DynaRust.Network
