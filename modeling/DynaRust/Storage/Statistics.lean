import DynaRust.Storage.Subscription
import Mathlib.Algebra.BigOperators.Group.Finset.Basic

/-!
# Statistics

What `get_stats` reads from the store and from the subscriptions.  The request
counters, the latency and the membership in its answer are no part of either.
-/

namespace DynaRust.Storage

open DynaRust.Foundation

structure StatsResponse where
  tables : HashMap String Nat
  totalKeys : Nat
  activeSseConnections : Nat
  deriving DecidableEq

/-- `GET /stats`. -/
def getStats (store : Store) (manager : SubscriptionManager) :
    StatsResponse where
  tables :=
    HashMap.updateAll (fun _ (records : Table) => records.keys.card) store ∅
  totalKeys := ∑ table ∈ store.keys, ((store.lookup table).getD ∅).keys.card
  activeSseConnections := ∑ identifier ∈ manager.channels.keys,
    ((manager.channels.lookup identifier).map manager.receiverCount).getD 0

end DynaRust.Storage
