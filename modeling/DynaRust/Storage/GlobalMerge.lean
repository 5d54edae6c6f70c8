import DynaRust.Storage.MergeRule
import DynaRust.Storage.Store

/-!
# Merging a pulled store

A joining node merges the store of its seed into its own (`main.rs`), record
by record and with the rule of `put_value_internal` written out again.
-/

namespace DynaRust.Storage

open DynaRust.Foundation

/-- `entry(key).and_modify(..).or_insert(remote_val)` of
`merge_table_state`. -/
def mergeRemote (localVal : Option VersionedValue)
    (remoteVal : VersionedValue) : VersionedValue :=
  match localVal with
  | some localVal =>
      if remoteVal.dominates localVal ||
          (!localVal.dominates remoteVal &&
            decide (remoteVal.timestamp > localVal.timestamp)) then
        remoteVal
      else
        localVal
  | none => remoteVal

/-- Merge the remote state for a given table into the local state. -/
def mergeTableState (localTable remote : Table) : Table :=
  HashMap.updateAll mergeRemote remote localTable

/-- Merge the entire global remote store into the local store. -/
def mergeGlobalStore (localStore remote : Store) : Store :=
  HashMap.updateAll
    (fun localTable remoteTable =>
      mergeTableState (localTable.getD ∅) remoteTable)
    remote localStore

/-- The rule written in `main.rs` is the one of `put_value_internal`. -/
theorem mergeRemote_eq_mergeIncoming (localVal : Option VersionedValue)
    (remoteVal : VersionedValue) :
    mergeRemote localVal remoteVal = mergeIncoming localVal remoteVal := by
  cases localVal <;> rfl

theorem lookup_mergeTableState (localTable remote : Table) (key : String) :
    (mergeTableState localTable remote).lookup key =
      ((remote.lookup key).map (mergeIncoming (localTable.lookup key))).or
        (localTable.lookup key) := by
  have sameRule : mergeRemote = mergeIncoming := by
    funext localVal remoteVal
    exact mergeRemote_eq_mergeIncoming localVal remoteVal
  rw [mergeTableState, HashMap.lookup_updateAll, sameRule]

theorem lookup_mergeGlobalStore (localStore remote : Store)
    (table : String) :
    (mergeGlobalStore localStore remote).lookup table =
      ((remote.lookup table).map fun remoteTable => mergeTableState
        ((localStore.lookup table).getD ∅) remoteTable).or
          (localStore.lookup table) := by
  rw [mergeGlobalStore, HashMap.lookup_updateAll]

/-- Every pulled record is merged into the one under its table and key. -/
theorem record_mergeGlobalStore (localStore remote : Store)
    (table key : String) :
    (mergeGlobalStore localStore remote).record table key =
      ((remote.record table key).map
        (mergeIncoming (localStore.record table key))).or
          (localStore.record table key) := by
  rw [Store.record, lookup_mergeGlobalStore]
  cases pulled : remote.lookup table with
  | none =>
      simp [Store.record, pulled]
  | some remoteTable =>
      rw [Option.map_some, Option.some_or, Option.bind_some,
        lookup_mergeTableState]
      cases held : localStore.lookup table with
      | none =>
          simp [Store.record, pulled, held]
      | some localTable =>
          simp [Store.record, pulled, held]

end DynaRust.Storage
