import DynaRust.Network.Serving
import DynaRust.Storage.Statistics

/-!
# What a secret has no part in

Two stores that differ in the credentials of one user only, and the requests
that are answered alike on both of them.
-/

namespace DynaRust.Storage

open DynaRust.Foundation DynaRust.Network DynaRust.Security

/-! ## Records -/

/-- The record without its secret. -/
def VersionedValue.conceal (record : VersionedValue) : VersionedValue :=
  { record with value := record.value.erase "secret" }

/-- Concealed alike: both absent, or both present and equal but for their
secrets. -/
def RecordsAlike (first second : Option VersionedValue) : Prop :=
  first.map VersionedValue.conceal = second.map VersionedValue.conceal

/-- Equal except for the secret of the user's auth record. -/
structure StoresAlike (user : String) (first second : Store) : Prop where
  tables : ∀ table, table ∈ first ↔ table ∈ second
  records : ∀ table key, ¬ (table = "auth" ∧ key = user) →
    first.record table key = second.record table key
  credentials : RecordsAlike (first.record "auth" user)
    (second.record "auth" user)

namespace StoresAlike

variable {user : String} {first second : Store}

theorem orDefault (alike : StoresAlike user first second) (opened : String) :
    StoresAlike user (first.orDefault opened) (second.orDefault opened) where
  tables := by
    have opens : ∀ (store : Store) (table : String),
        table ∈ store.orDefault opened ↔ table = opened ∨ table ∈ store := by
      intro store table
      unfold Store.orDefault
      split
      · rename_i records found
        have inside : opened ∈ store := Finmap.mem_of_lookup_eq_some found
        constructor
        · exact Or.inr
        · intro either
          rcases either with same | there
          · rw [same]
            exact inside
          · exact there
      · exact Finmap.mem_insert
    intro table
    rw [opens, opens, alike.tables table]
  records := by
    intro table key other
    rw [Store.record_orDefault, Store.record_orDefault]
    exact alike.records table key other
  credentials := by
    rw [Store.record_orDefault, Store.record_orDefault]
    exact alike.credentials

theorem insertRecord (alike : StoresAlike user first second)
    (table key : String) (record : VersionedValue) :
    StoresAlike user (first.insertRecord table key record)
      (second.insertRecord table key record) where
  tables := by
    intro other
    rw [Store.insertRecord, Store.insertRecord, Finmap.mem_insert,
      Finmap.mem_insert, alike.tables other]
  records := by
    intro table' key' other
    rw [Store.record_insertRecord, Store.record_insertRecord,
      alike.records table' key' other]
  credentials := by
    rw [Store.record_insertRecord, Store.record_insertRecord]
    split
    · rfl
    · exact alike.credentials

theorem removeRecord (alike : StoresAlike user first second)
    (table key : String) :
    StoresAlike user (first.removeRecord table key)
      (second.removeRecord table key) where
  tables := by
    have keeps : ∀ (store : Store) (other : String),
        other ∈ store.removeRecord table key ↔ other ∈ store := by
      intro store other
      unfold Store.removeRecord
      split
      · rename_i records found
        have inside : table ∈ store := Finmap.mem_of_lookup_eq_some found
        rw [Finmap.mem_insert]
        constructor
        · intro either
          rcases either with same | there
          · rw [same]
            exact inside
          · exact there
        · exact Or.inr
      · rfl
    intro other
    rw [keeps, keeps, alike.tables other]
  records := by
    intro table' key' other
    rw [Store.record_removeRecord, Store.record_removeRecord,
      alike.records table' key' other]
  credentials := by
    rw [Store.record_removeRecord, Store.record_removeRecord]
    split
    · rfl
    · exact alike.credentials

end StoresAlike

end DynaRust.Storage
