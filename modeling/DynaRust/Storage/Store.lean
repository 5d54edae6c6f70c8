import DynaRust.Storage.VersionedValue

/-!
# The in-memory store

`AppState::store`: tables by name, records by key.  A table can be present and
empty, because the handlers open tables with `entry(..).or_default()` before
they check anything.
-/

namespace DynaRust.Storage

open DynaRust.Foundation

abbrev Table := HashMap String VersionedValue

/-- `DashMap<String, DashMap<String, VersionedValue>>`. -/
abbrev Store := HashMap String Table

namespace Store

/-- `store.get(table).and_then(|table| table.get(key).cloned())`. -/
def record (store : Store) (table key : String) : Option VersionedValue :=
  (store.lookup table).bind fun records => records.lookup key

/-- `store.entry(table).or_default()`. -/
def orDefault (store : Store) (table : String) : Store :=
  match store.lookup table with
  | some _ => store
  | none => store.insert table ∅

/-- `table.insert(key, record)` in an opened table. -/
def insertRecord (store : Store) (table key : String)
    (record : VersionedValue) : Store :=
  store.insert table (((store.lookup table).getD ∅).insert key record)

/-- `if let Some(table) = store.get(table) { table.remove(key); }`. -/
def removeRecord (store : Store) (table key : String) : Store :=
  match store.lookup table with
  | some records => store.insert table (records.erase key)
  | none => store

@[simp]
theorem record_empty (table key : String) :
    record (∅ : Store) table key = none := by
  simp [record]

@[simp]
theorem record_orDefault (store : Store) (opened table key : String) :
    (store.orDefault opened).record table key = store.record table key := by
  unfold orDefault
  split
  · rfl
  · rename_i missing
    by_cases same : table = opened
    · subst table
      simp [record, missing]
    · simp [record, Finmap.lookup_insert_of_ne store same]

theorem record_insertRecord (store : Store) (table key : String)
    (inserted : VersionedValue) (table' key' : String) :
    (store.insertRecord table key inserted).record table' key' =
      if table' = table ∧ key' = key then some inserted
      else store.record table' key' := by
  unfold insertRecord record
  rw [HashMap.lookup_insert_eq_ite]
  by_cases sameTable : table' = table
  · subst table'
    rw [if_pos rfl, Option.bind_some, HashMap.lookup_insert_eq_ite]
    by_cases sameKey : key' = key
    · simp [sameKey]
    · rw [if_neg sameKey, if_neg (fun both => sameKey both.2)]
      cases store.lookup table <;> simp
  · rw [if_neg sameTable, if_neg (fun both => sameTable both.1)]

@[simp]
theorem record_insertRecord_self (store : Store) (table key : String)
    (inserted : VersionedValue) :
    (store.insertRecord table key inserted).record table key =
      some inserted := by
  rw [record_insertRecord, if_pos ⟨rfl, rfl⟩]

theorem record_removeRecord (store : Store) (table key table' key' : String) :
    (store.removeRecord table key).record table' key' =
      if table' = table ∧ key' = key then none
      else store.record table' key' := by
  unfold removeRecord
  split
  · rename_i records found
    unfold record
    rw [HashMap.lookup_insert_eq_ite]
    by_cases sameTable : table' = table
    · subst table'
      rw [if_pos rfl, Option.bind_some, HashMap.lookup_erase_eq_ite, found]
      by_cases sameKey : key' = key
      · simp [sameKey]
      · rw [if_neg sameKey, if_neg (fun both => sameKey both.2),
          Option.bind_some]
    · rw [if_neg sameTable, if_neg (fun both => sameTable both.1)]
  · rename_i missing
    by_cases same : table' = table ∧ key' = key
    · obtain ⟨rfl, rfl⟩ := same
      simp [record, missing]
    · rw [if_neg same]

end Store

end DynaRust.Storage
