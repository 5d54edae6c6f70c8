import DynaRust.Storage.CrashRecovery

/-!
# A node and its data directory

The task `cold_save` goes through the tables one after the other while
requests are served; a node that starts takes over what `load_all_tables`
finds.  Saves fail and nodes stop at any point.
-/

namespace DynaRust.Storage

open DynaRust.Foundation

/-! ## The model -/

/-- How far `save_to_cold` is: the tables it has still to visit, and the rows
it has copied or the file operations that the blocking task has still to do. -/
inductive SaveStage where
  | idle
  | tables (tableNames : List String)
  | copying (tableName : String) (copied : Table) (tableNames : List String)
  | writing (tableName : String) (steps : List DiskStep)
      (tableNames : List String)

/-- While the rows of a table are cloned, `entry` on the table waits. -/
def SaveStage.guards (tableName : String) : SaveStage → Bool
  | .copying guarded _ _ => guarded = tableName
  | _ => false

structure PersistentNode where
  store : Store
  disk : Disk
  stage : SaveStage

inductive StorageEvent where
  /-- The store steps of the handlers. -/
  | openTable (tableName : String)
  | insert (tableName keyVal : String) (record : VersionedValue)
  | remove (tableName keyVal : String)
  /-- The timer of `cold_save` fires; `table_names` is collected. -/
  | beginSave (tableNames : List String)
  /-- `None => continue`. -/
  | skip
  | copy
  | visit (keyVal : String)
  /-- The clone is complete and goes to the blocking task. -/
  | spawn (tableName : String) (rows : Rows) (chance : Chance)
  | write
  /-- A write fails behind the beginning of its text. -/
  | tear (written : Text)
  /-- An I/O or encryption error ends the save. -/
  | giveUp
  | nextTable
  | finishSave
  /-- The process stops and starts again; the names are in the order of
  `read_dir`. -/
  | start (names : List FileName)
  /-- The same, with an I/O error in `load_all_tables`. -/
  | startEmpty

namespace PersistentNode

/-- The store of a new process, with the default table. -/
def restart (node : PersistentNode) (loaded : Store) : PersistentNode :=
  { node with store := loaded.orDefault "default", stage := .idle }

def step (cipher : Cipher) (json : Json) (base : Location)
    (node : PersistentNode) : StorageEvent → Option PersistentNode
  | .openTable tableName =>
      if node.stage.guards tableName then none
      else some { node with store := node.store.orDefault tableName }
  | .insert tableName keyVal record =>
      if node.stage.guards tableName then none
      else
        some { node with
          store := node.store.insertRecord tableName keyVal record }
  | .remove tableName keyVal =>
      some { node with store := node.store.removeRecord tableName keyVal }
  | .beginSave tableNames =>
      match node.stage with
      | .idle =>
          if tableNames.Nodup ∧
              ∀ tableName ∈ node.store.keys, tableName ∈ tableNames then
            some { node with stage := .tables tableNames }
          else none
      | _ => none
  | .skip =>
      match node.stage with
      | .tables (tableName :: rest) =>
          if tableName ∈ node.store then none
          else some { node with stage := .tables rest }
      | _ => none
  | .copy =>
      match node.stage with
      | .tables (tableName :: rest) =>
          if tableName ∈ node.store then
            some { node with stage := .copying tableName ∅ rest }
          else none
      | _ => none
  | .visit keyVal =>
      match node.stage with
      | .copying tableName copied rest =>
          if keyVal ∈ copied then none
          else
            (node.store.record tableName keyVal).map fun record =>
              { node with
                stage :=
                  .copying tableName (copied.insert keyVal record) rest }
      | _ => none
  | .spawn tableName rows chance =>
      match node.stage with
      | .copying guarded copied rest =>
          if guarded = tableName ∧ rows.toFinmap = copied ∧
              ∀ keyVal ∈ ((node.store.lookup tableName).getD ∅).keys,
                keyVal ∈ copied then
            some { node with
              stage := .writing tableName
                (saveTable cipher chance base tableName rows) rest }
          else none
      | _ => none
  | .write =>
      match node.stage with
      | .writing tableName (diskStep :: steps) rest =>
          (node.disk.take diskStep).map fun disk =>
            { node with disk := disk, stage := .writing tableName steps rest }
      | _ => none
  | .tear written =>
      match node.stage with
      | .writing _ (.append location text :: _) _ =>
          if written <+: text then
            (node.disk.take (.append location written)).map fun disk =>
              { node with disk := disk, stage := .idle }
          else none
      | _ => none
  | .giveUp =>
      match node.stage with
      | .writing _ (_ :: _) _ => some { node with stage := .idle }
      | _ => none
  | .nextTable =>
      match node.stage with
      | .writing _ [] rest => some { node with stage := .tables rest }
      | _ => none
  | .finishSave =>
      match node.stage with
      | .tables [] => some { node with stage := .idle }
      | _ => none
  | .start names =>
      match loadAllTables cipher json node.disk base names with
      | .ok loaded => some (node.restart loaded)
      | .error _ => none
  | .startEmpty => some (node.restart ∅)

/-- Everything one step can do to a node. -/
inductive Taken (cipher : Cipher) (json : Json) (base : Location)
    (node : PersistentNode) : StorageEvent → PersistentNode → Prop
  | openTable (tableName : String) :
      node.stage.guards tableName = false →
      Taken cipher json base node (.openTable tableName)
        { node with store := node.store.orDefault tableName }
  | insert (tableName keyVal : String) (record : VersionedValue) :
      node.stage.guards tableName = false →
      Taken cipher json base node (.insert tableName keyVal record)
        { node with store := node.store.insertRecord tableName keyVal record }
  | remove (tableName keyVal : String) :
      Taken cipher json base node (.remove tableName keyVal)
        { node with store := node.store.removeRecord tableName keyVal }
  | beginSave (tableNames : List String) :
      node.stage = .idle →
      Taken cipher json base node (.beginSave tableNames)
        { node with stage := .tables tableNames }
  | skip (tableName : String) (rest : List String) :
      node.stage = .tables (tableName :: rest) → tableName ∉ node.store →
      Taken cipher json base node .skip { node with stage := .tables rest }
  | copy (tableName : String) (rest : List String) :
      node.stage = .tables (tableName :: rest) → tableName ∈ node.store →
      Taken cipher json base node .copy
        { node with stage := .copying tableName ∅ rest }
  | visit (tableName keyVal : String) (copied : Table) (rest : List String)
      (record : VersionedValue) :
      node.stage = .copying tableName copied rest →
      node.store.record tableName keyVal = some record →
      Taken cipher json base node (.visit keyVal)
        { node with
          stage := .copying tableName (copied.insert keyVal record) rest }
  | spawn (tableName : String) (rows : Rows) (chance : Chance)
      (rest : List String) :
      node.stage = .copying tableName rows.toFinmap rest →
      (∀ keyVal ∈ ((node.store.lookup tableName).getD ∅).keys,
        keyVal ∈ rows.toFinmap) →
      Taken cipher json base node (.spawn tableName rows chance)
        { node with
          stage := .writing tableName
            (saveTable cipher chance base tableName rows) rest }
  | write (tableName : String) (diskStep : DiskStep) (steps : List DiskStep)
      (rest : List String) (disk : Disk) :
      node.stage = .writing tableName (diskStep :: steps) rest →
      node.disk.take diskStep = some disk →
      Taken cipher json base node .write
        { node with disk := disk, stage := .writing tableName steps rest }
  | tear (written : Text) (tableName : String) (location : Location)
      (text : Text) (steps : List DiskStep) (rest : List String)
      (disk : Disk) :
      node.stage = .writing tableName (.append location text :: steps) rest →
      node.disk.take (.append location written) = some disk →
      Taken cipher json base node (.tear written)
        { node with disk := disk, stage := .idle }
  | giveUp (tableName : String) (steps : List DiskStep)
      (rest : List String) :
      node.stage = .writing tableName steps rest →
      Taken cipher json base node .giveUp { node with stage := .idle }
  | nextTable (tableName : String) (rest : List String) :
      node.stage = .writing tableName [] rest →
      Taken cipher json base node .nextTable
        { node with stage := .tables rest }
  | finishSave :
      node.stage = .tables [] →
      Taken cipher json base node .finishSave { node with stage := .idle }
  | start (names : List FileName) (loaded : Store) :
      loadAllTables cipher json node.disk base names = .ok loaded →
      Taken cipher json base node (.start names) (node.restart loaded)
  | startEmpty : Taken cipher json base node .startEmpty (node.restart ∅)

variable {cipher : Cipher} {json : Json} {base : Location}

theorem taken_of_step {node next : PersistentNode} {event : StorageEvent}
    (taken : step cipher json base node event = some next) :
    Taken cipher json base node event next := by
  cases event with
  | openTable tableName =>
      obtain ⟨free, changed⟩ := Option.ite_none_left_eq_some.mp taken
      cases changed
      exact .openTable tableName (Bool.eq_false_iff.mpr free)
  | insert tableName keyVal record =>
      obtain ⟨free, changed⟩ := Option.ite_none_left_eq_some.mp taken
      cases changed
      exact .insert tableName keyVal record (Bool.eq_false_iff.mpr free)
  | remove tableName keyVal =>
      cases Option.some.inj taken
      exact .remove tableName keyVal
  | beginSave tableNames =>
      rw [step] at taken
      split at taken
      · rename_i idle
        obtain ⟨-, changed⟩ := Option.ite_none_right_eq_some.mp taken
        cases changed
        exact .beginSave tableNames idle
      · cases taken
  | skip =>
      rw [step] at taken
      split at taken
      · rename_i tableName rest stage
        obtain ⟨missing, changed⟩ := Option.ite_none_left_eq_some.mp taken
        cases changed
        exact .skip tableName rest stage missing
      · cases taken
  | copy =>
      rw [step] at taken
      split at taken
      · rename_i tableName rest stage
        obtain ⟨present, changed⟩ := Option.ite_none_right_eq_some.mp taken
        cases changed
        exact .copy tableName rest stage present
      · cases taken
  | visit keyVal =>
      rw [step] at taken
      split at taken
      · rename_i tableName copied rest stage
        obtain ⟨-, visited⟩ := Option.ite_none_left_eq_some.mp taken
        obtain ⟨record, found, rfl⟩ := Option.map_eq_some_iff.mp visited
        exact .visit tableName keyVal copied rest record stage found
      · cases taken
  | spawn tableName rows chance =>
      rw [step] at taken
      split at taken
      · rename_i guarded copied rest stage
        obtain ⟨complete, changed⟩ := Option.ite_none_right_eq_some.mp taken
        cases changed
        obtain ⟨rfl, rfl, visited⟩ := complete
        exact .spawn guarded rows chance rest stage visited
      · cases taken
  | write =>
      rw [step] at taken
      split at taken
      · rename_i tableName diskStep steps rest stage
        obtain ⟨disk, reached, rfl⟩ := Option.map_eq_some_iff.mp taken
        exact .write tableName diskStep steps rest disk stage reached
      · cases taken
  | tear written =>
      rw [step] at taken
      split at taken
      · rename_i tableName location text steps rest stage
        obtain ⟨-, torn⟩ := Option.ite_none_right_eq_some.mp taken
        obtain ⟨disk, reached, rfl⟩ := Option.map_eq_some_iff.mp torn
        exact .tear written tableName location text steps rest disk stage
          reached
      · cases taken
  | giveUp =>
      rw [step] at taken
      split at taken
      · rename_i tableName first steps rest stage
        cases Option.some.inj taken
        exact .giveUp tableName (first :: steps) rest stage
      · cases taken
  | nextTable =>
      rw [step] at taken
      split at taken
      · rename_i tableName rest stage
        cases Option.some.inj taken
        exact .nextTable tableName rest stage
      · cases taken
  | finishSave =>
      rw [step] at taken
      split at taken
      · rename_i stage
        cases Option.some.inj taken
        exact .finishSave stage
      · cases taken
  | start names =>
      rw [step] at taken
      split at taken
      · rename_i loaded loads
        cases Option.some.inj taken
        exact .start names loaded loads
      · cases taken
  | startEmpty =>
      cases Option.some.inj taken
      exact .startEmpty

end PersistentNode

end DynaRust.Storage
