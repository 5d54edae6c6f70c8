import DynaRust.Storage.ColdSave

/-!
# What a restart finds

As long as no stop falls into the rewriting of a snapshot, what was true of
the rows of a table when they were copied is true of what a restart loads.
-/

namespace DynaRust.Storage

open DynaRust.Foundation

variable {cipher : Cipher} {json : Json} {base : Location}

/-! ## The files of one table -/

/-- The snapshot of a folder can be read and gives records of the kind. -/
def SnapshotHolds (cipher : Cipher) (json : Json) (kind : Table → Prop)
    (disk : Disk) (folder : Location) : Prop :=
  ∃ lines records, readLines disk (folder ++ [storageDb]) = .ok lines ∧
    loadSnapshot cipher json ∅ lines = .ok records ∧ kind records

/-- The log of a folder can be read, and its replay keeps the kind. -/
def LogKeeps (json : Json) (kind : Table → Prop) (disk : Disk)
    (folder : Location) : Prop :=
  ∃ lines, readLines disk (folder ++ [walLog]) = .ok lines ∧
    ∀ records, kind records → kind (lines.foldl (replayLine json) records)

section Files

variable {kind : Table → Prop} {disk next : Disk} {folder : Location}

theorem exists_loadFolder (snapshot : SnapshotHolds cipher json kind disk folder)
    (log : LogKeeps json kind disk folder) :
    ∃ records, loadFolder cipher json disk folder = .ok records ∧
      kind records := by
  obtain ⟨lines, records, read, loaded, holds⟩ := snapshot
  obtain ⟨replayed, readLog, keeps⟩ := log
  refine ⟨replayed.foldl (replayLine json) records, ?_, keeps records holds⟩
  rw [loadFolder, read]
  simp only [loaded, readLog]

theorem SnapshotHolds.congr
    (same : next.entry (folder ++ [storageDb]) =
      disk.entry (folder ++ [storageDb]))
    (snapshot : SnapshotHolds cipher json kind disk folder) :
    SnapshotHolds cipher json kind next folder := by
  unfold SnapshotHolds readLines at *
  rwa [same]

theorem LogKeeps.congr
    (same : next.entry (folder ++ [walLog]) =
      disk.entry (folder ++ [walLog]))
    (log : LogKeeps json kind disk folder) :
    LogKeeps json kind next folder := by
  unfold LogKeeps readLines at *
  rwa [same]

theorem logKeeps_of_empty
    (empty : disk.entry (folder ++ [walLog]) = some (.file [])) :
    LogKeeps json kind disk folder := by
  refine ⟨[], ?_, fun records holds => holds⟩
  rw [readLines, empty]
  rfl

end Files

/-! ## The turn of one table -/

section Turn

variable {chance : Chance} {rows : Rows} {name other : FileName}
  {diskStep : DiskStep}

theorem mem_saveTable :
    diskStep ∈ saveTable cipher chance base (tableNameOf name) rows ↔
      (∃ location, location <+: base ++ [name] ∧
        .createDirectory location = diskStep) ∨
      diskStep = .createFile (base ++ [name] ++ [storageDb]) ∨
      diskStep ∈ chunkSteps (base ++ [name] ++ [storageDb])
        (encryptedChunks cipher chance (tableNameOf name) rows) ∨
      diskStep = .createFile (base ++ [name] ++ [walLog]) := by
  rw [saveTable, toList_tableNameOf, Location.join_fileName,
    Location.visited_fileName]
  simp only [List.mem_append, List.mem_cons, List.mem_map, List.mem_inits,
    List.not_mem_nil, or_false]

/-- Chunks are appended to the snapshot. -/
theorem mem_chunkSteps {file : Location} {all : List (Option Text)}
    (among : diskStep ∈ chunkSteps file all) :
    diskStep = .failed ∨ ∃ text, diskStep = .append file text := by
  induction all with
  | nil =>
      cases among
  | cons encrypted rest inductionHypothesis =>
      cases encrypted with
      | none =>
          exact Or.inl (List.mem_singleton.mp among)
      | some line =>
          rcases List.mem_cons.mp among with rfl | later
          · exact Or.inr ⟨line, rfl⟩
          rcases List.mem_cons.mp later with rfl | last
          · exact Or.inr ⟨['\n'], rfl⟩
          · exact inductionHypothesis last

private theorem folder_ne_file (file : FileName) {location : Location}
    (ancestor : location <+: base ++ [other]) :
    location ≠ base ++ [name] ++ [file] := by
  rintro rfl
  have bound := ancestor.length_le
  simp at bound

/-- The turn of a table leaves the files of the other tables alone. -/
theorem target_ne_of_mem_saveTable (different : other ≠ name)
    (among : diskStep ∈
      saveTable cipher chance base (tableNameOf other) rows)
    (file : FileName) :
    diskStep.target ≠ some (base ++ [name] ++ [file]) := by
  have apart (written : FileName) :
      base ++ [other] ++ [written] ≠ base ++ [name] ++ [file] := by
    intro same
    have folders := List.append_inj_left' same rfl
    exact different (List.singleton_inj.mp (List.append_cancel_left folders))
  rcases mem_saveTable.mp among with ⟨location, ancestor, rfl⟩ | rfl |
    chunk | rfl
  · exact fun same => folder_ne_file file ancestor (Option.some.inj same)
  · exact fun same => apart _ (Option.some.inj same)
  · rcases mem_chunkSteps chunk with rfl | ⟨text, rfl⟩
    · exact nofun
    · exact fun same => apart _ (Option.some.inj same)
  · exact fun same => apart _ (Option.some.inj same)

/-- What comes before a mark that is still ahead and comes only once. -/
private theorem mem_before {α : Type} {mark step : α}
    {executed rest front tail : List α}
    (same : executed ++ step :: rest = front ++ mark :: tail)
    (once : mark ∉ tail) (ahead : mark ∈ rest) : step ∈ front := by
  rcases List.append_eq_append_iff.mp same with
    ⟨between, rfl, later⟩ | ⟨between, rfl, later⟩
  · cases between with
    | nil =>
        cases later
        exact absurd ahead once
    | cons first others =>
        cases later
        exact List.mem_append_right _ List.mem_cons_self
  · cases between with
    | nil =>
        cases later
        exact absurd ahead once
    | cons first others =>
        cases later
        exact absurd (List.mem_append_right _ (List.mem_cons_of_mem _ ahead))
          once

/-- Before the truncation only directories are made. -/
theorem createDirectory_of_ahead {executed steps : List DiskStep}
    (planned : saveTable cipher chance base (tableNameOf name) rows =
      executed ++ diskStep :: steps)
    (ahead : .createFile (base ++ [name] ++ [storageDb]) ∈ steps) :
    ∃ location, location <+: base ++ [name] ∧
      .createDirectory location = diskStep := by
  have files : base ++ [name] ++ [storageDb] ≠ base ++ [name] ++ [walLog] := by
    intro same
    cases List.append_cancel_left same
  rw [saveTable, toList_tableNameOf, Location.join_fileName,
    Location.visited_fileName] at planned
  have once : DiskStep.createFile (base ++ [name] ++ [storageDb]) ∉
      chunkSteps (base ++ [name] ++ [storageDb])
        (encryptedChunks cipher chance (tableNameOf name) rows) ++
        [.createFile (base ++ [name] ++ [walLog])] := by
    intro among
    rcases List.mem_append.mp among with chunk | last
    · rcases mem_chunkSteps chunk with same | ⟨text, same⟩
      · cases same
      · cases same
    · exact files (DiskStep.createFile.inj (List.mem_singleton.mp last))
  have made := mem_before planned.symm once ahead
  simpa only [List.mem_map, List.mem_inits] using made

/-- What is relied upon when a table is written: an encrypted chunk is
restored, and reading back the chunks gives records of the kind. -/
structure Promised (cipher : Cipher) (json : Json) (kind : Table → Prop)
    (chance : Chance) (tableName : String) (rows : Rows) : Prop where
  restores : ∀ (index : Nat) chunk encrypted,
    (chunks chance tableName rows)[index]? = some chunk →
    cipher.encrypt (chance.draw tableName index) chunk = some encrypted →
    cipher.Restores chunk encrypted
  kind : kind (readBack json (chunks chance tableName rows))

private theorem exists_all_encrypted {file : Location}
    {all : List (Option Text)} (succeeds : .failed ∉ chunkSteps file all) :
    ∃ encrypted : List Text, all = encrypted.map some := by
  induction all with
  | nil =>
      exact ⟨[], rfl⟩
  | cons first rest inductionHypothesis =>
      cases first with
      | none =>
          exact absurd List.mem_cons_self succeeds
      | some line =>
          obtain ⟨encrypted, rfl⟩ := inductionHypothesis fun failed =>
            succeeds (List.mem_cons_of_mem _ (List.mem_cons_of_mem _ failed))
          exact ⟨line :: encrypted, rfl⟩

private theorem failed_not_mem {disk final : Disk} {steps : List DiskStep}
    (reached : disk.run steps = some final) : .failed ∉ steps := by
  intro among
  obtain ⟨before, after, rfl⟩ := List.append_of_mem among
  obtain ⟨middle, -, rest⟩ := runSteps_append_eq_some.mp reached
  obtain ⟨next, taken, -⟩ := runSteps_cons_eq_some.mp rest
  cases taken

/-- When only the log is left to be cleared, the snapshot is complete. -/
theorem snapshotHolds_of_rewritten {kind : Table → Prop}
    {executed steps : List DiskStep} {before disk : Disk}
    (planned : saveTable cipher chance base (tableNameOf name) rows =
      executed ++ steps)
    (reached : before.run executed = some disk)
    (promised : Promised cipher json kind chance (tableNameOf name) rows)
    (onlyLog : ∀ step ∈ steps,
      step = .createFile (base ++ [name] ++ [walLog])) :
    SnapshotHolds cipher json kind disk (base ++ [name]) := by
  have succeeds : .failed ∉ chunkSteps (base ++ [name] ++ [storageDb])
      (encryptedChunks cipher chance (tableNameOf name) rows) := by
    intro failed
    have among : .failed ∈
        saveTable cipher chance base (tableNameOf name) rows :=
      mem_saveTable.mpr (Or.inr (Or.inr (Or.inl failed)))
    rw [planned] at among
    rcases List.mem_append.mp among with done | left
    · exact failed_not_mem reached done
    · cases onlyLog _ left
  obtain ⟨encrypted, all⟩ := exists_all_encrypted succeeds
  have restores : List.Forall₂ cipher.Restores
      (chunks chance (tableNameOf name) rows) encrypted :=
    forall₂_of_mapIdx promised.restores all
  have elsewhere : ∀ step ∈ steps,
      step.target ≠ some (base ++ [name] ++ [storageDb]) := by
    intro step among same
    rw [onlyLog step among] at same
    have files := List.append_cancel_left (Option.some.inj same)
    cases files
  let snapshot := base ++ [name] ++ [storageDb]
  have whole : effects snapshot (before.entry snapshot)
        (saveTable cipher chance base (tableNameOf name) rows) =
      if name = name then some (.file (storedText encrypted))
      else before.entry snapshot :=
    effects_saveTable_storage all name (before.entry snapshot)
  rw [planned, effects_append, effects_of_forall_target_ne elsewhere,
    if_pos rfl, ← Disk.entry_run reached] at whole
  refine ⟨_, _, ?_, loadSnapshot_storedText restores, promised.kind⟩
  exact readLines_file (Disk.content_eq_some.mpr whole)

end Turn

/-! ## What a node keeps safe -/

/-- The snapshot of the table has been truncated, and not all of its chunks
have been written again. -/
def SaveStage.Rewrites (base : Location) (name : FileName) :
    SaveStage → Prop
  | .writing tableName steps _ =>
      tableName = tableNameOf name ∧
        .createFile (base ++ [name] ++ [storageDb]) ∉ steps ∧
        ∃ step ∈ steps, step ≠ .createFile (base ++ [name] ++ [walLog])
  | _ => False

instance (base : Location) (name : FileName) :
    DecidablePred (SaveStage.Rewrites base name)
  | .idle => inferInstanceAs (Decidable False)
  | .tables _ => inferInstanceAs (Decidable False)
  | .copying _ _ _ => inferInstanceAs (Decidable False)
  | .writing _ _ _ => inferInstanceAs (Decidable (_ ∧ _))

/-- The save is given up or the process stops. -/
def StorageEvent.stops : StorageEvent → Bool
  | .tear _ => true
  | .giveUp => true
  | .start _ => true
  | .startEmpty => true
  | _ => false

/-- A turn has executed a part of its steps. -/
def SaveStage.InTurn (cipher : Cipher) (json : Json) (base : Location)
    (kind : Table → Prop) (name : FileName) (disk : Disk) :
    SaveStage → Prop
  | .writing tableName steps _ =>
      ∃ other rows chance executed before,
        tableName = tableNameOf other ∧
        saveTable cipher chance base tableName rows = executed ++ steps ∧
        Disk.run before executed = some disk ∧
        (other = name → Promised cipher json kind chance tableName rows)
  | _ => True

/-- The files of a table give records of the kind, outside of a rewriting. -/
structure Sheltered (cipher : Cipher) (json : Json) (base : Location)
    (kind : Table → Prop) (name : FileName) (node : PersistentNode) :
    Prop where
  turn : node.stage.InTurn cipher json base kind name node.disk
  snapshot : ¬ node.stage.Rewrites base name →
    SnapshotHolds cipher json kind node.disk (base ++ [name])
  log : LogKeeps json kind node.disk (base ++ [name])

/-- What is relied upon in a `spawn`. -/
def StorageEvent.Promises (cipher : Cipher) (json : Json)
    (kind : Table → Prop) (name : FileName) : StorageEvent → Prop
  | .spawn tableName rows chance =>
      ∃ other, tableName = tableNameOf other ∧
        (other = name → Promised cipher json kind chance tableName rows)
  | _ => True

section Sheltered

variable {kind : Table → Prop} {name : FileName}

private theorem entry_take {disk next : Disk} {diskStep : DiskStep}
    {location : Location} (taken : disk.take diskStep = some next)
    (elsewhere : diskStep.target ≠ some location) :
    next.entry location = disk.entry location := by
  rw [(Disk.take_eq_some taken).2]
  have alone : ∀ step ∈ [diskStep], step.target ≠ some location := by
    intro step among
    rw [List.mem_singleton.mp among]
    exact elsewhere
  exact effects_of_forall_target_ne alone (disk.entry location)

private theorem target_ne_log {chance : Chance} {rows : Rows}
    {diskStep : DiskStep}
    (among : diskStep ∈ saveTable cipher chance base (tableNameOf name) rows)
    (notLog : diskStep ≠ .createFile (base ++ [name] ++ [walLog])) :
    diskStep.target ≠ some (base ++ [name] ++ [walLog]) := by
  have files : base ++ [name] ++ [storageDb] ≠
      base ++ [name] ++ [walLog] := by
    intro same
    cases List.append_cancel_left same
  rcases mem_saveTable.mp among with ⟨location, ancestor, rfl⟩ | rfl |
    chunk | rfl
  · exact fun same => folder_ne_file walLog ancestor (Option.some.inj same)
  · exact fun same => files (Option.some.inj same)
  · rcases mem_chunkSteps chunk with rfl | ⟨text, rfl⟩
    · exact nofun
    · exact fun same => files (Option.some.inj same)
  · exact absurd rfl notLog

/-- A turn goes on as planned. -/
theorem SaveStage.InTurn.step {node next : PersistentNode}
    {event : StorageEvent}
    (taken : PersistentNode.step cipher json base node event = some next)
    (promises : event.Promises cipher json kind name)
    (turn : node.stage.InTurn cipher json base kind name node.disk) :
    next.stage.InTurn cipher json base kind name next.disk := by
  cases PersistentNode.taken_of_step taken with
  | openTable tableName free =>
      exact turn
  | insert tableName keyVal record free =>
      exact turn
  | remove tableName keyVal =>
      exact turn
  | spawn tableName rows chance rest stage visited =>
      obtain ⟨other, named, promised⟩ := promises
      exact ⟨other, rows, chance, [], node.disk, named, rfl, rfl, promised⟩
  | write tableName diskStep steps rest disk stage reached =>
      rw [stage] at turn
      obtain ⟨other, rows, chance, executed, before, named, planned, ran,
        promised⟩ := turn
      refine ⟨other, rows, chance, executed ++ [diskStep], before, named,
        ?_, ?_, promised⟩
      · rw [planned, List.append_assoc, List.singleton_append]
      · refine runSteps_append_eq_some.mpr ⟨node.disk, ran, ?_⟩
        exact runSteps_cons_eq_some.mpr ⟨disk, reached, rfl⟩
  | beginSave tableNames stage =>
      exact trivial
  | skip tableName rest stage missing =>
      exact trivial
  | copy tableName rest stage present =>
      exact trivial
  | visit tableName keyVal copied rest record stage found =>
      exact trivial
  | tear written tableName location text steps rest disk stage reached =>
      exact trivial
  | giveUp tableName steps rest stage =>
      exact trivial
  | nextTable tableName rest stage =>
      exact trivial
  | finishSave stage =>
      exact trivial
  | start names loaded loads =>
      exact trivial
  | startEmpty =>
      exact trivial

/-- A turn with only the log left to be cleared has written its snapshot. -/
private theorem SaveStage.InTurn.snapshotHolds {disk : Disk}
    {steps : List DiskStep} {rest : List String}
    (turn : (SaveStage.writing (tableNameOf name) steps rest).InTurn cipher
      json base kind name disk)
    (onlyLog : ∀ step ∈ steps,
      step = .createFile (base ++ [name] ++ [walLog])) :
    SnapshotHolds cipher json kind disk (base ++ [name]) := by
  obtain ⟨other, rows, chance, executed, before, named, planned, reached,
    promised⟩ := turn
  cases tableNameOf_injective named
  exact snapshotHolds_of_rewritten planned reached (promised rfl) onlyLog

/-- One file operation of the turn of any table. -/
private theorem Sheltered.write {node : PersistentNode} {tableName : String}
    {diskStep : DiskStep} {steps : List DiskStep} {rest : List String}
    {disk : Disk}
    (stage : node.stage = .writing tableName (diskStep :: steps) rest)
    (taken : node.disk.take diskStep = some disk)
    (turnNext : (SaveStage.writing tableName steps rest).InTurn cipher json
      base kind name disk)
    (sheltered : Sheltered cipher json base kind name node) :
    Sheltered cipher json base kind name
      { node with disk := disk, stage := .writing tableName steps rest } := by
  have turn := sheltered.turn
  rw [stage] at turn
  obtain ⟨other, rows, chance, executed, before, rfl, planned, -, -⟩ := turn
  have among : diskStep ∈
      saveTable cipher chance base (tableNameOf other) rows := by
    rw [planned]
    exact List.mem_append_right _ List.mem_cons_self
  refine ⟨turnNext, ?_, ?_⟩
  · intro settled
    by_cases own : other = name
    · subst own
      by_cases ahead : .createFile (base ++ [other] ++ [storageDb]) ∈ steps
      · -- still at the directories
        obtain ⟨location, ancestor, rfl⟩ :=
          createDirectory_of_ahead planned ahead
        have untouched : ¬ node.stage.Rewrites base other := by
          rw [stage]
          exact fun rewrites =>
            rewrites.2.1 (List.mem_cons_of_mem _ ahead)
        refine (sheltered.snapshot untouched).congr (entry_take taken ?_)
        exact fun same =>
          folder_ne_file storageDb ancestor (Option.some.inj same)
      · have onlyLog : ∀ step ∈ steps,
            step = .createFile (base ++ [other] ++ [walLog]) := by
          intro step later
          by_contra different
          exact settled ⟨rfl, ahead, step, later, different⟩
        exact turnNext.snapshotHolds onlyLog
    · have untouched : ¬ node.stage.Rewrites base name := by
        rw [stage]
        exact fun rewrites => own (tableNameOf_injective rewrites.1)
      exact (sheltered.snapshot untouched).congr
        (entry_take taken (target_ne_of_mem_saveTable own among storageDb))
  · by_cases own : other = name
    · subst own
      by_cases cleared :
          diskStep = .createFile (base ++ [other] ++ [walLog])
      · subst cleared
        apply logKeeps_of_empty
        rw [(Disk.take_eq_some taken).2]
        exact if_pos rfl
      · exact sheltered.log.congr
          (entry_take taken (target_ne_log among cleared))
    · exact sheltered.log.congr
        (entry_take taken (target_ne_of_mem_saveTable own among walLog))

/-- A torn write hits the table that is being rewritten. -/
private theorem Sheltered.tear {node : PersistentNode} {tableName : String}
    {location : Location} {text written : Text} {steps : List DiskStep}
    {rest : List String} {disk : Disk}
    (stage : node.stage =
      .writing tableName (.append location text :: steps) rest)
    (taken : node.disk.take (.append location written) = some disk)
    (unharmed : ¬ node.stage.Rewrites base name)
    (sheltered : Sheltered cipher json base kind name node) :
    Sheltered cipher json base kind name
      { node with disk := disk, stage := .idle } := by
  have turn := sheltered.turn
  rw [stage] at turn
  obtain ⟨other, rows, chance, executed, before, rfl, planned, -, -⟩ := turn
  have among : .append location text ∈
      saveTable cipher chance base (tableNameOf other) rows := by
    rw [planned]
    exact List.mem_append_right _ List.mem_cons_self
  have different : other ≠ name := by
    rintro rfl
    rw [stage] at unharmed
    refine unharmed ⟨rfl, ?_, _, List.mem_cons_self, nofun⟩
    intro ahead
    rcases List.mem_cons.mp ahead with same | later
    · cases same
    · obtain ⟨made, -, same⟩ := createDirectory_of_ahead planned later
      cases same
  have elsewhere := target_ne_of_mem_saveTable different among
  refine ⟨trivial, fun _ => ?_, ?_⟩
  · exact (sheltered.snapshot unharmed).congr
      (entry_take taken (elsewhere storageDb))
  · exact sheltered.log.congr (entry_take taken (elsewhere walLog))

/-- What one step keeps. -/
theorem Sheltered.step {node next : PersistentNode} {event : StorageEvent}
    (taken : PersistentNode.step cipher json base node event = some next)
    (promises : event.Promises cipher json kind name)
    (unharmed : event.stops = true → ¬ node.stage.Rewrites base name)
    (sheltered : Sheltered cipher json base kind name node) :
    Sheltered cipher json base kind name next := by
  have turn := sheltered.turn.step taken promises
  have calm (free : ¬ node.stage.Rewrites base name) (store : Store)
      (stage : SaveStage)
      (planned : stage.InTurn cipher json base kind name node.disk) :
      Sheltered cipher json base kind name
        { node with store := store, stage := stage } :=
    ⟨planned, fun _ => sheltered.snapshot free, sheltered.log⟩
  cases PersistentNode.taken_of_step taken with
  | openTable tableName free =>
      exact ⟨turn, sheltered.snapshot, sheltered.log⟩
  | insert tableName keyVal record free =>
      exact ⟨turn, sheltered.snapshot, sheltered.log⟩
  | remove tableName keyVal =>
      exact ⟨turn, sheltered.snapshot, sheltered.log⟩
  | beginSave tableNames stage =>
      exact calm (by rw [stage]; exact id) _ _ turn
  | skip tableName rest stage missing =>
      exact calm (by rw [stage]; exact id) _ _ turn
  | copy tableName rest stage present =>
      exact calm (by rw [stage]; exact id) _ _ turn
  | visit tableName keyVal copied rest record stage found =>
      exact calm (by rw [stage]; exact id) _ _ turn
  | spawn tableName rows chance rest stage visited =>
      exact calm (by rw [stage]; exact id) _ _ turn
  | write tableName diskStep steps rest disk stage reached =>
      exact sheltered.write stage reached turn
  | tear written tableName location text steps rest disk stage reached =>
      exact sheltered.tear stage reached (unharmed rfl)
  | giveUp tableName steps rest stage =>
      exact calm (unharmed rfl) _ _ turn
  | nextTable tableName rest stage =>
      refine calm ?_ _ _ turn
      rw [stage]
      rintro ⟨-, -, diskStep, among, -⟩
      cases among
  | finishSave stage =>
      exact calm (by rw [stage]; exact id) _ _ turn
  | start names loaded loads =>
      exact calm (unharmed rfl) _ _ turn
  | startEmpty =>
      exact calm (unharmed rfl) _ _ turn

end Sheltered

/-! ## A node can be started again -/

/-- The table of a `spawn` is one path component, and what is encrypted for it
is restored. -/
def StorageEvent.Restores (cipher : Cipher) : StorageEvent → Prop
  | .spawn tableName rows chance =>
      (∃ name, tableName = tableNameOf name) ∧
        ∀ (index : Nat) chunk encrypted,
          (chunks chance tableName rows)[index]? = some chunk →
          cipher.encrypt (chance.draw tableName index) chunk =
            some encrypted →
          cipher.Restores chunk encrypted
  | _ => True

theorem StorageEvent.Restores.promises {event : StorageEvent}
    (restores : event.Restores cipher) (name : FileName) :
    event.Promises cipher json (fun _ => True) name := by
  cases event with
  | spawn tableName rows chance =>
      obtain ⟨⟨other, named⟩, chunks⟩ := restores
      exact ⟨other, named, fun _ => ⟨chunks, trivial⟩⟩
  | _ =>
      exact trivial

/-- A directory that can be loaded shelters every table in it. -/
theorem Ready.sheltered {node : PersistentNode} (isTree : node.disk.IsTree)
    (ready : Ready cipher json node.disk base) (idle : node.stage = .idle)
    (name : FileName) :
    Sheltered cipher json base (fun _ => True) name node := by
  have files :
      SnapshotHolds cipher json (fun _ => True) node.disk (base ++ [name]) ∧
        LogKeeps json (fun _ => True) node.disk (base ++ [name]) := by
    by_cases isDirectory : node.disk.entry (base ++ [name]) = some .directory
    · obtain ⟨records, loads⟩ := ready.loads name isDirectory
      rw [loadFolder] at loads
      split at loads
      · cases loads
      · rename_i lines read
        split at loads
        · cases loads
        · rename_i snapshot loaded
          split at loads
          · cases loads
          · rename_i log readLog
            exact ⟨⟨lines, snapshot, read, loaded, trivial⟩,
              ⟨log, readLog, fun _ _ => trivial⟩⟩
    · have missing (file : FileName) :
          readLines node.disk (base ++ [name] ++ [file]) = .ok [] := by
        have absent : node.disk.entry (base ++ [name] ++ [file]) = none := by
          by_contra present
          exact isDirectory
            (isTree _ file (Option.isSome_iff_ne_none.mpr present))
        rw [readLines, absent]
      exact ⟨⟨[], ∅, missing storageDb, rfl, trivial⟩,
        ⟨[], missing walLog, fun _ _ => trivial⟩⟩
  refine ⟨?_, fun _ => files.1, files.2⟩
  rw [idle]
  exact trivial

/-- Loading the data directory fails on no folder that is sheltered. -/
theorem exists_start {node : PersistentNode} {kind : FileName → Table → Prop}
    (sheltered : ∀ name, Sheltered cipher json base (kind name) name node)
    (settled : ∀ name, ¬ node.stage.Rewrites base name)
    (names : List FileName) :
    ∃ restarted,
      node.step cipher json base (.start names) = some restarted := by
  have loads : ∀ name ∈ names,
      node.disk.entry (base ++ [name]) = some .directory →
      ∃ records,
        loadFolder cipher json node.disk (base ++ [name]) = .ok records := by
    intro name _ _
    obtain ⟨records, loaded, -⟩ :=
      exists_loadFolder ((sheltered name).snapshot (settled name))
        (sheltered name).log
    exact ⟨records, loaded⟩
  have succeeds : ∃ loaded,
      loadAllTables cipher json node.disk base names = .ok loaded := by
    rw [loadAllTables]
    split
    · exact exists_loadTables loads ∅
    · exact ⟨∅, rfl⟩
  obtain ⟨loaded, done⟩ := succeeds
  exact ⟨node.restart loaded, by rw [PersistentNode.step, done]⟩

/-- Every table stays sheltered when no stop falls into a rewriting. -/
theorem Ready.sheltered_run {node final : PersistentNode}
    {events : List StorageEvent} (isTree : node.disk.IsTree)
    (ready : Ready cipher json node.disk base) (idle : node.stage = .idle)
    (meets : StepsMeet (PersistentNode.step cipher json base)
      (fun node event => event.Restores cipher ∧
        (event.stops = true → ∀ name, ¬ node.stage.Rewrites base name))
      node events)
    (reached : runSteps (PersistentNode.step cipher json base) node events =
      some final) (name : FileName) :
    Sheltered cipher json base (fun _ => True) name final := by
  apply runSteps_induction (Sheltered cipher json base _ name) ?_ meets
    reached (ready.sheltered isTree idle name)
  intro state event next condition taken holds
  exact holds.step taken (condition.1.promises name)
    fun stops => condition.2 stops name

/-- A node whose saves were never stopped while they rewrote a snapshot finds
its data directory in order at every start. -/
theorem PersistentNode.can_start {node final : PersistentNode}
    {events : List StorageEvent} (isTree : node.disk.IsTree)
    (ready : Ready cipher json node.disk base) (idle : node.stage = .idle)
    (meets : StepsMeet (step cipher json base)
      (fun node event => event.Restores cipher ∧
        (event.stops = true → ∀ name, ¬ node.stage.Rewrites base name))
      node events)
    (reached : runSteps (step cipher json base) node events = some final)
    (settled : ∀ name, ¬ final.stage.Rewrites base name)
    (names : List FileName) :
    ∃ restarted,
      final.step cipher json base (.start names) = some restarted :=
  exists_start (ready.sheltered_run isTree idle meets reached) settled names

/-! ### A save with a write to the store behind it -/

def sampleNode : PersistentNode where
  store := (∅ : Store).insertRecord "t" "k" sampleRecord
  disk := emptyDisk
  stage := .idle

def sampleTurn : List StorageEvent :=
  .visit "k" :: .spawn "t" (sampleRows "k") (sampleChance Sample.first) ::
    List.replicate 7 .write

/-- The save goes on after the record has been removed. -/
def sampleSaved : List StorageEvent :=
  .copy :: sampleTurn ++ .nextTable :: [.remove "t" "k", .finishSave]

def sampleTable : FileName :=
  ⟨['t'], by decide⟩

private theorem forall_mem_sampleSaved {holds : StorageEvent → Prop}
    (spawn : holds
      (.spawn "t" (sampleRows "k") (sampleChance Sample.first)))
    (others : ∀ event, (∀ tableName rows chance,
      event ≠ .spawn tableName rows chance) → holds event) :
    ∀ event ∈ sampleSaved, holds event := by
  simp only [sampleSaved, sampleTurn, List.replicate, List.cons_append,
    List.nil_append, List.forall_mem_cons]
  refine ⟨others _ nofun, others _ nofun, spawn, others _ nofun,
    others _ nofun, others _ nofun, others _ nofun, others _ nofun,
    others _ nofun, others _ nofun, others _ nofun, others _ nofun,
    others _ nofun, fun event among => absurd among List.not_mem_nil⟩

private theorem restores_first (index : Nat) (chunk encrypted : Text)
    (found : (chunks (sampleChance Sample.first) "t"
      (sampleRows "k"))[index]? = some chunk)
    (done : sampleCipher.encrypt
      ((sampleChance Sample.first).draw "t" index) chunk = some encrypted) :
    sampleCipher.Restores chunk encrypted := by
  have listed := chunks_sample Sample.first List.mem_cons_self
  change (chunks _ "t" (sampleRows Sample.first.key))[index]? = _ at found
  rw [listed] at found
  rw [List.mem_singleton.mp (List.mem_of_getElem? found)] at done ⊢
  have sealed : ∃ written, sampleCipher.encrypt (some Sample.first.nonce)
      Sample.first.plain = some written ∧
        sampleCipher.Restores Sample.first.plain written :=
    Cipher.exists_encrypt_restores
      (Sample.reliable Sample.first List.mem_cons_self)
  obtain ⟨written, same, restored⟩ := sealed
  cases Option.some.inj (same.symm.trans done)
  exact restored

private theorem restores_sampleSaved :
    ∀ event ∈ sampleSaved, event.Restores sampleCipher := by
  apply forall_mem_sampleSaved
  · exact ⟨⟨sampleTable, rfl⟩, restores_first⟩
  · intro event notSpawn
    cases event with
    | spawn tableName rows chance =>
        exact absurd rfl (notSpawn tableName rows chance)
    | _ =>
        exact trivial

private theorem careful_sampleSaved {events : List StorageEvent}
    {node : PersistentNode} (restores : ∀ event ∈ events,
      event.Restores sampleCipher)
    (goesOn : ∀ event ∈ events, event.stops = false) :
    StepsMeet (PersistentNode.step sampleCipher sampleJson dataDirectory)
      (fun node event => event.Restores sampleCipher ∧
        (event.stops = true → ∀ name,
          ¬ node.stage.Rewrites dataDirectory name)) node events := by
  have both : ∀ event ∈ events,
      event.Restores sampleCipher ∧ event.stops = false :=
    fun event among => ⟨restores event among, goesOn event among⟩
  refine (stepsMeet_of_forall_mem both node).mono ?_
  rintro state event ⟨restored, calm⟩
  refine ⟨restored, fun stops => ?_⟩
  rw [calm] at stops
  cases stops

private theorem goesOn_sampleSaved :
    ∀ event ∈ sampleSaved, event.stops = false := by
  have all : sampleSaved.all (fun event => !event.stops) = true := by
    decide
  intro event among
  simpa using List.all_eq_true.mp all event among

set_option maxRecDepth 2000 in
/-- After the save in `sampleSaved` the node can be started. -/
theorem sampleNode_can_start :
    ∃ final,
      runSteps (PersistentNode.step sampleCipher sampleJson dataDirectory)
        sampleNode (.beginSave ["t"] :: sampleSaved) = some final ∧
      ∀ names, ∃ restarted,
        final.step sampleCipher sampleJson dataDirectory (.start names) =
          some restarted := by
  refine ⟨_, runSteps_eq_some_runResult _ _ _ (by decide), ?_⟩
  refine PersistentNode.can_start isTree_emptyDisk ready_emptyDisk rfl
    (careful_sampleSaved ?_ ?_) (runSteps_eq_some_runResult _ _ _ _) ?_
  · exact List.forall_mem_cons.mpr ⟨trivial, restores_sampleSaved⟩
  · exact List.forall_mem_cons.mpr ⟨rfl, goesOn_sampleSaved⟩
  · intro name
    exact id

/-! ## What was saved comes back -/

/-- What is relied upon in a `spawn` for one table; the names of all tables
are path components. -/
def StorageEvent.Relies (cipher : Cipher) (json : Json) (name : FileName) :
    StorageEvent → Prop
  | .spawn tableName rows chance =>
      (∃ other, tableName = tableNameOf other) ∧
        (tableName = tableNameOf name →
          (∀ key ∈ rows, CleanKey key) ∧
          (∀ key record, rows.lookup key = some record →
            json.Writes (chance.json tableName key record) record) ∧
          ∀ (index : Nat) chunk encrypted,
            (chunks chance tableName rows)[index]? = some chunk →
            cipher.encrypt (chance.draw tableName index) chunk =
              some encrypted →
            cipher.Restores chunk encrypted)
  | _ => True

/-- Every record copied so far is one of those that its key has had. -/
def SaveStage.CopiesSeen (seen : String → Option VersionedValue → Prop)
    (tableName : String) : SaveStage → Prop
  | .copying guarded copied _ => guarded = tableName →
      ∀ key record, copied.lookup key = some record → seen key (some record)
  | _ => True

/-- The table is being copied or written. -/
def SaveStage.Turns (tableName : String) : SaveStage → Prop
  | .copying guarded _ _ => guarded = tableName
  | .writing written _ _ => written = tableName
  | _ => False

section Seen

variable {seen : String → Option VersionedValue → Prop} {name : FileName}
  {node next : PersistentNode} {event : StorageEvent}

theorem SaveStage.CopiesSeen.step
    (taken : PersistentNode.step cipher json base node event = some next)
    (current : ∀ key, seen key (node.store.record (tableNameOf name) key))
    (copies : node.stage.CopiesSeen seen (tableNameOf name)) :
    next.stage.CopiesSeen seen (tableNameOf name) := by
  cases PersistentNode.taken_of_step taken with
  | openTable tableName free =>
      exact copies
  | insert tableName keyVal record free =>
      exact copies
  | remove tableName keyVal =>
      exact copies
  | copy tableName rest stage present =>
      intro _ key record found
      rw [Finmap.lookup_empty] at found
      cases found
  | visit tableName keyVal copied rest record stage found =>
      rw [stage] at copies
      intro same key listed inside
      subst same
      rw [HashMap.lookup_insert_eq_ite] at inside
      split at inside
      · rename_i visited
        cases inside
        rw [visited, ← found]
        exact current keyVal
      · exact copies rfl key listed inside
  | beginSave tableNames stage =>
      exact trivial
  | skip tableName rest stage missing =>
      exact trivial
  | spawn tableName rows chance rest stage visited =>
      exact trivial
  | write tableName diskStep steps rest disk stage reached =>
      exact trivial
  | tear written tableName location text steps rest disk stage reached =>
      exact trivial
  | giveUp tableName steps rest stage =>
      exact trivial
  | nextTable tableName rest stage =>
      exact trivial
  | finishSave stage =>
      exact trivial
  | start names loaded loads =>
      exact trivial
  | startEmpty =>
      exact trivial

/-- What is written for the table consists of records seen before. -/
theorem StorageEvent.Relies.promises
    (relies : event.Relies cipher json name)
    (taken : PersistentNode.step cipher json base node event = some next)
    (current : ∀ key, seen key (node.store.record (tableNameOf name) key))
    (copies : node.stage.CopiesSeen seen (tableNameOf name)) :
    event.Promises cipher json
      (fun records => ∀ key, seen key (records.lookup key)) name := by
  cases PersistentNode.taken_of_step taken with
  | spawn tableName rows chance rest stage visited =>
      obtain ⟨⟨other, rfl⟩, dependable⟩ := relies
      refine ⟨other, rfl, ?_⟩
      rintro rfl
      obtain ⟨clean, writes, restores⟩ := dependable rfl
      refine ⟨restores, fun key => ?_⟩
      rw [readBack_chunks clean writes]
      cases copied : rows.toFinmap.lookup key with
      | some record =>
          rw [stage] at copies
          exact copies rfl key record copied
      | none =>
          -- a key that was not visited is not in the table
          have absent : node.store.record (tableNameOf other) key = none := by
            by_contra present
            obtain ⟨record, found⟩ := Option.ne_none_iff_exists'.mp present
            obtain ⟨records, listed, inside⟩ :=
              Option.bind_eq_some_iff.mp found
            have visitedKey : key ∈ rows.toFinmap := by
              apply visited
              rw [listed, Option.getD_some, Finmap.mem_keys]
              exact Finmap.mem_of_lookup_eq_some inside
            exact Finmap.lookup_eq_none.mp copied visitedKey
          rw [← absent]
          exact current key
  | _ =>
      exact trivial

/-- A turn stays a turn until it is finished or given up. -/
theorem SaveStage.Turns.step {tableName : String}
    (taken : PersistentNode.step cipher json base node event = some next)
    (lasts : event ≠ .nextTable) (goesOn : event.stops = false)
    (turns : node.stage.Turns tableName) : next.stage.Turns tableName := by
  cases PersistentNode.taken_of_step taken with
  | openTable other free =>
      exact turns
  | insert other keyVal record free =>
      exact turns
  | remove other keyVal =>
      exact turns
  | beginSave tableNames stage =>
      rw [stage] at turns
      exact turns.elim
  | skip other rest stage missing =>
      rw [stage] at turns
      exact turns.elim
  | copy other rest stage present =>
      rw [stage] at turns
      exact turns.elim
  | visit other keyVal copied rest record stage found =>
      rw [stage] at turns
      exact turns
  | spawn other rows chance rest stage visited =>
      rw [stage] at turns
      exact turns
  | write other diskStep steps rest disk stage reached =>
      rw [stage] at turns
      exact turns
  | nextTable other rest stage =>
      exact absurd rfl lasts
  | finishSave stage =>
      rw [stage] at turns
      exact turns.elim
  | tear written other location text steps rest disk stage reached =>
      cases goesOn
  | giveUp other steps rest stage =>
      cases goesOn
  | start names loaded loads =>
      cases goesOn
  | startEmpty =>
      cases goesOn

theorem entry_directory_step {location : Location}
    (taken : PersistentNode.step cipher json base node event = some next)
    (isDirectory : node.disk.entry location = some .directory) :
    next.disk.entry location = some .directory := by
  cases PersistentNode.taken_of_step taken with
  | write tableName diskStep steps rest disk stage reached =>
      exact Disk.entry_directory_take reached isDirectory
  | tear written tableName other text steps rest disk stage reached =>
      exact Disk.entry_directory_take reached isDirectory
  | _ =>
      exact isDirectory

/-- After its turn the files of a table give what was copied. -/
theorem sheltered_of_turned {kind : Table → Prop}
    (taken : PersistentNode.step cipher json base node .nextTable = some next)
    (turns : node.stage.Turns (tableNameOf name))
    (turn : node.stage.InTurn cipher json base kind name node.disk) :
    Sheltered cipher json base kind name next ∧
      next.disk.entry base = some .directory ∧
      next.disk.entry (base ++ [name]) = some .directory := by
  cases PersistentNode.taken_of_step taken with
  | nextTable tableName rest stage =>
      rw [stage] at turns turn
      cases turns
      have snapshot := turn.snapshotHolds fun step among =>
        absurd among List.not_mem_nil
      obtain ⟨other, rows, chance, executed, before, named, planned, reached,
        -⟩ := turn
      rw [List.append_nil] at planned
      subst planned
      constructor
      · refine ⟨trivial, fun _ => snapshot, logKeeps_of_empty ?_⟩
        rw [Disk.entry_run reached, saveTable, toList_tableNameOf,
          Location.join_fileName, effects_append, effects_cons,
          effects_append, effects_cons, effects_nil]
        exact if_pos rfl
      · have made : .createDirectory (base ++ [name]) ∈
            saveTable cipher chance base (tableNameOf name) rows :=
          mem_saveTable.mpr
            (Or.inl ⟨base ++ [name], List.prefix_refl _, rfl⟩)
        have both := Disk.entry_of_createDirectory_mem reached made
        rw [List.dropLast_concat] at both
        exact ⟨both.2, both.1⟩

/-- What a start finds in a sheltered table. -/
theorem record_of_start {kind : Table → Prop} {listed : List FileName}
    (taken : PersistentNode.step cipher json base node (.start listed) =
      some next)
    (lists : node.disk.Lists base listed)
    (unharmed : ¬ node.stage.Rewrites base name)
    (sheltered : Sheltered cipher json base kind name node)
    (isTree : node.disk.entry base = some .directory)
    (isDirectory : node.disk.entry (base ++ [name]) = some .directory) :
    ∃ records, next.store.lookup (tableNameOf name) = some records ∧
      kind records := by
  cases PersistentNode.taken_of_step taken with
  | start _ loaded loads =>
      obtain ⟨records, found, holds⟩ :=
        exists_loadFolder (sheltered.snapshot unharmed) sheltered.log
      rw [loadAllTables, if_pos isTree] at loads
      have among : name ∈ listed := by
        rw [lists.mem_iff, isDirectory]
        rfl
      obtain ⟨others, read, present⟩ :=
        (lookup_loadTables lists.nodup loads).1 name among isDirectory
      rw [found] at read
      cases read
      refine ⟨records, ?_, holds⟩
      rw [PersistentNode.restart, Store.orDefault]
      split
      · exact present
      · rename_i missing
        rw [Finmap.lookup_insert_of_ne, present]
        intro same
        rw [← same, present] at missing
        cases missing

end Seen

/-- A stop does not fall into the rewriting of the table, a spawn is
dependable, and a start reads the whole data directory. -/
structure PersistentNode.Careful (cipher : Cipher) (json : Json)
    (base : Location) (name : FileName) (node : PersistentNode)
    (event : StorageEvent) : Prop where
  relies : event.Relies cipher json name
  unharmed : event.stops = true → ¬ node.stage.Rewrites base name
  lists : ∀ listed, event = .start listed → node.disk.Lists base listed

section Recent

variable {seen : String → Option VersionedValue → Prop} {name : FileName}
  {node final : PersistentNode} {events : List StorageEvent}

/-- What is copied and written during the turn of a table has been seen. -/
theorem SaveStage.Turns.run {others : List String}
    (begun : node.stage = .copying (tableNameOf name) ∅ others)
    (oneTurn : ∀ event ∈ events, event ≠ .nextTable ∧ event.stops = false)
    (careful : StepsMeet (PersistentNode.step cipher json base)
      (fun state event =>
        PersistentNode.Careful cipher json base name state event ∧
          ∀ key, seen key (state.store.record (tableNameOf name) key))
      node events)
    (reached : runSteps (PersistentNode.step cipher json base) node events =
      some final) :
    final.stage.Turns (tableNameOf name) ∧
      final.stage.InTurn cipher json base
        (fun records => ∀ key, seen key (records.lookup key)) name
        final.disk := by
  have single : StepsMeet (PersistentNode.step cipher json base)
      (fun _ event => event ≠ .nextTable ∧ event.stops = false) node events :=
    stepsMeet_of_forall_mem oneTurn node
  have first : node.stage.CopiesSeen seen (tableNameOf name) := by
    rw [begun]
    intro _ key record found
    rw [Finmap.lookup_empty] at found
    cases found
  have holds := runSteps_induction
    (fun state => state.stage.Turns (tableNameOf name) ∧
      state.stage.InTurn cipher json base
        (fun records => ∀ key, seen key (records.lookup key)) name
        state.disk ∧
      state.stage.CopiesSeen seen (tableNameOf name))
    (by
      rintro state event next ⟨⟨condition, current⟩, lasts, goesOn⟩ taken
        ⟨turns, turn, copies⟩
      have promises := condition.relies.promises taken current copies
      exact ⟨turns.step taken lasts goesOn, turn.step taken promises,
        copies.step taken current⟩)
    (careful.and single) reached
    (by
      refine ⟨?_, ?_, first⟩
      · rw [begun]
        rfl
      · rw [begun]
        trivial)
  exact ⟨holds.1, holds.2.1⟩

/-- After the turn of a table its files give what has been seen. -/
theorem Sheltered.run
    (sheltered : Sheltered cipher json base
      (fun records => ∀ key, seen key (records.lookup key)) name node)
    (copies : node.stage.CopiesSeen seen (tableNameOf name))
    (careful : StepsMeet (PersistentNode.step cipher json base)
      (fun state event =>
        PersistentNode.Careful cipher json base name state event ∧
          ∀ key, seen key (state.store.record (tableNameOf name) key))
      node events)
    (reached : runSteps (PersistentNode.step cipher json base) node events =
      some final) :
    Sheltered cipher json base
      (fun records => ∀ key, seen key (records.lookup key)) name final := by
  have holds := runSteps_induction
    (fun state => Sheltered cipher json base
        (fun records => ∀ key, seen key (records.lookup key)) name state ∧
      state.stage.CopiesSeen seen (tableNameOf name))
    (by
      rintro state event next ⟨condition, current⟩ taken ⟨holds, copies⟩
      have promises := condition.relies.promises taken current copies
      exact ⟨holds.step taken promises condition.unharmed,
        copies.step taken current⟩)
    careful reached ⟨sheltered, copies⟩
  exact holds.1

theorem entry_directory_run {location : Location}
    (isDirectory : node.disk.entry location = some .directory)
    (reached : runSteps (PersistentNode.step cipher json base) node events =
      some final) :
    final.disk.entry location = some .directory :=
  runSteps_induction (fun state => state.disk.entry location = some .directory)
    (fun _ _ _ _ => entry_directory_step)
    (stepsMeet_true (PersistentNode.step cipher json base) node events)
    reached isDirectory

end Recent

/-- Once a table has been saved, every restart gives each of its keys a
record (or none) that it had at some moment since the copying began. -/
theorem PersistentNode.restart_recent {name : FileName}
    {node restarted : PersistentNode} {others : List String}
    {during after : List StorageEvent} {listed : List FileName}
    (due : node.stage = .tables (tableNameOf name :: others))
    (oneTurn : ∀ event ∈ during, event ≠ .nextTable ∧ event.stops = false)
    (careful : StepsMeet (step cipher json base)
      (Careful cipher json base name) node
      (.copy :: during ++ .nextTable :: after ++ [.start listed]))
    (reached : runSteps (step cipher json base) node
      (.copy :: during ++ .nextTable :: after ++ [.start listed]) =
        some restarted) :
    tableNameOf name ∈ restarted.store ∧
      ∀ key, ∃ moment ∈ runStates (step cipher json base) node
          (.copy :: during ++ .nextTable :: after),
        restarted.store.record (tableNameOf name) key =
          moment.store.record (tableNameOf name) key := by
  let events := StorageEvent.copy :: during ++ .nextTable :: after
  let seen (key : String) (record : Option VersionedValue) : Prop :=
    ∃ moment ∈ runStates (step cipher json base) node events,
      record = moment.store.record (tableNameOf name) key
  have always : Throughout (step cipher json base)
      (fun state => ∀ key,
        seen key (state.store.record (tableNameOf name) key)) node events := by
    refine throughout_mono ?_ (throughout_runStates _ node events)
    intro state among key
    exact ⟨state, among, rfl⟩
  obtain ⟨last, ran, started⟩ := runSteps_append_eq_some.mp reached
  obtain ⟨carefulRun, carefulStart⟩ := stepsMeet_append ran careful
  obtain ⟨turned, ranTurn, ranAfter⟩ := runSteps_append_eq_some.mp ran
  have meets := carefulRun.and (stepsMeet_of_throughout always)
  obtain ⟨meetsTurn, meetsAfter⟩ := stepsMeet_append ranTurn meets
  -- the turn of the table
  obtain ⟨copied, begun, ranDuring⟩ := runSteps_cons_eq_some.mp ranTurn
  have first : copied.stage = .copying (tableNameOf name) ∅ others := by
    cases taken_of_step begun with
    | copy tableName rest stage present =>
        rw [due] at stage
        cases stage
        rfl
  obtain ⟨turns, turn⟩ :=
    SaveStage.Turns.run first oneTurn (meetsTurn.2 copied begun) ranDuring
  -- everything after it
  obtain ⟨saved, finished, ranRest⟩ := runSteps_cons_eq_some.mp ranAfter
  obtain ⟨sheltered, isTree, isDirectory⟩ :=
    sheltered_of_turned finished turns turn
  have copies : saved.stage.CopiesSeen seen (tableNameOf name) := by
    cases taken_of_step finished with
    | nextTable tableName rest stage =>
        exact trivial
  have kept := sheltered.run copies (meetsAfter.2 saved finished) ranRest
  -- the restart
  obtain ⟨next, taken, same⟩ := runSteps_cons_eq_some.mp started
  cases Option.some.inj same
  obtain ⟨records, found, recent⟩ := record_of_start taken
    (carefulStart.1.lists listed rfl) (carefulStart.1.unharmed rfl) kept
    (entry_directory_run isTree ranRest)
    (entry_directory_run isDirectory ranRest)
  refine ⟨Finmap.mem_of_lookup_eq_some found, fun key => ?_⟩
  obtain ⟨moment, among, own⟩ := recent key
  refine ⟨moment, among, ?_⟩
  rw [Store.record, found]
  exact own

private theorem relies_sampleSaved :
    ∀ event ∈ sampleSaved,
      event.Relies sampleCipher sampleJson sampleTable := by
  apply forall_mem_sampleSaved
  · refine ⟨⟨sampleTable, rfl⟩, fun _ => ⟨?_, ?_, restores_first⟩⟩
    · intro key member
      rw [List.mem_singleton.mp member]
      decide
    · exact (dependable_sample
        (List.mem_cons_self : Sample.first ∈ Sample.all)).writes "t" _ rfl
  · intro event notSpawn
    cases event with
    | spawn tableName rows chance =>
        exact absurd rfl (notSpawn tableName rows chance)
    | _ =>
        exact trivial

/-- The node of `sampleNode` when the turn of its table is due. -/
def sampleBegun : PersistentNode :=
  { sampleNode with stage := .tables ["t"] }

set_option maxRecDepth 2000 in
private theorem exists_sampleRestart :
    ∃ saved listed restarted,
      runSteps (PersistentNode.step sampleCipher sampleJson dataDirectory)
        sampleBegun sampleSaved = some saved ∧
      saved.stage = .idle ∧ saved.disk.Lists dataDirectory listed ∧
      saved.step sampleCipher sampleJson dataDirectory (.start listed) =
        some restarted := by
  have ran : ∃ saved, runSteps
      (PersistentNode.step sampleCipher sampleJson dataDirectory) sampleBegun
        sampleSaved = some saved ∧ saved.stage = .idle :=
    ⟨_, runSteps_eq_some_runResult _ _ _ (by decide), rfl⟩
  obtain ⟨saved, ran, idle⟩ := ran
  obtain ⟨listed, lists⟩ := saved.disk.exists_lists dataDirectory
  have whole : runSteps
      (PersistentNode.step sampleCipher sampleJson dataDirectory) sampleNode
        (.beginSave ["t"] :: sampleSaved) = some saved :=
    runSteps_cons_eq_some.mpr ⟨sampleBegun, rfl, ran⟩
  have restores : ∀ event ∈ .beginSave ["t"] :: sampleSaved,
      event.Restores sampleCipher :=
    List.forall_mem_cons.mpr ⟨trivial, restores_sampleSaved⟩
  have goesOn : ∀ event ∈ .beginSave ["t"] :: sampleSaved,
      event.stops = false :=
    List.forall_mem_cons.mpr ⟨rfl, goesOn_sampleSaved⟩
  have sheltered := ready_emptyDisk.sheltered_run isTree_emptyDisk rfl
    (careful_sampleSaved restores goesOn) whole
  have settled (name : FileName) :
      ¬ saved.stage.Rewrites dataDirectory name := by
    rw [idle]
    exact id
  obtain ⟨restarted, started⟩ := exists_start sheltered settled listed
  exact ⟨saved, listed, restarted, ran, idle, lists, started⟩

/-- A record that was removed after it had been saved has been there since
the copying began. -/
theorem sampleNode_restart_recent :
    ∃ listed restarted,
      runSteps (PersistentNode.step sampleCipher sampleJson dataDirectory)
        sampleBegun (sampleSaved ++ [.start listed]) = some restarted ∧
      "t" ∈ restarted.store ∧
      ∀ key, ∃ moment ∈ runStates
          (PersistentNode.step sampleCipher sampleJson dataDirectory)
          sampleBegun sampleSaved,
        restarted.store.record "t" key = moment.store.record "t" key := by
  obtain ⟨saved, listed, restarted, ran, idle, lists, started⟩ :=
    exists_sampleRestart
  have reached : runSteps
      (PersistentNode.step sampleCipher sampleJson dataDirectory) sampleBegun
        (sampleSaved ++ [.start listed]) = some restarted :=
    runSteps_append_eq_some.mpr ⟨saved, ran, runSteps_cons_eq_some.mpr
      ⟨restarted, started, runSteps_nil restarted⟩⟩
  have oneTurn : ∀ event ∈ sampleTurn,
      event ≠ .nextTable ∧ event.stops = false := by
    simp [sampleTurn, List.replicate, StorageEvent.stops]
  have carefulSaved : StepsMeet
      (PersistentNode.step sampleCipher sampleJson dataDirectory)
      (PersistentNode.Careful sampleCipher sampleJson dataDirectory
        sampleTable) sampleBegun sampleSaved := by
    have both := fun event among => And.intro
      (relies_sampleSaved event among) (goesOn_sampleSaved event among)
    refine (stepsMeet_of_forall_mem both sampleBegun).mono ?_
    rintro state event ⟨relies, goesOn⟩
    refine ⟨relies, fun stops => ?_, ?_⟩
    · rw [goesOn] at stops
      cases stops
    · rintro names rfl
      cases goesOn
  have carefulStart : PersistentNode.Careful sampleCipher sampleJson
      dataDirectory sampleTable saved (.start listed) := by
    refine ⟨trivial, fun _ => ?_, ?_⟩
    · rw [idle]
      exact id
    · intro names same
      cases same
      exact lists
  have careful : StepsMeet
      (PersistentNode.step sampleCipher sampleJson dataDirectory)
      (PersistentNode.Careful sampleCipher sampleJson dataDirectory
        sampleTable) sampleBegun (sampleSaved ++ [.start listed]) :=
    carefulSaved.append ran ⟨carefulStart, fun _ _ => trivial⟩
  have due : sampleBegun.stage = .tables [tableNameOf sampleTable] :=
    rfl
  exact ⟨listed, restarted, reached,
    PersistentNode.restart_recent due oneTurn careful reached⟩

end DynaRust.Storage
