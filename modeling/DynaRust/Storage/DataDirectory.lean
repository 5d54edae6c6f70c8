import DynaRust.Storage.SnapshotFormat

/-!
# The data directory

What saving writes to which file, and what loading takes from which.
-/

namespace DynaRust.Storage

open DynaRust.Foundation

variable {cipher : Cipher} {json : Json} {chance : Chance} {base : Location}

@[simp]
theorem toList_tableNameOf (name : FileName) :
    (tableNameOf name).toList = name.text :=
  String.toList_ofList

theorem tableNameOf_injective : Function.Injective tableNameOf := by
  intro first second same
  apply FileName.ext
  rw [← toList_tableNameOf, same, toList_tableNameOf]

private theorem file_not_ancestor (folder other file : FileName) :
    ¬ base ++ [other] ++ [file] <+: base ++ [folder] := by
  intro shorter
  have bound := shorter.length_le
  simp at bound

/-! ## What one table writes -/

/-- Snapshot lines with their line feeds. -/
def storedText (encrypted : List Text) : Text :=
  encrypted.flatMap fun line => line ++ ['\n']

theorem effects_chunkSteps (file location : Location) (entry : Option Entry)
    (encrypted : List Text) :
    effects location entry (chunkSteps file (encrypted.map some)) =
      if file = location then
        entry.map fun found => found.append (storedText encrypted)
      else entry := by
  induction encrypted generalizing entry with
  | nil =>
      by_cases same : file = location
      · rcases entry with _ | _ | content <;>
          simp [chunkSteps, storedText, Entry.append, same]
      · simp [chunkSteps, same]
  | cons line rest inductionHypothesis =>
      rw [List.map_cons, chunkSteps, effects_cons, effects_cons,
        inductionHypothesis, DiskStep.effect, DiskStep.effect]
      by_cases same : file = location
      · rcases entry with _ | _ | content <;>
          simp [storedText, Entry.append, same]
      · simp [same]

/-- The snapshot and the log of a table, and the directories above them. -/
theorem effects_saveTable {name : FileName} {rows : Rows}
    {encrypted : List Text}
    (all : encryptedChunks cipher chance (tableNameOf name) rows =
      encrypted.map some) (location : Location) (entry : Option Entry) :
    effects location entry
        (saveTable cipher chance base (tableNameOf name) rows) =
      if base ++ [name] ++ [walLog] = location then some (.file [])
      else if base ++ [name] ++ [storageDb] = location then
        some (.file (storedText encrypted))
      else if location <+: base ++ [name] then some .directory
      else entry := by
  have files : base ++ [name] ++ [storageDb] ≠ base ++ [name] ++ [walLog] := by
    intro same
    cases List.append_cancel_left same
  rw [saveTable, toList_tableNameOf, Location.join_fileName,
    Location.visited_fileName, all, effects_append,
    effects_createDirectories, effects_cons, effects_append,
    effects_chunkSteps, effects_cons, effects_nil]
  simp only [DiskStep.effect, List.mem_inits]
  by_cases wal : base ++ [name] ++ [walLog] = location
  · rw [if_pos wal, if_pos wal]
  · rw [if_neg wal, if_neg wal]
    by_cases storage : base ++ [name] ++ [storageDb] = location
    · simp [storage, Entry.append]
    · simp only [if_neg storage]

theorem effects_saveTable_storage {name : FileName} {rows : Rows}
    {encrypted : List Text}
    (all : encryptedChunks cipher chance (tableNameOf name) rows =
      encrypted.map some) (other : FileName) (entry : Option Entry) :
    effects (base ++ [other] ++ [storageDb]) entry
        (saveTable cipher chance base (tableNameOf name) rows) =
      if name = other then some (.file (storedText encrypted))
      else entry := by
  rw [effects_saveTable all, if_neg, if_neg (file_not_ancestor _ _ _)]
  · simp
  · intro same
    cases List.append_inj_right' same rfl

theorem effects_saveTable_wal {name : FileName} {rows : Rows}
    {encrypted : List Text}
    (all : encryptedChunks cipher chance (tableNameOf name) rows =
      encrypted.map some) (other : FileName) (entry : Option Entry) :
    effects (base ++ [other] ++ [walLog]) entry
        (saveTable cipher chance base (tableNameOf name) rows) =
      if name = other then some (.file []) else entry := by
  rw [effects_saveTable all]
  by_cases same : name = other
  · rw [if_pos same, if_pos (by rw [same])]
  · rw [if_neg same, if_neg (by simpa using same), if_neg,
      if_neg (file_not_ancestor _ _ _)]
    intro mixed
    cases List.append_inj_right' mixed rfl

theorem effects_saveTable_folder {name : FileName} {rows : Rows}
    {encrypted : List Text}
    (all : encryptedChunks cipher chance (tableNameOf name) rows =
      encrypted.map some) (other : FileName) (entry : Option Entry) :
    effects (base ++ [other]) entry
        (saveTable cipher chance base (tableNameOf name) rows) =
      if name = other then some .directory else entry := by
  have notFile (file : FileName) :
      base ++ [name] ++ [file] ≠ base ++ [other] := by
    intro same
    have lengths := congrArg List.length same
    simp at lengths
  rw [effects_saveTable all, if_neg (notFile _), if_neg (notFile _)]
  by_cases same : name = other
  · rw [if_pos same, same, if_pos (List.prefix_refl _)]
  · rw [if_neg same, if_neg]
    intro ancestor
    have whole := ancestor.eq_of_length (by simp)
    exact same (List.singleton_inj.mp (List.append_cancel_left whole)).symm

/-! ## What all tables write -/

/-- Where only the table called `key` writes, its effect is the effect of the
whole save. -/
theorem effects_saveToCold {location : Location} {key : String}
    {written : Rows → Option Entry}
    {entries : List (Sigma fun _ : String => Rows)}
    (distinct : entries.NodupKeys)
    (own : ∀ rows, Sigma.mk key rows ∈ entries → ∀ entry,
      effects location entry (saveTable cipher chance base key rows) =
        written rows)
    (others : ∀ table ∈ entries, table.1 ≠ key → ∀ entry,
      effects location entry
        (saveTable cipher chance base table.1 table.2) = entry)
    (entry : Option Entry) :
    effects location entry (entries.flatMap fun table =>
        saveTable cipher chance base table.1 table.2) =
      (entries.dlookup key).elim entry written := by
  induction entries generalizing entry with
  | nil =>
      rfl
  | cons table rest inductionHypothesis =>
      obtain ⟨tableName, rows⟩ := table
      have parts := List.nodupKeys_cons.mp distinct
      have later := inductionHypothesis parts.2
        (fun rows among => own rows (List.mem_cons_of_mem _ among))
        (fun table among => others table (List.mem_cons_of_mem _ among))
      rw [List.flatMap_cons, effects_append, later]
      by_cases same : tableName = key
      · subst same
        have absent : rest.dlookup tableName = none :=
          List.dlookup_eq_none.mpr parts.1
        rw [absent, List.dlookup_cons_eq, Option.elim_none,
          own rows List.mem_cons_self, Option.elim_some]
      · rw [others ⟨tableName, rows⟩ List.mem_cons_self same,
          List.dlookup_cons_ne rest ⟨tableName, rows⟩ (Ne.symm same)]

/-! ## Saving without an obstacle -/

/-- Nothing in the data directory stands in the way of a save. -/
structure Clear (disk : Disk) (base : Location) : Prop where
  baseAccepted : ∀ name ∈ base, disk.accepts name = true
  storageAccepted : disk.accepts storageDb = true
  walAccepted : disk.accepts walLog = true
  baseFree : ∀ ancestor, ancestor <+: base → disk.content ancestor = none
  folderFree : ∀ name, disk.content (base ++ [name]) = none
  storageFree : ∀ name,
    disk.entry (base ++ [name] ++ [storageDb]) ≠ some .directory
  walFree : ∀ name, disk.entry (base ++ [name] ++ [walLog]) ≠ some .directory

private theorem exists_run_chunkSteps {disk : Disk} {file : Location}
    {content : Text} (found : disk.content file = some content)
    (encrypted : List Text) :
    ∃ next, disk.run (chunkSteps file (encrypted.map some)) = some next := by
  induction encrypted generalizing disk content with
  | nil =>
      exact ⟨disk, rfl⟩
  | cons line rest inductionHypothesis =>
      have isFile := Disk.content_eq_some.mp found
      have written (state : Disk) (before text : Text)
          (present : state.content file = some before) :
          ∃ next, state.take (.append file text) = some next ∧
            next.content file = some (before ++ text) := by
        refine ⟨_, by rw [Disk.take, present]; rfl, ?_⟩
        rw [Disk.content_eq_some, Disk.entry_insert, if_pos rfl]
        rintro rfl
        cases Disk.content_eq_some.mp present
      obtain ⟨middle, first, between⟩ := written disk content line found
      obtain ⟨last, second, after⟩ := written middle _ ['\n'] between
      obtain ⟨next, reached⟩ := inductionHypothesis after
      refine ⟨next, ?_⟩
      exact runSteps_cons_eq_some.mpr ⟨middle, first,
        runSteps_cons_eq_some.mpr ⟨last, second, reached⟩⟩

private theorem exists_take_createFile {disk : Disk} {folder : Location}
    {file : FileName} (parent : disk.entry folder = some .directory)
    (accepted : disk.accepts file = true)
    (free : disk.entry (folder ++ [file]) ≠ some .directory) :
    ∃ next, disk.take (.createFile (folder ++ [file])) = some next := by
  refine ⟨_, if_pos ⟨⟨?_, ?_⟩, free⟩⟩
  · rw [List.dropLast_concat]
    exact parent
  · intro last isLast
    rw [List.getLast?_concat] at isLast
    cases isLast
    exact accepted

/-- After a table is saved the way is still clear. -/
private theorem clear_of_run_saveTable {disk next : Disk} {name : FileName}
    {rows : Rows} {encrypted : List Text} (clear : Clear disk base)
    (all : encryptedChunks cipher chance (tableNameOf name) rows =
      encrypted.map some)
    (reached : disk.run
      (saveTable cipher chance base (tableNameOf name) rows) = some next) :
    Clear next base := by
  have accepts := Disk.accepts_run reached
  have entry := Disk.entry_run reached
  refine ⟨?_, ?_, ?_, ?_, ?_, ?_, ?_⟩
  · rw [accepts]
    exact clear.baseAccepted
  · rw [accepts]
    exact clear.storageAccepted
  · rw [accepts]
    exact clear.walAccepted
  · intro ancestor start
    apply Disk.content_of_directory
    have notFile (file : FileName) :
        base ++ [name] ++ [file] ≠ ancestor := by
      intro same
      have bound := start.length_le
      rw [← same, List.length_append, List.length_append] at bound
      simp only [List.length_singleton] at bound
      omega
    rw [entry, effects_saveTable all, if_neg (notFile _),
      if_neg (notFile _), if_pos (start.trans (List.prefix_append _ _))]
  · intro other
    have own := entry (base ++ [other])
    rw [effects_saveTable_folder all] at own
    split at own
    · exact Disk.content_of_directory own
    · rw [Disk.content_congr own]
      exact clear.folderFree other
  · intro other
    rw [entry, effects_saveTable_storage all]
    split
    · simp
    · exact clear.storageFree other
  · intro other
    rw [entry, effects_saveTable_wal all]
    split
    · simp
    · exact clear.walFree other

theorem exists_run_saveTable {disk : Disk} {name : FileName} {rows : Rows}
    {encrypted : List Text} (clear : Clear disk base)
    (accepted : disk.accepts name = true)
    (all : encryptedChunks cipher chance (tableNameOf name) rows =
      encrypted.map some) :
    ∃ next, disk.run (saveTable cipher chance base (tableNameOf name) rows) =
        some next ∧ Clear next base := by
  let folder := base ++ [name]
  have acceptedAll : ∀ part ∈ folder, disk.accepts part = true := by
    intro part among
    rcases List.mem_append.mp among with inside | last
    · exact clear.baseAccepted part inside
    · rw [List.mem_singleton.mp last]
      exact accepted
  have free : ∀ ancestor, ancestor <+: folder →
      disk.content ancestor = none := by
    intro ancestor start
    rcases List.prefix_concat_iff.mp start with rfl | inside
    · exact clear.folderFree name
    · exact clear.baseFree ancestor inside
  -- the directories
  obtain ⟨first, made⟩ :=
    Disk.exists_run_createDirectories acceptedAll free
  have isFolder : first.entry folder = some .directory :=
    (Disk.entry_of_createDirectory_mem made
      (List.mem_map_of_mem ((List.mem_inits _ _).mpr
        (List.prefix_refl _)))).1
  have acceptsFirst := Disk.accepts_run made
  have unmade (file : FileName) :
      first.entry (folder ++ [file]) = disk.entry (folder ++ [file]) := by
    rw [Disk.entry_run made, effects_createDirectories, if_neg]
    rw [List.mem_inits]
    exact file_not_ancestor name name file
  -- the snapshot
  obtain ⟨second, created⟩ := exists_take_createFile isFolder
    (by rw [acceptsFirst]; exact clear.storageAccepted)
    (by rw [unmade]; exact clear.storageFree name)
  have empty : second.content (folder ++ [storageDb]) = some [] := by
    rw [Disk.content_eq_some, (Disk.take_eq_some created).2]
    exact if_pos rfl
  obtain ⟨third, appended⟩ := exists_run_chunkSteps empty encrypted
  -- the log
  have stillFolder : third.entry folder = some .directory :=
    Disk.entry_directory_run appended
      (Disk.entry_directory_take created isFolder)
  have acceptsThird : third.accepts = disk.accepts := by
    rw [Disk.accepts_run appended, (Disk.take_eq_some created).1,
      acceptsFirst]
  have different : folder ++ [storageDb] ≠ folder ++ [walLog] := by
    intro same
    cases List.append_cancel_left same
  have untouched : third.entry (folder ++ [walLog]) =
      disk.entry (folder ++ [walLog]) := by
    rw [Disk.entry_run appended, effects_chunkSteps, if_neg different,
      (Disk.take_eq_some created).2, DiskStep.effect, if_neg different,
      unmade]
  obtain ⟨last, finished⟩ := exists_take_createFile stillFolder
    (by rw [acceptsThird]; exact clear.walAccepted)
    (by rw [untouched]; exact clear.walFree name)
  have reached : disk.run
      (saveTable cipher chance base (tableNameOf name) rows) = some last := by
    rw [saveTable, toList_tableNameOf, Location.join_fileName,
      Location.visited_fileName, all]
    exact runSteps_append_eq_some.mpr ⟨first, made,
      runSteps_cons_eq_some.mpr ⟨second, created,
        runSteps_append_eq_some.mpr ⟨third, appended,
          runSteps_cons_eq_some.mpr ⟨last, finished, rfl⟩⟩⟩⟩
  exact ⟨last, reached, clear_of_run_saveTable clear all reached⟩

/-- A table name that is one path component the file system takes. -/
def Storable (disk : Disk) (tableName : String) : Prop :=
  ∃ name, tableNameOf name = tableName ∧ disk.accepts name = true

/-- Every chunk of the table can be encrypted and decrypted again. -/
def RestoresTable (cipher : Cipher) (chance : Chance) (tableName : String)
    (rows : Rows) : Prop :=
  ∃ encrypted,
    encryptedChunks cipher chance tableName rows = encrypted.map some ∧
      List.Forall₂ cipher.Restores (chunks chance tableName rows) encrypted

theorem exists_run_saveToCold {disk : Disk}
    {entries : List (Sigma fun _ : String => Rows)}
    (clear : Clear disk base)
    (storable : ∀ table ∈ entries, Storable disk table.1)
    (restores : ∀ table ∈ entries,
      RestoresTable cipher chance table.1 table.2) :
    ∃ saved, disk.run (entries.flatMap fun table =>
        saveTable cipher chance base table.1 table.2) = some saved ∧
      Clear saved base := by
  induction entries generalizing disk with
  | nil =>
      exact ⟨disk, rfl, clear⟩
  | cons table rest inductionHypothesis =>
      obtain ⟨tableName, rows⟩ := table
      obtain ⟨name, rfl, accepted⟩ := storable _ List.mem_cons_self
      obtain ⟨encrypted, all, -⟩ := restores _ List.mem_cons_self
      obtain ⟨next, reached, stillClear⟩ :=
        exists_run_saveTable clear accepted all
      have storableNext : ∀ table ∈ rest, Storable next table.1 := by
        intro table among
        rw [Storable, Disk.accepts_run reached]
        exact storable table (List.mem_cons_of_mem _ among)
      obtain ⟨saved, finished, finallyClear⟩ :=
        inductionHypothesis stillClear storableNext
          (fun table among => restores table (List.mem_cons_of_mem _ among))
      refine ⟨saved, ?_, finallyClear⟩
      rw [List.flatMap_cons]
      exact runSteps_append_eq_some.mpr ⟨next, reached, finished⟩

/-! ## Loading -/

theorem readLines_file {disk : Disk} {location : Location} {content : Text}
    (found : disk.content location = some content) :
    readLines disk location = .ok (splitLines content) := by
  rw [readLines, Disk.content_eq_some.mp found]

theorem Cipher.Restores.isLine {plain encrypted : Text}
    (restores : cipher.Restores plain encrypted) : IsLine encrypted := by
  constructor
  · intro feed
    exact absurd (restores.solid '\n' feed) (by decide)
  · intro last
    exact absurd (restores.solid '\r' (List.mem_of_getLast? last))
      (by decide)

theorem exists_restores_of_mem {plain encrypted : List Text}
    (restores : List.Forall₂ cipher.Restores plain encrypted) :
    ∀ line ∈ encrypted, ∃ chunk, cipher.Restores chunk line := by
  induction restores with
  | nil =>
      exact fun _ among => absurd among List.not_mem_nil
  | cons head _ inductionHypothesis =>
      exact List.forall_mem_cons.mpr ⟨⟨_, head⟩, inductionHypothesis⟩

theorem forall_isLine {plain encrypted : List Text}
    (restores : List.Forall₂ cipher.Restores plain encrypted) :
    ∀ line ∈ encrypted, IsLine line := by
  intro line among
  obtain ⟨chunk, own⟩ := exists_restores_of_mem restores line among
  exact own.isLine

theorem splitLines_storedText {plain encrypted : List Text}
    (restores : List.Forall₂ cipher.Restores plain encrypted) :
    splitLines (storedText encrypted) = encrypted :=
  splitLines_terminated (forall_isLine restores)

/-- A complete snapshot is read as the plaintext of its chunks. -/
theorem loadSnapshot_storedText {plain encrypted : List Text}
    (restores : List.Forall₂ cipher.Restores plain encrypted) :
    loadSnapshot cipher json ∅ (splitLines (storedText encrypted)) =
      .ok (readBack json plain) := by
  have snapshot : loadSnapshot cipher json ∅ (encrypted ++ []) = _ :=
    loadSnapshot_restores restores [] ∅
  rw [List.append_nil, loadSnapshot] at snapshot
  rw [splitLines_storedText restores, snapshot, readBack]

/-- A folder with a complete snapshot and an empty log. -/
theorem loadFolder_stored {disk : Disk} {folder : Location}
    {plain encrypted : List Text}
    (restores : List.Forall₂ cipher.Restores plain encrypted)
    (storage : disk.content (folder ++ [storageDb]) =
      some (storedText encrypted))
    (wal : disk.content (folder ++ [walLog]) = some []) :
    loadFolder cipher json disk folder = .ok (readBack json plain) := by
  rw [loadFolder, readLines_file storage]
  simp only [loadSnapshot_storedText restores, readLines_file wal]
  rfl

section LoadTables

variable {disk : Disk}

theorem exists_loadTables {names : List FileName}
    (loads : ∀ name ∈ names, disk.entry (base ++ [name]) = some .directory →
      ∃ records, loadFolder cipher json disk (base ++ [name]) = .ok records)
    (store : Store) :
    ∃ loaded, loadTables cipher json disk base store names = .ok loaded := by
  induction names generalizing store with
  | nil =>
      exact ⟨store, rfl⟩
  | cons name rest inductionHypothesis =>
      have later := inductionHypothesis fun other among =>
        loads other (List.mem_cons_of_mem name among)
      rw [loadTables]
      split
      · rename_i isDirectory
        obtain ⟨records, found⟩ := loads name List.mem_cons_self isDirectory
        rw [found]
        exact later _
      · exact later _

theorem lookup_loadTables {names : List FileName} {store loaded : Store}
    (distinct : names.Nodup)
    (done : loadTables cipher json disk base store names = .ok loaded) :
    (∀ name ∈ names, disk.entry (base ++ [name]) = some .directory →
      ∃ records,
        loadFolder cipher json disk (base ++ [name]) = .ok records ∧
          loaded.lookup (tableNameOf name) = some records) ∧
      ∀ tableName,
        (∀ name ∈ names, disk.entry (base ++ [name]) = some .directory →
          tableNameOf name ≠ tableName) →
        loaded.lookup tableName = store.lookup tableName := by
  induction names generalizing store with
  | nil =>
      cases done
      exact ⟨fun name among => absurd among List.not_mem_nil, fun _ _ => rfl⟩
  | cons name rest inductionHypothesis =>
      obtain ⟨fresh, distinctRest⟩ := List.nodup_cons.mp distinct
      rw [loadTables] at done
      split at done
      · rename_i isDirectory
        split at done
        · cases done
        · rename_i records found
          obtain ⟨present, absent⟩ := inductionHypothesis distinctRest done
          constructor
          · intro other among otherDirectory
            rcases List.mem_cons.mp among with rfl | later
            · refine ⟨records, found, ?_⟩
              rw [absent, Finmap.lookup_insert]
              intro third inside _ same
              exact fresh (tableNameOf_injective same ▸ inside)
            · exact present other later otherDirectory
          · intro tableName others
            rw [absent tableName fun other among =>
                others other (List.mem_cons_of_mem name among),
              Finmap.lookup_insert_of_ne]
            exact Ne.symm (others name List.mem_cons_self isDirectory)
      · rename_i notDirectory
        obtain ⟨present, absent⟩ := inductionHypothesis distinctRest done
        constructor
        · intro other among otherDirectory
          rcases List.mem_cons.mp among with rfl | later
          · exact absurd otherDirectory notDirectory
          · exact present other later otherDirectory
        · intro tableName others
          exact absent tableName fun other among =>
            others other (List.mem_cons_of_mem name among)

end LoadTables

end DynaRust.Storage
