import DynaRust.Storage.Interruption
import DynaRust.Storage.Restore

/-!
# Loading after an interrupted save

Which stops of a save leave, for every table, the records that were there
before or the records that were to be saved.
-/

namespace DynaRust.Storage

open DynaRust.Foundation

variable {cipher : Cipher} {json : Json} {chance : Chance} {base : Location}

/-- The records of a table, none if the table is missing. -/
def Store.records (store : Store) (tableName : String) : Table :=
  (store.lookup tableName).getD ∅

/-- A data directory that only saves have written to, each of them completed
or stopped. -/
inductive LeftBySaves (cipher : Cipher) (base : Location) : Disk → Prop
  | fresh {disk} (isTree : disk.IsTree)
      (empty : ∀ name, disk.entry (base ++ [name]) = none) :
      LeftBySaves cipher base disk
  | save {disk next chance listing executed}
      (earlier : LeftBySaves cipher base disk)
      (stopped : Stopped (saveToCold cipher chance base listing) executed)
      (reached : disk.run executed = some next) :
      LeftBySaves cipher base next

/-- What is relied upon: a chunk that was encrypted is restored, and no proper
part of its line decrypts. -/
def Authentic (cipher : Cipher) (chance : Chance) (listing : Listing) : Prop :=
  ∀ tableName rows, listing.lookup tableName = some rows →
    ∀ (index : Nat) chunk encrypted,
      (chunks chance tableName rows)[index]? = some chunk →
      cipher.encrypt (chance.draw tableName index) chunk = some encrypted →
      cipher.Restores chunk encrypted ∧
        ∀ tail, tail <+: encrypted → tail ≠ [] → tail ≠ encrypted →
          ∃ error, cipher.decrypt tail = .error error

/-- The first `count` chunks of a table, encrypted one a line, the last line
feed maybe missing. -/
def WholeChunks (cipher : Cipher) (chance : Chance) (tableName : String)
    (rows : Rows) (count : Nat) (text : Text) : Prop :=
  ∃ written,
    (encryptedChunks cipher chance tableName rows).take count =
        written.map some ∧
      (text = storedText written ∨ text ++ ['\n'] = storedText written)

/-- The records before the save, or those that reading back the new chunks of
the table gives. -/
def OldOrNew (json : Json) (chance : Chance) (listing : Listing)
    (before : Store) (tableName : String) (records : Table) : Prop :=
  records = before.records tableName ∨
    ∃ rows, listing.lookup tableName = some rows ∧
      records = readBack json (chunks chance tableName rows)

/-- A load succeeds and finds old or new records in every table. -/
def Recovers (cipher : Cipher) (json : Json) (chance : Chance)
    (base : Location) (listing : Listing) (before : Store) (cut : Disk) :
    Prop :=
  ∀ names, cut.Lists base names →
    ∃ loaded, loadAllTables cipher json cut base names = .ok loaded ∧
      ∀ tableName, OldOrNew json chance listing before tableName
        (loaded.records tableName)

/-- The executed steps left no directory in the place of the snapshot or log
of a name, and a snapshot that was truncated holds whole chunks again that
give the old records or the new ones. -/
structure HarmlessAt (cipher : Cipher) (json : Json) (chance : Chance)
    (base : Location) (listing : Listing) (before : Store)
    (executed : List DiskStep) (name : FileName) : Prop where
  snapshotPlace :
    .createDirectory (base ++ [name] ++ [storageDb]) ∉ executed
  logPlace : .createDirectory (base ++ [name] ++ [walLog]) ∉ executed
  snapshot : .createFile (base ++ [name] ++ [storageDb]) ∈ executed →
    ∃ tableName rows count text,
      listing.lookup tableName = some rows ∧
      effects (base ++ [name] ++ [storageDb]) none executed =
        some (.file text) ∧
      WholeChunks cipher chance tableName rows count text ∧
      OldOrNew json chance listing before (tableNameOf name)
        (readBack json ((chunks chance tableName rows).take count))

/-! ## Logs stay empty -/

/-- Loading replays nothing. -/
def EmptyLogs (disk : Disk) (base : Location) : Prop :=
  ∀ name content, disk.content (base ++ [name] ++ [walLog]) = some content →
    content = []

private theorem append_mem_chunkSteps {file location : Location} {text : Text}
    {all : List (Option Text)}
    (among : .append location text ∈ chunkSteps file all) :
    location = file := by
  induction all with
  | nil =>
      cases among
  | cons encrypted rest inductionHypothesis =>
      cases encrypted with
      | none =>
          cases List.mem_singleton.mp among
      | some line =>
          simp only [chunkSteps, List.mem_cons, DiskStep.append.injEq]
            at among
          rcases among with ⟨same, -⟩ | ⟨same, -⟩ | later
          · exact same
          · exact same
          · exact inductionHypothesis later

/-- A save appends to snapshots only. -/
private theorem append_mem_saveToCold {listing : Listing} {location : Location}
    {text : Text}
    (among : .append location text ∈ saveToCold cipher chance base listing) :
    ∃ folder, location = folder ++ [storageDb] := by
  obtain ⟨table, -, member⟩ := List.mem_flatMap.mp among
  rw [saveTable] at member
  rcases List.mem_append.mp member with made | files
  · obtain ⟨other, -, same⟩ := List.mem_map.mp made
    cases same
  rcases List.mem_cons.mp files with same | behind
  · cases same
  rcases List.mem_append.mp behind with written | last
  · exact ⟨_, append_mem_chunkSteps written⟩
  · cases List.mem_singleton.mp last

theorem EmptyLogs.run_save {disk next : Disk} {listing : Listing}
    {executed : List DiskStep} (emptyLogs : EmptyLogs disk base)
    (stopped : Stopped (saveToCold cipher chance base listing) executed)
    (reached : disk.run executed = some next) : EmptyLogs next base := by
  have onlySnapshots : ∀ step ∈ executed, ∀ location text,
      step = .append location text →
        ∃ folder, location = folder ++ [storageDb] := by
    rintro step among location text rfl
    rcases stopped.mem_or_torn among with member |
      ⟨other, written, whole, same, member⟩
    · exact append_mem_saveToCold member
    · cases same
      exact append_mem_saveToCold member
  refine runSteps_induction (fun state => EmptyLogs state base) ?_
    (stepsMeet_of_forall_mem onlySnapshots disk) reached emptyLogs
  intro state step after only taken holds name content found
  rw [Disk.content_eq_some, (Disk.take_eq_some taken).2] at found
  cases step with
  | createDirectory target =>
      rw [DiskStep.effect] at found
      split at found
      · cases found
      · exact holds name content (Disk.content_eq_some.mpr found)
  | createFile target =>
      rw [DiskStep.effect] at found
      split at found
      · cases found
        rfl
      · exact holds name content (Disk.content_eq_some.mpr found)
  | append target text =>
      rw [DiskStep.effect, if_neg] at found
      · exact holds name content (Disk.content_eq_some.mpr found)
      · rintro rfl
        obtain ⟨folder, same⟩ := only _ text rfl
        cases List.append_inj_right' same rfl
  | failed =>
      exact holds name content (Disk.content_eq_some.mpr found)

theorem LeftBySaves.isTree {disk : Disk}
    (left : LeftBySaves cipher base disk) : disk.IsTree := by
  induction left with
  | fresh isTree _ =>
      exact isTree
  | save _ _ reached inductionHypothesis =>
      exact inductionHypothesis.run reached

theorem LeftBySaves.emptyLogs {disk : Disk}
    (left : LeftBySaves cipher base disk) : EmptyLogs disk base := by
  induction left with
  | fresh isTree empty =>
      intro name content found
      have parent := isTree (base ++ [name]) walLog
        (by rw [Disk.content_eq_some.mp found]; rfl)
      rw [empty name] at parent
      cases parent
  | save _ stopped reached inductionHypothesis =>
      exact inductionHypothesis.run_save stopped reached

/-! ## Loading one folder -/

/-- What a load takes from a name in the data directory. -/
def loadName (cipher : Cipher) (json : Json) (disk : Disk) (base : Location)
    (name : FileName) : Except LoadFailure Table :=
  if disk.entry (base ++ [name]) = some .directory then
    loadFolder cipher json disk (base ++ [name])
  else
    .ok ∅

theorem loadName_of_loadAllTables {disk : Disk} {names : List FileName}
    {loaded : Store} (isTree : disk.IsTree) (lists : disk.Lists base names)
    (done : loadAllTables cipher json disk base names = .ok loaded)
    (name : FileName) :
    loadName cipher json disk base name =
      .ok (loaded.records (tableNameOf name)) := by
  rw [loadAllTables] at done
  rw [loadName]
  split
  · rename_i isDirectory
    have listed : name ∈ names := by
      rw [lists.mem_iff, isDirectory]
      rfl
    have baseDirectory := isTree base name (by rw [isDirectory]; rfl)
    rw [if_pos baseDirectory] at done
    obtain ⟨records, read, present⟩ :=
      (lookup_loadTables lists.nodup done).1 name listed isDirectory
    rw [read, Store.records, present, Option.getD_some]
  · rename_i notDirectory
    split at done
    · have absent := (lookup_loadTables lists.nodup done).2 (tableNameOf name)
        (by
          intro other _ isDirectory same
          rw [tableNameOf_injective same] at isDirectory
          exact notDirectory isDirectory)
      rw [Store.records, absent, Finmap.lookup_empty, Option.getD_none]
    · cases done
      rw [Store.records, Finmap.lookup_empty, Option.getD_none]

/-- Only names of entries are tables. -/
theorem records_of_loadAllTables {disk : Disk} {names : List FileName}
    {loaded : Store} (lists : disk.Lists base names)
    (done : loadAllTables cipher json disk base names = .ok loaded)
    {tableName : String} (unnamed : ∀ name, tableNameOf name ≠ tableName) :
    loaded.records tableName = ∅ := by
  rw [loadAllTables] at done
  split at done
  · rw [Store.records, (lookup_loadTables lists.nodup done).2 tableName
      fun name _ _ => unnamed name, Finmap.lookup_empty, Option.getD_none]
  · cases done
    rw [Store.records, Finmap.lookup_empty, Option.getD_none]

/-- Recovery can be checked name by name. -/
theorem recovers_iff {listing : Listing} {before : Store} {old cut : Disk}
    {oldNames : List FileName} (oldLists : old.Lists base oldNames)
    (oldLoads : loadAllTables cipher json old base oldNames = .ok before)
    (isTree : cut.IsTree) :
    Recovers cipher json chance base listing before cut ↔
      ∀ name, ∃ records,
        loadName cipher json cut base name = .ok records ∧
          OldOrNew json chance listing before (tableNameOf name) records := by
  constructor
  · intro recovers name
    obtain ⟨names, lists⟩ := cut.exists_lists base
    obtain ⟨loaded, done, eachTable⟩ := recovers names lists
    exact ⟨_, loadName_of_loadAllTables isTree lists done name,
      eachTable (tableNameOf name)⟩
  · intro eachName names lists
    have loads : ∀ name ∈ names,
        cut.entry (base ++ [name]) = some .directory →
        ∃ records,
          loadFolder cipher json cut (base ++ [name]) = .ok records := by
      intro name _ isDirectory
      obtain ⟨records, read, -⟩ := eachName name
      rw [loadName, if_pos isDirectory] at read
      exact ⟨records, read⟩
    have succeeds : ∃ loaded,
        loadAllTables cipher json cut base names = .ok loaded := by
      rw [loadAllTables]
      split
      · exact exists_loadTables loads ∅
      · exact ⟨∅, rfl⟩
    obtain ⟨loaded, done⟩ := succeeds
    refine ⟨loaded, done, fun tableName => ?_⟩
    by_cases named : ∃ name, tableNameOf name = tableName
    · obtain ⟨name, rfl⟩ := named
      obtain ⟨records, read, good⟩ := eachName name
      rw [loadName_of_loadAllTables isTree lists done name] at read
      cases read
      exact good
    · have unnamed : ∀ name, tableNameOf name ≠ tableName :=
        not_exists.mp named
      rw [records_of_loadAllTables lists done unnamed]
      exact Or.inl (records_of_loadAllTables oldLists oldLoads unnamed).symm

/-! ## Whole and torn snapshots -/

private theorem forall₂_take {relation : Text → Text → Prop}
    {texts written : List Text} {write : Nat → Text → Option Text}
    {count : Nat}
    (related : ∀ (index : Nat) text result, texts[index]? = some text →
      write index text = some result → relation text result)
    (whole : (texts.mapIdx write).take count = written.map some) :
    List.Forall₂ relation (texts.take count) written := by
  have taken : (texts.take count).mapIdx write = written.map some := by
    rw [← whole]
    apply List.ext_getElem?
    intro index
    simp only [List.getElem?_mapIdx, List.getElem?_take]
    split
    · rfl
    · rfl
  refine forall₂_of_mapIdx ?_ taken
  intro index text result found done
  have listed : texts[index]? = some text := by
    rw [List.getElem?_take] at found
    split at found
    · exact found
    · cases found
  exact related index text result listed done

private theorem splitLines_unterminated {plain written : List Text}
    {text : Text} (restores : List.Forall₂ cipher.Restores plain written)
    (same : text ++ ['\n'] = storedText written) :
    splitLines text = written := by
  have allLines := forall_isLine restores
  rcases List.eq_nil_or_concat written with rfl | ⟨before, last, rfl⟩
  · cases List.append_eq_nil_iff.mp same |>.2
  · rw [List.concat_eq_append] at same restores allLines ⊢
    have ended : text ++ ['\n'] = storedText before ++ last ++ ['\n'] := by
      rw [same, storedText, storedText, List.flatMap_append,
        List.append_assoc]
      simp
    have shape : text = storedText before ++ last :=
      List.append_cancel_right ended
    have isLast : last ∈ before ++ [last] :=
      List.mem_append_right _ List.mem_cons_self
    have nonempty : last ≠ [] := by
      obtain ⟨chunk, own⟩ := exists_restores_of_mem restores last isLast
      exact own.nonempty
    have read := splitLines_lines
      (fun line among => allLines line (List.mem_append_left _ among))
      (allLines last isLast).1
    rw [if_neg nonempty] at read
    rw [shape]
    exact read

theorem loadSnapshot_whole {listing : Listing} {tableName : String}
    {rows : Rows} {count : Nat} {text : Text}
    (authentic : Authentic cipher chance listing)
    (listed : listing.lookup tableName = some rows)
    (whole : WholeChunks cipher chance tableName rows count text) :
    loadSnapshot cipher json ∅ (splitLines text) =
      .ok (readBack json ((chunks chance tableName rows).take count)) := by
  obtain ⟨written, same, shape⟩ := whole
  have restores := forall₂_take
    (fun index chunk encrypted found done =>
      (authentic tableName rows listed index chunk encrypted found done).1)
    same
  have lines : splitLines text = written := by
    rcases shape with rfl | unterminated
    · exact splitLines_storedText restores
    · exact splitLines_unterminated restores unterminated
  have read : loadSnapshot cipher json ∅ (written ++ []) = _ :=
    loadSnapshot_restores restores [] ∅
  rw [List.append_nil, loadSnapshot] at read
  rw [lines, read]
  rfl

/-- A snapshot in the making is whole or it cannot be loaded. -/
theorem whole_or_error {listing : Listing} {tableName : String} {rows : Rows}
    {count : Nat} {written : List Text} {tail text : Text}
    (authentic : Authentic cipher chance listing)
    (listed : listing.lookup tableName = some rows)
    (progress : Progress (encryptedChunks cipher chance tableName rows) count
      written tail text) :
    (∃ count, WholeChunks cipher chance tableName rows count text) ∨
      ∃ failure, loadSnapshot cipher json ∅ (splitLines text) =
        .error failure := by
  have shape := progress.shape
  rcases progress.partly with rfl | ⟨next, found, start⟩
  · rw [List.append_nil] at shape
    exact Or.inl ⟨count, written, progress.whole, Or.inl shape⟩
  by_cases complete : tail = next
  · refine Or.inl ⟨count + 1, written ++ [next], ?_, Or.inr ?_⟩
    · rw [List.take_add_one, found, progress.whole, List.map_append]
      rfl
    · rw [shape, complete, storedText, storedText, List.flatMap_append,
        List.append_assoc]
      simp
  by_cases empty : tail = []
  · rw [empty, List.append_nil] at shape
    exact Or.inl ⟨count, written, progress.whole, Or.inl shape⟩
  -- a torn line
  rw [encryptedChunks, List.getElem?_mapIdx, Option.map_eq_some_iff] at found
  obtain ⟨chunk, isChunk, done⟩ := found
  obtain ⟨own, torn⟩ :=
    authentic tableName rows listed count chunk next isChunk done
  obtain ⟨error, fails⟩ := torn tail start empty complete
  have solid : ∀ char ∈ tail, isWhitespace char = false :=
    fun char among => own.solid char (start.subset among)
  have noFeed : '\n' ∉ tail := by
    intro among
    exact absurd (solid '\n' among) (by decide)
  have restores := forall₂_take
    (fun index chunk encrypted found done =>
      (authentic tableName rows listed index chunk encrypted found done).1)
    progress.whole
  refine Or.inr ⟨.exit error, ?_⟩
  rw [shape, storedText, splitLines_lines (forall_isLine restores) noFeed,
    loadSnapshot_restores restores, if_neg empty, loadSnapshot,
    trim_eq_self_of_forall solid, if_neg empty, fails]

/-! ## The stops that lose nothing -/

section Cut

variable {listing : Listing} {before : Store} {old cut : Disk}
  {executed : List DiskStep}

private theorem loadFolder_empty_log {disk : Disk} {folder : Location}
    (log : readLines disk (folder ++ [walLog]) = .ok []) :
    loadFolder cipher json disk folder =
      match readLines disk (folder ++ [storageDb]) with
      | .error failure => .error failure
      | .ok lines => loadSnapshot cipher json ∅ lines := by
  rw [loadFolder, log]
  cases storage : readLines disk (folder ++ [storageDb]) with
  | error failure =>
      rfl
  | ok lines =>
      cases snapshot : loadSnapshot cipher json ∅ lines with
      | error failure =>
          simp only [snapshot]
      | ok records =>
          simp only [snapshot, List.foldl_nil]

private theorem log_of_loadFolder {disk : Disk} {folder : Location}
    {records : Table}
    (loads : loadFolder cipher json disk folder = .ok records) :
    disk.entry (folder ++ [walLog]) ≠ some .directory := by
  intro isDirectory
  have log : readLines disk (folder ++ [walLog]) = .error .io := by
    rw [readLines, isDirectory]
  rw [loadFolder, log] at loads
  split at loads
  · cases loads
  · split at loads <;> cases loads

private theorem readLines_log {disk : Disk} {name : FileName}
    (emptyLogs : EmptyLogs disk base)
    (notDirectory :
      disk.entry (base ++ [name] ++ [walLog]) ≠ some .directory) :
    readLines disk (base ++ [name] ++ [walLog]) = .ok [] := by
  rw [readLines]
  split
  · rfl
  · rename_i content found
    rw [emptyLogs name content (Disk.content_eq_some.mpr found)]
    rfl
  · rename_i isDirectory
    exact absurd isDirectory notDirectory

/-- In a folder of the stopped disk without misplaced directories, the log is
empty and the snapshot decides. -/
private theorem loadName_cut {name : FileName} {records : Table}
    (left : LeftBySaves cipher base old)
    (stopped : Stopped (saveToCold cipher chance base listing) executed)
    (reached : old.run executed = some cut)
    (oldRecords : loadName cipher json old base name = .ok records)
    (isDirectory : cut.entry (base ++ [name]) = some .directory)
    (logPlace : .createDirectory (base ++ [name] ++ [walLog]) ∉ executed) :
    loadName cipher json cut base name =
      match readLines cut (base ++ [name] ++ [storageDb]) with
      | .error failure => .error failure
      | .ok lines => loadSnapshot cipher json ∅ lines := by
  have notDirectory :
      cut.entry (base ++ [name] ++ [walLog]) ≠ some .directory := by
    intro log
    rw [Disk.entry_run reached] at log
    have before := entry_of_effects_directory logPlace log
    have folder := left.isTree (base ++ [name]) walLog
      (by rw [before]; rfl)
    rw [loadName, if_pos folder] at oldRecords
    exact log_of_loadFolder oldRecords before
  rw [loadName, if_pos isDirectory]
  exact loadFolder_empty_log
    (readLines_log (left.emptyLogs.run_save stopped reached) notDirectory)

/-- An untouched snapshot gives the old records. -/
private theorem loadName_untouched {name : FileName} {records : Table}
    (left : LeftBySaves cipher base old)
    (stopped : Stopped (saveToCold cipher chance base listing) executed)
    (reached : old.run executed = some cut)
    (oldRecords : loadName cipher json old base name = .ok records)
    (isDirectory : cut.entry (base ++ [name]) = some .directory)
    (logPlace : .createDirectory (base ++ [name] ++ [walLog]) ∉ executed)
    (same : cut.entry (base ++ [name] ++ [storageDb]) =
      old.entry (base ++ [name] ++ [storageDb])) :
    loadName cipher json cut base name = .ok records := by
  have sameLines : readLines cut (base ++ [name] ++ [storageDb]) =
      readLines old (base ++ [name] ++ [storageDb]) := by
    rw [readLines, readLines, same]
  rw [loadName_cut left stopped reached oldRecords isDirectory logPlace,
    sameLines]
  by_cases oldDirectory : old.entry (base ++ [name]) = some .directory
  · rw [loadName, if_pos oldDirectory] at oldRecords
    rw [← oldRecords]
    exact (loadFolder_empty_log
      (readLines_log left.emptyLogs (log_of_loadFolder oldRecords))).symm
  · rw [loadName, if_neg oldDirectory] at oldRecords
    have missing : old.entry (base ++ [name] ++ [storageDb]) = none := by
      by_contra present
      exact oldDirectory
        (left.isTree _ _ (Option.isSome_iff_ne_none.mpr present))
    rw [readLines, missing]
    exact oldRecords

/-- What one name is loaded as after a stop. -/
private theorem harmless_at_iff {oldNames : List FileName}
    (left : LeftBySaves cipher base old)
    (authentic : Authentic cipher chance listing)
    (oldLists : old.Lists base oldNames)
    (oldLoads : loadAllTables cipher json old base oldNames = .ok before)
    (stopped : Stopped (saveToCold cipher chance base listing) executed)
    (reached : old.run executed = some cut) (name : FileName) :
    (∃ records, loadName cipher json cut base name = .ok records ∧
        OldOrNew json chance listing before (tableNameOf name) records) ↔
      HarmlessAt cipher json chance base listing before executed name := by
  have oldRecords :=
    loadName_of_loadAllTables left.isTree oldLists oldLoads name
  have parent (file : FileName) :
      (base ++ [name] ++ [file]).dropLast = base ++ [name] :=
    List.dropLast_concat
  by_cases isDirectory : cut.entry (base ++ [name]) = some .directory
  case neg =>
    have nothingMade (file : FileName) :
        .createDirectory (base ++ [name] ++ [file]) ∉ executed := by
      intro made
      have above := (Disk.entry_of_createDirectory_mem reached made).2
      exact isDirectory (parent file ▸ above)
    have harmless : HarmlessAt cipher json chance base listing before executed
        name := by
      refine ⟨nothingMade _, nothingMade _, fun created => ?_⟩
      have above := Disk.entry_of_createFile_mem reached created
      exact absurd (parent storageDb ▸ above) isDirectory
    refine iff_of_true ⟨∅, if_neg isDirectory, Or.inl ?_⟩ harmless
    rw [loadName, if_neg] at oldRecords
    · exact Except.ok.inj oldRecords
    · intro oldDirectory
      exact isDirectory (Disk.entry_directory_run reached oldDirectory)
  by_cases logPlace : .createDirectory (base ++ [name] ++ [walLog]) ∈ executed
  · refine iff_of_false ?_ fun harmless => harmless.logPlace logPlace
    rintro ⟨records, loads, -⟩
    rw [loadName, if_pos isDirectory] at loads
    exact log_of_loadFolder loads
      (Disk.entry_of_createDirectory_mem reached logPlace).1
  have loads := loadName_cut left stopped reached oldRecords isDirectory
    logPlace
  by_cases snapshotPlace :
      .createDirectory (base ++ [name] ++ [storageDb]) ∈ executed
  · refine iff_of_false ?_ fun harmless => harmless.snapshotPlace snapshotPlace
    have misplaced :=
      (Disk.entry_of_createDirectory_mem reached snapshotPlace).1
    rintro ⟨records, done, -⟩
    rw [loads, readLines, misplaced] at done
    cases done
  rcases storage_of_stopped stopped snapshotPlace
      (old.entry (base ++ [name] ++ [storageDb])) with
    ⟨absent, kept⟩ | ⟨created, ⟨tableName, rows⟩, among, own, progress⟩
  · rw [← Disk.entry_run reached] at kept
    refine iff_of_true ⟨_, loadName_untouched left stopped reached oldRecords
      isDirectory logPlace kept, Or.inl rfl⟩ ?_
    exact ⟨snapshotPlace, logPlace, fun created => absurd created absent⟩
  · obtain ⟨count, written, tail, text, progress, result⟩ := progress
    have listed : listing.lookup tableName = some rows :=
      List.mem_dlookup listing.nodupKeys among
    have content : cut.entry (base ++ [name] ++ [storageDb]) =
        some (.file text) := by
      rw [Disk.entry_run reached, result]
    rw [effects_congr_of_createFile_mem created _ none] at result
    have snapshot : loadName cipher json cut base name =
        loadSnapshot cipher json ∅ (splitLines text) := by
      rw [loads, readLines_file (Disk.content_eq_some.mpr content)]
    rw [snapshot]
    constructor
    · rintro ⟨records, done, good⟩
      refine ⟨snapshotPlace, logPlace, fun _ => ?_⟩
      rcases whole_or_error authentic listed progress with
        ⟨whole, isWhole⟩ | ⟨failure, fails⟩
      · rw [loadSnapshot_whole authentic listed isWhole] at done
        cases done
        exact ⟨tableName, rows, whole, text, listed, result, isWhole, good⟩
      · rw [fails] at done
        cases done
    · intro harmless
      obtain ⟨other, otherRows, whole, otherText, otherListed, otherResult,
        isWhole, good⟩ := harmless.snapshot created
      rw [result] at otherResult
      cases otherResult
      exact ⟨_, loadSnapshot_whole authentic otherListed isWhole, good⟩

end Cut

/-- A stopped save loses nothing exactly when the stop is harmless. -/
theorem recovers_iff_harmless {listing : Listing} {before : Store}
    {old cut : Disk} {executed : List DiskStep} {oldNames : List FileName}
    (left : LeftBySaves cipher base old)
    (authentic : Authentic cipher chance listing)
    (oldLists : old.Lists base oldNames)
    (oldLoads : loadAllTables cipher json old base oldNames = .ok before)
    (stopped : Stopped (saveToCold cipher chance base listing) executed)
    (reached : old.run executed = some cut) :
    Recovers cipher json chance base listing before cut ↔
      ∀ name,
        HarmlessAt cipher json chance base listing before executed name := by
  rw [recovers_iff oldLists oldLoads (left.isTree.run reached)]
  exact forall_congr' (harmless_at_iff left authentic oldLists oldLoads
    stopped reached)

/-! ## Saving one table twice -/

set_option maxRecDepth 2000 in
private theorem decrypt_torn {sample : Sample} (among : sample ∈ Sample.all)
    {tail : Text} (start : tail <+: sample.base64)
    (partly : tail ≠ sample.base64) :
    sampleCipher.decrypt tail = .error .base64 := by
  have sameLength : ∀ other ∈ Sample.all, other.base64.length = 136 := by
    decide
  have shorter : tail.length < 136 := by
    rw [← sameLength sample among]
    exact lt_of_le_of_ne start.length_le fun same =>
      partly (start.eq_of_length same)
  have missing : sampleCipher.decodeBase64 tail = none := by
    refine Option.map_eq_none_iff.mpr (List.find?_eq_none.mpr ?_)
    intro other member same
    rw [← of_decide_eq_true same, sameLength other member] at shorter
    exact absurd shorter (Nat.lt_irrefl 136)
  rw [Cipher.decrypt, missing]

private theorem authentic_sample {sample : Sample}
    (among : sample ∈ Sample.all) :
    Authentic sampleCipher (sampleChance sample)
      (sampleListing sample.key) := by
  intro tableName rows listed index chunk encrypted found done
  obtain ⟨rfl, rfl⟩ := eq_of_lookup_singleton listed
  rw [chunks_sample sample among] at found
  rw [List.mem_singleton.mp (List.mem_of_getElem? found)] at done ⊢
  have restored : ∃ written, sampleCipher.encrypt (some sample.nonce)
      sample.plain = some written ∧
        sampleCipher.Restores sample.plain written :=
    Cipher.exists_encrypt_restores (Sample.reliable sample among)
  obtain ⟨written, same, restores⟩ := restored
  have own : encrypted = sample.base64 :=
    Option.some.inj (done.symm.trans (Sample.encrypt_plain among))
  have read : written = sample.base64 :=
    Option.some.inj (same.symm.trans (Sample.encrypt_plain among))
  rw [own]
  rw [read] at restores
  exact ⟨restores, fun tail start _ partly =>
    ⟨.base64, decrypt_torn among start partly⟩⟩

/-- The save of `sample` in the data directory. -/
def sampleSave (sample : Sample) : List DiskStep :=
  saveToCold sampleCipher (sampleChance sample) dataDirectory
    (sampleListing sample.key)

/-- What the first save leaves. -/
def savedDisk : Disk :=
  runResult Disk.take emptyDisk (sampleSave Sample.first) (by decide)

/-- What the second save leaves when it stops behind the truncation. -/
def truncatedDisk : Disk :=
  runResult Disk.take savedDisk ((sampleSave Sample.second).take 4) (by decide)

private theorem run_savedDisk :
    emptyDisk.run (sampleSave Sample.first) = some savedDisk :=
  runSteps_eq_some_runResult _ _ _ _

theorem leftBySaves_savedDisk :
    LeftBySaves sampleCipher dataDirectory savedDisk :=
  .save (.fresh isTree_emptyDisk entry_dataDirectory) (Stopped.self _)
    run_savedDisk

private theorem readBack_sample {sample : Sample}
    (among : sample ∈ Sample.all) (clean : CleanKey sample.key) :
    readBack sampleJson
        (chunks (sampleChance sample) "t" (sampleRows sample.key)) =
      (sampleRows sample.key).toFinmap := by
  apply readBack_chunks
  · intro key member
    rw [List.mem_singleton.mp member]
    exact clean
  · exact (dependable_sample among).writes "t" _ rfl

private theorem exists_load_savedDisk :
    ∃ names before, savedDisk.Lists dataDirectory names ∧
      loadAllTables sampleCipher sampleJson savedDisk dataDirectory names =
        .ok before ∧
      before.records "t" = (sampleRows "k").toFinmap := by
  obtain ⟨names, lists⟩ := savedDisk.exists_lists dataDirectory
  have dependable := dependable_sample
    (List.mem_cons_self : Sample.first ∈ Sample.all)
  have storable : ∀ tableName rows,
      (sampleListing "k").lookup tableName = some rows →
        Storable emptyDisk tableName := by
    intro tableName rows listed
    obtain ⟨rfl, -⟩ := eq_of_lookup_singleton listed
    exact ⟨⟨['t'], by decide⟩, rfl, rfl⟩
  obtain ⟨before, loads, reads⟩ := exists_loaded storable
    (fun _ _ listed => dependable.restoresTable listed) run_savedDisk
    ready_emptyDisk lists
  refine ⟨names, before, lists, loads, ?_⟩
  rw [Store.records, reads "t" _ rfl, Option.getD_some]
  exact readBack_sample List.mem_cons_self (by decide)

/-- Behind the truncation the record is gone, in whatever order the directory
is read. -/
theorem truncatedDisk_loses :
    ∃ names before, savedDisk.Lists dataDirectory names ∧
      loadAllTables sampleCipher sampleJson savedDisk dataDirectory names =
        .ok before ∧
      LeftBySaves sampleCipher dataDirectory savedDisk ∧
      Authentic sampleCipher (sampleChance Sample.second)
        (sampleListing "k") ∧
      Stopped (sampleSave Sample.second)
        ((sampleSave Sample.second).take 4) ∧
      savedDisk.run ((sampleSave Sample.second).take 4) =
        some truncatedDisk ∧
      ¬ Recovers sampleCipher sampleJson (sampleChance Sample.second)
        dataDirectory (sampleListing "k") before truncatedDisk := by
  obtain ⟨names, before, lists, loads, oldRecords⟩ := exists_load_savedDisk
  have second : Sample.second ∈ Sample.all :=
    List.mem_cons_of_mem _ List.mem_cons_self
  have reached : savedDisk.run ((sampleSave Sample.second).take 4) =
      some truncatedDisk :=
    runSteps_eq_some_runResult _ _ _ _
  refine ⟨names, before, lists, loads, leftBySaves_savedDisk,
    authentic_sample second, Stopped.take 4 _, reached, ?_⟩
  intro recovers
  have isTree := leftBySaves_savedDisk.isTree.run reached
  obtain ⟨records, found, good⟩ :=
    (recovers_iff lists loads isTree).mp recovers ⟨['t'], by decide⟩
  have empty : loadName sampleCipher sampleJson truncatedDisk dataDirectory
      ⟨['t'], by decide⟩ = .ok ∅ := by
    decide
  rw [empty] at found
  cases found
  have nonempty : (sampleRows "k").toFinmap ≠ ∅ := by
    decide
  rcases good with old | ⟨rows, listed, new⟩
  · exact nonempty (oldRecords.symm.trans old.symm)
  · obtain ⟨-, rfl⟩ := eq_of_lookup_singleton listed
    exact nonempty ((readBack_sample second (by decide)).symm.trans new.symm)

/-- What the second save leaves when it does not stop. -/
def resavedDisk : Disk :=
  runResult Disk.take savedDisk (sampleSave Sample.second) (by decide)

set_option maxRecDepth 2000 in
private theorem sampleSave_second :
    sampleSave Sample.second =
      [.createDirectory [], .createDirectory dataDirectory,
        .createDirectory (dataDirectory ++ [⟨['t'], by decide⟩]),
        .createFile (dataDirectory ++ [⟨['t'], by decide⟩] ++ [storageDb]),
        .append (dataDirectory ++ [⟨['t'], by decide⟩] ++ [storageDb])
          Sample.second.base64,
        .append (dataDirectory ++ [⟨['t'], by decide⟩] ++ [storageDb])
          ['\n'],
        .createFile (dataDirectory ++ [⟨['t'], by decide⟩] ++ [walLog])] := by
  decide

theorem resavedDisk_recovers :
    ∃ before, Recovers sampleCipher sampleJson (sampleChance Sample.second)
      dataDirectory (sampleListing "k") before resavedDisk := by
  obtain ⟨names, before, lists, loads, -⟩ := exists_load_savedDisk
  have second : Sample.second ∈ Sample.all :=
    List.mem_cons_of_mem _ List.mem_cons_self
  refine ⟨before, (recovers_iff_harmless leftBySaves_savedDisk
    (authentic_sample second) lists loads (Stopped.self _)
    (runSteps_eq_some_runResult _ _ _ _)).mpr fun name => ?_⟩
  change HarmlessAt _ _ _ _ _ _ (sampleSave Sample.second) name
  have isChunks := chunks_sample Sample.second second
  refine ⟨?_, ?_, fun created => ?_⟩
  · simp [sampleSave_second, dataDirectory]
  · simp [sampleSave_second, dataDirectory]
  · have own : name = ⟨['t'], by decide⟩ := by
      simpa [sampleSave_second, storageDb, walLog] using created
    subst own
    refine ⟨"t", sampleRows "k", 1, storedText [Sample.second.base64], rfl,
      ?_, ⟨[Sample.second.base64], ?_, Or.inl rfl⟩,
      Or.inr ⟨sampleRows "k", rfl, ?_⟩⟩
    · rw [sampleSave_second]
      rfl
    · have encrypted : sampleCipher.encrypt
          ((sampleChance Sample.second).draw "t" 0) Sample.second.plain =
            some Sample.second.base64 :=
        Sample.encrypt_plain second
      have only : encryptedChunks sampleCipher (sampleChance Sample.second)
          "t" (sampleRows Sample.second.key) = [some Sample.second.base64] := by
        rw [encryptedChunks, isChunks, List.mapIdx_singleton, encrypted]
      exact congrArg (List.take 1) only
    · exact congrArg (readBack sampleJson)
        (List.take_of_length_le (le_of_eq (congrArg List.length isChunks)))

end DynaRust.Storage
