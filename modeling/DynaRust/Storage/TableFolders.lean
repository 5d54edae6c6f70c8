import DynaRust.Storage.Interruption
import DynaRust.Storage.Restore

/-!
# Tables and their folders

A save joins the table name to the data directory as it is, and a load takes
the name of each folder.  The two are inverse exactly on the names that are a
single component of a path: any other name leads to another place, or comes
back as another name.
-/

namespace DynaRust.Storage

open DynaRust.Foundation

/-- Every table has a folder of its own in the data directory, nothing is
written anywhere else, and a load gives each folder the name of its table. -/
structure MapsOneToOne (cipher : Cipher) (json : Json) (chance : Chance)
    (base : Location) (listing : Listing) : Prop where
  inside : ∀ table ∈ listing.entries,
    ∃ folder, base.join table.1.toList = base ++ [folder]
  apart : ∀ first ∈ listing.entries, ∀ second ∈ listing.entries,
    base.join first.1.toList = base.join second.1.toList → first.1 = second.1
  /-- Besides the two kinds of files, only the folders and the directories
  above them are made. -/
  confined : ∀ step ∈ saveToCold cipher chance base listing,
    ∀ location, step.target = some location →
      ∃ table ∈ listing.entries,
        (step = .createDirectory location ∧
          location <+: base.join table.1.toList) ∨
        ∃ file, location = base.join table.1.toList ++ [file]
  written : ∀ disk : Disk, Clear disk base →
    (∀ table ∈ listing.entries, ∀ folder,
      base.join table.1.toList = base ++ [folder] →
        disk.accepts folder = true) →
    (∀ table ∈ listing.entries, RestoresTable cipher chance table.1 table.2) →
      ∃ saved, disk.run (saveToCold cipher chance base listing) = some saved
  namedBack : ∀ table ∈ listing.entries, ∀ folder,
    base.join table.1.toList = base ++ [folder] →
      tableNameOf folder = table.1
  loaded : ∀ (disk saved : Disk) (names : List FileName) (store : Store),
    disk.run (saveToCold cipher chance base listing) = some saved →
    saved.Lists base names →
    loadAllTables cipher json saved base names = .ok store →
      ∀ table ∈ listing.entries, ∃ records,
        loadFolder cipher json saved (base.join table.1.toList) =
            .ok records ∧
          store.lookup table.1 = some records

/-- The table's name as the name of a folder. -/
def folderName {tableName : String} (plain : IsFileName tableName.toList) :
    FileName :=
  ⟨tableName.toList, plain⟩

@[simp]
theorem tableNameOf_folderName {tableName : String}
    (plain : IsFileName tableName.toList) :
    tableNameOf (folderName plain) = tableName :=
  String.ofList_toList

theorem join_folderName (base : Location) {tableName : String}
    (plain : IsFileName tableName.toList) :
    base.join tableName.toList = base ++ [folderName plain] :=
  Location.join_fileName base (folderName plain)

section Plain

variable {cipher : Cipher} {json : Json} {chance : Chance} {base : Location}

theorem folder_eq_folderName {tableName : String}
    (plain : IsFileName tableName.toList) {folder : FileName}
    (joined : base.join tableName.toList = base ++ [folder]) :
    folder = folderName plain := by
  rw [join_folderName base plain] at joined
  exact (List.singleton_inj.mp (List.append_cancel_left joined)).symm

theorem confined_saveTable {tableName : String} {rows : Rows}
    (plain : IsFileName tableName.toList) {step : DiskStep}
    (among : step ∈ saveTable cipher chance base tableName rows)
    {location : Location} (hits : step.target = some location) :
    (step = .createDirectory location ∧
        location <+: base.join tableName.toList) ∨
      ∃ file, location = base.join tableName.toList ++ [file] := by
  rw [saveTable] at among
  rcases List.mem_append.mp among with directory | file
  · left
    obtain ⟨made, visited, rfl⟩ := List.mem_map.mp directory
    have same : made = location := Option.some.inj hits
    rw [same] at visited ⊢
    have inits := Location.visited_fileName base (folderName plain)
    have joined := join_folderName base plain
    refine ⟨rfl, ?_⟩
    rw [joined, ← List.mem_inits, ← inits]
    exact visited
  · right
    rcases target_of_mem_files file with storage | wal | none
    · rw [storage] at hits
      exact ⟨storageDb, (Option.some.inj hits).symm⟩
    · rw [wal] at hits
      exact ⟨walLog, (Option.some.inj hits).symm⟩
    · rw [none] at hits
      cases hits

/-- After a save the folder of a table is there. -/
theorem folder_of_run {disk saved : Disk} {listing : Listing}
    (reached : disk.run (saveToCold cipher chance base listing) = some saved)
    {table : Sigma fun _ : String => Rows} (listed : table ∈ listing.entries)
    (plain : IsFileName table.1.toList) :
    saved.entry (base ++ [folderName plain]) = some .directory ∧
      saved.entry base = some .directory := by
  have made : DiskStep.createDirectory (base ++ [folderName plain]) ∈
      saveToCold cipher chance base listing := by
    refine List.mem_flatMap.mpr ⟨table, listed, ?_⟩
    rw [saveTable]
    apply List.mem_append_left
    apply List.mem_map_of_mem
    have inits := Location.visited_fileName base (folderName plain)
    rw [folderName] at inits
    rw [inits, List.mem_inits]
    exact List.prefix_refl _
  have found := Disk.entry_of_createDirectory_mem reached made
  rw [List.dropLast_concat] at found
  exact found

theorem loaded_of_plain {disk saved : Disk} {listing : Listing}
    (reached : disk.run (saveToCold cipher chance base listing) = some saved)
    {names : List FileName} (listsNames : saved.Lists base names)
    {store : Store}
    (done : loadAllTables cipher json saved base names = .ok store)
    {table : Sigma fun _ : String => Rows} (listed : table ∈ listing.entries)
    (plain : IsFileName table.1.toList) :
    ∃ records,
      loadFolder cipher json saved (base.join table.1.toList) = .ok records ∧
        store.lookup table.1 = some records := by
  obtain ⟨isFolder, isBase⟩ := folder_of_run reached listed plain
  have there : folderName plain ∈ names := by
    rw [listsNames.mem_iff, isFolder]
    rfl
  rw [loadAllTables, if_pos isBase] at done
  obtain ⟨records, readBack, stored⟩ :=
    (lookup_loadTables listsNames.nodup done).1 (folderName plain) there
      isFolder
  rw [tableNameOf_folderName] at stored
  refine ⟨records, ?_, stored⟩
  rw [join_folderName base plain]
  exact readBack

end Plain

/-- Tables map one-to-one to folders in the data directory exactly if every
table name is a single component of a path. -/
theorem maps_one_to_one_iff (cipher : Cipher) (json : Json) (chance : Chance)
    (base : Location) (listing : Listing) :
    MapsOneToOne cipher json chance base listing ↔
      ∀ table ∈ listing.entries, IsFileName table.1.toList := by
  constructor
  · intro maps table listed
    obtain ⟨folder, joined⟩ := maps.inside table listed
    have same := maps.namedBack table listed folder joined
    rw [← same, toList_tableNameOf]
    exact folder.isFileName
  · intro plain
    refine ⟨?_, ?_, ?_, ?_, ?_, ?_⟩
    · intro table listed
      exact ⟨_, join_folderName base (plain table listed)⟩
    · intro first firstListed second secondListed same
      have folder := folder_eq_folderName (plain second secondListed)
        (same.symm.trans (join_folderName base (plain first firstListed)))
      rw [← tableNameOf_folderName (plain first firstListed), folder,
        tableNameOf_folderName]
    · intro step among location hits
      obtain ⟨table, listed, inside⟩ := List.mem_flatMap.mp among
      exact ⟨table, listed,
        confined_saveTable (plain table listed) inside hits⟩
    · intro disk clear accepts restores
      have storable : ∀ table ∈ listing.entries, Storable disk table.1 := by
        intro table listed
        refine ⟨folderName (plain table listed), by simp, ?_⟩
        exact accepts table listed _ (join_folderName base _)
      obtain ⟨saved, reached, _⟩ :=
        exists_run_saveToCold clear storable restores
      exact ⟨saved, reached⟩
    · intro table listed folder joined
      rw [folder_eq_folderName (plain table listed) joined,
        tableNameOf_folderName]
    · intro disk saved names store reached listsNames done table listed
      exact loaded_of_plain reached listsNames done listed
        (plain table listed)

/-- One table, without records, whose name is the parent directory. -/
def parentTable : Listing :=
  AList.singleton ".." ∅

theorem parent_table_escapes :
    DiskStep.createFile [storageDb] ∈ saveToCold sampleCipher
        (sampleChance .first) dataDirectory parentTable ∧
      ¬ MapsOneToOne sampleCipher sampleJson (sampleChance .first)
        dataDirectory parentTable := by
  constructor
  · decide
  · intro maps
    obtain ⟨folder, joined⟩ := maps.inside ⟨"..", ∅⟩ List.mem_cons_self
    have parent : dataDirectory.join "..".toList = [] := by decide
    rw [parent] at joined
    cases joined

end DynaRust.Storage
