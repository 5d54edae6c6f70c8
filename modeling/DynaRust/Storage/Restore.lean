import DynaRust.Storage.DataDirectory
import Mathlib.Data.List.ReduceOption

/-!
# Restoring a store from disk

The tables that survive a save and a load are those whose name is one path
component and whose keys cannot be mistaken for the record format.
-/

namespace DynaRust.Storage

open DynaRust.Foundation

variable {cipher : Cipher} {json : Json} {chance : Chance} {base : Location}

/-- What is relied upon: `decrypt` undoes `encrypt` on the chunks of the save,
and `serde_json` reads back the records it writes. -/
structure Dependable (cipher : Cipher) (json : Json) (chance : Chance)
    (listing : Listing) : Prop where
  reliable : ∀ tableName rows, listing.lookup tableName = some rows →
    ∀ (index : Nat) chunk, (chunks chance tableName rows)[index]? = some chunk →
      ∃ ciphertext, cipher.Reliable
        ((chance.draw tableName index).getD zeroNonce) (asBytes chunk)
        ciphertext
  writes : ∀ tableName rows, listing.lookup tableName = some rows →
    ∀ key record, rows.lookup key = some record →
      json.Writes (chance.json tableName key record) record

/-- A data directory that can be saved to and loaded from. -/
structure Ready (cipher : Cipher) (json : Json) (disk : Disk)
    (base : Location) : Prop extends Clear disk base where
  loads : ∀ name, disk.entry (base ++ [name]) = some .directory →
    ∃ records, loadFolder cipher json disk (base ++ [name]) = .ok records

/-- The save completes and a load then gives back every table of the store. -/
def Restored (cipher : Cipher) (json : Json) (chance : Chance) (disk : Disk)
    (base : Location) (store : Store) (listing : Listing) : Prop :=
  ∃ saved, disk.run (saveToCold cipher chance base listing) = some saved ∧
    ∀ names, saved.Lists base names →
      ∃ loaded, loadAllTables cipher json saved base names = .ok loaded ∧
        ∀ tableName records, store.lookup tableName = some records →
          loaded.lookup tableName = some records

private theorem exists_mapIdx_eq_map_some {relation : Text → Text → Prop}
    {texts : List Text} {write : Nat → Text → Option Text}
    (succeeds : ∀ index text, texts[index]? = some text →
      ∃ written, write index text = some written ∧ relation text written) :
    ∃ all, texts.mapIdx write = all.map some ∧
      List.Forall₂ relation texts all := by
  induction texts generalizing write with
  | nil =>
      exact ⟨[], rfl, List.Forall₂.nil⟩
  | cons text rest inductionHypothesis =>
      obtain ⟨written, done, related⟩ := succeeds 0 text rfl
      have later : ∀ (index : Nat) other, rest[index]? = some other →
          ∃ written, write (index + 1) other = some written ∧
            relation other written := by
        intro index other found
        apply succeeds (index + 1) other
        rw [List.getElem?_cons_succ]
        exact found
      obtain ⟨all, same, relatedRest⟩ := inductionHypothesis later
      refine ⟨written :: all, ?_, List.Forall₂.cons related relatedRest⟩
      rw [List.mapIdx_cons, done, same, List.map_cons]

theorem Dependable.restoresTable {listing : Listing}
    (dependable : Dependable cipher json chance listing)
    {tableName : String} {rows : Rows}
    (found : listing.lookup tableName = some rows) :
    RestoresTable cipher chance tableName rows := by
  apply exists_mapIdx_eq_map_some
  intro index chunk member
  obtain ⟨ciphertext, reliable⟩ :=
    dependable.reliable tableName rows found index chunk member
  exact Cipher.exists_encrypt_restores reliable

/-- The folder of another table is loaded as before. -/
theorem loadFolder_congr {disk other : Disk} {folder : Location}
    (storage : disk.entry (folder ++ [storageDb]) =
      other.entry (folder ++ [storageDb]))
    (wal : disk.entry (folder ++ [walLog]) =
      other.entry (folder ++ [walLog])) :
    loadFolder cipher json disk folder =
      loadFolder cipher json other folder := by
  have first : readLines disk (folder ++ [storageDb]) =
      readLines other (folder ++ [storageDb]) := by
    rw [readLines, readLines, storage]
  have second : readLines disk (folder ++ [walLog]) =
      readLines other (folder ++ [walLog]) := by
    rw [readLines, readLines, wal]
  rw [loadFolder, loadFolder, first, second]

/-- A save makes the folder of every table and all directories above. -/
theorem createDirectory_mem_saveToCold (cipher : Cipher) (chance : Chance)
    (base : Location) {listing : Listing} {name : FileName} {rows : Rows} {location : Location}
    (found : listing.lookup (tableNameOf name) = some rows)
    (ancestor : location <+: base ++ [name]) :
    .createDirectory location ∈ saveToCold cipher chance base listing := by
  have among : Sigma.mk (tableNameOf name) rows ∈ listing.entries :=
    List.of_mem_dlookup found
  refine List.mem_flatMap.mpr ⟨_, among, ?_⟩
  rw [saveTable, toList_tableNameOf, Location.visited_fileName]
  apply List.mem_append_left
  exact List.mem_map_of_mem ((List.mem_inits _ _).mpr ancestor)

private theorem reduceOption_map_some (texts : List Text) :
    (texts.map some).reduceOption = texts := by
  simp [List.reduceOption]

section Saved

variable {listing : Listing} {disk saved : Disk}
  (storable : ∀ tableName rows, listing.lookup tableName = some rows →
    Storable disk tableName)
  (restores : ∀ tableName rows, listing.lookup tableName = some rows →
    RestoresTable cipher chance tableName rows)
  (completed : disk.run (saveToCold cipher chance base listing) = some saved)

include storable restores completed

/-- At a location in each folder that only the own table writes, the save
leaves what the listed table writes. -/
private theorem entry_saved (location : FileName → Location)
    (written : String → Rows → Option Entry)
    (own : ∀ (name : FileName) (rows : Rows) (encrypted : List Text),
      encryptedChunks cipher chance (tableNameOf name) rows =
        encrypted.map some →
      ∀ (other : FileName) (entry : Option Entry),
        effects (location other) entry
          (saveTable cipher chance base (tableNameOf name) rows) =
        if name = other then written (tableNameOf name) rows else entry)
    (name : FileName) :
    saved.entry (location name) =
      (listing.lookup (tableNameOf name)).elim (disk.entry (location name))
        (written (tableNameOf name)) := by
  rw [Disk.entry_run completed]
  apply effects_saveToCold listing.nodupKeys
  · intro rows among entry
    have found : listing.lookup (tableNameOf name) = some rows :=
      List.mem_dlookup listing.nodupKeys among
    obtain ⟨encrypted, all, -⟩ := restores _ rows found
    rw [own name rows encrypted all, if_pos rfl]
  · rintro ⟨tableName, rows⟩ among different entry
    have found : listing.lookup tableName = some rows :=
      List.mem_dlookup listing.nodupKeys among
    obtain ⟨other, rfl, -⟩ := storable tableName rows found
    obtain ⟨encrypted, all, -⟩ := restores _ rows found
    rw [own other rows encrypted all, if_neg]
    rintro rfl
    exact different rfl

private theorem folder_saved (name : FileName) :
    saved.entry (base ++ [name]) =
      (listing.lookup (tableNameOf name)).elim (disk.entry (base ++ [name]))
        fun _ => some .directory := by
  refine entry_saved storable restores completed
    (fun name => base ++ [name]) (fun _ _ => some .directory) ?_ name
  intro own rows encrypted all other entry
  exact effects_saveTable_folder all other entry

private theorem wal_saved (name : FileName) :
    saved.entry (base ++ [name] ++ [walLog]) =
      (listing.lookup (tableNameOf name)).elim
        (disk.entry (base ++ [name] ++ [walLog]))
        fun _ => some (.file []) := by
  refine entry_saved storable restores completed
    (fun name => base ++ [name] ++ [walLog])
    (fun _ _ => some (.file [])) ?_ name
  intro own rows encrypted all other entry
  exact effects_saveTable_wal all other entry

private theorem storage_saved (name : FileName) :
    saved.entry (base ++ [name] ++ [storageDb]) =
      (listing.lookup (tableNameOf name)).elim
        (disk.entry (base ++ [name] ++ [storageDb]))
        fun rows => some (.file (storedText
          (encryptedChunks cipher chance (tableNameOf name)
            rows).reduceOption)) := by
  refine entry_saved storable restores completed
    (fun name => base ++ [name] ++ [storageDb])
    (fun tableName rows => some (.file (storedText
      (encryptedChunks cipher chance tableName rows).reduceOption))) ?_ name
  intro own rows encrypted all other entry
  rw [effects_saveTable_storage all, all, reduceOption_map_some]

/-- A saved table is loaded as its chunks are read back. -/
theorem loadFolder_saved {name : FileName} {rows : Rows}
    (found : listing.lookup (tableNameOf name) = some rows) :
    loadFolder cipher json saved (base ++ [name]) =
      .ok (readBack json (chunks chance (tableNameOf name) rows)) := by
  obtain ⟨encrypted, all, restoresChunks⟩ := restores _ rows found
  apply loadFolder_stored restoresChunks
  · have storage := storage_saved storable restores completed name
    rw [found, Option.elim_some, all, reduceOption_map_some] at storage
    exact Disk.content_eq_some.mpr storage
  · have wal := wal_saved storable restores completed name
    rw [found] at wal
    exact Disk.content_eq_some.mpr wal

/-- After a completed save every folder can be loaded. -/
theorem loads_saved (ready : Ready cipher json disk base) (name : FileName)
    (isDirectory : saved.entry (base ++ [name]) = some .directory) :
    ∃ records,
      loadFolder cipher json saved (base ++ [name]) = .ok records := by
  cases found : listing.lookup (tableNameOf name) with
  | some rows =>
      exact ⟨_, loadFolder_saved storable restores completed found⟩
  | none =>
      have folder := folder_saved storable restores completed name
      have storage := storage_saved storable restores completed name
      have wal := wal_saved storable restores completed name
      rw [found] at folder storage wal
      rw [folder] at isDirectory
      rw [loadFolder_congr storage wal]
      exact ready.loads name isDirectory

/-- A load after a completed save succeeds and reads back every chunk. -/
theorem exists_loaded (ready : Ready cipher json disk base)
    {names : List FileName} (lists : saved.Lists base names) :
    ∃ loaded, loadAllTables cipher json saved base names = .ok loaded ∧
      ∀ tableName rows, listing.lookup tableName = some rows →
        loaded.lookup tableName =
          some (readBack json (chunks chance tableName rows)) := by
  have loads : ∀ name ∈ names,
      saved.entry (base ++ [name]) = some .directory →
      ∃ records, loadFolder cipher json saved (base ++ [name]) = .ok records :=
    fun name _ => loads_saved storable restores completed ready name
  obtain ⟨loaded, done⟩ := exists_loadTables loads ∅
  by_cases isDirectory : saved.entry base = some .directory
  · refine ⟨loaded, by rw [loadAllTables, if_pos isDirectory, done], ?_⟩
    intro tableName rows found
    obtain ⟨name, rfl, -⟩ := storable tableName rows found
    have folder := folder_saved storable restores completed name
    rw [found, Option.elim_some] at folder
    have listed : name ∈ names := by
      rw [lists.mem_iff, folder]
      rfl
    obtain ⟨records, read, present⟩ :=
      (lookup_loadTables lists.nodup done).1 name listed folder
    rw [loadFolder_saved storable restores completed found] at read
    cases read
    exact present
  · refine ⟨∅, by rw [loadAllTables, if_neg isDirectory], ?_⟩
    intro tableName rows found
    obtain ⟨name, rfl, -⟩ := storable tableName rows found
    have made := createDirectory_mem_saveToCold cipher chance base found
      (List.prefix_append base [name])
    exact absurd (Disk.entry_of_createDirectory_mem completed made).1
      isDirectory

end Saved

section Restored

variable {listing : Listing} {disk : Disk} {store : Store}
  (enumerates : listing.Enumerates store)

include enumerates

/-- Only names of folders are loaded. -/
private theorem storable_of_restored
    (restored : Restored cipher json chance disk base store listing) :
    ∀ tableName records, store.lookup tableName = some records →
      Storable disk tableName := by
  obtain ⟨saved, completed, loads⟩ := restored
  obtain ⟨names, lists⟩ := saved.exists_lists base
  obtain ⟨loaded, done, same⟩ := loads names lists
  intro tableName records found
  have present := same tableName records found
  rw [enumerates, Option.map_eq_some_iff] at found
  obtain ⟨rows, listed, rfl⟩ := found
  rw [loadAllTables] at done
  split at done
  · by_contra unstorable
    have missing := (lookup_loadTables lists.nodup done).2 tableName
    rw [present, Finmap.lookup_empty] at missing
    refine absurd (missing ?_) (Option.some_ne_none _)
    rintro name - - rfl
    have made := createDirectory_mem_saveToCold cipher chance base listed
      (List.prefix_refl _)
    exact unstorable ⟨name, rfl, Disk.accepts_of_mem completed made⟩
  · cases done
    rw [Finmap.lookup_empty] at present
    cases present

variable (dependable : Dependable cipher json chance listing)
  (ready : Ready cipher json disk base)

include dependable ready

/-- Only clean keys are loaded. -/
private theorem cleanKey_of_restored
    (restored : Restored cipher json chance disk base store listing) :
    ∀ tableName records, store.lookup tableName = some records →
      ∀ key ∈ records, CleanKey key := by
  have storable := storable_of_restored enumerates restored
  obtain ⟨saved, completed, loads⟩ := restored
  obtain ⟨names, lists⟩ := saved.exists_lists base
  obtain ⟨loaded, done, same⟩ := loads names lists
  have storableListed : ∀ tableName rows,
      listing.lookup tableName = some rows → Storable disk tableName := by
    intro tableName rows listed
    apply storable tableName rows.toFinmap
    rw [enumerates, listed]
    rfl
  obtain ⟨loaded', done', reads⟩ := exists_loaded storableListed
    (fun _ _ listed => dependable.restoresTable listed) completed ready lists
  rw [done] at done'
  cases done'
  intro tableName records found
  have present := same tableName records found
  rw [enumerates, Option.map_eq_some_iff] at found
  obtain ⟨rows, listed, rfl⟩ := found
  rw [reads tableName rows listed] at present
  rw [← Option.some.inj present]
  exact cleanKey_of_mem_readBack

private theorem restored_of_storable
    (storable : ∀ tableName records, store.lookup tableName = some records →
      Storable disk tableName)
    (clean : ∀ tableName records, store.lookup tableName = some records →
      ∀ key ∈ records, CleanKey key) :
    Restored cipher json chance disk base store listing := by
  have stored {tableName : String} {rows : Rows}
      (listed : listing.lookup tableName = some rows) :
      store.lookup tableName = some rows.toFinmap := by
    rw [enumerates, listed]
    rfl
  have storableListed : ∀ tableName rows,
      listing.lookup tableName = some rows → Storable disk tableName :=
    fun tableName rows listed => storable tableName _ (stored listed)
  have restores : ∀ tableName rows, listing.lookup tableName = some rows →
      RestoresTable cipher chance tableName rows :=
    fun _ _ listed => dependable.restoresTable listed
  have listed (table : Sigma fun _ : String => Rows)
      (among : table ∈ listing.entries) :
      listing.lookup table.1 = some table.2 :=
    List.mem_dlookup listing.nodupKeys among
  obtain ⟨saved, completed, -⟩ := exists_run_saveToCold ready.toClear
    (fun table among => storableListed _ _ (listed table among))
    (fun table among => restores _ _ (listed table among))
  refine ⟨saved, completed, fun names lists => ?_⟩
  obtain ⟨loaded, done, reads⟩ :=
    exists_loaded storableListed restores completed ready lists
  refine ⟨loaded, done, fun tableName records found => ?_⟩
  have cleanRecords := clean tableName records found
  rw [enumerates, Option.map_eq_some_iff] at found
  obtain ⟨rows, isListed, rfl⟩ := found
  rw [reads tableName rows isListed,
    readBack_chunks cleanRecords (dependable.writes tableName rows isListed)]

/-- Exactly the stores with storable names and clean keys survive. -/
theorem restored_iff_storable :
    Restored cipher json chance disk base store listing ↔
      ∀ tableName records, store.lookup tableName = some records →
        Storable disk tableName ∧ ∀ key ∈ records, CleanKey key := by
  constructor
  · intro restored tableName records found
    exact ⟨storable_of_restored enumerates restored
        tableName records found,
      cleanKey_of_restored enumerates dependable ready restored
        tableName records found⟩
  · intro all
    exact restored_of_storable enumerates dependable ready
      (fun tableName records found => (all tableName records found).1)
      (fun tableName records found => (all tableName records found).2)

end Restored

/-- A data directory without entries is ready. -/
theorem ready_of_empty {disk : Disk} (isTree : disk.IsTree)
    (accepted : ∀ name ∈ base, disk.accepts name = true)
    (storage : disk.accepts storageDb = true)
    (wal : disk.accepts walLog = true)
    (free : ∀ ancestor, ancestor <+: base → disk.content ancestor = none)
    (empty : ∀ name, disk.entry (base ++ [name]) = none) :
    Ready cipher json disk base := by
  have noFile (name file : FileName) :
      disk.entry (base ++ [name] ++ [file]) ≠ some .directory := by
    intro isDirectory
    have above := isTree _ _ (by rw [isDirectory]; rfl)
    rw [empty name] at above
    cases above
  refine ⟨⟨accepted, storage, wal, free, ?_, fun name => noFile name _,
    fun name => noFile name _⟩, ?_⟩
  · intro name
    rw [Disk.content, empty name]
  · intro name isDirectory
    rw [empty name] at isDirectory
    cases isDirectory

/-! ## One table with one record -/

def sampleRecord : VersionedValue where
  value := ∅
  vectorClock := (∅ : VectorClock).insert "a:1" 1
  timestamp := 5
  owner := "alice"

def sampleJsonText : Text :=
  ("\x7b\"value\":\x7b\x7d,\"vector_clock\":\x7b\"a:1\":1\x7d," ++
    "\"timestamp\":5,\"owner\":\"alice\"\x7d").toList

def sampleJson : Json where
  readValue text := if text = sampleJsonText then some sampleRecord else none
  readWalEntry _ := none

/-- One plaintext under one nonce: nonce and ciphertext as AES-256-GCM gives
them for the key of the bytes 0 to 31, and their base64 text. -/
structure Sample where
  key : String
  data : Bytes
  long : 12 ≤ data.length
  base64 : Text

namespace Sample

def nonce (sample : Sample) : Nonce :=
  ⟨sample.data.take 12,
    by rw [List.length_take, Nat.min_eq_left sample.long]⟩

def ciphertext (sample : Sample) : Bytes :=
  sample.data.drop 12

def plain (sample : Sample) : Text :=
  recordLine sample.key sampleJsonText ++ ['\n']

def first : Sample where
  key := "k"
  data := [
    17, 34, 51, 68, 85, 102, 119, 136, 153, 170, 187, 204, 10, 233, 212, 19,
    135, 29, 178, 21, 62, 192, 231, 88, 99, 212, 27, 23, 213, 76, 120, 30,
    94, 104, 17, 220, 131, 246, 193, 14, 2, 214, 166, 109, 223, 252, 199,
    145, 76, 126, 234, 168, 211, 235, 164, 3, 58, 170, 111, 18, 206, 72,
    131, 194, 92, 109, 92, 148, 120, 20, 242, 98, 72, 201, 216, 36, 112, 57,
    116, 82, 92, 216, 145, 94, 159, 218, 157, 238, 130, 82, 116, 238, 131,
    60, 202, 189, 80, 94, 36, 226]
  long := by decide
  base64 := [
    'E', 'S', 'I', 'z', 'R', 'F', 'V', 'm', 'd', '4', 'i', 'Z', 'q', 'r', 'v',
    'M', 'C', 'u', 'n', 'U', 'E', '4', 'c', 'd', 's', 'h', 'U', '+', 'w', 'O',
    'd', 'Y', 'Y', '9', 'Q', 'b', 'F', '9', 'V', 'M', 'e', 'B', '5', 'e', 'a',
    'B', 'H', 'c', 'g', '/', 'b', 'B', 'D', 'g', 'L', 'W', 'p', 'm', '3', 'f',
    '/', 'M', 'e', 'R', 'T', 'H', '7', 'q', 'q', 'N', 'P', 'r', 'p', 'A', 'M',
    '6', 'q', 'm', '8', 'S', 'z', 'k', 'i', 'D', 'w', 'l', 'x', 't', 'X', 'J',
    'R', '4', 'F', 'P', 'J', 'i', 'S', 'M', 'n', 'Y', 'J', 'H', 'A', '5', 'd',
    'F', 'J', 'c', '2', 'J', 'F', 'e', 'n', '9', 'q', 'd', '7', 'o', 'J', 'S',
    'd', 'O', '6', 'D', 'P', 'M', 'q', '9', 'U', 'F', '4', 'k', '4', 'g', '=',
    '=']

def second : Sample where
  key := "k"
  data := [
    1, 2, 3, 4, 5, 6, 7, 8, 9, 10, 11, 12, 110, 202, 103, 245, 151, 182,
    134, 231, 32, 215, 6, 101, 42, 104, 151, 4, 96, 53, 132, 157, 227, 2,
    34, 154, 194, 51, 150, 71, 245, 148, 76, 190, 166, 133, 161, 238, 76,
    143, 221, 226, 156, 142, 206, 140, 168, 190, 139, 41, 255, 155, 63, 194,
    238, 172, 26, 83, 89, 10, 98, 168, 29, 35, 14, 46, 22, 17, 98, 64, 218,
    211, 32, 234, 253, 120, 91, 221, 115, 174, 215, 134, 66, 133, 95, 41,
    30, 49, 117, 225]
  long := by decide
  base64 := [
    'A', 'Q', 'I', 'D', 'B', 'A', 'U', 'G', 'B', 'w', 'g', 'J', 'C', 'g', 's',
    'M', 'b', 's', 'p', 'n', '9', 'Z', 'e', '2', 'h', 'u', 'c', 'g', '1', 'w',
    'Z', 'l', 'K', 'm', 'i', 'X', 'B', 'G', 'A', '1', 'h', 'J', '3', 'j', 'A',
    'i', 'K', 'a', 'w', 'j', 'O', 'W', 'R', '/', 'W', 'U', 'T', 'L', '6', 'm',
    'h', 'a', 'H', 'u', 'T', 'I', '/', 'd', '4', 'p', 'y', 'O', 'z', 'o', 'y',
    'o', 'v', 'o', 's', 'p', '/', '5', 's', '/', 'w', 'u', '6', 's', 'G', 'l',
    'N', 'Z', 'C', 'm', 'K', 'o', 'H', 'S', 'M', 'O', 'L', 'h', 'Y', 'R', 'Y',
    'k', 'D', 'a', '0', 'y', 'D', 'q', '/', 'X', 'h', 'b', '3', 'X', 'O', 'u',
    '1', '4', 'Z', 'C', 'h', 'V', '8', 'p', 'H', 'j', 'F', '1', '4', 'Q', '=',
    '=']

def separator : Sample where
  key := "a=b"
  data := [
    21, 22, 23, 24, 25, 26, 27, 28, 29, 30, 31, 32, 90, 84, 211, 72, 154,
    117, 25, 114, 135, 137, 228, 124, 102, 167, 219, 118, 154, 232, 181,
    152, 252, 56, 52, 233, 85, 188, 45, 130, 17, 218, 225, 59, 68, 148, 179,
    248, 193, 84, 25, 188, 49, 151, 98, 124, 242, 41, 227, 35, 193, 5, 100,
    76, 151, 2, 125, 121, 235, 227, 27, 194, 41, 204, 108, 254, 67, 163,
    146, 152, 18, 96, 182, 223, 122, 54, 105, 51, 213, 142, 12, 187, 226,
    86, 7, 253, 57, 69, 226, 143, 168, 82]
  long := by decide
  base64 := [
    'F', 'R', 'Y', 'X', 'G', 'B', 'k', 'a', 'G', 'x', 'w', 'd', 'H', 'h', '8',
    'g', 'W', 'l', 'T', 'T', 'S', 'J', 'p', '1', 'G', 'X', 'K', 'H', 'i', 'e',
    'R', '8', 'Z', 'q', 'f', 'b', 'd', 'p', 'r', 'o', 't', 'Z', 'j', '8', 'O',
    'D', 'T', 'p', 'V', 'b', 'w', 't', 'g', 'h', 'H', 'a', '4', 'T', 't', 'E',
    'l', 'L', 'P', '4', 'w', 'V', 'Q', 'Z', 'v', 'D', 'G', 'X', 'Y', 'n', 'z',
    'y', 'K', 'e', 'M', 'j', 'w', 'Q', 'V', 'k', 'T', 'J', 'c', 'C', 'f', 'X',
    'n', 'r', '4', 'x', 'v', 'C', 'K', 'c', 'x', 's', '/', 'k', 'O', 'j', 'k',
    'p', 'g', 'S', 'Y', 'L', 'b', 'f', 'e', 'j', 'Z', 'p', 'M', '9', 'W', 'O',
    'D', 'L', 'v', 'i', 'V', 'g', 'f', '9', 'O', 'U', 'X', 'i', 'j', '6', 'h',
    'S']

def all : List Sample :=
  [first, second, separator]

theorem separator_mem : separator ∈ all :=
  List.mem_cons_of_mem _ (List.mem_cons_of_mem _ List.mem_cons_self)

end Sample

def sampleCipher : Cipher where
  encryptBytes nonce plain := (Sample.all.find? fun sample =>
    sample.nonce = nonce ∧ asBytes sample.plain = plain).map (·.ciphertext)
  decryptBytes nonce ciphertext := (Sample.all.find? fun sample =>
    sample.nonce = nonce ∧ sample.ciphertext = ciphertext).map
      fun sample => asBytes sample.plain
  encodeBase64 bytes := ((Sample.all.find? fun sample =>
    sample.data = bytes).map (·.base64)).getD []
  decodeBase64 text := (Sample.all.find? fun sample =>
    sample.base64 = text).map (·.data)

/-- A save that draws the nonce of the sample. -/
def sampleChance (sample : Sample) : Chance where
  draw _ _ := some sample.nonce
  json _ _ _ := sampleJsonText

def sampleRows (key : String) : Rows :=
  AList.singleton key sampleRecord

def sampleListing (key : String) : Listing :=
  AList.singleton "t" (sampleRows key)

def dataDirectory : Location :=
  [⟨['d', 'a', 't', 'a'], by decide⟩]

/-- A disk on which there is nothing yet. -/
def emptyDisk : Disk where
  accepts _ := true
  entries := ∅

private theorem entry_emptyDisk (location : Location) (name : FileName) :
    emptyDisk.entry (location ++ [name]) = none := by
  rw [Disk.entry, if_neg (by simp)]
  rfl

theorem isTree_emptyDisk : emptyDisk.IsTree := by
  intro location name present
  rw [entry_emptyDisk] at present
  cases present

theorem entry_dataDirectory (name : FileName) :
    emptyDisk.entry (dataDirectory ++ [name]) = none :=
  entry_emptyDisk dataDirectory name

theorem ready_emptyDisk :
    Ready sampleCipher sampleJson emptyDisk dataDirectory := by
  refine ready_of_empty isTree_emptyDisk (fun _ _ => rfl) rfl rfl ?_
    entry_dataDirectory
  intro ancestor _
  rcases List.eq_nil_or_concat ancestor with rfl | ⟨before, last, rfl⟩
  · rfl
  · rw [List.concat_eq_append, Disk.content, entry_emptyDisk]

theorem eq_of_lookup_singleton {α : Type} {key tested : String}
    {value found : α}
    (listed : (AList.singleton key value :
      AList fun _ : String => α).lookup tested = some found) :
    tested = key ∧ found = value := by
  have among := AList.mem_lookup_iff.mp listed
  cases List.mem_singleton.mp among
  exact ⟨rfl, rfl⟩

theorem enumerates_sampleListing (key : String) :
    (sampleListing key).Enumerates
      ((∅ : Store).insert "t" ((∅ : Table).insert key sampleRecord)) := by
  intro tableName
  rw [HashMap.lookup_insert_eq_ite]
  split
  · rename_i same
    rw [same]
    rfl
  · rename_i different
    have absent : (sampleListing key).lookup tableName = none := by
      rw [AList.lookup_eq_none]
      exact fun among => different (List.mem_singleton.mp among)
    rw [absent]
    rfl

namespace Sample

private theorem forall_mem_all {property : Sample → Prop}
    (atFirst : property first) (atSecond : property second)
    (atSeparator : property separator) :
    ∀ sample ∈ all, property sample := by
  rw [all, List.forall_mem_cons, List.forall_mem_cons,
    List.forall_mem_singleton]
  exact ⟨atFirst, atSecond, atSeparator⟩

theorem encoded : ∀ sample ∈ all, sampleCipher.encodeBase64
    (sample.nonce.val ++ sample.ciphertext) = sample.base64 := by
  intro sample among
  have found : ∀ sample ∈ all, (all.find? fun other =>
      other.data = sample.data) = some sample :=
    forall_mem_all rfl rfl rfl
  have joined : sample.nonce.val ++ sample.ciphertext = sample.data :=
    List.take_append_drop 12 sample.data
  simp only [sampleCipher, joined, found sample among, Option.map_some,
    Option.getD_some]

private theorem decoded : ∀ sample ∈ all,
    sampleCipher.decodeBase64 sample.base64 =
      some (sample.nonce.val ++ sample.ciphertext) := by
  intro sample among
  have found : ∀ sample ∈ all, (all.find? fun other =>
      other.base64 = sample.base64) = some sample :=
    forall_mem_all rfl rfl rfl
  have joined : sample.nonce.val ++ sample.ciphertext = sample.data :=
    List.take_append_drop 12 sample.data
  simp only [sampleCipher, joined, found sample among, Option.map_some]

set_option maxRecDepth 4000 in
theorem reliable : ∀ sample ∈ all,
    sampleCipher.Reliable sample.nonce (asBytes sample.plain)
      sample.ciphertext := by
  intro sample among
  have sealed : ∀ sample ∈ all, sampleCipher.encryptBytes sample.nonce
      (asBytes sample.plain) = some sample.ciphertext := by decide
  have unsealed : ∀ sample ∈ all, sampleCipher.decryptBytes
      sample.nonce sample.ciphertext = some (asBytes sample.plain) :=
    forall_mem_all rfl rfl rfl
  have solid : ∀ sample ∈ all, sample.base64 ≠ [] ∧
      sample.base64.all (fun char => !isWhitespace char) = true := by decide
  refine ⟨sealed sample among, unsealed sample among, ?_, ?_, ?_⟩
  · rw [encoded sample among, decoded sample among]
  · rw [encoded sample among]
    exact (solid sample among).1
  · rw [encoded sample among]
    intro char inside
    have visible := List.all_eq_true.mp (solid sample among).2 char inside
    simpa using visible

theorem encrypt_plain {sample : Sample} (among : sample ∈ all) :
    sampleCipher.encrypt (some sample.nonce) sample.plain =
      some sample.base64 := by
  rw [Cipher.encrypt, Option.getD_some, (reliable sample among).sealed,
    Option.map_some, encoded sample among]

end Sample

private theorem writes_sample :
    sampleJson.Writes sampleJsonText sampleRecord where
  reads := by decide
  shape := ⟨sampleJsonText.tail.dropLast, by decide⟩
  oneLine := by decide

/-- A sample under its own key, in the order in which it is saved. -/
theorem chunks_sample : ∀ sample ∈ Sample.all,
    chunks (sampleChance sample) "t" (sampleRows sample.key) =
      [sample.plain] := by
  decide

theorem dependable_sample {sample : Sample} (among : sample ∈ Sample.all) :
    Dependable sampleCipher sampleJson (sampleChance sample)
      (sampleListing sample.key) where
  reliable := by
    intro tableName rows listed index chunk found
    obtain ⟨rfl, rfl⟩ := eq_of_lookup_singleton listed
    rw [chunks_sample sample among] at found
    have isChunk := List.mem_singleton.mp (List.mem_of_getElem? found)
    rw [isChunk]
    exact ⟨_, Sample.reliable sample among⟩
  writes := by
    intro tableName rows listed key record found
    obtain ⟨-, rfl⟩ := eq_of_lookup_singleton listed
    obtain ⟨-, rfl⟩ := eq_of_lookup_singleton found
    exact writes_sample

/-- The record under the key `k` is restored. -/
theorem plainKey_restored :
    Restored sampleCipher sampleJson (sampleChance Sample.first) emptyDisk
      dataDirectory ((∅ : Store).insert "t" ((∅ : Table).insert "k" sampleRecord))
      (sampleListing "k") := by
  refine (restored_iff_storable (enumerates_sampleListing "k")
    (dependable_sample List.mem_cons_self)
    ready_emptyDisk).mpr ?_
  intro tableName records found
  rw [HashMap.lookup_insert_eq_ite] at found
  split at found
  · rename_i same
    cases found
    refine ⟨⟨⟨['t'], by decide⟩, ?_, rfl⟩, by decide⟩
    rw [same]
    rfl
  · cases found

/-- The same record under the key `a=b` is not. -/
theorem separatorKey_not_restored :
    ¬ Restored sampleCipher sampleJson (sampleChance Sample.separator) emptyDisk
      dataDirectory
      ((∅ : Store).insert "t" ((∅ : Table).insert "a=b" sampleRecord))
      (sampleListing "a=b") := by
  intro restored
  have clean := cleanKey_of_restored (enumerates_sampleListing "a=b")
    (dependable_sample Sample.separator_mem)
    ready_emptyDisk restored "t" _ (Finmap.lookup_insert _) "a=b"
    (Finmap.mem_insert.mpr (Or.inl rfl))
  exact absurd clean (by decide)

end DynaRust.Storage
