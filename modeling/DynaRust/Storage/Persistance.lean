import DynaRust.Foundation.FileSystem
import DynaRust.Storage.Encryption
import DynaRust.Storage.Store

/-!
# Saving to cold storage and loading back

`persistance.rs`: every table has a folder in the data directory with the
encrypted snapshot `storage.db` and the log `wal.log`.
-/

namespace DynaRust.Storage

open DynaRust.Foundation

/-! ## The two files of a table -/

def storageDb : FileName :=
  ⟨['s', 't', 'o', 'r', 'a', 'g', 'e', '.', 'd', 'b'], by decide⟩

def walLog : FileName :=
  ⟨['w', 'a', 'l', '.', 'l', 'o', 'g'], by decide⟩

/-- `file_name().to_string_lossy().to_string()`. -/
def tableNameOf (name : FileName) : String :=
  String.ofList name.text

/-- An entry of the write-ahead log; its timestamp is never read. -/
structure WalEntry where
  op : String
  key : String
  value : Option VersionedValue

/-- What `serde_json::from_str` reads. -/
structure Json where
  readValue : Text → Option VersionedValue
  readWalEntry : Text → Option WalEntry

/-! ## Saving -/

/-- What a save leaves to chance: the nonce drawn for a chunk of a table, and
the order in which the maps of a record are written. -/
structure Chance where
  draw : String → Nat → Option Nonce
  json : String → String → VersionedValue → Text

abbrev Rows := AList fun _ : String => VersionedValue

/-- All tables with their rows, in the order in which they are visited. -/
abbrev Listing := AList fun _ : String => Rows

/-- The listing visits exactly the tables and records of the store. -/
def Listing.Enumerates (listing : Listing) (store : Store) : Prop :=
  ∀ tableName, store.lookup tableName =
    (listing.lookup tableName).map AList.toFinmap

/-- `format!("{} = {}\n", key, json_str)` without the line feed. -/
def recordLine (key : String) (json : Text) : Text :=
  (key.toList ++ [' ']) ++ '=' :: ' ' :: json

/-- `String::len`. -/
def byteLength (text : Text) : Nat :=
  (asBytes text).length

/-- The loop that cuts the lines into chunks behind `plain_buffer`. -/
def chunkLoop (limit : Nat) (plainBuffer : Text) : List Text → List Text
  | [] => if plainBuffer = [] then [] else [plainBuffer]
  | line :: rest =>
      if limit ≤ byteLength (plainBuffer ++ line) then
        (plainBuffer ++ line) :: chunkLoop limit [] rest
      else
        chunkLoop limit (plainBuffer ++ line) rest

def chunkSizeLimit : Nat :=
  1024 * 1024

section Save

variable (cipher : Cipher) (chance : Chance) (base : Location)

/-- The lines of a table, each with its line feed. -/
def recordLines (tableName : String) (rows : Rows) : List Text :=
  rows.entries.map fun row =>
    recordLine row.1 (chance.json tableName row.1 row.2) ++ ['\n']

/-- The plaintext chunks of a table. -/
def chunks (tableName : String) (rows : Rows) : List Text :=
  chunkLoop chunkSizeLimit [] (recordLines chance tableName rows)

def encryptedChunks (tableName : String) (rows : Rows) : List (Option Text) :=
  (chunks chance tableName rows).mapIdx fun index chunk =>
    cipher.encrypt (chance.draw tableName index) chunk

/-- `writeln!(file, "{}", encrypted_chunk)?` for every chunk, up to the first
that cannot be encrypted. -/
def chunkSteps (file : Location) : List (Option Text) → List DiskStep
  | [] => []
  | none :: _ => [.failed]
  | some encrypted :: rest =>
      .append file encrypted :: .append file ['\n'] :: chunkSteps file rest

/-- The blocking task that saves one table. -/
def saveTable (tableName : String) (rows : Rows) : List DiskStep :=
  let folder := base.join tableName.toList
  (base.visited tableName.toList).map .createDirectory ++
    .createFile (folder ++ [storageDb]) ::
      (chunkSteps (folder ++ [storageDb])
        (encryptedChunks cipher chance tableName rows) ++
        [.createFile (folder ++ [walLog])])

def saveToCold (listing : Listing) : List DiskStep :=
  listing.entries.flatMap fun table =>
    saveTable cipher chance base table.1 table.2

end Save

/-! ## Loading -/

/-- An I/O error is returned; an error of `decrypt` exits the process. -/
inductive LoadFailure where
  | io
  | exit (error : DecryptError)
  deriving DecidableEq

section Load

variable (cipher : Cipher) (json : Json)

/-- One line of a decrypted chunk. -/
def loadRecord (records : Table) (line : Text) : Table :=
  match splitOnce '=' line with
  | none => records
  | some (key, text) =>
      match json.readValue (trim text) with
      | some value => records.insert (String.ofList (trim key)) value
      | none => records

def loadChunk (records : Table) (content : Text) : Table :=
  (splitLines content).foldl (loadRecord json) records

/-- The lines of `storage.db`. -/
def loadSnapshot (records : Table) : List Text → Except LoadFailure Table
  | [] => .ok records
  | line :: rest =>
      if trim line = [] then
        loadSnapshot records rest
      else
        match cipher.decrypt (trim line) with
        | .ok content => loadSnapshot (loadChunk json records content) rest
        | .error error => .error (.exit error)

/-- One line of `wal.log`. -/
def replayLine (records : Table) (line : Text) : Table :=
  match json.readWalEntry line with
  | none => records
  | some entry =>
      if entry.op = "put" then
        match entry.value with
        | some value => records.insert entry.key value
        | none => records
      else if entry.op = "delete" then
        records.erase entry.key
      else
        records

/-- The lines of a file that may be missing; a directory can be opened but
not read. -/
def readLines (disk : Disk) (location : Location) :
    Except LoadFailure (List Text) :=
  match disk.entry location with
  | none => .ok []
  | some (.file content) => .ok (splitLines content)
  | some .directory => .error .io

def loadFolder (disk : Disk) (folder : Location) :
    Except LoadFailure Table :=
  match readLines disk (folder ++ [storageDb]) with
  | .error failure => .error failure
  | .ok snapshot =>
      match loadSnapshot cipher json ∅ snapshot with
      | .error failure => .error failure
      | .ok records =>
          match readLines disk (folder ++ [walLog]) with
          | .error failure => .error failure
          | .ok wal => .ok (wal.foldl (replayLine json) records)

/-- The loop over `read_dir`. -/
def loadTables (disk : Disk) (base : Location) (store : Store) :
    List FileName → Except LoadFailure Store
  | [] => .ok store
  | name :: rest =>
      if disk.entry (base ++ [name]) = some .directory then
        match loadFolder cipher json disk (base ++ [name]) with
        | .error failure => .error failure
        | .ok records =>
            loadTables disk base (store.insert (tableNameOf name) records) rest
      else
        loadTables disk base store rest

/-- The store that replaces the one in memory. -/
def loadAllTables (disk : Disk) (base : Location) (names : List FileName) :
    Except LoadFailure Store :=
  if disk.entry base = some .directory then
    loadTables cipher json disk base ∅ names
  else
    .ok ∅

end Load

end DynaRust.Storage
