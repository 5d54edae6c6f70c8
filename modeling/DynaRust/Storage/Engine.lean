import DynaRust.Network.Http
import DynaRust.Storage.MergeRule

/-!
# The data handlers of a node

Each handler is a function of the store and of what it reads from the request.
The part up to the first await after the store step is one `Outcome`; the rest
of the handler is the task it leaves behind.  `currentAddr` is the address of
the node, `now` its clock reading in milliseconds.
-/

namespace DynaRust.Storage

open DynaRust.Foundation DynaRust.Network

/-! ## Local writes to one record -/

/-- The store step of `put_value`: the record under the key before, the one to
store after. -/
def putLocal (existing : Option VersionedValue) (user : String)
    (body : HashMap String Value) (currentAddr : String) (now : Nat) :
    Except Response VersionedValue :=
  match existing with
  | some existing =>
      if existing.owner ≠ user then
        .error ⟨401, .error "Not authorized to update this record"⟩
      else
        .ok (existing.update body currentAddr now)
  | none => .ok (VersionedValue.new body user currentAddr now)

/-- The store step of `patch_value`. -/
def patchLocal (existing : Option VersionedValue) (user : String)
    (body : HashMap String Value) (currentAddr : String) (now : Nat) :
    Except Response VersionedValue :=
  match existing with
  | some existing =>
      if existing.owner ≠ user then
        .error ⟨401, .error "Not authorized to update this record"⟩
      else
        .ok (existing.patch body currentAddr now)
  | none => .error ⟨404, .error "Record not found"⟩

/-- A PUT creates the key for its user or updates a record of its user. -/
theorem putLocal_eq_ok_iff {existing : Option VersionedValue} {user : String}
    {body : HashMap String Value} {currentAddr : String} {now : Nat}
    {written : VersionedValue} :
    putLocal existing user body currentAddr now = .ok written ↔
      (existing = none ∧
        written = VersionedValue.new body user currentAddr now) ∨
      ∃ base, existing = some base ∧ base.owner = user ∧
        written = base.update body currentAddr now := by
  cases existing with
  | none =>
      simp [putLocal, eq_comm]
  | some base =>
      by_cases own : base.owner = user
      · simp [putLocal, own, eq_comm]
      · simp [putLocal, own]

/-- A PATCH updates a record of its user. -/
theorem patchLocal_eq_ok_iff {existing : Option VersionedValue} {user : String}
    {body : HashMap String Value} {currentAddr : String} {now : Nat}
    {written : VersionedValue} :
    patchLocal existing user body currentAddr now = .ok written ↔
      ∃ base, existing = some base ∧ base.owner = user ∧
        written = base.patch body currentAddr now := by
  cases existing with
  | none =>
      simp [patchLocal]
  | some base =>
      by_cases own : base.owner = user
      · simp [patchLocal, own, eq_comm]
      · simp [patchLocal, own]

/-- What an accepted PUT stores belongs to its user and holds its body. -/
theorem putLocal_eq_ok_of_own {existing : Option VersionedValue}
    {user : String} (own : ∀ held ∈ existing, held.owner = user)
    (body : HashMap String Value) (currentAddr : String) (now : Nat) :
    ∃ written, putLocal existing user body currentAddr now = .ok written ∧
      written.owner = user ∧ written.value = body := by
  cases existing with
  | none =>
      exact ⟨_, rfl, rfl, rfl⟩
  | some held =>
      have same : held.owner = user := own held rfl
      exact ⟨held.update body currentAddr now, by simp [putLocal, same],
        same, rfl⟩

/-! ## Handlers -/

/-- External PUT handler. -/
def putValue (currentAddr : String) (store : Store)
    (authorization : Authorization) (tableName keyVal : String)
    (body : HashMap String Value) (now : Nat) : Outcome :=
  match extractUserFromToken authorization with
  | .error response => { store := store, response := some response }
  | .ok user =>
      let opened := store.orDefault tableName
      match putLocal (opened.record tableName keyVal) user body
          currentAddr now with
      | .error response => { store := opened, response := some response }
      | .ok newValue =>
          { store := opened.insertRecord tableName keyVal newValue
            response := some ⟨201, .record newValue⟩
            notification := some ⟨tableName, keyVal, .updated newValue⟩
            task := some (.fanOut (.putValue tableName keyVal newValue)) }

/-- External PATCH handler. -/
def patchValue (currentAddr : String) (store : Store)
    (authorization : Authorization) (tableName keyVal : String)
    (body : HashMap String Value) (now : Nat) : Outcome :=
  match extractUserFromToken authorization with
  | .error response => { store := store, response := some response }
  | .ok user =>
      let opened := store.orDefault tableName
      match patchLocal (opened.record tableName keyVal) user body
          currentAddr now with
      | .error response => { store := opened, response := some response }
      | .ok newValue =>
          { store := opened.insertRecord tableName keyVal newValue
            response := some ⟨200, .record newValue⟩
            notification := some ⟨tableName, keyVal, .updated newValue⟩
            task := some (.fanOut (.patchValue tableName keyVal newValue)) }

/-- Internal PUT handler (mounted at `/internal/{table}/key/{key}`). -/
def putValueInternal (clusterSecret : String) (store : Store)
    (header : Option HeaderValue) (tableName keyVal : String)
    (incoming : VersionedValue) : Outcome :=
  if providedSecret header ≠ clusterSecret then
    { store := store, response := some ⟨401, .empty⟩ }
  else
    let opened := store.orDefault tableName
    let cached := mergeIncoming (opened.record tableName keyVal) incoming
    { store := opened.insertRecord tableName keyVal cached
      response := some ⟨201, .record cached⟩
      notification := some ⟨tableName, keyVal, .updated cached⟩ }

/-- An accepted record is merged under its key; the others stay. -/
theorem record_putValueInternal {clusterSecret : String}
    {header : Option HeaderValue}
    (authentic : providedSecret header = clusterSecret) (store : Store)
    (tableName keyVal : String) (incoming : VersionedValue)
    (table key : String) :
    (putValueInternal clusterSecret store header tableName keyVal
        incoming).store.record table key =
      if table = tableName ∧ key = keyVal then
        some (mergeIncoming (store.record tableName keyVal) incoming)
      else store.record table key := by
  rw [putValueInternal, if_neg (not_not.mpr authentic)]
  simp only [Store.record_insertRecord, Store.record_orDefault]

/-- DELETE handler: the internal branch removes at once, the external one only
checks the owner and leaves the removal to `deleteRemove`. -/
def deleteValue (clusterSecret : String) (store : Store)
    (header : Option HeaderValue) (authorization : Authorization)
    (tableName keyVal : String) : Outcome :=
  if headerPresents clusterSecret header then
    { store := store.removeRecord tableName keyVal
      response := some ⟨200, .message "Deleted"⟩
      notification := some ⟨tableName, keyVal, .deleted⟩ }
  else
    match extractUserFromToken authorization with
    | .error response => { store := store, response := some response }
    | .ok user =>
        let authorized :=
          ((store.record tableName keyVal).map
            fun existing => decide (existing.owner = user)).getD false
        if authorized then
          { store := store, task := some (.remove tableName keyVal) }
        else
          { store := store
            response := some ⟨401, .error
              "Not authorized to delete this record or record not found"⟩ }

/-- The second store step of `delete_value`. -/
def deleteRemove (store : Store) (tableName keyVal : String) : Outcome :=
  let localStatus :=
    match store.lookup tableName with
    | some records =>
        if keyVal ∈ records then "Deleted locally"
        else "Key not found locally"
    | none => "Table not found locally"
  { store := store.removeRecord tableName keyVal
    response := some ⟨200, .message localStatus⟩
    notification := some ⟨tableName, keyVal, .deleted⟩
    task := some (.fanOut (.deleteValue tableName keyVal)) }

/-- GET handler: replicas are answered at once, a user's read goes on to ask
all of them. -/
def getValue (clusterSecret : String) (store : Store)
    (header : Option HeaderValue) (authorization : Authorization)
    (tableName keyVal : String) : Outcome :=
  if headerPresents clusterSecret header then
    { store := store
      response := some ⟨200, .optionalRecord (store.record tableName keyVal)⟩ }
  else
    match extractUserFromToken authorization with
    | .error _ =>
        { store := store
          response := some ⟨401, .text "You are not owning this record"⟩ }
    | .ok user =>
        { store := store, task := some (.read user tableName keyVal) }

/-! ## The second half of `get_value` -/

/-- The comparator given to `max_by`. -/
def compareVersions (first second : VersionedValue) : Ordering :=
  if first.dominates second then .gt
  else if second.dominates first then .lt
  else compare first.timestamp second.timestamp

/-- `max_by`: of two elements the later one is kept unless the earlier one
compares greater. -/
def selectLatest : List VersionedValue → Option VersionedValue
  | [] => none
  | first :: rest =>
      some <| rest.foldl
        (fun kept next =>
          if compareVersions kept next = .gt then kept else next) first

theorem mem_of_selectLatest {versions : List VersionedValue}
    {latest : VersionedValue} (selected : selectLatest versions = some latest) :
    latest ∈ versions := by
  cases versions with
  | nil =>
      cases selected
  | cons first rest =>
      cases Option.some.inj selected
      induction rest generalizing first with
      | nil =>
          exact List.mem_cons_self
      | cons next rest inductionHypothesis =>
          rw [List.foldl_cons]
          split
          · rcases List.mem_cons.mp (inductionHypothesis first rfl) with
              kept | later
            · exact List.mem_cons.mpr (Or.inl kept)
            · exact List.mem_cons_of_mem _ (List.mem_cons_of_mem _ later)
          · exact List.mem_cons_of_mem _ (inductionHypothesis next rfl)

/-- The comparator prefers what the merge rule prefers. -/
theorem compareVersions_eq_gt_iff (first second : VersionedValue) :
    compareVersions first second = .gt ↔ first.beats second = true := by
  rw [VersionedValue.beats_iff, compareVersions]
  split
  · rename_i newer
    simp [newer]
  · rename_i notNewer
    split
    · rename_i older
      simp [notNewer, older]
    · rename_i notOlder
      rw [compare_gt_iff_gt]
      simp [notNewer, notOlder]

theorem selectLatest_cons (first : VersionedValue)
    (rest : List VersionedValue) :
    selectLatest (first :: rest) =
      some (rest.foldl mergeContest.defend first) := by
  have same : (fun kept next =>
      if compareVersions kept next = .gt then kept else next) =
        mergeContest.defend := by
    funext kept next
    unfold Contest.defend
    by_cases wins : kept.beats next = true
    · rw [if_pos ((compareVersions_eq_gt_iff kept next).mpr wins)]
      exact (if_pos wins).symm
    · rw [if_neg (mt (compareVersions_eq_gt_iff kept next).mp wins)]
      exact (if_neg wins).symm
  rw [selectLatest, same]

/-- Whether a replica that answered `answer` is sent the selected version. -/
def needsRepair (latest : VersionedValue) (answer : Option VersionedValue) :
    Bool :=
  match answer with
  | none => true
  | some held =>
      !held.dominates latest && decide (held.timestamp < latest.timestamp)

/-- The replicas to repair, in the order of their answers. -/
def repairTargets (latest : VersionedValue)
    (answers : List (String × Option VersionedValue)) : List String :=
  (answers.filter fun answer => needsRepair latest answer.2).map Prod.fst

/-- What `get_value` answers once the selected version is known. -/
def readResponse (user : String) (latest : Option VersionedValue) : Response :=
  match latest with
  | none => ⟨404, .error "Key not found on any replica"⟩
  | some latest =>
      if latest.owner ≠ user then
        ⟨401, .error "Not authorized to view record"⟩
      else
        ⟨200, .record latest⟩

/-! ## Table reads -/

def getTableStore (store : Store) (tableName : String) : Outcome :=
  match store.lookup tableName with
  | some records => { store := store, response := some ⟨200, .table records⟩ }
  | none =>
      { store := store, response := some ⟨404, .error "Table not found"⟩ }

def getAllKeys (store : Store) (tableName : String) : Outcome :=
  match store.lookup tableName with
  | some records =>
      { store := store, response := some ⟨200, .keys records.keys⟩ }
  | none =>
      { store := store, response := some ⟨404, .error "Table not found"⟩ }

/-- The loop of `get_multiple_keys`. -/
def collectKeys (records result : Table) : List String → Table
  | [] => result
  | key :: rest =>
      match records.lookup key with
      | some value => collectKeys records (result.insert key value) rest
      | none => collectKeys records result rest

def getMultipleKeys (store : Store) (tableName : String)
    (requestedKeys : List String) : Outcome :=
  match store.lookup tableName with
  | some records =>
      { store := store
        response := some ⟨200, .table (collectKeys records ∅ requestedKeys)⟩ }
  | none =>
      { store := store, response := some ⟨404, .error "Table not found"⟩ }

def getGlobalStore (clusterSecret : String) (store : Store)
    (apiKey : Option HeaderValue) : Outcome :=
  match apiKey with
  | some (.text key) =>
      if key ≠ clusterSecret then
        { store := store
          response := some ⟨401, .text "Invalid API key provided"⟩ }
      else
        { store := store, response := some ⟨200, .store store⟩ }
  | some .binary =>
      { store := store
        response := some ⟨400, .text "Malformed API key header"⟩ }
  | none => { store := store, response := some ⟨401, .text "Missing API key"⟩ }

end DynaRust.Storage
