import DynaRust.Foundation.Workers
import DynaRust.Network.Membership
import DynaRust.Security.Authentication
import DynaRust.Storage.Admin
import DynaRust.Storage.Subscription

/-!
# Where the handlers lock and where they wait

Every handler and background task as a routine of a worker: the shard locks of
the store's maps, the channel table, the membership, and the awaits in between.
Several awaits in a row that concern no lock are one pause; the spawned tasks
that only send requests are left out.
-/

namespace DynaRust.Network

open DynaRust.Foundation DynaRust.Security DynaRust.Storage

/-- The shards of `AppState::store` and of the map of each table. -/
inductive StoreLock where
  | table (shard : Nat)
  | record (table : String) (shard : Nat)
  deriving DecidableEq

/-- `SubscriptionManager::channels` and `ClusterData::nodes`. -/
inductive AsyncLock where
  | channels
  | nodes
  deriving DecidableEq

/-- What the handlers of one node share. -/
structure Shared where
  store : Store
  manager : SubscriptionManager
  nodes : Membership

/-- A node process; a map has `shardAmount` shards, and its keys are spread
over them by a hash of its own. -/
structure Server where
  environment : Environment
  currentAddr : String
  shardAmount : Nat
  tableShard : String → Nat
  keyShard : String → String → Nat

abbrev ServerRoutine := Routine Shared StoreLock AsyncLock

/-- The order in which maps are iterated while a request is served. -/
structure Iteration where
  /-- What `get_active_nodes` answers. -/
  active : List String
  tables : List String
  deriving DecidableEq

namespace Server

variable (server : Server)

def tableLock (table : String) : StoreLock :=
  .table (server.tableShard table)

def recordLock (table key : String) : StoreLock :=
  .record table (server.keyShard table key)

/-! ## Guards of the store -/

/-- `store.get(table).and_then(|table| table.get(key).map(..))`. -/
def readRecord (table key : String)
    (next : Option VersionedValue → ServerRoutine) : ServerRoutine :=
  .lock (server.tableLock table) .read <| .update id fun shared =>
    match shared.store.lookup table with
    | some records =>
        .lock (server.recordLock table key) .read <|
          .unlock (server.recordLock table key) <|
            .unlock (server.tableLock table) (next (records.lookup key))
    | none => .unlock (server.tableLock table) (next none)

/-- `if let Some(table) = store.get(table) { table.remove(key); }`, with the
outcome of the handler. -/
def removeRecord (table key : String) (outcome : Store → Outcome)
    (next : Outcome → ServerRoutine) : ServerRoutine :=
  .lock (server.tableLock table) .read <| .update id fun shared =>
    match shared.store.lookup table with
    | some _ =>
        .lock (server.recordLock table key) .write <| .update
          (fun shared =>
            { shared with store := (outcome shared.store).store })
          fun shared =>
            .unlock (server.recordLock table key) <|
              .unlock (server.tableLock table) (next (outcome shared.store))
    | none =>
        .unlock (server.tableLock table) (next (outcome shared.store))

/-- `store.entry(table).or_default()` and a step on one of its records; what
comes next still has the guard of the table. -/
def writeRecord (table key : String) (outcome : Store → Outcome)
    (next : Outcome → ServerRoutine) : ServerRoutine :=
  .lock (server.tableLock table) .write <|
    .lock (server.recordLock table key) .write <| .update
      (fun shared => { shared with store := (outcome shared.store).store })
      fun shared =>
        .unlock (server.recordLock table key) (next (outcome shared.store))

/-- A map iterator drops the guard of a shard when it has that of the next. -/
def iterateFrom (lockOf : Nat → StoreLock)
    (visit : Nat → ServerRoutine → ServerRoutine) :
    Nat → List Nat → ServerRoutine → ServerRoutine
  | held, [], next => .unlock (lockOf held) next
  | held, shard :: rest, next =>
      .lock (lockOf shard) .read <| .unlock (lockOf held) <|
        visit shard (iterateFrom lockOf visit shard rest next)

def iterate (lockOf : Nat → StoreLock)
    (visit : Nat → ServerRoutine → ServerRoutine) :
    List Nat → ServerRoutine → ServerRoutine
  | [], next => next
  | shard :: rest, next =>
      .lock (lockOf shard) .read <|
        visit shard (iterateFrom lockOf visit shard rest next)

/-- `table.iter()`. -/
def iterateRecords (table : String) (next : ServerRoutine) : ServerRoutine :=
  iterate (.record table) (fun _ next => next)
    (List.range server.shardAmount) next

/-- `store.iter()`, which comes upon the listed tables. -/
def iterateTables (tables : List String)
    (visit : String → ServerRoutine → ServerRoutine)
    (next : ServerRoutine) : ServerRoutine :=
  iterate .table
    (fun shard next =>
      (tables.filter fun table => server.tableShard table = shard).foldr
        visit next)
    (List.range server.shardAmount) next

/-- `table.len()`, one shard after the other. -/
def countRecords (table : String) (next : ServerRoutine) : ServerRoutine :=
  (List.range server.shardAmount).foldr
    (fun shard next =>
      .lock (.record table shard) .read (.unlock (.record table shard) next))
    next

/-- `if let Some(table) = store.get(table) { .. }` around the visit. -/
def withTable (table : String)
    (visit : ServerRoutine → ServerRoutine) (next : ServerRoutine) :
    ServerRoutine :=
  .lock (server.tableLock table) .read <| .update id fun shared =>
    match shared.store.lookup table with
    | some _ => visit (.unlock (server.tableLock table) next)
    | none => .unlock (server.tableLock table) next

/-! ## Subscribers and replication -/

/-- The first half of `notify` finds that its channel has no receivers. -/
def shouldCleanup (manager : SubscriptionManager) (table key : String)
    (event : KeyEvent) : Bool :=
  match manager.channels.lookup (channelIdentifier table key) with
  | some sender => (manager.send sender event).isNone
  | none => false

/-- The second half of `notify` on one of the pending cleanups. -/
def finishCleanup (manager : SubscriptionManager) (identifier : String) :
    SubscriptionManager :=
  { manager with cleanups := manager.cleanups.erase identifier }.cleanup
    identifier

/-- `SubscriptionManager::notify(..).await`. -/
def notify (notification : Notification) (next : ServerRoutine) :
    ServerRoutine :=
  let ⟨table, key, event⟩ := notification
  .acquire .channels .read <| .update
    (fun shared =>
      { shared with manager := shared.manager.notify table key event })
    fun shared =>
      .release .channels <|
        if shouldCleanup shared.manager table key event then
          .acquire .channels .write <| .update
            (fun shared =>
              { shared with
                manager := finishCleanup shared.manager
                  (channelIdentifier table key) })
            fun _ => .release .channels next
        else
          next

/-- Read the active nodes, then send to each of them once there is a permit
for it. -/
def replicate : ServerRoutine :=
  .acquire .nodes .read <| .release .nodes <| .pause .done

/-- The rest of a handler that has no guard any more. -/
def respond (outcome : Outcome) : ServerRoutine :=
  match outcome.notification with
  | some notification =>
      notify notification <|
        match outcome.task with
        | some _ => replicate
        | none => .done
  | none => .done

/-- The rest of a handler that keeps the guard of the table to its end. -/
def respondWithin (table : String) (outcome : Outcome) : ServerRoutine :=
  match outcome.notification with
  | some notification =>
      notify notification (.unlock (server.tableLock table) .done)
  | none => .unlock (server.tableLock table) .done

/-! ## Data handlers -/

def getValue (header : Option HeaderValue) (authorization : Authorization)
    (table key : String) (active : List String) : ServerRoutine :=
  if headerPresents server.environment.clusterSecret header then
    server.readRecord table key fun _ => .done
  else
    match extractUserFromToken authorization with
    | .error _ => .done
    | .ok _ =>
        .acquire .nodes .read <| .release .nodes <|
          if server.currentAddr ∈ getReplicationNodes server.environment.hash
              key active active.length then
            server.readRecord table key fun _ => .pause .done
          else
            .pause .done

def putValue (authorization : Authorization) (table key : String)
    (body : HashMap String Value) (now : Nat) : ServerRoutine :=
  match extractUserFromToken authorization with
  | .error _ => .done
  | .ok _ =>
      server.writeRecord table key
        (fun store => Storage.putValue server.currentAddr store authorization
          table key body now)
        fun outcome => .unlock (server.tableLock table) (respond outcome)

def patchValue (authorization : Authorization) (table key : String)
    (body : HashMap String Value) (now : Nat) : ServerRoutine :=
  match extractUserFromToken authorization with
  | .error _ => .done
  | .ok _ =>
      server.writeRecord table key
        (fun store => Storage.patchValue server.currentAddr store
          authorization table key body now)
        fun outcome => .unlock (server.tableLock table) (respond outcome)

/-- `table` lives to the end of the handler, across `notify(..).await`. -/
def putValueInternal (header : Option HeaderValue) (table key : String)
    (incoming : VersionedValue) : ServerRoutine :=
  if providedSecret header ≠ server.environment.clusterSecret then
    .done
  else
    server.writeRecord table key
      (fun store => Storage.putValueInternal
        server.environment.clusterSecret store header table key incoming)
      (server.respondWithin table)

def deleteValue (header : Option HeaderValue) (authorization : Authorization)
    (table key : String) : ServerRoutine :=
  if headerPresents server.environment.clusterSecret header then
    server.removeRecord table key
      (fun store => Storage.deleteValue server.environment.clusterSecret
        store header authorization table key)
      respond
  else
    match extractUserFromToken authorization with
    | .error _ => .done
    | .ok user =>
        server.readRecord table key fun record =>
          if record.any fun existing => existing.owner = user then
            server.removeRecord table key
              (fun store => Storage.deleteRemove store table key) respond
          else
            .done

def getTableStore (table : String) : ServerRoutine :=
  server.withTable table (server.iterateRecords table) .done

def getAllKeys (table : String) : ServerRoutine :=
  server.withTable table (server.iterateRecords table) .done

def getMultipleKeys (table : String) (keys : List String) : ServerRoutine :=
  server.withTable table
    (fun next => keys.foldr
      (fun key next =>
        .lock (server.recordLock table key) .read
          (.unlock (server.recordLock table key) next))
      next)
    .done

def getGlobalStore (apiKey : Option HeaderValue) (tables : List String) :
    ServerRoutine :=
  if presentsToken server.environment.clusterSecret apiKey then
    server.iterateTables tables server.iterateRecords .done
  else
    .done

/-- `auth_table` lives to the end of the internal branch, across
`notify(..).await`. -/
def access (header : Option HeaderValue) (username : String)
    (userHeader : Option HeaderValue) (body : AccessBody) (now : Nat) :
    ServerRoutine :=
  let outcome := fun store => Security.access server.environment
    server.currentAddr store header username userHeader body now
  if headerPresents server.environment.clusterSecret header then
    match body with
    | .bincode _ =>
        server.writeRecord "auth" username outcome
          (server.respondWithin "auth")
    | _ => .done
  else
    match body with
    | .json _ =>
        server.writeRecord "auth" username outcome fun outcome =>
          .unlock (server.tableLock "auth") (respond outcome)
    | _ => .done

/-! ## Admin handlers -/

def adminGetTables (authorization : Authorization) (tables : List String) :
    ServerRoutine :=
  if validateAdminToken authorization then
    server.iterateTables tables (fun _ next => next) .done
  else
    .done

def adminGetKeys (authorization : Authorization) (table : String) :
    ServerRoutine :=
  if validateAdminToken authorization then
    server.withTable table (server.iterateRecords table) .done
  else
    .done

def adminGetRecord (authorization : Authorization) (table key : String) :
    ServerRoutine :=
  if validateAdminToken authorization then
    server.readRecord table key fun _ => .done
  else
    .done

def adminPutRecord (authorization : Authorization) (table key : String)
    (body : HashMap String Value) (now : Nat) : ServerRoutine :=
  if validateAdminToken authorization then
    server.writeRecord table key
      (fun store => Storage.adminPutRecord server.currentAddr store
        authorization table key body now)
      fun outcome => .unlock (server.tableLock table) (respond outcome)
  else
    .done

def adminDeleteRecord (authorization : Authorization) (table key : String) :
    ServerRoutine :=
  if validateAdminToken authorization then
    server.removeRecord table key
      (fun store => Storage.adminDeleteRecord store authorization table key)
      respond
  else
    .done

/-! ## The other handlers and the background tasks -/

def subscribeToKey (table key : String) : ServerRoutine :=
  .acquire .channels .write <| .update
    (fun shared =>
      { shared with manager := shared.manager.subscribe table key })
    fun _ => .release .channels <| .pause .done

/-- `channels` lives to the end of the handler, across `nodes.read().await`. -/
def getStats (tables : List String) : ServerRoutine :=
  server.iterateTables tables server.countRecords <|
    .acquire .channels .read <| .acquire .nodes .read <|
      .release .nodes <| .release .channels .done

def joinCluster (request : JoinRequest) (now : Nat) : ServerRoutine :=
  if request.secret ≠ server.environment.clusterSecret then
    .done
  else
    .acquire .nodes .write <| .update
      (fun shared =>
        { shared with
          nodes := (Network.joinCluster server.environment shared.nodes
            request now).1 })
      fun _ => .release .nodes .done

/-- The guard is taken before the body is decoded. -/
def updateMembership (token : Option HeaderValue)
    (body : Option MembershipListing) : ServerRoutine :=
  if presentsToken server.environment.clusterSecret token then
    .acquire .nodes .write <| .update
      (fun shared =>
        { shared with
          nodes := (Network.updateMembership server.environment shared.nodes
            token body).1 })
      fun _ => .release .nodes .done
  else
    .done

def getMembership : ServerRoutine :=
  .acquire .nodes .read <| .release .nodes .done

def gossipMembership (next : ServerRoutine) : ServerRoutine :=
  .acquire .nodes .read <| .release .nodes next

/-- One probe of `check_node_health`; after a failed direct heartbeat it reads
the membership again for helpers. -/
def probe (target : String) (direct success : Bool)
    (timeoutThreshold now : Nat) (next : ServerRoutine) : ServerRoutine :=
  let write : ServerRoutine :=
    .acquire .nodes .write <| .update
      (fun shared =>
        { shared with
          nodes := recordProbe shared.nodes target success timeoutThreshold
            now })
      fun _ => .release .nodes next
  .pause <|
    if direct then write
    else .acquire .nodes .read <| .release .nodes <| .pause write

end Server

/-- The outcome of one probe: whether the node answered itself, whether it
counts as alive. -/
structure ProbeOutcome where
  target : String
  direct : Bool
  success : Bool
  timeoutThreshold : Nat
  now : Nat
  deriving DecidableEq

namespace Server

variable (server : Server)

/-- One round of `membership_sync`. -/
def membershipSync (probes : List ProbeOutcome) : ServerRoutine :=
  .pause <| .acquire .nodes .read <| .release .nodes <|
    probes.foldr
      (fun outcome next => probe outcome.target outcome.direct
        outcome.success outcome.timeoutThreshold outcome.now next)
      (.acquire .nodes .read <| .release .nodes <| gossipMembership .done)

/-- One round of `cold_save`. -/
def saveToCold (tables : List String) : ServerRoutine :=
  .pause <| server.iterateTables tables (fun _ next => next) <|
    tables.foldr
      (fun table next => server.withTable table (server.iterateRecords table)
        (.pause next))
      .done

/-- One tick of `start_snapshot_task`: serializing walks all tables and their
records. -/
def startSnapshotTask (tables : List String) : ServerRoutine :=
  .pause <| server.iterateTables tables server.iterateRecords (.pause .done)

end Server

/-- What a worker is given to do. -/
inductive ServerRequest where
  | handle (header : Option HeaderValue) (request : Request) (now : Nat)
      (iteration : Iteration)
  | subscribeToKey (table key : String)
  | getStats (iteration : Iteration)
  | joinCluster (request : JoinRequest) (now : Nat)
  /-- The gossip that a join starts after a sleep. -/
  | gossipAfterJoin
  | updateMembership (token : Option HeaderValue)
      (body : Option MembershipListing)
  | getMembership
  | heartbeat
  | indirectPing
  | membershipSync (probes : List ProbeOutcome)
  | saveToCold (iteration : Iteration)
  | startSnapshotTask (iteration : Iteration)

/-- The routine of every request. -/
def Server.program (server : Server) : ServerRequest → ServerRoutine
  | .handle header request now iteration =>
      match request with
      | .getValue authorization table key =>
          server.getValue header authorization table key iteration.active
      | .putValue authorization table key body =>
          server.putValue authorization table key body now
      | .patchValue authorization table key body =>
          server.patchValue authorization table key body now
      | .deleteValue authorization table key =>
          server.deleteValue header authorization table key
      | .putValueInternal table key incoming =>
          server.putValueInternal header table key incoming
      | .getTableStore table => server.getTableStore table
      | .getAllKeys table => server.getAllKeys table
      | .getMultipleKeys table keys => server.getMultipleKeys table keys
      | .getGlobalStore apiKey =>
          server.getGlobalStore apiKey iteration.tables
      | .access user userHeader body =>
          server.access header user userHeader body now
      | .adminLogin _ => .done
      | .adminGetTables authorization =>
          server.adminGetTables authorization iteration.tables
      | .adminGetKeys authorization table =>
          server.adminGetKeys authorization table
      | .adminGetRecord authorization table key =>
          server.adminGetRecord authorization table key
      | .adminPutRecord authorization table key body =>
          server.adminPutRecord authorization table key body now
      | .adminDeleteRecord authorization table key =>
          server.adminDeleteRecord authorization table key
  | .subscribeToKey table key => Server.subscribeToKey table key
  | .getStats iteration => server.getStats iteration.tables
  | .joinCluster request now => server.joinCluster request now
  | .gossipAfterJoin => .pause (Server.gossipMembership .done)
  | .updateMembership token body => server.updateMembership token body
  | .getMembership => Server.getMembership
  | .heartbeat => .done
  | .indirectPing => .pause .done
  | .membershipSync probes => Server.membershipSync probes
  | .saveToCold iteration => server.saveToCold iteration.tables
  | .startSnapshotTask iteration => server.startSnapshotTask iteration.tables

/-! ## Guards are dropped before the awaits -/

namespace Server

section Discipline

variable {server : Server} {fits : List (StoreLock × Mode) → Prop}
variable {held : List (StoreLock × Mode)}

theorem acquiresWith_readRecord {table key : String}
    {next : Option VersionedValue → ServerRoutine}
    (later : ∀ record, (next record).AcquiresWith fits held) :
    (server.readRecord table key next).AcquiresWith fits held := by
  intro shared
  dsimp only
  split
  · simpa [Routine.AcquiresWith] using later _
  · simpa [Routine.AcquiresWith] using later none

theorem acquiresWith_removeRecord {table key : String}
    {outcome : Store → Outcome} {next : Outcome → ServerRoutine}
    (later : ∀ result, (next result).AcquiresWith fits held) :
    (server.removeRecord table key outcome next).AcquiresWith fits held := by
  intro shared
  dsimp only
  split
  · intro shared
    simpa [Routine.AcquiresWith] using later _
  · simpa [Routine.AcquiresWith] using later _

theorem acquiresWith_writeRecord {table key : String}
    {outcome : Store → Outcome} {next : Outcome → ServerRoutine}
    (later : ∀ result, (next result).AcquiresWith fits
      ((server.tableLock table, .write) :: held)) :
    (server.writeRecord table key outcome next).AcquiresWith fits held := by
  intro shared
  simpa [Routine.AcquiresWith] using later _

theorem acquiresWith_iterateFrom {lockOf : Nat → StoreLock}
    {visit : Nat → ServerRoutine → ServerRoutine}
    (visits : ∀ shard (next : ServerRoutine) (held : List (StoreLock × Mode)),
      next.AcquiresWith fits held →
        (visit shard next).AcquiresWith fits held)
    {current : Nat} {shards : List Nat} {next : ServerRoutine}
    (later : next.AcquiresWith fits held) :
    (iterateFrom lockOf visit current shards next).AcquiresWith fits
      ((lockOf current, .read) :: held) := by
  induction shards generalizing current with
  | nil =>
      simpa [iterateFrom, Routine.AcquiresWith] using later
  | cons shard rest inductionHypothesis =>
      -- the two shards are both read, so it does not matter which is dropped
      have dropped : dropGuard (lockOf current)
          ((lockOf shard, Mode.read) :: (lockOf current, Mode.read) :: held) =
          (lockOf shard, Mode.read) :: held := by
        by_cases same : lockOf shard = lockOf current
        · rw [same, dropGuard_cons_self]
        · simp [dropGuard, same]
      rw [iterateFrom, Routine.AcquiresWith, Routine.AcquiresWith, dropped]
      exact visits shard _ _ inductionHypothesis

theorem acquiresWith_iterate {lockOf : Nat → StoreLock}
    {visit : Nat → ServerRoutine → ServerRoutine}
    (visits : ∀ shard (next : ServerRoutine) (held : List (StoreLock × Mode)),
      next.AcquiresWith fits held →
        (visit shard next).AcquiresWith fits held)
    {shards : List Nat} {next : ServerRoutine}
    (later : next.AcquiresWith fits held) :
    (iterate lockOf visit shards next).AcquiresWith fits held := by
  cases shards with
  | nil =>
      exact later
  | cons shard rest =>
      exact visits shard _ _ (acquiresWith_iterateFrom visits later)

/-- A loop keeps what every one of its rounds keeps. -/
theorem acquiresWith_foldr {α : Type}
    {visit : α → ServerRoutine → ServerRoutine} {items : List α}
    (visits : ∀ item (next : ServerRoutine),
      next.AcquiresWith fits held → (visit item next).AcquiresWith fits held)
    {next : ServerRoutine} (later : next.AcquiresWith fits held) :
    (items.foldr visit next).AcquiresWith fits held := by
  induction items with
  | nil =>
      exact later
  | cons item rest inductionHypothesis =>
      exact visits item _ inductionHypothesis

theorem acquiresWith_iterateRecords {table : String} {next : ServerRoutine}
    (later : next.AcquiresWith fits held) :
    (server.iterateRecords table next).AcquiresWith fits held :=
  acquiresWith_iterate (fun _ _ _ kept => kept) later

theorem acquiresWith_iterateTables {tables : List String}
    {visit : String → ServerRoutine → ServerRoutine}
    (visits : ∀ table (next : ServerRoutine)
      (held : List (StoreLock × Mode)), next.AcquiresWith fits held →
        (visit table next).AcquiresWith fits held)
    {next : ServerRoutine} (later : next.AcquiresWith fits held) :
    (server.iterateTables tables visit next).AcquiresWith fits held := by
  apply acquiresWith_iterate _ later
  intro shard next held kept
  exact acquiresWith_foldr (fun table next => visits table next held) kept

theorem acquiresWith_countRecords (table : String) {next : ServerRoutine}
    (later : next.AcquiresWith fits held) :
    (server.countRecords table next).AcquiresWith fits held := by
  apply acquiresWith_foldr _ later
  intro shard next kept
  simpa [Routine.AcquiresWith] using kept

theorem acquiresWith_withTable {table : String}
    {visit : ServerRoutine → ServerRoutine} {next : ServerRoutine}
    (visits : ∀ (next : ServerRoutine) (held : List (StoreLock × Mode)),
      next.AcquiresWith fits held → (visit next).AcquiresWith fits held)
    (later : next.AcquiresWith fits held) :
    (server.withTable table visit next).AcquiresWith fits held := by
  have dropped : (Routine.unlock (server.tableLock table) next).AcquiresWith
      fits ((server.tableLock table, .read) :: held) := by
    simpa [Routine.AcquiresWith] using later
  intro shared
  dsimp only
  split
  · exact visits _ _ dropped
  · exact dropped

theorem acquiresWith_notify {notification : Notification}
    {next : ServerRoutine} (fit : fits held)
    (later : next.AcquiresWith fits held) :
    (notify notification next).AcquiresWith fits held := by
  refine ⟨fit, ?_⟩
  intro shared
  dsimp only [Routine.AcquiresWith]
  split
  · exact ⟨fit, fun _ => later⟩
  · exact later

theorem acquiresWith_replicate (fit : fits []) :
    replicate.AcquiresWith fits [] :=
  ⟨fit, rfl, trivial⟩

theorem acquiresWith_respond (fit : fits []) (outcome : Outcome) :
    (respond outcome).AcquiresWith fits [] := by
  unfold respond
  split
  · apply acquiresWith_notify fit
    split
    · exact acquiresWith_replicate fit
    · trivial
  · trivial

theorem acquiresWith_respondWithin {table : String}
    (fit : fits ((server.tableLock table, .write) :: held))
    (outcome : Outcome) :
    (server.respondWithin table outcome).AcquiresWith fits
      ((server.tableLock table, .write) :: held) := by
  unfold respondWithin
  split
  · exact acquiresWith_notify fit trivial
  · trivial

/-- A write whose guard is dropped before the response. -/
theorem acquiresWith_writeThenRespond {table key : String}
    {outcome : Store → Outcome} (fit : fits []) :
    (server.writeRecord table key outcome fun outcome =>
      .unlock (server.tableLock table) (respond outcome)).AcquiresWith
        fits [] := by
  apply acquiresWith_writeRecord
  intro result
  rw [Routine.AcquiresWith, dropGuard_cons_self]
  exact acquiresWith_respond fit result

end Discipline

end Server

end DynaRust.Network
