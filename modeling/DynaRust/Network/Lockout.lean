import DynaRust.Network.Locking

/-!
# Workers that lock themselves out

Internal PUTs and replicated registrations notify the subscribers while they
have the guard of their table.  All other handlers drop their guards before
they wait.
-/

namespace DynaRust.Network

open DynaRust.Foundation DynaRust.Security DynaRust.Storage

namespace Server

/-- The requests whose handlers notify with a guard: accepted internal PUTs
and replicated registrations. -/
def notifiesWithGuard (server : Server) : ServerRequest → Bool
  | .handle header (.putValueInternal _ _ _) _ _ =>
      providedSecret header = server.environment.clusterSecret
  | .handle header (.access _ _ (.bincode _)) _ _ =>
      headerPresents server.environment.clusterSecret header
  | _ => false

variable {server : Server} {fits : List (StoreLock × Mode) → Prop}

theorem acquiresWith_getValue (fit : fits []) (header : Option HeaderValue)
    (authorization : Authorization) (table key : String)
    (active : List String) :
    (server.getValue header authorization table key active).AcquiresWith
      fits [] := by
  unfold getValue
  split
  · exact acquiresWith_readRecord fun _ => trivial
  · split
    · trivial
    · refine ⟨fit, ?_⟩
      rw [Routine.AcquiresWith]
      split
      · exact acquiresWith_readRecord fun _ => ⟨rfl, trivial⟩
      · exact ⟨rfl, trivial⟩

theorem acquiresWith_putValue (fit : fits []) (authorization : Authorization)
    (table key : String) (body : HashMap String Value) (now : Nat) :
    (server.putValue authorization table key body now).AcquiresWith
      fits [] := by
  unfold putValue
  split
  · trivial
  · exact acquiresWith_writeThenRespond fit

theorem acquiresWith_patchValue (fit : fits [])
    (authorization : Authorization) (table key : String)
    (body : HashMap String Value) (now : Nat) :
    (server.patchValue authorization table key body now).AcquiresWith
      fits [] := by
  unfold patchValue
  split
  · trivial
  · exact acquiresWith_writeThenRespond fit

theorem acquiresWith_putValueInternal (header : Option HeaderValue)
    (table key : String) (incoming : VersionedValue)
    (fit : providedSecret header = server.environment.clusterSecret →
      fits [(server.tableLock table, .write)]) :
    (server.putValueInternal header table key incoming).AcquiresWith
      fits [] := by
  unfold putValueInternal
  split
  · trivial
  · rename_i accepted
    exact acquiresWith_writeRecord fun outcome =>
      acquiresWith_respondWithin (fit (not_not.mp accepted)) outcome

theorem acquiresWith_deleteValue (fit : fits [])
    (header : Option HeaderValue) (authorization : Authorization)
    (table key : String) :
    (server.deleteValue header authorization table key).AcquiresWith
      fits [] := by
  unfold deleteValue
  split
  · exact acquiresWith_removeRecord (acquiresWith_respond fit)
  · split
    · trivial
    · apply acquiresWith_readRecord
      intro record
      split
      · exact acquiresWith_removeRecord (acquiresWith_respond fit)
      · trivial

theorem acquiresWith_getTableStore (table : String) :
    (server.getTableStore table).AcquiresWith fits [] := by
  apply acquiresWith_withTable
  · intro next held later
    exact acquiresWith_iterateRecords later
  · trivial

theorem acquiresWith_getMultipleKeys (table : String) (keys : List String) :
    (server.getMultipleKeys table keys).AcquiresWith fits [] := by
  apply acquiresWith_withTable
  · intro next held later
    apply acquiresWith_foldr _ later
    intro key next kept
    simpa [Routine.AcquiresWith] using kept
  · trivial

theorem acquiresWith_getGlobalStore (apiKey : Option HeaderValue)
    (tables : List String) :
    (server.getGlobalStore apiKey tables).AcquiresWith fits [] := by
  unfold getGlobalStore
  split
  · exact acquiresWith_iterateTables
      (fun _ _ _ => acquiresWith_iterateRecords) trivial
  · trivial

theorem acquiresWith_access (header : Option HeaderValue) (username : String)
    (userHeader : Option HeaderValue) (body : AccessBody) (now : Nat)
    (fit : headerPresents server.environment.clusterSecret header = false →
      fits [])
    (fitWithin : headerPresents server.environment.clusterSecret header =
      true → (∃ hashed, body = .bincode hashed) →
        fits [(server.tableLock "auth", .write)]) :
    (server.access header username userHeader body now).AcquiresWith
      fits [] := by
  unfold access
  dsimp only
  split
  · rename_i internal
    split
    · rename_i hashed
      exact acquiresWith_writeRecord fun outcome =>
        acquiresWith_respondWithin (fitWithin internal ⟨hashed, rfl⟩) outcome
    · trivial
  · rename_i external
    split
    · exact acquiresWith_writeThenRespond
        (fit (Bool.eq_false_iff.mpr external))
    · trivial

/-- The admin handlers do nothing for a request without an admin token. -/
theorem acquiresWith_ofAdmin {authorization : Authorization}
    {routine : ServerRoutine} (later : routine.AcquiresWith fits []) :
    (if validateAdminToken authorization then routine
      else Routine.done).AcquiresWith fits [] := by
  split
  · exact later
  · trivial

theorem acquiresWith_getStats (fit : fits []) (tables : List String) :
    (server.getStats tables).AcquiresWith fits [] :=
  acquiresWith_iterateTables (fun table _ _ => acquiresWith_countRecords table)
    ⟨fit, fit, trivial⟩

theorem acquiresWith_joinCluster (fit : fits []) (request : JoinRequest)
    (now : Nat) :
    (server.joinCluster request now).AcquiresWith fits [] := by
  unfold joinCluster
  split
  · trivial
  · exact ⟨fit, fun _ => trivial⟩

theorem acquiresWith_updateMembership (fit : fits [])
    (token : Option HeaderValue) (body : Option MembershipListing) :
    (server.updateMembership token body).AcquiresWith fits [] := by
  unfold updateMembership
  split
  · exact ⟨fit, fun _ => trivial⟩
  · trivial

theorem acquiresWith_membershipSync (fit : fits [])
    (probes : List ProbeOutcome) :
    (membershipSync probes).AcquiresWith fits [] := by
  refine ⟨rfl, fit, ?_⟩
  apply acquiresWith_foldr
  · intro outcome next later
    refine ⟨rfl, ?_⟩
    split
    · exact ⟨fit, fun _ => later⟩
    · exact ⟨fit, rfl, fit, fun _ => later⟩
  · exact ⟨fit, fit, trivial⟩

theorem acquiresWith_saveToCold (tables : List String) :
    (server.saveToCold tables).AcquiresWith fits [] := by
  refine ⟨rfl, ?_⟩
  apply acquiresWith_iterateTables (fun _ _ _ kept => kept)
  apply acquiresWith_foldr
  · intro table next later
    apply acquiresWith_withTable
    · intro next held kept
      exact acquiresWith_iterateRecords kept
    · exact ⟨rfl, later⟩
  · trivial

theorem acquiresWith_startSnapshotTask (tables : List String) :
    (server.startSnapshotTask tables).AcquiresWith fits [] :=
  ⟨rfl, acquiresWith_iterateTables
    (fun _ _ _ => acquiresWith_iterateRecords) ⟨rfl, trivial⟩⟩

/-- Only accepted internal PUTs and replicated registrations wait with a
guard. -/
theorem disciplined (server : Server) :
    Disciplined server.program server.notifiesWithGuard := by
  intro request
  have free : server.notifiesWithGuard request = false →
      waitsWith server.notifiesWithGuard request
        ([] : List (StoreLock × Mode)) :=
    fun quiet => ⟨fun _ => quiet, fun _ => rfl⟩
  have within : ∀ guard : StoreLock × Mode,
      server.notifiesWithGuard request = true →
        waitsWith server.notifiesWithGuard request [guard] := by
    intro guard notifies
    simp [waitsWith, notifies]
  cases request with
  | handle header request now iteration =>
      cases request with
      | getValue authorization table key =>
          exact acquiresWith_getValue (free rfl) header authorization table
            key iteration.active
      | putValue authorization table key body =>
          exact acquiresWith_putValue (free rfl) authorization table key body
            now
      | patchValue authorization table key body =>
          exact acquiresWith_patchValue (free rfl) authorization table key
            body now
      | deleteValue authorization table key =>
          exact acquiresWith_deleteValue (free rfl) header authorization
            table key
      | putValueInternal table key incoming =>
          apply acquiresWith_putValueInternal
          intro accepted
          exact within _ (decide_eq_true accepted)
      | getTableStore table =>
          exact acquiresWith_getTableStore table
      | getAllKeys table =>
          exact acquiresWith_getTableStore table
      | getMultipleKeys table keys =>
          exact acquiresWith_getMultipleKeys table keys
      | getGlobalStore apiKey =>
          exact acquiresWith_getGlobalStore apiKey iteration.tables
      | access user userHeader body =>
          apply acquiresWith_access
          · intro external
            apply free
            cases body with
            | bincode hashed =>
                exact external
            | json secret =>
                rfl
            | malformed =>
                rfl
          · rintro internal ⟨hashed, rfl⟩
            exact within _ internal
      | adminLogin password =>
          trivial
      | adminGetTables authorization =>
          exact acquiresWith_ofAdmin
            (acquiresWith_iterateTables (fun _ _ _ kept => kept) trivial)
      | adminGetKeys authorization table =>
          exact acquiresWith_ofAdmin (acquiresWith_getTableStore table)
      | adminGetRecord authorization table key =>
          exact acquiresWith_ofAdmin
            (acquiresWith_readRecord fun _ => trivial)
      | adminPutRecord authorization table key body =>
          exact acquiresWith_ofAdmin
            (acquiresWith_writeThenRespond (free rfl))
      | adminDeleteRecord authorization table key =>
          exact acquiresWith_ofAdmin
            (acquiresWith_removeRecord (acquiresWith_respond (free rfl)))
  | subscribeToKey table key =>
      exact ⟨free rfl, fun _ => ⟨rfl, trivial⟩⟩
  | getStats iteration =>
      exact acquiresWith_getStats (free rfl) iteration.tables
  | joinCluster request now =>
      exact acquiresWith_joinCluster (free rfl) request now
  | gossipAfterJoin =>
      exact ⟨rfl, free rfl, trivial⟩
  | updateMembership token body =>
      exact acquiresWith_updateMembership (free rfl) token body
  | getMembership =>
      exact ⟨free rfl, trivial⟩
  | heartbeat =>
      trivial
  | indirectPing =>
      exact ⟨rfl, trivial⟩
  | membershipSync probes =>
      exact acquiresWith_membershipSync (free rfl) probes
  | saveToCold iteration =>
      exact acquiresWith_saveToCold iteration.tables
  | startSnapshotTask iteration =>
      exact acquiresWith_startSnapshotTask iteration.tables

/-- One step of the workers of a node. -/
abbrev step (server : Server) :=
  Pool.step server.program

/-- No worker is locked out by its own jobs, if and only if the channel table
is granted at once to every accepted internal PUT and every replicated
registration that asks for it. -/
theorem locksNobodyOut_iff_unhindered (server : Server) {shared : Shared}
    {events : List (Schedule ServerRequest)}
    {final : Pool Shared StoreLock AsyncLock ServerRequest}
    (reached : runSteps server.step (Pool.idle shared) events = some final) :
    Throughout server.step Pool.LocksNobodyOut (Pool.idle shared) events ↔
      StepsMeet server.step
        (fun pool event =>
          pool.unhindered server.notifiesWithGuard event = true)
        (Pool.idle shared) events :=
  Pool.throughout_locksNobodyOut_iff server.disciplined reached

/-! ## A node that hangs -/

/-- A node whose maps have one shard each. -/
def sampleServer : Server where
  environment := bareEnvironment
  currentAddr := "A"
  shardAmount := 1
  tableShard := fun _ => 0
  keyShard := fun _ _ => 0

def emptyShared : Shared where
  store := ∅
  manager := .new
  nodes := initialNodes "A" 0

/-- A version of a note, replicated by another node. -/
def replicatedNote : ServerRequest :=
  .handle (some (.text "default_secret"))
    (.putValueInternal "notes" "n"
      (VersionedValue.new ∅ "alice" "B" 1)) 0 ⟨[], []⟩

/-- Somebody who wants to see the table. -/
def notesRequest : ServerRequest :=
  .handle none (.getTableStore "notes") 0 ⟨[], []⟩

/-- A subscription and the replicated note, one after the other. -/
def undisturbed : List (Schedule ServerRequest) :=
  [.arrive 1 (.subscribeToKey "notes" "n"), .resume 0, .run 0, .run 0, .run 0,
    .arrive 0 replicatedNote, .resume 1, .run 1, .run 1, .run 1, .run 1,
    .run 1, .run 1, .run 1, .run 1, .run 1]

/-- The note comes while the other worker holds the channel table for a
subscription; then the table is read at the worker of the note. -/
def crossing : List (Schedule ServerRequest) :=
  [.arrive 0 replicatedNote, .arrive 1 (.subscribeToKey "notes" "n"),
    .resume 1, .run 1,
    .resume 0, .run 0, .run 0, .run 0, .run 0, .run 0,
    .arrive 0 notesRequest, .resume 2,
    .run 1, .run 1, .run 1]

def hung : Pool Shared StoreLock AsyncLock ServerRequest :=
  runResult sampleServer.step (Pool.idle emptyShared) crossing (by decide)

theorem undisturbed_locksNobodyOut :
    Throughout sampleServer.step Pool.LocksNobodyOut (Pool.idle emptyShared)
      undisturbed :=
  (locksNobodyOut_iff_unhindered sampleServer
    (runSteps_eq_some_runResult sampleServer.step _ undisturbed
      (by decide))).mpr (by decide)

/-- The worker is blocked by the internal PUT that it suspended, and neither
of its two jobs can go on although nobody else holds a lock. -/
theorem crossing_hangs :
    runSteps sampleServer.step (Pool.idle emptyShared) crossing =
        some hung ∧
      hung.jobs.map (fun job => (job.worker, job.guards, job.permits)) =
        [(0, [(.table 0, .write)], []), (1, [], []), (0, [], [])] ∧
      hung.jobs.map Job.status =
        [.waiting .channels .read 0, .ready, .running] ∧
      (∃ put ∈ hung.jobs, ∃ read ∈ hung.jobs,
        put.status ≠ .running ∧ put.worker = read.worker ∧
          read.isBlockedBy put = true) ∧
      (sampleServer.step hung (.run 2)).isNone = true ∧
      (sampleServer.step hung (.resume 0)).isNone = true ∧
      ¬ hung.LocksNobodyOut := by
  have suspended : ∃ put ∈ hung.jobs, ∃ read ∈ hung.jobs,
      put.status ≠ .running ∧ put.worker = read.worker ∧
        read.isBlockedBy put = true := by
    decide
  refine ⟨runSteps_eq_some_runResult _ _ _ _, by decide, by decide,
    suspended, by decide, by decide, ?_⟩
  intro free
  obtain ⟨put, putMember, read, readMember, waits, same, blocked⟩ := suspended
  rw [free.notByOwn read readMember put putMember waits same] at blocked
  cases blocked

end Server

end DynaRust.Network
