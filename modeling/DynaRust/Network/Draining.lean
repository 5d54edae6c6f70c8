import DynaRust.Foundation.Draining
import DynaRust.Network.Lockout
import Mathlib.Data.Prod.Lex

/-!
# A node serves all its requests

All handlers and background tasks take the shards of the store in one order,
tables before records and low shards before high ones, and the channel table
before the membership.  So they never wait for each other in a circle.
-/

namespace DynaRust.Network

open DynaRust.Foundation DynaRust.Security DynaRust.Storage

/-- Shards of the map of tables come before those of any table. -/
def StoreLock.rank : StoreLock → Nat ×ₗ Nat
  | .table shard => toLex (0, shard)
  | .record _ shard => toLex (1, shard)

def AsyncLock.rank : AsyncLock → Nat
  | .channels => 0
  | .nodes => 1

theorem StoreLock.rank_table_lt_record (shard : Nat) (table : String)
    (keyShard : Nat) :
    (StoreLock.table shard).rank < (StoreLock.record table keyShard).rank :=
  Prod.Lex.toLex_lt_toLex.mpr (Or.inl Nat.zero_lt_one)

theorem StoreLock.rank_table_lt {shard later : Nat} (order : shard < later) :
    (StoreLock.table shard).rank < (StoreLock.table later).rank :=
  Prod.Lex.toLex_lt_toLex.mpr (Or.inr ⟨rfl, order⟩)

theorem StoreLock.rank_record_lt (table : String) {shard later : Nat}
    (order : shard < later) :
    (StoreLock.record table shard).rank <
      (StoreLock.record table later).rank :=
  Prod.Lex.toLex_lt_toLex.mpr (Or.inr ⟨rfl, order⟩)

/-- The order of locks that all routines of a node follow. -/
abbrev InOrder (routine : ServerRoutine) (held : List (StoreLock × Mode))
    (permits : List (AsyncLock × Mode)) : Prop :=
  routine.Ascends StoreLock.rank AsyncLock.rank held permits

/-- Guards of tables only, as they are held around the records of one. -/
def OnlyTables (held : List (StoreLock × Mode)) : Prop :=
  ∀ guard ∈ held, ∃ shard, guard.1 = .table shard

theorem OnlyTables.below {held : List (StoreLock × Mode)}
    (tables : OnlyTables held) (table : String) (keyShard : Nat) :
    ∀ guard ∈ held, guard.1.rank < (StoreLock.record table keyShard).rank := by
  intro guard member
  obtain ⟨shard, isTable⟩ := tables guard member
  rw [isTable]
  exact StoreLock.rank_table_lt_record shard table keyShard

theorem onlyTables_singleton (shard : Nat) (mode : Mode) :
    OnlyTables [(.table shard, mode)] := by
  intro guard member
  rw [List.mem_singleton.mp member]
  exact ⟨shard, rfl⟩

namespace Server

variable {server : Server}

/-! ## Guards of the store -/

theorem inOrder_readRecord {table key : String}
    {next : Option VersionedValue → ServerRoutine}
    (later : ∀ record, InOrder (next record) [] []) :
    InOrder (server.readRecord table key next) [] [] := by
  refine ⟨nofun, fun shared => ?_⟩
  dsimp only
  split
  · refine ⟨(onlyTables_singleton _ _).below _ _, ?_⟩
    simpa [Routine.Ascends] using later _
  · simpa [Routine.Ascends] using later none

theorem inOrder_removeRecord {table key : String}
    {outcome : Store → Outcome} {next : Outcome → ServerRoutine}
    (later : ∀ result, InOrder (next result) [] []) :
    InOrder (server.removeRecord table key outcome next) [] [] := by
  refine ⟨nofun, fun shared => ?_⟩
  dsimp only
  split
  · refine ⟨(onlyTables_singleton _ _).below _ _, fun shared => ?_⟩
    simpa [Routine.Ascends] using later _
  · simpa [Routine.Ascends] using later _

theorem inOrder_writeRecord {table key : String}
    {outcome : Store → Outcome} {next : Outcome → ServerRoutine}
    (later : ∀ result,
      InOrder (next result) [(server.tableLock table, .write)] []) :
    InOrder (server.writeRecord table key outcome next) [] [] := by
  refine ⟨nofun, (onlyTables_singleton _ _).below _ _, fun shared => ?_⟩
  simpa [Routine.Ascends] using later _

theorem inOrder_iterateFrom {lockOf : Nat → StoreLock}
    {visit : Nat → ServerRoutine → ServerRoutine}
    {held : List (StoreLock × Mode)} {permits : List (AsyncLock × Mode)}
    (visits : ∀ shard next,
      InOrder next ((lockOf shard, .read) :: held) permits →
        InOrder (visit shard next) ((lockOf shard, .read) :: held) permits)
    (above : ∀ shard, ∀ guard ∈ held, guard.1.rank < (lockOf shard).rank)
    (ascending : ∀ {shard later : Nat}, shard < later →
      (lockOf shard).rank < (lockOf later).rank)
    {current : Nat} {shards : List Nat} {next : ServerRoutine}
    (sorted : (current :: shards).Pairwise (· < ·))
    (later : InOrder next held permits) :
    InOrder (iterateFrom lockOf visit current shards next)
      ((lockOf current, .read) :: held) permits := by
  induction shards generalizing current with
  | nil =>
      simpa [iterateFrom, Routine.Ascends] using later
  | cons shard rest inductionHypothesis =>
      have order : current < shard :=
        List.rel_of_pairwise_cons sorted List.mem_cons_self
      have different : lockOf shard ≠ lockOf current := by
        intro same
        have less := ascending order
        rw [same] at less
        exact lt_irrefl _ less
      have dropped : dropGuard (lockOf current)
          ((lockOf shard, Mode.read) :: (lockOf current, Mode.read) :: held) =
          (lockOf shard, Mode.read) :: held := by
        simp [dropGuard, different]
      refine ⟨?_, ?_⟩
      · intro guard member
        rcases List.mem_cons.mp member with rfl | old
        · exact ascending order
        · exact above shard guard old
      · rw [Routine.Ascends, dropped]
        exact visits shard _
          (inductionHypothesis (List.Pairwise.of_cons sorted))

theorem inOrder_iterate {lockOf : Nat → StoreLock}
    {visit : Nat → ServerRoutine → ServerRoutine}
    {held : List (StoreLock × Mode)} {permits : List (AsyncLock × Mode)}
    (visits : ∀ shard next,
      InOrder next ((lockOf shard, .read) :: held) permits →
        InOrder (visit shard next) ((lockOf shard, .read) :: held) permits)
    (above : ∀ shard, ∀ guard ∈ held, guard.1.rank < (lockOf shard).rank)
    (ascending : ∀ {shard later : Nat}, shard < later →
      (lockOf shard).rank < (lockOf later).rank)
    {shards : List Nat} {next : ServerRoutine}
    (sorted : shards.Pairwise (· < ·)) (later : InOrder next held permits) :
    InOrder (iterate lockOf visit shards next) held permits := by
  cases shards with
  | nil =>
      exact later
  | cons shard rest =>
      exact ⟨above shard, visits shard _
        (inOrder_iterateFrom visits above ascending sorted later)⟩

/-- A loop keeps what every one of its rounds keeps. -/
theorem inOrder_foldr {α : Type} {visit : α → ServerRoutine → ServerRoutine}
    {items : List α} {held : List (StoreLock × Mode)}
    {permits : List (AsyncLock × Mode)}
    (visits : ∀ item next, InOrder next held permits →
      InOrder (visit item next) held permits)
    {next : ServerRoutine} (later : InOrder next held permits) :
    InOrder (items.foldr visit next) held permits := by
  induction items with
  | nil =>
      exact later
  | cons item rest inductionHypothesis =>
      exact visits item _ inductionHypothesis

theorem inOrder_iterateRecords {table : String} {next : ServerRoutine}
    {held : List (StoreLock × Mode)} (tables : OnlyTables held)
    (later : InOrder next held []) :
    InOrder (server.iterateRecords table next) held [] :=
  inOrder_iterate (fun _ _ kept => kept) (tables.below table)
    (StoreLock.rank_record_lt table) List.pairwise_lt_range later

theorem inOrder_iterateTables {tables : List String}
    {visit : String → ServerRoutine → ServerRoutine}
    (visits : ∀ table next held, OnlyTables held → InOrder next held [] →
      InOrder (visit table next) held [])
    {next : ServerRoutine} (later : InOrder next [] []) :
    InOrder (server.iterateTables tables visit next) [] [] := by
  refine inOrder_iterate ?_ ?_ StoreLock.rank_table_lt
    List.pairwise_lt_range later
  · intro shard next kept
    exact inOrder_foldr (fun table next =>
      visits table next _ (onlyTables_singleton shard .read)) kept
  · intro shard guard member
    cases member

theorem inOrder_countRecords (table : String) {next : ServerRoutine}
    {held : List (StoreLock × Mode)} (tables : OnlyTables held)
    (later : InOrder next held []) :
    InOrder (server.countRecords table next) held [] := by
  apply inOrder_foldr _ later
  intro shard next kept
  refine ⟨tables.below table shard, ?_⟩
  simpa [Routine.Ascends] using kept

theorem inOrder_withTable {table : String}
    {visit : ServerRoutine → ServerRoutine} {next : ServerRoutine}
    (visits : ∀ next held, OnlyTables held → InOrder next held [] →
      InOrder (visit next) held [])
    (later : InOrder next [] []) :
    InOrder (server.withTable table visit next) [] [] := by
  refine ⟨nofun, fun shared => ?_⟩
  have dropped : InOrder (.unlock (server.tableLock table) next)
      [(server.tableLock table, .read)] [] := by
    simpa [Routine.Ascends] using later
  dsimp only
  split
  · exact visits _ _ (onlyTables_singleton _ _) dropped
  · exact dropped

/-! ## Subscribers and the membership -/

theorem inOrder_acquire {name : AsyncLock} {mode : Mode}
    {held : List (StoreLock × Mode)} {next : ServerRoutine}
    (later : InOrder next held [(name, mode)]) :
    InOrder (.acquire name mode next) held [] :=
  ⟨nofun, later⟩

theorem inOrder_release {name : AsyncLock} {mode : Mode}
    {held : List (StoreLock × Mode)} {permits : List (AsyncLock × Mode)}
    {next : ServerRoutine} (later : InOrder next held permits) :
    InOrder (.release name next) held ((name, mode) :: permits) := by
  simpa [Routine.Ascends] using later

theorem inOrder_notify {notification : Notification}
    {held : List (StoreLock × Mode)} {next : ServerRoutine}
    (later : InOrder next held []) :
    InOrder (notify notification next) held [] := by
  apply inOrder_acquire
  intro shared
  apply inOrder_release
  split
  · exact inOrder_acquire fun _ => inOrder_release later
  · exact later

theorem inOrder_replicate : InOrder replicate [] [] :=
  inOrder_acquire (inOrder_release trivial)

theorem inOrder_respond (outcome : Outcome) :
    InOrder (respond outcome) [] [] := by
  unfold respond
  split
  · apply inOrder_notify
    split
    · exact inOrder_replicate
    · trivial
  · trivial

theorem inOrder_respondWithin (table : String) (outcome : Outcome)
    (held : List (StoreLock × Mode)) :
    InOrder (server.respondWithin table outcome) held [] := by
  unfold respondWithin
  split
  · exact inOrder_notify trivial
  · trivial

/-- A write whose guard is dropped before the response. -/
theorem inOrder_writeThenRespond {table key : String}
    {outcome : Store → Outcome} :
    InOrder (server.writeRecord table key outcome fun outcome =>
      .unlock (server.tableLock table) (respond outcome)) [] [] := by
  apply inOrder_writeRecord
  intro result
  simpa [Routine.Ascends] using inOrder_respond result

/-! ## The handlers -/

theorem inOrder_getValue (header : Option HeaderValue)
    (authorization : Authorization) (table key : String)
    (active : List String) :
    InOrder (server.getValue header authorization table key active) [] [] := by
  unfold getValue
  split
  · exact inOrder_readRecord fun _ => trivial
  · split
    · trivial
    · apply inOrder_acquire
      apply inOrder_release
      split
      · exact inOrder_readRecord fun _ => trivial
      · trivial

theorem inOrder_deleteValue (header : Option HeaderValue)
    (authorization : Authorization) (table key : String) :
    InOrder (server.deleteValue header authorization table key) [] [] := by
  unfold deleteValue
  split
  · exact inOrder_removeRecord inOrder_respond
  · split
    · trivial
    · apply inOrder_readRecord
      intro record
      split
      · exact inOrder_removeRecord inOrder_respond
      · trivial

theorem inOrder_getTableStore (table : String) :
    InOrder (server.getTableStore table) [] [] :=
  inOrder_withTable (fun _ _ => inOrder_iterateRecords) trivial

theorem inOrder_getMultipleKeys (table : String) (keys : List String) :
    InOrder (server.getMultipleKeys table keys) [] [] := by
  refine inOrder_withTable ?_ trivial
  intro next held tables later
  apply inOrder_foldr _ later
  intro key next kept
  refine ⟨tables.below _ _, ?_⟩
  simpa [Routine.Ascends] using kept

theorem inOrder_access (header : Option HeaderValue) (username : String)
    (userHeader : Option HeaderValue) (body : AccessBody) (now : Nat) :
    InOrder (server.access header username userHeader body now) [] [] := by
  unfold access
  dsimp only
  split
  · split
    · exact inOrder_writeRecord fun outcome =>
        inOrder_respondWithin "auth" outcome _
    · trivial
  · split
    · exact inOrder_writeThenRespond
    · trivial

theorem inOrder_ofAdmin {authorization : Authorization}
    {routine : ServerRoutine} (later : InOrder routine [] []) :
    InOrder (if validateAdminToken authorization then routine
      else Routine.done) [] [] := by
  split
  · exact later
  · trivial

/-- The channel table is held while the membership is asked for. -/
theorem inOrder_getStats (tables : List String) :
    InOrder (server.getStats tables) [] [] := by
  apply inOrder_iterateTables fun table _ _ => inOrder_countRecords table
  apply inOrder_acquire
  refine ⟨?_, ?_⟩
  · intro permit member
    rw [List.mem_singleton.mp member]
    exact Nat.zero_lt_one
  · apply inOrder_release
    exact inOrder_release trivial

theorem inOrder_membershipSync (probes : List ProbeOutcome) :
    InOrder (membershipSync probes) [] [] := by
  apply inOrder_acquire
  apply inOrder_release
  apply inOrder_foldr
  · intro outcome next later
    unfold probe
    dsimp only [Routine.Ascends]
    split
    · exact inOrder_acquire fun _ => inOrder_release later
    · apply inOrder_acquire
      apply inOrder_release
      exact inOrder_acquire fun _ => inOrder_release later
  · apply inOrder_acquire
    apply inOrder_release
    exact inOrder_acquire (inOrder_release trivial)

theorem inOrder_saveToCold (tables : List String) :
    InOrder (server.saveToCold tables) [] [] := by
  apply inOrder_iterateTables (fun _ _ _ _ kept => kept)
  apply inOrder_foldr
  · intro table next later
    exact inOrder_withTable (fun _ _ => inOrder_iterateRecords) later
  · trivial

theorem inOrder_program (server : Server) (request : ServerRequest) :
    InOrder (server.program request) [] [] := by
  cases request with
  | handle header request now iteration =>
      cases request with
      | getValue authorization table key =>
          exact inOrder_getValue header authorization table key
            iteration.active
      | putValue authorization table key body =>
          dsimp only [program, putValue]
          split
          · trivial
          · exact inOrder_writeThenRespond
      | patchValue authorization table key body =>
          dsimp only [program, patchValue]
          split
          · trivial
          · exact inOrder_writeThenRespond
      | deleteValue authorization table key =>
          exact inOrder_deleteValue header authorization table key
      | putValueInternal table key incoming =>
          dsimp only [program, putValueInternal]
          split
          · trivial
          · exact inOrder_writeRecord fun outcome =>
              inOrder_respondWithin table outcome _
      | getTableStore table =>
          exact inOrder_getTableStore table
      | getAllKeys table =>
          exact inOrder_getTableStore table
      | getMultipleKeys table keys =>
          exact inOrder_getMultipleKeys table keys
      | getGlobalStore apiKey =>
          dsimp only [program, getGlobalStore]
          split
          · exact inOrder_iterateTables
              (fun _ _ _ => inOrder_iterateRecords) trivial
          · trivial
      | access user userHeader body =>
          exact inOrder_access header user userHeader body now
      | adminLogin password =>
          trivial
      | adminGetTables authorization =>
          exact inOrder_ofAdmin
            (inOrder_iterateTables (fun _ _ _ _ kept => kept) trivial)
      | adminGetKeys authorization table =>
          exact inOrder_ofAdmin (inOrder_getTableStore table)
      | adminGetRecord authorization table key =>
          exact inOrder_ofAdmin (inOrder_readRecord fun _ => trivial)
      | adminPutRecord authorization table key body =>
          exact inOrder_ofAdmin inOrder_writeThenRespond
      | adminDeleteRecord authorization table key =>
          exact inOrder_ofAdmin (inOrder_removeRecord inOrder_respond)
  | subscribeToKey table key =>
      exact inOrder_acquire fun _ => inOrder_release trivial
  | getStats iteration =>
      exact inOrder_getStats iteration.tables
  | joinCluster request now =>
      dsimp only [program, joinCluster]
      split
      · trivial
      · exact inOrder_acquire fun _ => inOrder_release trivial
  | gossipAfterJoin =>
      exact inOrder_acquire (inOrder_release trivial)
  | updateMembership token body =>
      dsimp only [program, updateMembership]
      split
      · exact inOrder_acquire fun _ => inOrder_release trivial
      · trivial
  | getMembership =>
      exact inOrder_acquire (inOrder_release trivial)
  | heartbeat =>
      trivial
  | indirectPing =>
      trivial
  | membershipSync probes =>
      exact inOrder_membershipSync probes
  | saveToCold iteration =>
      exact inOrder_saveToCold iteration.tables
  | startSnapshotTask iteration =>
      exact inOrder_iterateTables (fun _ _ _ => inOrder_iterateRecords)
        trivial

/-- Whatever requests have come in, as long as no internal PUT and no
replicated registration has to wait for the channel table, the workers are
never stuck and every schedule of theirs comes to an end with all requests
served. -/
theorem serves_all (server : Server) {shared : Shared}
    {events : List (Schedule ServerRequest)}
    {final : Pool Shared StoreLock AsyncLock ServerRequest}
    (meets : StepsMeet server.step
      (fun pool event => pool.unhindered server.notifiesWithGuard event = true)
      (Pool.idle shared) events)
    (reached : runSteps server.step (Pool.idle shared) events = some final) :
    final.Drains server.program server.notifiesWithGuard :=
  Pool.drains_of_unhindered server.disciplined server.inOrder_program meets
    reached

/-- The note and the subscription of a sample node are both served. -/
theorem serves_undisturbed :
    ∃ final, runSteps sampleServer.step (Pool.idle emptyShared)
        undisturbed = some final ∧
      final.Drains sampleServer.program sampleServer.notifiesWithGuard :=
  ⟨_, runSteps_eq_some_runResult sampleServer.step _ undisturbed (by decide),
    serves_all sampleServer (by decide)
      (runSteps_eq_some_runResult sampleServer.step _ undisturbed
        (by decide))⟩

end Server

end DynaRust.Network
