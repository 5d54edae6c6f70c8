import DynaRust.Foundation.Handover
import DynaRust.Network.FanOut
import DynaRust.Network.Provenance

/-!
# Handing the store over to a joining node

A joining node pulls the store of its seed and gets the later writes by
replication.  For one key this is a feed of the joiner from the seed.  A write
that is not in the pulled store must be sent to the joiner, and it is only if
the seed lists the joiner as Active at that moment.
-/

namespace DynaRust.Network

open DynaRust.Foundation DynaRust.Storage VersionedValue VectorClock

/-- Versions succeed each other by dominance. -/
def mergeSuccession : Succession VersionedValue where
  toContest := mergeContest
  newer := fun first second => first.dominates second = true
  newer_trans := dominates_trans
  beats_of_newer := beats_of_dominates

namespace Cluster

variable {environment : Environment} {cluster next : Cluster}
variable {seed joiner table key : String} {event : ClusterEvent}

/-! ## The events of a handoff -/

/-- PUTs and PATCHes at the seed, their replication, and pulls and merges of
the joiner.  No request to the joiner is lost. -/
def inHandoff (seed joiner : String) (cluster : Cluster) :
    ClusterEvent → Bool
  | .client node _ (.putValue _ _ _ _) _ => node = seed
  | .client node _ (.patchValue _ _ _ _) _ => node = seed
  | .fanOut _ _ => true
  | .deliver _ _ => true
  | .redeliver _ _ => true
  | .lose index =>
      cluster.messages[index]?.map Message.target ≠ some joiner
  | .pullStore puller target => puller = joiner ∧ target = seed
  | .mergeStore _ => true
  | _ => false

inductive HandoffEvent (seed joiner : String) (cluster : Cluster) :
    ClusterEvent → Prop
  | put (header : Option HeaderValue) (authorization : Authorization)
      (table key : String) (body : HashMap String Value) (now : Nat) :
      HandoffEvent seed joiner cluster
        (.client seed header (.putValue authorization table key body) now)
  | patch (header : Option HeaderValue) (authorization : Authorization)
      (table key : String) (body : HashMap String Value) (now : Nat) :
      HandoffEvent seed joiner cluster
        (.client seed header (.patchValue authorization table key body) now)
  | fanOut (index : Nat) (active : List String) :
      HandoffEvent seed joiner cluster (.fanOut index active)
  | deliver (index now : Nat) :
      HandoffEvent seed joiner cluster (.deliver index now)
  | redeliver (index now : Nat) :
      HandoffEvent seed joiner cluster (.redeliver index now)
  | lose (index : Nat) :
      (∀ message, cluster.messages[index]? = some message →
        message.target ≠ joiner) →
      HandoffEvent seed joiner cluster (.lose index)
  | pull :
      HandoffEvent seed joiner cluster (.pullStore joiner seed)
  | merge (index : Nat) :
      HandoffEvent seed joiner cluster (.mergeStore index)

theorem handoffEvent_of_inHandoff
    (handed : inHandoff seed joiner cluster event = true) :
    HandoffEvent seed joiner cluster event := by
  cases event with
  | client node header request now =>
      cases request with
      | putValue authorization table key body =>
          cases of_decide_eq_true handed
          exact .put header authorization table key body now
      | patchValue authorization table key body =>
          cases of_decide_eq_true handed
          exact .patch header authorization table key body now
      | _ =>
          cases handed
  | fanOut index active =>
      exact .fanOut index active
  | deliver index now =>
      exact .deliver index now
  | redeliver index now =>
      exact .redeliver index now
  | lose index =>
      refine .lose index ?_
      intro message found same
      apply of_decide_eq_true handed
      rw [found, Option.map_some, same]
  | pullStore puller target =>
      obtain ⟨rfl, rfl⟩ := of_decide_eq_true handed
      exact .pull
  | mergeStore index =>
      exact .merge index
  | _ =>
      cases handed

/-- The version that a client makes the seed store under the key. -/
def acceptedVersion (environment : Environment) (seed table key : String)
    (cluster : Cluster) (event : ClusterEvent) : Option VersionedValue :=
  if event.isClient then
    (recordChange environment cluster event seed table key).written
  else
    none

/-! ## A write of the seed -/

/-- What a PUT or a PATCH at the seed does, with the version it writes under
the key. -/
inductive Updates (seed table key : String) (cluster next : Cluster) :
    Option VersionedValue → Prop
  | other (left : List (String × Task)) :
      (∀ node, next.recordAt node table key =
        cluster.recordAt node table key) →
      next.tasks = cluster.tasks ++ left →
      (∀ entry ∈ left, ∀ version, ¬ Holds table key version entry.2) →
      Updates seed table key cluster next none
  | write (version : VersionedValue) (pending : FanOut) :
      (∀ node, next.recordAt node table key =
        if node = seed then some version
        else cluster.recordAt node table key) →
      next.tasks = cluster.tasks ++ [(seed, .fanOut pending)] →
      pending.content = .putValueInternal table key version →
      (∀ held, cluster.recordAt seed table key = some held →
        version.vectorClock = increment held.vectorClock seed) →
      Updates seed table key cluster next (some version)

/-- The part of `put_value` and `patch_value` that concerns the store. -/
private theorem updates_of_perform {outcome : Outcome}
    {written : Option VersionedValue}
    (result : (outcome.task = none ∧ written = none ∧ ∀ table key,
        outcome.store.record table key =
          (cluster.storeAt seed).record table key) ∨
      ∃ table' key' version pending,
        outcome.task = some (.fanOut pending) ∧
        pending.content = .putValueInternal table' key' version ∧
        written = (if table = table' ∧ key = key' then some version
          else none) ∧
        outcome.store = ((cluster.storeAt seed).orDefault
          table').insertRecord table' key' version ∧
        ∀ held, (cluster.storeAt seed).record table' key' = some held →
          version.vectorClock = increment held.vectorClock seed) :
    Updates seed table key cluster (cluster.perform seed outcome)
      written := by
  rcases result with ⟨noTask, rfl, same⟩ |
    ⟨table', key', version, pending, task, content, rfl, store, clock⟩
  · refine .other [] ?_ (by simp [perform, noTask, setStore]) nofun
    intro node
    rw [recordAt_perform, same]
    split
    · rename_i isSeed
      rw [isSeed]
      rfl
    · rfl
  · have tasks : (cluster.perform seed outcome).tasks =
        cluster.tasks ++ [(seed, .fanOut pending)] := by
      simp [perform, task, setStore]
    by_cases sameKey : table = table' ∧ key = key'
    · obtain ⟨rfl, rfl⟩ := sameKey
      rw [if_pos ⟨rfl, rfl⟩]
      refine .write version pending ?_ tasks content clock
      intro node
      rw [recordAt_perform, store, Store.record_insertRecord]
      simp
    · rw [if_neg sameKey]
      refine .other _ ?_ tasks ?_
      · intro node
        rw [recordAt_perform, store, Store.record_insertRecord, if_neg sameKey,
          Store.record_orDefault]
        split
        · rename_i isSeed
          rw [isSeed]
          rfl
        · rfl
      · intro entry member other holds
        rw [List.mem_singleton.mp member, Holds, content] at holds
        cases holds
        exact sameKey ⟨rfl, rfl⟩

private theorem written_onlyIf {change : Change VersionedValue}
    {concerned : Prop} [Decidable concerned] :
    (Change.onlyIf concerned change).written =
      if concerned then change.written else none := by
  unfold Change.onlyIf
  split <;> rfl

private theorem updates_of_put {header : Option HeaderValue}
    {authorization : Authorization} {table' key' : String}
    {body : HashMap String Value} {now : Nat} :
    Updates seed table key cluster
      (cluster.perform seed (handle environment seed (cluster.storeAt seed)
        header (.putValue authorization table' key' body) now))
      (recordChange environment cluster (.client seed header
        (.putValue authorization table' key' body) now) seed table
          key).written := by
  apply updates_of_perform
  simp only [handle, putValue, Store.record_orDefault, recordChange,
    Change.onlyIf_true, requestChange, putChange, written_onlyIf]
  cases extractUserFromToken authorization with
  | error response =>
      exact Or.inl ⟨rfl, ite_self _, fun _ _ => rfl⟩
  | ok user =>
      dsimp only
      cases accepted : putLocal
          ((cluster.storeAt seed).record table' key') user body seed now with
      | error response =>
          exact Or.inl ⟨rfl, ite_self _, Store.record_orDefault _ _⟩
      | ok version =>
          refine Or.inr ⟨table', key', version, _, rfl, rfl, rfl, rfl, ?_⟩
          intro held stored
          rcases putLocal_eq_ok_iff.mp accepted with
            ⟨missing, -⟩ | ⟨base, found, -, rfl⟩
          · cases stored.symm.trans missing
          · cases Option.some.inj (stored.symm.trans found)
            rfl

private theorem updates_of_patch {header : Option HeaderValue}
    {authorization : Authorization} {table' key' : String}
    {body : HashMap String Value} {now : Nat} :
    Updates seed table key cluster
      (cluster.perform seed (handle environment seed (cluster.storeAt seed)
        header (.patchValue authorization table' key' body) now))
      (recordChange environment cluster (.client seed header
        (.patchValue authorization table' key' body) now) seed table
          key).written := by
  apply updates_of_perform
  simp only [handle, patchValue, Store.record_orDefault, recordChange,
    Change.onlyIf_true, requestChange, patchChange, written_onlyIf]
  cases extractUserFromToken authorization with
  | error response =>
      exact Or.inl ⟨rfl, ite_self _, fun _ _ => rfl⟩
  | ok user =>
      dsimp only
      cases accepted : patchLocal
          ((cluster.storeAt seed).record table' key') user body seed now with
      | error response =>
          exact Or.inl ⟨rfl, ite_self _, Store.record_orDefault _ _⟩
      | ok version =>
          refine Or.inr ⟨table', key', version, _, rfl, rfl, rfl, rfl, ?_⟩
          intro held stored
          obtain ⟨base, found, -, rfl⟩ := patchLocal_eq_ok_iff.mp accepted
          cases Option.some.inj (stored.symm.trans found)
          rfl

theorem updates_of_client (table key : String)
    (handed : HandoffEvent seed joiner cluster event)
    (client : event.isClient = true)
    (taken : step environment cluster event = some next) :
    Updates seed table key cluster next
        (acceptedVersion environment seed table key cluster event) ∧
      next.messages = cluster.messages ∧
      next.snapshots = cluster.snapshots := by
  rw [acceptedVersion, if_pos client]
  cases handed with
  | put header authorization table' key' body now =>
      cases taken_of_step taken with
      | client _ _ _ _ _ =>
          exact ⟨updates_of_put, rfl, rfl⟩
  | patch header authorization table' key' body now =>
      cases taken_of_step taken with
      | client _ _ _ _ _ =>
          exact ⟨updates_of_patch, rfl, rfl⟩
  | _ =>
      cases client

/-! ## What is in flight during a handoff -/

/-- Nothing is sent but versions. -/
structure OnlyVersions (cluster : Cluster) : Prop where
  tasks : ∀ node task, (node, task) ∈ cluster.tasks →
    ∃ pending table key version, task = .fanOut pending ∧
      pending.content = .putValueInternal table key version
  messages : ∀ message ∈ cluster.messages, ∃ table key version,
    message.content = .putValueInternal table key version

theorem OnlyVersions.step (only : OnlyVersions cluster)
    (handed : HandoffEvent seed joiner cluster event)
    (taken : step environment cluster event = some next) :
    OnlyVersions next := by
  constructor
  · intro node task member
    rcases tasks_step_cases taken member with old | left
    · exact only.tasks node task old
    · cases left with
      | handled node header request now task handled =>
          cases handed with
          | put _ _ _ _ _ _ =>
              cases handled with
              | put _ _ _ _ version accepted =>
                  exact ⟨_, _, _, version, rfl, rfl⟩
          | patch _ _ _ _ _ _ =>
              cases handled with
              | patch _ _ _ _ version accepted =>
                  exact ⟨_, _, _, version, rfl, rfl⟩
      | _ =>
          cases handed
  · intro message member
    rcases messages_step_cases taken member with old | sent
    · exact only.messages message old
    · cases sent with
      | fanOut index active node pending message found sent =>
          obtain ⟨_, table, key, version, same, content⟩ :=
            only.tasks node _ (List.mem_of_getElem? found)
          cases same
          refine ⟨table, key, version, ?_⟩
          rw [content_of_mem_fanOutMessages sent, content]
      | repair _ _ _ _ _ _ _ _ _ _ =>
          cases handed

/-- A version of the key that is on its way. -/
inductive InFlight (cluster : Cluster) (table key : String)
    (version : VersionedValue) : Prop
  | pending (node : String) (task : Task) : (node, task) ∈ cluster.tasks →
      Holds table key version task → InFlight cluster table key version
  | sent (message : Message) : message ∈ cluster.messages →
      message.content = .putValueInternal table key version →
      InFlight cluster table key version
  | pulled (joiner : String) (remote : Store) :
      (joiner, remote) ∈ cluster.snapshots →
      remote.record table key = some version →
      InFlight cluster table key version

theorem inFlight_of_incoming {node : String} {version : VersionedValue}
    (incoming : Incoming cluster event node table key version) :
    InFlight cluster table key version := by
  cases incoming with
  | sent index now message handles found target content =>
      exact .sent message (List.mem_of_getElem? found) content
  | pulled remote member found =>
      exact .pulled node remote member found

/-- Without a client request, only a pull puts a version in flight, and that
is the one of the seed. -/
theorem inFlight_step (handed : HandoffEvent seed joiner cluster event)
    (notClient : event.isClient = false)
    (taken : step environment cluster event = some next)
    {version : VersionedValue}
    (flying : InFlight next table key version) :
    InFlight cluster table key version ∨
      version ∈ cluster.recordAt seed table key := by
  cases flying with
  | pending node task member holds =>
      rcases tasks_step_cases taken member with old | left
      · exact Or.inl (.pending node task old holds)
      · cases left with
        | handled _ _ _ _ _ _ =>
            cases notClient
        | _ =>
            cases handed
  | sent message member content =>
      rcases messages_step_cases taken member with old | sent
      · exact Or.inl (.sent message old content)
      · cases sent with
        | fanOut index active node pending message found sent =>
            have same := content_of_mem_fanOutMessages sent
            exact Or.inl (.pending node _ (List.mem_of_getElem? found)
              (same.symm.trans content))
        | repair _ _ _ _ _ _ _ _ _ _ =>
            cases handed
  | pulled holder remote member found =>
      rcases snapshots_step_cases taken member with
        old | ⟨target, rfl, rfl⟩
      · exact Or.inl (.pulled holder remote old found)
      · cases handed
        exact Or.inr found

/-- Without a client request, a record is kept or a version is merged. -/
theorem recordChange_of_handoff (only : OnlyVersions cluster)
    (handed : HandoffEvent seed joiner cluster event)
    (notClient : event.isClient = false) (node : String) :
    recordChange environment cluster event node table key = .keep ∨
      ∃ version, recordChange environment cluster event node table key =
        .receive version := by
  refine (recordChange_cases environment cluster event node table
    key).imp_right fun effect => ?_
  generalize recordChange environment cluster event node table key =
    change at effect
  cases effect with
  | client header request now change acts =>
      cases notClient
  | message event index now message change handles found target acts =>
      obtain ⟨table', key', version, content⟩ :=
        only.messages message (List.mem_of_getElem? found)
      rw [content] at acts
      cases acts with
      | merge version =>
          exact ⟨version, rfl⟩
  | remove index found =>
      cases handed
  | merge index remote incoming found pulled =>
      exact ⟨incoming, rfl⟩

/-- The version that the step offers to the joiner. -/
def offeredVersion (environment : Environment) (joiner table key : String)
    (cluster : Cluster) (event : ClusterEvent) : Option VersionedValue :=
  (recordChange environment cluster event joiner table key).received

theorem inFlight_of_offered
    (taken : step environment cluster event = some next) {node : String} :
    ∀ version ∈ offeredVersion environment node table key cluster event,
      InFlight cluster table key version := by
  intro version offered
  unfold offeredVersion at offered
  cases change : recordChange environment cluster event node table key with
  | receive incoming =>
      rw [change] at offered
      cases Option.some.inj offered
      exact inFlight_of_incoming (incoming_of_recordChange taken change)
  | _ =>
      rw [change] at offered
      cases offered

theorem recordAt_step_of_handoff (only : OnlyVersions cluster)
    (handed : HandoffEvent seed joiner cluster event)
    (notClient : event.isClient = false)
    (taken : step environment cluster event = some next) (node : String) :
    next.recordAt node table key =
      mergeSuccession.offerAll (cluster.recordAt node table key)
        (offeredVersion environment node table key cluster event).toList := by
  rw [recordAt_step taken, offeredVersion]
  rcases recordChange_of_handoff only handed notClient node with
    kept | ⟨version, received⟩
  · rw [kept]
    rfl
  · rw [received, Change.apply_receive, mergeIncoming_eq_offer]
    rfl

/-! ## The feed of the joiner -/

/-- One key during a handoff. -/
def feed (seed joiner table key : String) (cluster : Cluster) :
    Feed VersionedValue where
  source := cluster.recordAt seed table key
  replica := cluster.recordAt joiner table key
  flying := {version | InFlight cluster table key version}

/-- The counter of the seed is not at `u64::MAX` when a client makes it store
a new version of the key. -/
def CountsUp (environment : Environment) (seed table key : String)
    (cluster : Cluster) (event : ClusterEvent) : Prop :=
  (acceptedVersion environment seed table key cluster event).isSome = true →
    ∀ held ∈ cluster.recordAt seed table key,
      reading held.vectorClock seed + 1 < UInt64.size

instance : Decidable (CountsUp environment seed table key cluster event) :=
  inferInstanceAs (Decidable (_ → ∀ held ∈ cluster.recordAt seed table key, _))

/-- Each step of a handoff is a move of the feed. -/
theorem move_step (different : joiner ≠ seed) (only : OnlyVersions cluster)
    (handed : HandoffEvent seed joiner cluster event)
    (countsUp : CountsUp environment seed table key cluster event)
    (taken : step environment cluster event = some next) :
    mergeSuccession.Move
      (acceptedVersion environment seed table key cluster event)
      (offeredVersion environment joiner table key cluster event)
      (feed seed joiner table key cluster)
      (feed seed joiner table key next) := by
  cases client : event.isClient with
  | true =>
      have noOffer : offeredVersion environment joiner table key cluster
          event = none := by
        unfold offeredVersion
        cases handed with
        | put _ _ _ _ _ _ =>
            rw [recordChange, Change.onlyIf, if_neg different]
            rfl
        | patch _ _ _ _ _ _ =>
            rw [recordChange, Change.onlyIf, if_neg different]
            rfl
        | _ =>
            cases client
      rw [noOffer]
      obtain ⟨updates, messages, snapshots⟩ :=
        updates_of_client table key handed client taken
      have flies : ∀ version left, next.tasks = cluster.tasks ++ left →
          InFlight next table key version →
            InFlight cluster table key version ∨
              ∃ entry ∈ left, Holds table key version entry.2 := by
        intro version left tasks flying
        cases flying with
        | pending node task member holds =>
            rw [tasks] at member
            rcases List.mem_append.mp member with old | added
            · exact Or.inl (.pending node task old holds)
            · exact Or.inr ⟨_, added, holds⟩
        | sent message member content =>
            rw [messages] at member
            exact Or.inl (.sent message member content)
        | pulled holder remote member found =>
            rw [snapshots] at member
            exact Or.inl (.pulled holder remote member found)
      unfold CountsUp at countsUp
      generalize acceptedVersion environment seed table key cluster event =
        written at updates countsUp
      cases updates with
      | other left records tasks noneHeld =>
          apply Succession.Move.idle mergeSuccession (records seed) (records joiner)
          intro version flying
          rcases flies version left tasks flying with
            old | ⟨entry, added, holds⟩
          · exact Or.inl old
          · exact absurd holds (noneHeld entry added version)
      | write version pending records tasks content clock =>
          refine .write version ?_ ?_ ?_ ?_
          · intro held stored
            exact dominates_of_increment (clock held stored)
              (countsUp rfl held stored)
          · simp [feed, records]
          · simp [feed, records, different]
          · intro copy flying
            rcases flies copy _ tasks flying with old | ⟨entry, added, holds⟩
            · exact Or.inl old
            · rw [List.mem_singleton.mp added, Holds, content] at holds
              cases holds
              exact Or.inr rfl
  | false =>
      rw [acceptedVersion, client, if_neg (by simp)]
      exact .merge
        (offeredVersion environment seed table key cluster event) _
        (inFlight_of_offered taken) (inFlight_of_offered taken)
        (recordAt_step_of_handoff only handed client taken seed)
        (recordAt_step_of_handoff only handed client taken joiner)
        (fun _ flying => inFlight_step handed client taken flying)

/-! ## What is due to the joiner -/

/-- A version that will be offered to the joiner; a pending change need not be
if it is the pulled version. -/
inductive Due (environment : Environment) (seed joiner table key : String)
    (pulled : Option VersionedValue) (cluster : Cluster)
    (version : VersionedValue) : Prop
  | snapshot (remote : Store) : (joiner, remote) ∈ cluster.snapshots →
      remote.record table key = some version →
      Due environment seed joiner table key pulled cluster version
  | sent (message : Message) : message ∈ cluster.messages →
      message.target = joiner →
      message.header = some (.text environment.clusterSecret) →
      message.content = .putValueInternal table key version →
      Due environment seed joiner table key pulled cluster version
  | pending (change : FanOut) : (seed, .fanOut change) ∈ cluster.tasks →
      change.content = .putValueInternal table key version →
      pulled ≠ some version →
      Due environment seed joiner table key pulled cluster version

/-- The seed lists the joiner as Active when it sends its current version,
unless that is the pulled one, and no two labels on the ring hash alike. -/
def ReachesJoiner (environment : Environment) (seed joiner table key : String)
    (pulled : Option VersionedValue) (cluster : Cluster)
    (event : ClusterEvent) : Prop :=
  ∀ fanOut ∈ event.fansOut, ∀ entry ∈ cluster.tasks[fanOut.1]?,
    ∀ current ∈ cluster.recordAt seed table key,
      entry.2.sends = some (.putValueInternal table key current) →
        pulled ≠ some current →
          joiner ∈ fanOut.2 ∧ NoLabelCollisions environment.hash fanOut.2

instance {pulled : Option VersionedValue} : Decidable
    (ReachesJoiner environment seed joiner table key pulled cluster event) :=
  inferInstanceAs (Decidable (∀ fanOut ∈ event.fansOut,
    ∀ entry ∈ cluster.tasks[fanOut.1]?, ∀ current ∈ recordAt _ _ _ _,
      _ → _ → _))

variable {pulled : Option VersionedValue}

theorem Due.mono {version : VersionedValue}
    (isDue : Due environment seed joiner table key pulled cluster version)
    (snapshots : ∀ entry ∈ cluster.snapshots, entry ∈ next.snapshots)
    (messages : ∀ message ∈ cluster.messages, message ∈ next.messages)
    (tasks : ∀ entry ∈ cluster.tasks, entry ∈ next.tasks) :
    Due environment seed joiner table key pulled next version := by
  cases isDue with
  | snapshot remote member found =>
      exact .snapshot remote (snapshots _ member) found
  | sent message member target header content =>
      exact .sent message (messages _ member) target header content
  | pending change member content notPulled =>
      exact .pending change (tasks _ member) content notPulled

/-- A version that a client makes the seed store is due to the joiner. -/
theorem due_of_client
    (handed : HandoffEvent seed joiner cluster event)
    (client : event.isClient = true)
    (past : ∀ version ∈ pulled, mergeSuccession.IsPast
      (cluster.recordAt seed table key) version)
    (countsUp : CountsUp environment seed table key cluster event)
    (taken : step environment cluster event = some next)
    {current : VersionedValue}
    (isCurrent : current ∈ next.recordAt seed table key)
    (isDue : Due environment seed joiner table key pulled cluster current ∨
      current ∉ cluster.recordAt seed table key) :
    Due environment seed joiner table key pulled next current := by
  obtain ⟨updates, messages, snapshots⟩ :=
    updates_of_client table key handed client taken
  unfold CountsUp at countsUp
  generalize acceptedVersion environment seed table key cluster event =
    written at updates countsUp
  cases updates with
  | other left records tasks noneHeld =>
      rw [records] at isCurrent
      rcases isDue with isDue | isNew
      · apply isDue.mono
        · rw [snapshots]
          exact fun _ member => member
        · rw [messages]
          exact fun _ member => member
        · rw [tasks]
          exact fun _ member => List.mem_append_left left member
      · exact absurd isCurrent isNew
  | write version pending records tasks content clock =>
      rw [records, if_pos rfl] at isCurrent
      cases isCurrent
      refine .pending pending ?_ content ?_
      · rw [tasks]
        exact List.mem_append_right _ (List.mem_singleton.mpr rfl)
      · intro isPulled
        refine Succession.not_isPast_of_newer ?_ (past _ isPulled)
        intro held stored
        exact dominates_of_increment (clock held stored)
          (countsUp rfl held stored)

/-- The change is sent to the joiner. -/
private theorem due_of_fanOut (different : joiner ≠ seed)
    (sameSecret : environment.clusterSecretOrEmpty = environment.clusterSecret)
    {index : Nat} {active : List String} {node : String} {change : FanOut}
    (found : cluster.tasks[index]? = some (node, .fanOut change))
    (known : (active : Multiset String) = cluster.activeAt node)
    (reaches : ReachesJoiner environment seed joiner table key pulled cluster
      (.fanOut index active))
    {current : VersionedValue}
    (isCurrent : current ∈ cluster.recordAt seed table key)
    (isDue : Due environment seed joiner table key pulled cluster current) :
    Due environment seed joiner table key pulled
      { cluster with
        tasks := cluster.tasks.eraseIdx index
        messages := cluster.messages ++
          fanOutMessages environment node active change } current := by
  cases isDue with
  | snapshot remote member record =>
      exact .snapshot remote member record
  | sent message member target header content =>
      exact .sent message (List.mem_append_left _ member) target header
        content
  | pending own member content notPulled =>
      rcases mem_eraseIdx_or_eq found member with left | same
      · exact .pending own left content notPulled
      · cases same
        obtain ⟨listed, noCollisions⟩ := reaches (index, active) rfl
          (seed, .fanOut change) found current isCurrent
          (congrArg some content) notPulled
        have distinct : active.Nodup := by
          rw [← Multiset.coe_nodup, known]
          exact nodup_getActiveNodes _
        obtain ⟨message, sent, target⟩ := exists_fanOutMessage change
          distinct noCollisions listed different
        refine .sent message (List.mem_append_right _ sent) target ?_ ?_
        · exact header_of_mem_fanOutMessages sameSecret sent
        · rw [content_of_mem_fanOutMessages sent, content]

/-- What is due stays due until it is offered. -/
theorem due_of_other (different : joiner ≠ seed)
    (sameSecret : environment.clusterSecretOrEmpty = environment.clusterSecret)
    (handed : HandoffEvent seed joiner cluster event)
    (notClient : event.isClient = false)
    (reaches : ReachesJoiner environment seed joiner table key pulled cluster
      event)
    (taken : step environment cluster event = some next)
    {current : VersionedValue}
    (isCurrent : current ∈ cluster.recordAt seed table key)
    (isDue : Due environment seed joiner table key pulled cluster current) :
    Due environment seed joiner table key pulled next current ∨
      offeredVersion environment joiner table key cluster event =
        some current := by
  have performed : ∀ entry ∈ cluster.tasks, ∀ node outcome,
      entry ∈ (cluster.perform node outcome).tasks := by
    intro entry member node outcome
    exact List.mem_append_left _ member
  cases taken_of_step taken with
  | client _ _ _ _ _ =>
      cases notClient
  | fanOut index active node change found known =>
      exact Or.inl (due_of_fanOut different sameSecret found known reaches
        isCurrent isDue)
  | deliver index now message found =>
      cases isDue with
      | snapshot remote member record =>
          exact Or.inl (.snapshot remote member record)
      | sent other member target header content =>
          rcases mem_eraseIdx_or_eq found member with left | rfl
          · exact Or.inl (.sent other left target header content)
          · refine Or.inr ?_
            simp [offeredVersion, recordChange, messageChange, found, target,
              header, content, requestChange, InternalRequest.request,
              Change.received, providedSecret]
      | pending own member content notPulled =>
          exact Or.inl (.pending own (performed _ member _ _) content
            notPulled)
  | redeliver index now message found =>
      exact Or.inl (isDue.mono (fun _ member => member)
        (fun _ member => member) fun _ member => performed _ member _ _)
  | lose index =>
      cases handed with
      | lose index others =>
          cases isDue with
          | snapshot remote member record =>
              exact Or.inl (.snapshot remote member record)
          | sent message member target header content =>
              obtain ⟨position, there⟩ := List.mem_iff_getElem?.mp member
              have kept : position ≠ index := by
                rintro rfl
                exact others message there target
              exact Or.inl (.sent message
                (List.mem_eraseIdx_iff_getElem?.mpr ⟨position, kept, there⟩)
                target header content)
          | pending own member content notPulled =>
              exact Or.inl (.pending own member content notPulled)
  | mergeStore index node remote found =>
      cases isDue with
      | snapshot other member record =>
          rcases mem_eraseIdx_or_eq found member with left | same
          · exact Or.inl (.snapshot other left record)
          · cases same
            refine Or.inr ?_
            simp [offeredVersion, recordChange, found, record,
              Change.received]
      | sent message member target header content =>
          exact Or.inl (.sent message member target header content)
      | pending own member content notPulled =>
          exact Or.inl (.pending own member content notPulled)
  | pullStore puller target =>
      exact Or.inl (isDue.mono
        (fun _ member => List.mem_append_left _ member)
        (fun _ member => member) fun _ member => member)
  | pullRefused puller target =>
      exact Or.inl isDue
  | _ =>
      cases handed

end Cluster

end DynaRust.Network
