import DynaRust.Network.Dispatch
import DynaRust.Storage.Subscription

/-!
# One node serving its clients

The store of a node together with its subscriptions.  The store step of a
handler and its call of `notify` are two steps, and an external DELETE is
suspended once more, between its check and its removal; all of them interleave
freely.  (The table guard that `put_value_internal` keeps over its `notify`
only rules some of these interleavings out.)
-/

namespace DynaRust.Network

open DynaRust.Foundation DynaRust.Security DynaRust.Storage

/-- What the replicas of a read answer, in order; `none` is the node itself,
which reads its own store. -/
abbrev ReplicaAnswers := List (Option (Option VersionedValue))

/-- The `valid_results` of a read. -/
def readVersions (store : Store) (table key : String)
    (replicas : ReplicaAnswers) : List VersionedValue :=
  replicas.filterMap fun answer => answer.getD (store.record table key)

/-- The answer of a handler whose first step is done; a read still asks the
replicas. -/
def answerOf (outcome : Outcome) (replicas : ReplicaAnswers) :
    Option Response :=
  match outcome.task with
  | some (.read user table key) =>
      some (readResponse user
        (selectLatest (readVersions outcome.store table key replicas)))
  | _ => outcome.response

/-- A DELETE that has passed its check. -/
structure Removal where
  authorization : Authorization
  table : String
  key : String
  deriving DecidableEq

def Removal.request (removal : Removal) : Request :=
  .deleteValue removal.authorization removal.table removal.key

def removalOf (request : Request) (outcome : Outcome) : Option Removal :=
  match outcome.task with
  | some (.remove table key) => some ⟨request.authorization, table, key⟩
  | _ => none

/-- The node takes the request for one of another node. -/
def Replicates (environment : Environment) (header : Option HeaderValue) :
    Request → Prop
  | .putValueInternal _ _ _ =>
      providedSecret header = environment.clusterSecret
  | _ => headerPresents environment.clusterSecret header = true

structure ServingNode where
  store : Store
  removals : List Removal
  /-- What the store steps so far had to announce, oldest first. -/
  changes : List Notification
  /-- The numbers of those that `notify` has not been called with yet. -/
  pending : List Nat
  answers : List (Request × Response)
  manager : SubscriptionManager

inductive ServingEvent where
  | request (header : Option HeaderValue) (request : Request)
      (replicas : ReplicaAnswers) (now : Nat)
  | remove (index : Nat)
  | notify (index : Nat)
  /-- A subscriber comes or leaves, or a deserted channel is removed. -/
  | subscribers (event : SubscriptionEvent)

namespace ServingNode

/-- A node before its first request. -/
def start (store : Store) : ServingNode where
  store := store
  removals := []
  changes := []
  pending := []
  answers := []
  manager := .new

/-- Take over the store step of a handler. -/
def takeOver (node : ServingNode) (request : Request) (outcome : Outcome)
    (response : Option Response) : ServingNode where
  store := outcome.store
  removals := node.removals ++ (removalOf request outcome).toList
  changes := node.changes ++ outcome.notification.toList
  pending := node.pending ++
    (outcome.notification.map fun _ => node.changes.length).toList
  answers := node.answers ++
    (response.map fun answer => (request, answer)).toList
  manager := node.manager

def step (environment : Environment) (currentAddr : String)
    (node : ServingNode) : ServingEvent → Option ServingNode
  | .request header request replicas now =>
      let outcome :=
        handle environment currentAddr node.store header request now
      some (node.takeOver request outcome (answerOf outcome replicas))
  | .remove index =>
      match node.removals[index]? with
      | some removal =>
          let outcome := deleteRemove node.store removal.table removal.key
          some (({ node with
              removals := node.removals.eraseIdx index } :
                ServingNode).takeOver removal.request outcome outcome.response)
      | none => none
  | .notify index =>
      match node.pending[index]? with
      | some number =>
          match node.changes[number]? with
          | some announced =>
              some { node with
                pending := node.pending.eraseIdx index
                manager := node.manager.notify announced.table announced.key
                  announced.event }
          | none => none
      | none => none
  | .subscribers event =>
      match event with
      | .notify _ _ _ => none
      | event =>
          (node.manager.step event).map fun manager =>
            { node with manager := manager }

/-! ## What a store step announces -/

/-- The event that tells the subscribers of a key what it holds. -/
def eventOf : Option VersionedValue → KeyEvent
  | some record => .updated record
  | none => .deleted

end ServingNode

open ServingNode

/-- The outcome announces what it changes: at most one record, with its new
state. -/
def Announces (before : Store) (outcome : Outcome) : Prop :=
  match outcome.notification with
  | none => ∀ table key,
      outcome.store.record table key = before.record table key
  | some announced =>
      announced.event =
          eventOf (outcome.store.record announced.table announced.key) ∧
        ∀ table key, ¬ (table = announced.table ∧ key = announced.key) →
          outcome.store.record table key = before.record table key

theorem announces_of_unchanged {before : Store} {outcome : Outcome}
    (silent : outcome.notification = none)
    (same : ∀ table key,
      outcome.store.record table key = before.record table key) :
    Announces before outcome := by
  rw [Announces, silent]
  exact same

theorem announces_insertRecord {before : Store} {table key : String}
    {inserted : VersionedValue} {outcome : Outcome}
    (stored : outcome.store =
      (before.orDefault table).insertRecord table key inserted)
    (announced : outcome.notification =
      some ⟨table, key, .updated inserted⟩) :
    Announces before outcome := by
  rw [Announces, announced, stored]
  constructor
  · rw [Store.record_insertRecord_self]
    rfl
  · intro other otherKey different
    rw [Store.record_insertRecord, if_neg different, Store.record_orDefault]

theorem announces_removeRecord {before : Store} {table key : String}
    {outcome : Outcome}
    (stored : outcome.store = before.removeRecord table key)
    (announced : outcome.notification = some ⟨table, key, .deleted⟩) :
    Announces before outcome := by
  rw [Announces, announced, stored]
  constructor
  · rw [Store.record_removeRecord, if_pos ⟨rfl, rfl⟩]
    rfl
  · intro other otherKey different
    rw [Store.record_removeRecord, if_neg different]

theorem announces_deleteRemove (store : Store) (table key : String) :
    Announces store (deleteRemove store table key) :=
  announces_removeRecord rfl rfl

section Handlers

variable (environment : Environment) (currentAddr : String) (store : Store)
  (header : Option HeaderValue) (authorization : Authorization)
  (table key : String) (body : HashMap String Value) (now : Nat)

theorem announces_putValue :
    Announces store
      (putValue currentAddr store authorization table key body now) := by
  unfold putValue
  split
  · exact announces_of_unchanged rfl (fun _ _ => rfl)
  · dsimp only
    split
    · exact announces_of_unchanged rfl
        (fun other otherKey => store.record_orDefault table other otherKey)
    · exact announces_insertRecord rfl rfl

theorem announces_patchValue :
    Announces store
      (patchValue currentAddr store authorization table key body now) := by
  unfold patchValue
  split
  · exact announces_of_unchanged rfl (fun _ _ => rfl)
  · dsimp only
    split
    · exact announces_of_unchanged rfl
        (fun other otherKey => store.record_orDefault table other otherKey)
    · exact announces_insertRecord rfl rfl

theorem announces_deleteValue (clusterSecret : String) :
    Announces store
      (deleteValue clusterSecret store header authorization table key) := by
  unfold deleteValue
  split
  · exact announces_removeRecord rfl rfl
  · split
    · exact announces_of_unchanged rfl (fun _ _ => rfl)
    · dsimp only
      split
      · exact announces_of_unchanged rfl (fun _ _ => rfl)
      · exact announces_of_unchanged rfl (fun _ _ => rfl)

theorem announces_putValueInternal (clusterSecret : String)
    (incoming : VersionedValue) :
    Announces store
      (putValueInternal clusterSecret store header table key incoming) := by
  unfold putValueInternal
  split
  · exact announces_of_unchanged rfl (fun _ _ => rfl)
  · exact announces_insertRecord rfl rfl

theorem announces_access (user : String) (userHeader : Option HeaderValue)
    (secret : AccessBody) :
    Announces store
      (access environment currentAddr store header user userHeader secret
        now) := by
  have opened : ∀ table key,
      (store.orDefault "auth").record table key = store.record table key :=
    store.record_orDefault "auth"
  unfold access
  split
  · cases secret with
    | bincode hashed =>
        exact announces_insertRecord rfl rfl
    | _ =>
        exact announces_of_unchanged rfl (fun _ _ => rfl)
  · cases secret with
    | json password =>
        dsimp only
        split
        · exact announces_insertRecord rfl rfl
        · split
          · exact announces_of_unchanged rfl opened
          · split
            · exact announces_of_unchanged rfl opened
            · exact announces_of_unchanged rfl opened
    | _ =>
        exact announces_of_unchanged rfl (fun _ _ => rfl)

theorem announces_adminPutRecord :
    Announces store
      (adminPutRecord currentAddr store authorization table key body
        now) := by
  unfold adminPutRecord
  split
  · exact announces_insertRecord rfl rfl
  · exact announces_of_unchanged rfl (fun _ _ => rfl)

theorem announces_adminDeleteRecord :
    Announces store (adminDeleteRecord store authorization table key) := by
  unfold adminDeleteRecord
  split
  · exact announces_removeRecord rfl rfl
  · exact announces_of_unchanged rfl (fun _ _ => rfl)

end Handlers

theorem announces_handle (environment : Environment) (currentAddr : String)
    (store : Store) (header : Option HeaderValue) (request : Request)
    (now : Nat) :
    Announces store
      (handle environment currentAddr store header request now) := by
  cases request with
  | putValue authorization table key body =>
      exact announces_putValue _ _ _ _ _ _ _
  | patchValue authorization table key body =>
      exact announces_patchValue _ _ _ _ _ _ _
  | deleteValue authorization table key =>
      exact announces_deleteValue _ _ _ _ _ _
  | putValueInternal table key incoming =>
      exact announces_putValueInternal _ _ _ _ _ _
  | access user userHeader secret =>
      exact announces_access _ _ _ _ _ _ _ _
  | adminPutRecord authorization table key body =>
      exact announces_adminPutRecord _ _ _ _ _ _ _
  | adminDeleteRecord authorization table key =>
      exact announces_adminDeleteRecord _ _ _ _
  | getValue authorization table key =>
      obtain ⟨response, task, result⟩ :=
        handle_getValue authorization table key
      rw [result]
      exact announces_of_unchanged rfl (fun _ _ => rfl)
  | _ =>
      apply announces_of_unchanged (notification_of_answersOnly rfl)
      intro other otherKey
      rw [store_of_answersOnly rfl]

namespace ServingNode

/-- Everything one step of a serving node can do. -/
inductive Taken (environment : Environment) (currentAddr : String)
    (node : ServingNode) : ServingEvent → ServingNode → Prop
  | request (header : Option HeaderValue) (request : Request)
      (replicas : ReplicaAnswers) (now : Nat) :
      Taken environment currentAddr node
        (.request header request replicas now)
        (node.takeOver request
          (handle environment currentAddr node.store header request now)
          (answerOf (handle environment currentAddr node.store header request
            now) replicas))
  | remove (index : Nat) (removal : Removal) :
      node.removals[index]? = some removal →
      Taken environment currentAddr node (.remove index)
        (({ node with
            removals := node.removals.eraseIdx index } :
              ServingNode).takeOver removal.request
          (deleteRemove node.store removal.table removal.key)
          (deleteRemove node.store removal.table removal.key).response)
  | notify (index number : Nat) (announced : Notification) :
      node.pending[index]? = some number →
      node.changes[number]? = some announced →
      Taken environment currentAddr node (.notify index)
        { node with
          pending := node.pending.eraseIdx index
          manager := node.manager.notify announced.table announced.key
            announced.event }
  | subscribers (event : SubscriptionEvent) (manager : SubscriptionManager) :
      (∀ table key announced, event ≠ .notify table key announced) →
      node.manager.step event = some manager →
      Taken environment currentAddr node (.subscribers event)
        { node with manager := manager }

theorem taken_of_step {environment : Environment} {currentAddr : String}
    {node next : ServingNode} {event : ServingEvent}
    (taken : step environment currentAddr node event = some next) :
    Taken environment currentAddr node event next := by
  cases event with
  | request header request replicas now =>
      cases taken
      exact .request header request replicas now
  | remove index =>
      rw [step] at taken
      split at taken
      · rename_i removal found
        cases taken
        exact .remove index removal found
      · cases taken
  | notify index =>
      rw [step] at taken
      split at taken
      · rename_i number waiting
        split at taken
        · rename_i announced found
          cases taken
          exact .notify index number announced waiting found
        · cases taken
      · cases taken
  | subscribers event =>
      cases event with
      | notify table key announced =>
          cases taken
      | _ =>
          simp only [step] at taken
          obtain ⟨manager, made, result⟩ := Option.map_eq_some_iff.mp taken
          rw [← result]
          exact .subscribers _ manager (by simp) made

end ServingNode

end DynaRust.Network
