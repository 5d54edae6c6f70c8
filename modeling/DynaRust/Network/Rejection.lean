import DynaRust.Network.Dispatch
import DynaRust.Network.Membership

/-!
# Rejected writes

The handlers that write open the table with `entry(..).or_default()` before
they check the record.  That creates a missing table, and PATCH is the one
handler that can still refuse then.
-/

namespace DynaRust.Network

open DynaRust.Foundation DynaRust.Security DynaRust.Storage

/-- The table and key that a writing request is about. -/
def Request.target : Request → Option (String × String)
  | .putValue _ table key _ => some (table, key)
  | .patchValue _ table key _ => some (table, key)
  | .deleteValue _ table key => some (table, key)
  | .putValueInternal table key _ => some (table, key)
  | .access user _ _ => some ("auth", user)
  | .adminPutRecord _ table key _ => some (table, key)
  | .adminDeleteRecord _ table key => some (table, key)
  | _ => none

/-- The handler up to its answer, with no other step in between. -/
def handleToAnswer (environment : Environment) (currentAddr : String)
    (store : Store) (header : Option HeaderValue) (request : Request)
    (now : Nat) : Outcome :=
  let outcome := handle environment currentAddr store header request now
  match outcome.task with
  | some (.remove table key) => deleteRemove outcome.store table key
  | _ => outcome

/-- All other tables, and all other records of the table, are as before. -/
structure OnlyChanged (table key : String) (before after : Store) : Prop where
  tables : ∀ other, other ≠ table → after.lookup other = before.lookup other
  records : ∀ other, other ≠ key →
    after.record table other = before.record table other

theorem OnlyChanged.refl (table key : String) (store : Store) :
    OnlyChanged table key store store where
  tables := fun _ _ => rfl
  records := fun _ _ => rfl

theorem onlyChanged_insertRecord (store : Store) (table key : String)
    (inserted : VersionedValue) :
    OnlyChanged table key store (store.insertRecord table key inserted) where
  tables := fun other different => by
    rw [Store.insertRecord, Finmap.lookup_insert_of_ne _ different]
  records := fun other different => by
    rw [Store.record_insertRecord, if_neg (fun both => different both.2)]

theorem onlyChanged_put (store : Store) (table key : String)
    (inserted : VersionedValue) :
    OnlyChanged table key store
      ((store.orDefault table).insertRecord table key inserted) where
  tables := fun other different => by
    rw [(onlyChanged_insertRecord _ table key inserted).tables other different,
      Store.orDefault]
    split
    · rfl
    · exact Finmap.lookup_insert_of_ne _ different
  records := fun other different => by
    rw [(onlyChanged_insertRecord _ table key inserted).records other different,
      Store.record_orDefault]

theorem onlyChanged_removeRecord (store : Store) (table key : String) :
    OnlyChanged table key store (store.removeRecord table key) where
  tables := fun other different => by
    rw [Store.removeRecord]
    split
    · exact Finmap.lookup_insert_of_ne _ different
    · rfl
  records := fun other different => by
    rw [Store.record_removeRecord, if_neg (fun both => different both.2)]

/-- An error answer comes with no effect, a success with one on the target
only. -/
def AnswersCleanly (table key : String) (before : Store)
    (outcome : Outcome) : Prop :=
  ∃ response, outcome.response = some response ∧
    (response.isSuccess = false →
      outcome.store = before ∧ outcome.notification = none ∧
        outcome.task = none) ∧
    (response.isSuccess = true →
      OnlyChanged table key before outcome.store)

theorem answersCleanly_of_refused {table key : String} {store : Store}
    {response : Response} (error : response.isSuccess = false) :
    AnswersCleanly table key store
      { store := store, response := some response } :=
  ⟨response, rfl, fun _ => ⟨rfl, rfl, rfl⟩,
    fun success => by simp [error] at success⟩

theorem answersCleanly_of_accepted {table key : String} {before : Store}
    {outcome : Outcome} {response : Response}
    (answer : outcome.response = some response)
    (success : response.isSuccess = true)
    (changed : OnlyChanged table key before outcome.store) :
    AnswersCleanly table key before outcome :=
  ⟨response, answer, fun error => by simp [success] at error,
    fun _ => changed⟩

theorem extractUserFromToken_error {authorization : Authorization}
    {response : Response}
    (refused : extractUserFromToken authorization = .error response) :
    response.isSuccess = false := by
  cases authorization with
  | bearer claims =>
      cases refused
  | _ =>
      cases refused
      rfl

/-- Opening a table that holds a record creates nothing. -/
theorem orDefault_of_record {store : Store} {table key : String}
    {existing : VersionedValue}
    (stored : store.record table key = some existing) :
    store.orDefault table = store := by
  cases found : store.lookup table with
  | none =>
      rw [Store.record, found] at stored
      cases stored
  | some records =>
      rw [Store.orDefault, found]

/-- Opening a missing table adds it. -/
theorem orDefault_ne_self {store : Store} {table : String}
    (missing : store.lookup table = none) : store.orDefault table ≠ store := by
  intro same
  have opened : (store.orDefault table).lookup table = some ∅ := by
    simp [Store.orDefault, missing]
  rw [same, missing] at opened
  cases opened

/-! ## Handler by handler -/

section Handlers

variable (currentAddr : String) (store : Store)
  (authorization : Authorization) (table key : String)
  (body : HashMap String Value) (now : Nat)

theorem answersCleanly_putValue :
    AnswersCleanly table key store
      (putValue currentAddr store authorization table key body now) := by
  unfold putValue
  cases extracted : extractUserFromToken authorization with
  | error response =>
      exact answersCleanly_of_refused (extractUserFromToken_error extracted)
  | ok user =>
      simp only [Store.record_orDefault]
      cases stored : store.record table key with
      | none =>
          exact answersCleanly_of_accepted rfl rfl
            (onlyChanged_put store table key _)
      | some existing =>
          rw [orDefault_of_record stored]
          by_cases own : existing.owner = user
          · simp only [putLocal, own, ne_eq, not_true_eq_false, if_false]
            exact answersCleanly_of_accepted rfl rfl
              (onlyChanged_insertRecord store table key _)
          · simp only [putLocal, own, ne_eq, not_false_eq_true, if_true]
            exact answersCleanly_of_refused rfl

/-- A PATCH is refused after it may have created its table. -/
theorem answersCleanly_patchValue_iff :
    AnswersCleanly table key store
        (patchValue currentAddr store authorization table key body now) ↔
      ¬ ((∃ claims, authorization = .bearer claims) ∧
        store.lookup table = none) := by
  unfold patchValue
  cases extracted : extractUserFromToken authorization with
  | error response =>
      have noToken : ¬ ∃ claims, authorization = .bearer claims := by
        intro ⟨claims, bearer⟩
        rw [bearer] at extracted
        cases extracted
      simp only [noToken, false_and, not_false_eq_true, iff_true]
      exact answersCleanly_of_refused (extractUserFromToken_error extracted)
  | ok user =>
      obtain ⟨claims, bearer, _⟩ := extractUserFromToken_eq_ok_iff.mp extracted
      have token : ∃ claims, authorization = .bearer claims :=
        ⟨claims, bearer⟩
      simp only [token, true_and, Store.record_orDefault]
      cases stored : store.record table key with
      | none =>
          constructor
          · intro ⟨response, answer, onError, _⟩ missing
            cases Option.some.inj answer
            exact orDefault_ne_self missing (onError rfl).1
          · intro present
            have opened : store.orDefault table = store := by
              cases found : store.lookup table with
              | none =>
                  exact absurd found present
              | some records =>
                  rw [Store.orDefault, found]
            rw [opened]
            exact answersCleanly_of_refused rfl
      | some existing =>
          have present : store.lookup table ≠ none := by
            intro missing
            rw [Store.record, missing] at stored
            cases stored
          simp only [present, not_false_eq_true, iff_true]
          rw [orDefault_of_record stored]
          by_cases own : existing.owner = user
          · simp only [patchLocal, own, ne_eq, not_true_eq_false, if_false]
            exact answersCleanly_of_accepted rfl rfl
              (onlyChanged_insertRecord store table key _)
          · simp only [patchLocal, own, ne_eq, not_false_eq_true, if_true]
            exact answersCleanly_of_refused rfl

theorem answersCleanly_putValueInternal (clusterSecret : String)
    (header : Option HeaderValue) (incoming : VersionedValue) :
    AnswersCleanly table key store
      (putValueInternal clusterSecret store header table key incoming) := by
  unfold putValueInternal
  split
  · exact answersCleanly_of_refused rfl
  · exact answersCleanly_of_accepted rfl rfl
      (onlyChanged_put store table key _)

theorem answersCleanly_access (environment : Environment)
    (header : Option HeaderValue) (user : String)
    (userHeader : Option HeaderValue) (secret : AccessBody) :
    AnswersCleanly "auth" user store
      (access environment currentAddr store header user userHeader secret
        now) := by
  unfold access
  split
  · cases secret with
    | bincode hashed =>
        exact answersCleanly_of_accepted rfl rfl
          (onlyChanged_put store "auth" user _)
    | _ =>
        exact answersCleanly_of_refused rfl
  · cases secret with
    | json password =>
        simp only [Store.record_orDefault]
        cases stored : store.record "auth" user with
        | none =>
            exact answersCleanly_of_accepted rfl rfl
              (onlyChanged_put store "auth" user _)
        | some userRecord =>
            simp only [orDefault_of_record stored]
            split
            · exact answersCleanly_of_refused rfl
            · split
              · exact answersCleanly_of_refused rfl
              · exact answersCleanly_of_accepted rfl rfl
                  (OnlyChanged.refl "auth" user store)
    | _ =>
        exact answersCleanly_of_refused rfl

theorem answersCleanly_adminPutRecord :
    AnswersCleanly table key store
      (adminPutRecord currentAddr store authorization table key body
        now) := by
  unfold adminPutRecord
  split
  · exact answersCleanly_of_accepted rfl rfl
      (onlyChanged_put store table key _)
  · exact answersCleanly_of_refused rfl

theorem answersCleanly_adminDeleteRecord :
    AnswersCleanly table key store
      (adminDeleteRecord store authorization table key) := by
  unfold adminDeleteRecord
  split
  · exact answersCleanly_of_accepted rfl rfl
      (onlyChanged_removeRecord store table key)
  · exact answersCleanly_of_refused rfl

theorem answersCleanly_deleteRemove :
    AnswersCleanly table key store (deleteRemove store table key) :=
  answersCleanly_of_accepted rfl rfl (onlyChanged_removeRecord store table key)

end Handlers

/-- A handler that leaves no removal answers in its first step. -/
theorem handleToAnswer_of_not_delete {environment : Environment}
    {currentAddr : String} {store : Store} {header : Option HeaderValue}
    {request : Request} {now : Nat}
    (other : ∀ authorization table key,
      request ≠ .deleteValue authorization table key) :
    handleToAnswer environment currentAddr store header request now =
      handle environment currentAddr store header request now := by
  unfold handleToAnswer
  dsimp only
  split
  · rename_i table key left
    cases handlerTask_of_handle left with
    | delete claims _ _ existing =>
        exact absurd rfl (other (.bearer claims) table key)
  · rfl

theorem answersCleanly_deleteValue (environment : Environment)
    (currentAddr : String) (store : Store) (header : Option HeaderValue)
    (authorization : Authorization) (table key : String) (now : Nat) :
    AnswersCleanly table key store
      (handleToAnswer environment currentAddr store header
        (.deleteValue authorization table key) now) := by
  by_cases internal : headerPresents environment.clusterSecret header = true
  · simp only [handleToAnswer, handle, deleteValue, if_pos internal]
    exact answersCleanly_of_accepted rfl rfl
      (onlyChanged_removeRecord store table key)
  · cases extracted : extractUserFromToken authorization with
    | error response =>
        simp only [handleToAnswer, handle, deleteValue, if_neg internal,
          extracted]
        exact answersCleanly_of_refused (extractUserFromToken_error extracted)
    | ok user =>
        cases authorized : ((store.record table key).map
            fun existing => decide (existing.owner = user)).getD false with
        | true =>
            simp only [handleToAnswer, handle, deleteValue, if_neg internal,
              extracted, authorized, if_true]
            exact answersCleanly_deleteRemove store table key
        | false =>
            simp only [handleToAnswer, handle, deleteValue, if_neg internal,
              extracted, authorized, Bool.false_eq_true, if_false]
            exact answersCleanly_of_refused rfl

/-- A PATCH with a valid token in a table that does not exist. -/
def PatchesMissingTable (store : Store) : Request → Prop
  | .patchValue (.bearer _) table _ _ => store.lookup table = none
  | _ => False

/-- A writing request is answered with an error and no effect, or with success
and an effect on its target only, unless it patches a missing table. -/
theorem answers_cleanly_iff {environment : Environment}
    {currentAddr : String} {store : Store} {header : Option HeaderValue}
    {request : Request} {now : Nat} {table key : String}
    (writes : request.target = some (table, key)) :
    AnswersCleanly table key store
        (handleToAnswer environment currentAddr store header request now) ↔
      ¬ PatchesMissingTable store request := by
  cases request with
  | putValue authorization table' key' body =>
      cases writes
      rw [handleToAnswer_of_not_delete (by simp)]
      exact iff_of_true (answersCleanly_putValue _ _ _ _ _ _ _) id
  | patchValue authorization table' key' body =>
      cases writes
      rw [handleToAnswer_of_not_delete (by simp)]
      have same : ((∃ claims, authorization = .bearer claims) ∧
          store.lookup table = none) ↔
            PatchesMissingTable store
              (.patchValue authorization table key body) := by
        cases authorization <;> simp [PatchesMissingTable]
      exact (answersCleanly_patchValue_iff currentAddr store authorization
        table key body now).trans (not_congr same)
  | deleteValue authorization table' key' =>
      cases writes
      exact iff_of_true (answersCleanly_deleteValue _ _ _ _ _ _ _ _) id
  | putValueInternal table' key' incoming =>
      cases writes
      rw [handleToAnswer_of_not_delete (by simp)]
      exact iff_of_true (answersCleanly_putValueInternal _ _ _ _ _ _) id
  | access user userHeader secret =>
      cases writes
      rw [handleToAnswer_of_not_delete (by simp)]
      exact iff_of_true (answersCleanly_access _ _ _ _ _ _ _ _) id
  | adminPutRecord authorization table' key' body =>
      cases writes
      rw [handleToAnswer_of_not_delete (by simp)]
      exact iff_of_true (answersCleanly_adminPutRecord _ _ _ _ _ _ _) id
  | adminDeleteRecord authorization table' key' =>
      cases writes
      rw [handleToAnswer_of_not_delete (by simp)]
      exact iff_of_true (answersCleanly_adminDeleteRecord _ _ _ _) id
  | _ =>
      cases writes

/-- PATCH of a key in a table that nobody has created. -/
def missingTablePatch : Request :=
  .patchValue (.bearer ⟨"alice", none⟩) "notes" "n" ∅

theorem patch_creates_missing_table :
    (handleToAnswer bareEnvironment "n1" ∅ none missingTablePatch 5).response =
      some ⟨404, .error "Record not found"⟩ ∧
    (handleToAnswer bareEnvironment "n1" ∅ none
        missingTablePatch 5).store.lookup "notes" =
      some ∅ := by
  constructor <;> decide

theorem put_answers_cleanly :
    AnswersCleanly "notes" "n" ∅
      (handleToAnswer bareEnvironment "n1" ∅ none
        (.putValue (.bearer ⟨"alice", none⟩) "notes" "n" ∅) 5) :=
  (answers_cleanly_iff rfl).mpr id

end DynaRust.Network
