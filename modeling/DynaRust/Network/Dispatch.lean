import DynaRust.Foundation.Cell
import DynaRust.Network.Replication
import DynaRust.Security.Authentication
import DynaRust.Storage.Admin

/-!
# One request at one node

`handle` calls the handler of a request.  `requestChange` says what the
request does to one record; every later argument about stores goes through it.
-/

namespace DynaRust.Network

open DynaRust.Foundation DynaRust.Security DynaRust.Storage

/-- The handler of a request, at the node `currentAddr`. -/
def handle (environment : Environment) (currentAddr : String) (store : Store)
    (header : Option HeaderValue) (request : Request) (now : Nat) : Outcome :=
  match request with
  | .getValue authorization table key =>
      getValue environment.clusterSecret store header authorization table key
  | .putValue authorization table key body =>
      putValue currentAddr store authorization table key body now
  | .patchValue authorization table key body =>
      patchValue currentAddr store authorization table key body now
  | .deleteValue authorization table key =>
      deleteValue environment.clusterSecret store header authorization
        table key
  | .putValueInternal table key body =>
      putValueInternal environment.clusterSecret store header table key body
  | .getTableStore table => getTableStore store table
  | .getAllKeys table => getAllKeys store table
  | .getMultipleKeys table keys => getMultipleKeys store table keys
  | .getGlobalStore apiKey =>
      getGlobalStore environment.clusterSecret store apiKey
  | .access user userHeader body =>
      access environment currentAddr store header user userHeader body now
  | .adminLogin password => adminLogin environment store password
  | .adminGetTables authorization => adminGetTables store authorization
  | .adminGetKeys authorization table =>
      adminGetKeys store authorization table
  | .adminGetRecord authorization table key =>
      adminGetRecord store authorization table key
  | .adminPutRecord authorization table key body =>
      adminPutRecord currentAddr store authorization table key body now
  | .adminDeleteRecord authorization table key =>
      adminDeleteRecord store authorization table key

/-- The requests that are done with their answer. -/
def Request.answersOnly : Request → Bool
  | .getTableStore _ => true
  | .getAllKeys _ => true
  | .getMultipleKeys _ _ => true
  | .getGlobalStore _ => true
  | .adminLogin _ => true
  | .adminGetTables _ => true
  | .adminGetKeys _ _ => true
  | .adminGetRecord _ _ _ => true
  | _ => false

section Reading

variable {environment : Environment} {currentAddr : String} {store : Store}
  {header : Option HeaderValue} {request : Request} {now : Nat}

theorem handle_of_answersOnly (answersOnly : request.answersOnly = true) :
    ∃ response, handle environment currentAddr store header request now =
      { store := store, response := some response } := by
  cases request with
  | getTableStore table =>
      simp only [handle, getTableStore]
      split <;> exact ⟨_, rfl⟩
  | getAllKeys table =>
      simp only [handle, getAllKeys]
      split <;> exact ⟨_, rfl⟩
  | getMultipleKeys table keys =>
      simp only [handle, getMultipleKeys]
      split <;> exact ⟨_, rfl⟩
  | getGlobalStore apiKey =>
      simp only [handle, getGlobalStore]
      split
      · split <;> exact ⟨_, rfl⟩
      · exact ⟨_, rfl⟩
      · exact ⟨_, rfl⟩
  | adminLogin password =>
      simp only [handle, adminLogin]
      split <;> exact ⟨_, rfl⟩
  | adminGetTables authorization =>
      simp only [handle, adminGetTables]
      split <;> exact ⟨_, rfl⟩
  | adminGetKeys authorization table =>
      simp only [handle, adminGetKeys]
      split
      · split <;> exact ⟨_, rfl⟩
      · exact ⟨_, rfl⟩
  | adminGetRecord authorization table key =>
      simp only [handle, adminGetRecord]
      split
      · split <;> exact ⟨_, rfl⟩
      · exact ⟨_, rfl⟩
  | _ =>
      cases answersOnly

theorem store_of_answersOnly (answersOnly : request.answersOnly = true) :
    (handle environment currentAddr store header request now).store =
      store := by
  obtain ⟨response, result⟩ := handle_of_answersOnly answersOnly
  rw [result]

theorem task_of_answersOnly (answersOnly : request.answersOnly = true) :
    (handle environment currentAddr store header request now).task =
      none := by
  obtain ⟨response, result⟩ := handle_of_answersOnly answersOnly
  rw [result]

theorem notification_of_answersOnly
    (answersOnly : request.answersOnly = true) :
    (handle environment currentAddr store header request
      now).notification = none := by
  obtain ⟨response, result⟩ := handle_of_answersOnly answersOnly
  rw [result]

theorem handle_getValue (authorization : Authorization)
    (table key : String) :
    ∃ response task, handle environment currentAddr store header
        (.getValue authorization table key) now =
      { store := store, response := response, task := task } := by
  simp only [handle, getValue]
  split
  · exact ⟨_, none, rfl⟩
  · split
    · exact ⟨_, none, rfl⟩
    · exact ⟨none, _, rfl⟩

theorem store_of_getValue {authorization : Authorization}
    {table key : String} :
    (handle environment currentAddr store header
      (.getValue authorization table key) now).store = store := by
  obtain ⟨response, task, result⟩ := handle_getValue authorization table key
  rw [result]

end Reading

/-! ## What a request does to one record -/

/-- An accepted PUT writes its record. -/
def putChange (existing : Option VersionedValue)
    (authorization : Authorization) (body : HashMap String Value)
    (currentAddr : String) (now : Nat) : Change VersionedValue :=
  match extractUserFromToken authorization with
  | .error _ => .keep
  | .ok user =>
      match putLocal existing user body currentAddr now with
      | .error _ => .keep
      | .ok newValue => .write newValue

/-- An accepted PATCH rewrites a record that is there. -/
def patchChange (existing : Option VersionedValue)
    (authorization : Authorization) (body : HashMap String Value)
    (currentAddr : String) (now : Nat) : Change VersionedValue :=
  match extractUserFromToken authorization with
  | .error _ => .keep
  | .ok user =>
      match patchLocal existing user body currentAddr now with
      | .error _ => .keep
      | .ok newValue => .modify newValue

/-- Registration and replicated registration write `auth`. -/
def accessChange (environment : Environment) (currentAddr : String)
    (existing : Option VersionedValue) (header : Option HeaderValue)
    (username : String) (userHeader : Option HeaderValue) (body : AccessBody)
    (now : Nat) : Change VersionedValue :=
  if headerPresents environment.clusterSecret header then
    match body with
    | .bincode hashed =>
        .write (VersionedValue.new (secretMap hashed)
          ((userHeader.bind HeaderValue.toStr).getD username)
          currentAddr now)
    | _ => .keep
  else
    match body, existing with
    | .json secret, none =>
        .write (VersionedValue.new (secretMap (environment.sha256Hex secret))
          username currentAddr now)
    | _, _ => .keep

/-- What handling `request` does to the record under `table` and `key`. -/
def requestChange (environment : Environment) (currentAddr : String)
    (store : Store) (header : Option HeaderValue) (request : Request)
    (now : Nat) (table key : String) : Change VersionedValue :=
  match request with
  | .putValue authorization table' key' body =>
      .onlyIf (table = table' ∧ key = key')
        (putChange (store.record table' key') authorization body
          currentAddr now)
  | .patchValue authorization table' key' body =>
      .onlyIf (table = table' ∧ key = key')
        (patchChange (store.record table' key') authorization body
          currentAddr now)
  | .deleteValue _ table' key' =>
      .onlyIf ((table = table' ∧ key = key') ∧
        headerPresents environment.clusterSecret header = true) .remove
  | .putValueInternal table' key' incoming =>
      .onlyIf ((table = table' ∧ key = key') ∧
        providedSecret header = environment.clusterSecret) (.receive incoming)
  | .access user userHeader body =>
      .onlyIf (table = "auth" ∧ key = user)
        (accessChange environment currentAddr (store.record "auth" user)
          header user userHeader body now)
  | .adminPutRecord authorization table' key' body =>
      .onlyIf ((table = table' ∧ key = key') ∧
        validateAdminToken authorization = true)
        (.write (adminPutLocal (store.record table' key') body
          currentAddr now))
  | .adminDeleteRecord authorization table' key' =>
      .onlyIf ((table = table' ∧ key = key') ∧
        validateAdminToken authorization = true) .remove
  | _ => .keep

private theorem record_putValue (currentAddr : String) (store : Store)
    (authorization : Authorization) (tableName keyVal : String)
    (body : HashMap String Value) (now : Nat) (table key : String) :
    (putValue currentAddr store authorization tableName keyVal body
        now).store.record table key =
      (Change.onlyIf (table = tableName ∧ key = keyVal)
        (putChange (store.record tableName keyVal) authorization body
          currentAddr now)).apply mergeIncoming (store.record table key) := by
  rw [Change.onlyIf_apply]
  unfold putValue putChange
  cases extractUserFromToken authorization with
  | error response =>
      simp
  | ok user =>
      simp only [Store.record_orDefault]
      cases putLocal (store.record tableName keyVal) user body currentAddr
          now with
      | error response =>
          simp
      | ok newValue =>
          simp only [Store.record_insertRecord, Store.record_orDefault,
            Change.apply_write]

private theorem record_patchValue (currentAddr : String) (store : Store)
    (authorization : Authorization) (tableName keyVal : String)
    (body : HashMap String Value) (now : Nat) (table key : String) :
    (patchValue currentAddr store authorization tableName keyVal body
        now).store.record table key =
      (Change.onlyIf (table = tableName ∧ key = keyVal)
        (patchChange (store.record tableName keyVal) authorization body
          currentAddr now)).apply mergeIncoming (store.record table key) := by
  rw [Change.onlyIf_apply]
  unfold patchValue patchChange
  cases extractUserFromToken authorization with
  | error response =>
      simp
  | ok user =>
      simp only [Store.record_orDefault]
      cases accepted : patchLocal (store.record tableName keyVal) user body
          currentAddr now with
      | error response =>
          simp
      | ok newValue =>
          obtain ⟨base, found, -, -⟩ := patchLocal_eq_ok_iff.mp accepted
          simp only [Store.record_insertRecord, Store.record_orDefault,
            Change.apply_modify]
          by_cases same : table = tableName ∧ key = keyVal
          · rw [if_pos same, if_pos same, same.1, same.2, found]
            rfl
          · rw [if_neg same, if_neg same]

private theorem record_access (environment : Environment)
    (currentAddr : String) (store : Store) (header : Option HeaderValue)
    (username : String) (userHeader : Option HeaderValue) (body : AccessBody)
    (now : Nat) (table key : String) :
    (access environment currentAddr store header username userHeader body
        now).store.record table key =
      (Change.onlyIf (table = "auth" ∧ key = username)
        (accessChange environment currentAddr (store.record "auth" username)
          header username userHeader body now)).apply mergeIncoming
        (store.record table key) := by
  rw [Change.onlyIf_apply]
  unfold access accessChange
  by_cases internal : headerPresents environment.clusterSecret header = true
  · rw [if_pos internal, if_pos internal]
    cases body with
    | bincode hashed =>
        simp only [Store.record_insertRecord, Store.record_orDefault,
          Change.apply_write]
    | json secret =>
        simp
    | malformed =>
        simp
  · rw [if_neg internal, if_neg internal]
    cases body with
    | bincode hashed =>
        simp
    | malformed =>
        simp
    | json secret =>
        simp only [Store.record_orDefault]
        cases store.record "auth" username with
        | none =>
            simp only [Store.record_insertRecord, Store.record_orDefault,
              Change.apply_write]
        | some userRecord =>
            cases stored : storedHash userRecord with
            | none =>
                simp [stored]
            | some hash =>
                by_cases same : hash = environment.sha256Hex secret
                · simp [stored, same]
                · simp [stored, same]

/-- Handling a request changes every record as `requestChange` says. -/
theorem record_handle (environment : Environment) (currentAddr : String)
    (store : Store) (header : Option HeaderValue) (request : Request)
    (now : Nat) (table key : String) :
    (handle environment currentAddr store header request
        now).store.record table key =
      (requestChange environment currentAddr store header request now
        table key).apply mergeIncoming (store.record table key) := by
  cases request with
  | putValue authorization table' key' body =>
      exact record_putValue currentAddr store authorization table' key' body
        now table key
  | patchValue authorization table' key' body =>
      exact record_patchValue currentAddr store authorization table' key'
        body now table key
  | access user userHeader body =>
      exact record_access environment currentAddr store header user
        userHeader body now table key
  | deleteValue authorization table' key' =>
      simp only [handle, requestChange, Change.onlyIf_apply,
        deleteValue]
      by_cases internal :
          headerPresents environment.clusterSecret header = true
      · simp [internal, Store.record_removeRecord]
      · simp only [internal, Bool.false_eq_true, and_false, if_false]
        cases extractUserFromToken authorization with
        | error response =>
            rfl
        | ok user =>
            dsimp only
            split <;> rfl
  | putValueInternal table' key' incoming =>
      simp only [handle, requestChange, Change.onlyIf_apply,
        putValueInternal]
      by_cases known : providedSecret header = environment.clusterSecret
      · simp only [known, ne_eq, not_true_eq_false, if_false, and_true,
          Store.record_insertRecord, Store.record_orDefault]
        by_cases same : table = table' ∧ key = key'
        · rw [if_pos same, if_pos same, same.1, same.2,
            Change.apply_receive]
        · rw [if_neg same, if_neg same]
      · simp [known]
  | adminPutRecord authorization table' key' body =>
      simp only [handle, requestChange, Change.onlyIf_apply,
        adminPutRecord]
      by_cases admin : validateAdminToken authorization = true
      · simp [admin, Store.record_insertRecord]
      · simp [admin, unauthorized]
  | adminDeleteRecord authorization table' key' =>
      simp only [handle, requestChange, Change.onlyIf_apply,
        adminDeleteRecord]
      by_cases admin : validateAdminToken authorization = true
      · simp [admin, Store.record_removeRecord]
      · simp [admin, unauthorized]
  | getValue authorization table' key' =>
      rw [store_of_getValue]
      rfl
  | _ =>
      rw [store_of_answersOnly rfl]
      rfl

/-! ## Which requests write -/

/-- A request does something to the record under `table` and `key`. -/
inductive RequestEffect (environment : Environment) (currentAddr : String)
    (store : Store) (header : Option HeaderValue) (now : Nat)
    (table key : String) : Request → Change VersionedValue → Prop
  | put (claims : TokenClaims) (body : HashMap String Value)
      (newValue : VersionedValue) :
      putLocal (store.record table key) claims.sub body currentAddr now =
        .ok newValue →
      RequestEffect environment currentAddr store header now table key
        (.putValue (.bearer claims) table key body) (.write newValue)
  | patch (claims : TokenClaims) (body : HashMap String Value)
      (newValue : VersionedValue) :
      patchLocal (store.record table key) claims.sub body currentAddr now =
        .ok newValue →
      RequestEffect environment currentAddr store header now table key
        (.patchValue (.bearer claims) table key body) (.modify newValue)
  | delete (authorization : Authorization) :
      headerPresents environment.clusterSecret header = true →
      RequestEffect environment currentAddr store header now table key
        (.deleteValue authorization table key) .remove
  | merge (incoming : VersionedValue) :
      providedSecret header = environment.clusterSecret →
      RequestEffect environment currentAddr store header now table key
        (.putValueInternal table key incoming) (.receive incoming)
  | register (userHeader : Option HeaderValue) (secret : String) :
      headerPresents environment.clusterSecret header = false →
      table = "auth" → store.record table key = none →
      RequestEffect environment currentAddr store header now table key
        (.access key userHeader (.json secret))
        (.write (VersionedValue.new (secretMap (environment.sha256Hex secret))
          key currentAddr now))
  | replicate (userHeader : Option HeaderValue) (hashed : String) :
      headerPresents environment.clusterSecret header = true →
      table = "auth" →
      RequestEffect environment currentAddr store header now table key
        (.access key userHeader (.bincode hashed))
        (.write (VersionedValue.new (secretMap hashed)
          ((userHeader.bind HeaderValue.toStr).getD key) currentAddr now))
  | adminPut (authorization : Authorization) (body : HashMap String Value) :
      validateAdminToken authorization = true →
      RequestEffect environment currentAddr store header now table key
        (.adminPutRecord authorization table key body)
        (.write (adminPutLocal (store.record table key) body currentAddr now))
  | adminDelete (authorization : Authorization) :
      validateAdminToken authorization = true →
      RequestEffect environment currentAddr store header now table key
        (.adminDeleteRecord authorization table key) .remove

/-- All that a request does to a record. -/
theorem requestChange_cases (environment : Environment) (currentAddr : String)
    (store : Store) (header : Option HeaderValue) (request : Request)
    (now : Nat) (table key : String) :
    requestChange environment currentAddr store header request now table
        key = .keep ∨
      RequestEffect environment currentAddr store header now table key request
        (requestChange environment currentAddr store header request now table
          key) := by
  cases request with
  | putValue authorization table' key' body =>
      apply Change.onlyIf_cases
      rintro ⟨rfl, rfl⟩
      unfold putChange
      cases extracted : extractUserFromToken authorization with
      | error response =>
          exact Or.inl rfl
      | ok user =>
          obtain ⟨claims, rfl, rfl⟩ :=
            extractUserFromToken_eq_ok_iff.mp extracted
          dsimp only
          split
          · exact Or.inl rfl
          · rename_i newValue accepted
            exact Or.inr (.put claims body newValue accepted)
  | patchValue authorization table' key' body =>
      apply Change.onlyIf_cases
      rintro ⟨rfl, rfl⟩
      unfold patchChange
      cases extracted : extractUserFromToken authorization with
      | error response =>
          exact Or.inl rfl
      | ok user =>
          obtain ⟨claims, rfl, rfl⟩ :=
            extractUserFromToken_eq_ok_iff.mp extracted
          dsimp only
          split
          · exact Or.inl rfl
          · rename_i newValue accepted
            exact Or.inr (.patch claims body newValue accepted)
  | deleteValue authorization table' key' =>
      apply Change.onlyIf_cases
      rintro ⟨⟨rfl, rfl⟩, presents⟩
      exact Or.inr (.delete authorization presents)
  | putValueInternal table' key' incoming =>
      apply Change.onlyIf_cases
      rintro ⟨⟨rfl, rfl⟩, presents⟩
      exact Or.inr (.merge incoming presents)
  | access user userHeader body =>
      apply Change.onlyIf_cases
      rintro ⟨rfl, rfl⟩
      unfold accessChange
      split
      · rename_i presents
        split
        · exact Or.inr (.replicate userHeader _ presents rfl)
        · exact Or.inl rfl
      · rename_i external
        split
        · rename_i secret missing
          exact Or.inr (.register userHeader secret
            (Bool.eq_false_iff.mpr external) rfl missing)
        · exact Or.inl rfl
  | adminPutRecord authorization table' key' body =>
      apply Change.onlyIf_cases
      rintro ⟨⟨rfl, rfl⟩, admin⟩
      exact Or.inr (.adminPut authorization body admin)
  | adminDeleteRecord authorization table' key' =>
      apply Change.onlyIf_cases
      rintro ⟨⟨rfl, rfl⟩, admin⟩
      exact Or.inr (.adminDelete authorization admin)
  | _ =>
      exact Or.inl rfl

theorem putChange_written_iff {existing : Option VersionedValue}
    {authorization : Authorization} {body : HashMap String Value}
    {currentAddr : String} {now : Nat} {newValue : VersionedValue} :
    (putChange existing authorization body currentAddr now).written =
        some newValue ↔
      ∃ claims, authorization = .bearer claims ∧
        putLocal existing claims.sub body currentAddr now = .ok newValue := by
  cases authorization with
  | bearer claims =>
      cases accepted :
          putLocal existing claims.sub body currentAddr now <;>
        simp [putChange, extractUserFromToken, Change.written, accepted]
  | _ =>
      simp [putChange, extractUserFromToken, Change.written]

theorem patchChange_written_iff {existing : Option VersionedValue}
    {authorization : Authorization} {body : HashMap String Value}
    {currentAddr : String} {now : Nat} {newValue : VersionedValue} :
    (patchChange existing authorization body currentAddr now).written =
        some newValue ↔
      ∃ claims, authorization = .bearer claims ∧
        patchLocal existing claims.sub body currentAddr now =
          .ok newValue := by
  cases authorization with
  | bearer claims =>
      cases accepted :
          patchLocal existing claims.sub body currentAddr now <;>
        simp [patchChange, extractUserFromToken, Change.written, accepted]
  | _ =>
      simp [patchChange, extractUserFromToken, Change.written]

/-! ## What a handler leaves to do -/

/-- The task that handling a request leaves behind, with the reason why. -/
inductive HandlerTask (environment : Environment) (currentAddr : String)
    (store : Store) (header : Option HeaderValue) (now : Nat) :
    Request → Task → Prop
  | put (authorization : Authorization) (table key : String)
      (body : HashMap String Value) (newValue : VersionedValue) :
      (putChange (store.record table key) authorization body currentAddr
        now).written = some newValue →
      HandlerTask environment currentAddr store header now
        (.putValue authorization table key body)
        (.fanOut (.putValue table key newValue))
  | patch (authorization : Authorization) (table key : String)
      (body : HashMap String Value) (newValue : VersionedValue) :
      (patchChange (store.record table key) authorization body currentAddr
        now).written = some newValue →
      HandlerTask environment currentAddr store header now
        (.patchValue authorization table key body)
        (.fanOut (.patchValue table key newValue))
  | delete (claims : TokenClaims) (table key : String)
      (existing : VersionedValue) :
      store.record table key = some existing → existing.owner = claims.sub →
      HandlerTask environment currentAddr store header now
        (.deleteValue (.bearer claims) table key) (.remove table key)
  | read (claims : TokenClaims) (table key : String) :
      HandlerTask environment currentAddr store header now
        (.getValue (.bearer claims) table key) (.read claims.sub table key)
  | register (user secret : String) (userHeader : Option HeaderValue) :
      store.record "auth" user = none →
      HandlerTask environment currentAddr store header now
        (.access user userHeader (.json secret))
        (.fanOut (.access user (environment.sha256Hex secret)))
  | adminPut (authorization : Authorization) (table key : String)
      (body : HashMap String Value) :
      validateAdminToken authorization = true →
      HandlerTask environment currentAddr store header now
        (.adminPutRecord authorization table key body)
        (.fanOut (.replicateAdminChange table key
          (adminPutLocal (store.record table key) body currentAddr now)))
  | adminDelete (authorization : Authorization) (table key : String) :
      validateAdminToken authorization = true →
      HandlerTask environment currentAddr store header now
        (.adminDeleteRecord authorization table key)
        (.fanOut (.adminDeleteRecord table key))

theorem handlerTask_of_handle {environment : Environment}
    {currentAddr : String} {store : Store} {header : Option HeaderValue}
    {request : Request} {now : Nat} {task : Task}
    (left : (handle environment currentAddr store header request now).task =
      some task) :
    HandlerTask environment currentAddr store header now request task := by
  cases request with
  | putValue authorization table key body =>
      simp only [handle, putValue, Store.record_orDefault] at left
      cases extracted : extractUserFromToken authorization with
      | error response =>
          simp [extracted] at left
      | ok user =>
          simp only [extracted] at left
          cases accepted :
              putLocal (store.record table key) user body currentAddr now with
          | error response =>
              simp [accepted] at left
          | ok newValue =>
              simp only [accepted] at left
              cases Option.some.inj left
              apply HandlerTask.put
              simp [putChange, extracted, accepted, Change.written]
  | patchValue authorization table key body =>
      simp only [handle, patchValue, Store.record_orDefault] at left
      cases extracted : extractUserFromToken authorization with
      | error response =>
          simp [extracted] at left
      | ok user =>
          simp only [extracted] at left
          cases accepted :
              patchLocal (store.record table key) user body currentAddr
                now with
          | error response =>
              simp [accepted] at left
          | ok newValue =>
              simp only [accepted] at left
              cases Option.some.inj left
              apply HandlerTask.patch
              simp [patchChange, extracted, accepted, Change.written]
  | deleteValue authorization table key =>
      simp only [handle, deleteValue] at left
      split at left
      · cases left
      · cases authorization with
        | bearer claims =>
            simp only [extractUserFromToken] at left
            split at left
            · rename_i authorized
              cases Option.some.inj left
              cases held : store.record table key with
              | none =>
                  simp [held] at authorized
              | some existing =>
                  simp only [held, Option.map_some, Option.getD_some,
                    decide_eq_true_eq] at authorized
                  exact .delete claims table key existing held authorized
            · cases left
        | _ =>
            cases left
  | getValue authorization table key =>
      simp only [handle, getValue] at left
      split at left
      · cases left
      · cases authorization with
        | bearer claims =>
            cases Option.some.inj left
            exact .read claims table key
        | _ =>
            cases left
  | access user userHeader body =>
      simp only [handle, access, Store.record_orDefault] at left
      split at left
      · cases body <;> cases left
      · cases body with
        | bincode hashed =>
            cases left
        | malformed =>
            cases left
        | json secret =>
            cases held : store.record "auth" user with
            | none =>
                simp only [held] at left
                cases Option.some.inj left
                exact .register user secret userHeader held
            | some userRecord =>
                simp only [held] at left
                split at left
                · cases left
                · split at left <;> cases left
  | adminPutRecord authorization table key body =>
      simp only [handle, adminPutRecord, Store.record_orDefault] at left
      split at left
      · rename_i admin
        cases Option.some.inj left
        exact .adminPut authorization table key body admin
      · cases left
  | adminDeleteRecord authorization table key =>
      simp only [handle, adminDeleteRecord] at left
      split at left
      · rename_i admin
        cases Option.some.inj left
        exact .adminDelete authorization table key admin
      · cases left
  | putValueInternal table key incoming =>
      simp only [handle, putValueInternal] at left
      split at left <;> cases left
  | _ =>
      rw [task_of_answersOnly rfl] at left
      cases left

/-- A replicated change leaves nothing to do. -/
theorem task_handle_internalRequest (environment : Environment)
    (currentAddr : String) (store : Store) (header : Option HeaderValue)
    (content : InternalRequest) (now : Nat) :
    (handle environment currentAddr store header content.request now).task =
      none := by
  cases left :
      (handle environment currentAddr store header content.request now).task
    with
  | none =>
      rfl
  | some task =>
      have known := handlerTask_of_handle left
      cases content <;> cases known

end DynaRust.Network
