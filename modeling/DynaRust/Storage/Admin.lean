import DynaRust.Storage.Engine

/-!
# The admin handlers
-/

namespace DynaRust.Storage

open DynaRust.Foundation DynaRust.Network

/-- A token counts as an admin token when it decodes with `admin: true`. -/
def validateAdminToken : Authorization → Bool
  | .bearer claims => claims.admin.getD false
  | _ => false

/-- `env::var("ADMIN_PASSWORD").unwrap_or_else(|_| "admin123")`. -/
def masterPassword (environment : Environment) : String :=
  environment.adminPasswordVar.getD "admin123"

def adminLogin (environment : Environment) (store : Store)
    (password : String) : Outcome :=
  if password = masterPassword environment then
    { store := store
      response := some ⟨200, .token ⟨"admin", some true⟩ none⟩ }
  else
    { store := store, response := some ⟨401, .empty⟩ }

/-- The response of a handler that refuses a request without an admin
token. -/
def unauthorized (store : Store) : Outcome :=
  { store := store, response := some ⟨401, .empty⟩ }

def adminGetTables (store : Store) (authorization : Authorization) : Outcome :=
  if validateAdminToken authorization then
    { store := store, response := some ⟨200, .keys store.keys⟩ }
  else
    unauthorized store

def adminGetKeys (store : Store) (authorization : Authorization)
    (tableName : String) : Outcome :=
  if validateAdminToken authorization then
    match store.lookup tableName with
    | some records =>
        { store := store, response := some ⟨200, .keys records.keys⟩ }
    | none => { store := store, response := some ⟨404, .empty⟩ }
  else
    unauthorized store

def adminGetRecord (store : Store) (authorization : Authorization)
    (tableName key : String) : Outcome :=
  if validateAdminToken authorization then
    match store.record tableName key with
    | some found => { store := store, response := some ⟨200, .record found⟩ }
    | none => { store := store, response := some ⟨404, .empty⟩ }
  else
    unauthorized store

/-- Admin PUT bypasses the ownership check but updates the version. -/
def adminPutLocal (existing : Option VersionedValue)
    (body : HashMap String Value) (currentAddr : String) (now : Nat) :
    VersionedValue :=
  match existing with
  | some existing => existing.update body currentAddr now
  | none => VersionedValue.new body "admin" currentAddr now

def adminPutRecord (currentAddr : String) (store : Store)
    (authorization : Authorization) (tableName keyVal : String)
    (body : HashMap String Value) (now : Nat) : Outcome :=
  if validateAdminToken authorization then
    let opened := store.orDefault tableName
    let newValue :=
      adminPutLocal (opened.record tableName keyVal) body currentAddr now
    { store := opened.insertRecord tableName keyVal newValue
      response := some ⟨200, .record newValue⟩
      notification := some ⟨tableName, keyVal, .updated newValue⟩
      task := some (.fanOut
        (.replicateAdminChange tableName keyVal newValue)) }
  else
    unauthorized store

def adminDeleteRecord (store : Store) (authorization : Authorization)
    (tableName keyVal : String) : Outcome :=
  if validateAdminToken authorization then
    { store := store.removeRecord tableName keyVal
      response := some ⟨200, .message "Deleted by admin"⟩
      notification := some ⟨tableName, keyVal, .deleted⟩
      task := some (.fanOut (.adminDeleteRecord tableName keyVal)) }
  else
    unauthorized store

end DynaRust.Storage
