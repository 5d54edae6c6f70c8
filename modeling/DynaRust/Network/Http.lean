import DynaRust.Storage.Store

/-!
# Requests and responses

What the handlers read from a request and what they answer.  Headers are kept
as far as a handler looks at them, JSON bodies by what they hold.
-/

namespace DynaRust.Network

open DynaRust.Foundation DynaRust.Storage

/-- A header value; `to_str` fails on a binary one. -/
inductive HeaderValue where
  | text (content : String)
  | binary
  deriving DecidableEq, Repr

/-- `HeaderValue::to_str`. -/
@[simp]
def HeaderValue.toStr : HeaderValue → Option String
  | .text content => some content
  | .binary => none

/-- The claims of a token; only tokens of `admin_login` carry `admin`. -/
structure TokenClaims where
  sub : String
  admin : Option Bool
  deriving DecidableEq, Repr

/-- The `Authorization` header: `rejected` is a bearer token that `decode`
refuses. -/
inductive Authorization where
  | missing
  | binary
  | notBearer
  | rejected
  | bearer (claims : TokenClaims)
  deriving DecidableEq, Repr

/-- The body of `POST /auth/{user}`, by the decoder that accepts it. -/
inductive AccessBody where
  | bincode (secret : String)
  | json (secret : String)
  | malformed
  deriving DecidableEq, Repr

inductive ResponseBody where
  | empty
  | text (content : String)
  | error (message : String)
  | message (content : String)
  | status (content : String)
  | record (stored : VersionedValue)
  | optionalRecord (stored : Option VersionedValue)
  | keys (listed : Finset String)
  | table (records : Table)
  | store (tables : Store)
  | token (claims : TokenClaims) (status : Option String)
  deriving DecidableEq

structure Response where
  status : Nat
  body : ResponseBody
  deriving DecidableEq

/-- Success statuses. -/
def Response.isSuccess (response : Response) : Bool :=
  decide (200 ≤ response.status ∧ response.status < 300)

/-- The requests a node handles that read or write its store. -/
inductive Request where
  | getValue (authorization : Authorization) (table key : String)
  | putValue (authorization : Authorization) (table key : String)
      (body : HashMap String Value)
  | patchValue (authorization : Authorization) (table key : String)
      (body : HashMap String Value)
  | deleteValue (authorization : Authorization) (table key : String)
  | putValueInternal (table key : String) (body : VersionedValue)
  | getTableStore (table : String)
  | getAllKeys (table : String)
  | getMultipleKeys (table : String) (keys : List String)
  | getGlobalStore (apiKey : Option HeaderValue)
  | access (user : String) (userHeader : Option HeaderValue)
      (body : AccessBody)
  | adminLogin (password : String)
  | adminGetTables (authorization : Authorization)
  | adminGetKeys (authorization : Authorization) (table : String)
  | adminGetRecord (authorization : Authorization) (table key : String)
  | adminPutRecord (authorization : Authorization) (table key : String)
      (body : HashMap String Value)
  | adminDeleteRecord (authorization : Authorization) (table key : String)
  deriving DecidableEq

/-- The token a request presents; some handlers ask for none. -/
def Request.authorization : Request → Authorization
  | .getValue authorization _ _ => authorization
  | .putValue authorization _ _ _ => authorization
  | .patchValue authorization _ _ _ => authorization
  | .deleteValue authorization _ _ => authorization
  | .adminGetTables authorization => authorization
  | .adminGetKeys authorization _ => authorization
  | .adminGetRecord authorization _ _ => authorization
  | .adminPutRecord authorization _ _ _ => authorization
  | .adminDeleteRecord authorization _ _ => authorization
  | _ => .missing

inductive KeyEvent where
  | updated (record : VersionedValue)
  | deleted
  deriving DecidableEq

/-- An event passed to `SubscriptionManager::notify`. -/
structure Notification where
  table : String
  key : String
  event : KeyEvent
  deriving DecidableEq

/-- What a handler still has to send to the other nodes after its own store
step. -/
inductive FanOut where
  | putValue (table key : String) (payload : VersionedValue)
  | patchValue (table key : String) (payload : VersionedValue)
  | deleteValue (table key : String)
  | replicateAdminChange (table key : String) (payload : VersionedValue)
  | adminDeleteRecord (table key : String)
  | access (username hashedSecret : String)
  deriving DecidableEq

/-- A handler that is suspended at an await point. -/
inductive Task where
  /-- Store step done; the membership has not been read yet. -/
  | fanOut (pending : FanOut)
  /-- `delete_value` has passed its ownership check, the removal is next. -/
  | remove (table key : String)
  /-- `get_value` is about to read the membership. -/
  | read (user table key : String)
  /-- `get_value` waits for its replicas; `none` is a failed request. -/
  | collect (user table key : String) (targets : List String)
      (answers : List (String × Option (Option VersionedValue)))
  deriving DecidableEq

/-- What one step of a handler does. -/
structure Outcome where
  store : Store
  response : Option Response := none
  notification : Option Notification := none
  task : Option Task := none

/-- Process environment and the hash functions of the standard library and of
`sha2`. -/
structure Environment where
  clusterSecretVar : Option String
  adminPasswordVar : Option String
  /-- `DefaultHasher` on a string. -/
  hash : String → UInt64
  /-- `hex::encode(Sha256::digest(..))`. -/
  sha256Hex : String → String

/-- `env::var("CLUSTER_SECRET").unwrap_or_else(|_| "default_secret")`. -/
def Environment.clusterSecret (environment : Environment) : String :=
  environment.clusterSecretVar.getD "default_secret"

/-- `env::var("CLUSTER_SECRET").unwrap_or_default()`. -/
def Environment.clusterSecretOrEmpty (environment : Environment) : String :=
  environment.clusterSecretVar.getD ""

/-- `if let Some(h) = header { h.to_str().unwrap_or("") == secret }`. -/
def headerPresents (secret : String) : Option HeaderValue → Bool
  | some header => header.toStr.getD "" == secret
  | none => false

/-- `header.and_then(|h| h.to_str().ok()).unwrap_or("")`. -/
def providedSecret (header : Option HeaderValue) : String :=
  (header.bind HeaderValue.toStr).getD ""

theorem providedSecret_eq_of_headerPresents {secret : String}
    {header : Option HeaderValue}
    (presents : headerPresents secret header = true) :
    providedSecret header = secret := by
  cases header with
  | none =>
      cases presents
  | some value =>
      simpa [headerPresents, providedSecret] using presents

/-- Helper function to extract the user (subject) from the JWT token. -/
def extractUserFromToken : Authorization → Except Response String
  | .bearer claims => .ok claims.sub
  | .rejected => .error ⟨401, .error "Invalid JWT token"⟩
  | .notBearer => .error ⟨401, .error "Invalid authorization header format"⟩
  | .binary => .error ⟨401, .error "Invalid authorization header"⟩
  | .missing => .error ⟨401, .error "Missing Authorization header"⟩

theorem extractUserFromToken_eq_ok_iff {authorization : Authorization}
    {user : String} :
    extractUserFromToken authorization = .ok user ↔
      ∃ claims, authorization = .bearer claims ∧ claims.sub = user := by
  cases authorization <;> simp [extractUserFromToken]

end DynaRust.Network
