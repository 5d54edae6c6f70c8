import DynaRust.Network.Cluster
import DynaRust.Network.Serving

/-!
# Records created by the admin

`admin_put_record` gives the records it creates to the owner `admin`, and the
handlers of the users compare owners by name only.  Whoever registers the
username `admin` is therefore taken for their owner.
-/

namespace DynaRust.Security

open DynaRust.Foundation DynaRust.Network DynaRust.Storage
open Network.ServingNode
open Cluster (sampleEnvironment aliceToken)

/-! ## Tokens -/

/-- Tokens are only signed in the answers of the handlers: these are the
answers of all nodes, at any time, that have handed out the tokens. -/
structure HandedOut (environment : Environment) where
  answers : List (Request × Response)
  genuine : ∀ answer ∈ answers, ∃ currentAddr store header now,
    (handle environment currentAddr store header answer.1 now).response =
      some answer.2

/-- The request was answered with a token with these claims. -/
def HandedOut.Issued {environment : Environment}
    (handedOut : HandedOut environment) (request : Request)
    (claims : TokenClaims) : Prop :=
  ∃ answer ∈ handedOut.answers, answer.1 = request ∧
    ∃ status, answer.2.body = .token claims status

/-- A token that `admin_login` has issued. -/
def HandedOut.AdminToken {environment : Environment}
    (handedOut : HandedOut environment) (authorization : Authorization) :
    Prop :=
  ∃ claims password, authorization = .bearer claims ∧
    handedOut.Issued (.adminLogin password) claims

/-- The requests that are answered with a token, and its claims. -/
inductive TokenOf : Request → TokenClaims → Prop
  | admin (password : String) :
      TokenOf (.adminLogin password) ⟨"admin", some true⟩
  | user (user : String) (userHeader : Option HeaderValue)
      (body : AccessBody) :
      TokenOf (.access user userHeader body) ⟨user, none⟩

theorem TokenOf.claims_of_access {user : String}
    {userHeader : Option HeaderValue} {body : AccessBody}
    {claims : TokenClaims}
    (token : TokenOf (.access user userHeader body) claims) :
    claims = ⟨user, none⟩ := by
  cases token with
  | user user userHeader body =>
      rfl

/-- Neither registration nor a login: no token in the answer. -/
def Untokened (outcome : Outcome) : Prop :=
  ∀ response, outcome.response = some response →
    ∀ claims status, response.body ≠ .token claims status

section Handlers

variable (environment : Environment) (currentAddr : String) (store : Store)
  (header : Option HeaderValue) (authorization : Authorization)
  (table key : String) (body : HashMap String Value) (now : Nat)

theorem untokened_putValue :
    Untokened
      (putValue currentAddr store authorization table key body now) := by
  intro response answered claims status
  cases authorization with
  | bearer presented =>
      simp only [putValue, extractUserFromToken] at answered
      unfold putLocal at answered
      split at answered
      · rename_i refused
        split at refused
        · split at refused
          · cases refused
            cases answered
            simp
          · cases refused
        · cases refused
      · cases answered
        simp
  | _ =>
      cases answered
      simp

theorem untokened_patchValue :
    Untokened
      (patchValue currentAddr store authorization table key body now) := by
  intro response answered claims status
  cases authorization with
  | bearer presented =>
      simp only [patchValue, extractUserFromToken] at answered
      unfold patchLocal at answered
      split at answered
      · rename_i refused
        split at refused
        · split at refused
          · cases refused
            cases answered
            simp
          · cases refused
        · cases refused
          cases answered
          simp
      · cases answered
        simp
  | _ =>
      cases answered
      simp

theorem untokened_deleteValue (clusterSecret : String) :
    Untokened
      (deleteValue clusterSecret store header authorization table key) := by
  intro response answered claims status
  unfold deleteValue at answered
  split at answered
  · cases answered
    simp
  · cases authorization with
    | bearer presented =>
        simp only [extractUserFromToken] at answered
        split at answered
        · cases answered
        · cases answered
          simp
    | _ =>
        cases answered
        simp

theorem untokened_getValue (clusterSecret : String) :
    Untokened
      (getValue clusterSecret store header authorization table key) := by
  intro response answered claims status
  unfold getValue at answered
  split at answered
  · cases answered
    simp
  · split at answered
    · cases answered
      simp
    · cases answered

end Handlers

/-- Every token stems from a registration or a login. -/
theorem tokenOf_of_handle {environment : Environment} {currentAddr : String}
    {store : Store} {header : Option HeaderValue} {request : Request}
    {now : Nat} {response : Response} {claims : TokenClaims}
    {status : Option String}
    (answered : (handle environment currentAddr store header request
      now).response = some response)
    (signed : response.body = .token claims status) :
    TokenOf request claims := by
  cases request with
  | adminLogin password =>
      simp only [handle, adminLogin] at answered
      split at answered
      · cases answered
        cases signed
        exact .admin password
      · cases answered
        cases signed
  | access user userHeader body =>
      simp only [handle, access] at answered
      split at answered
      · split at answered
        · cases answered
          cases signed
        · cases answered
          cases signed
      · split at answered
        · split at answered
          · cases answered
            cases signed
            exact .user user userHeader _
          · split at answered
            · cases answered
              cases signed
            · split at answered
              · cases answered
                cases signed
              · cases answered
                cases signed
                exact .user user userHeader _
        · cases answered
          cases signed
  | putValue authorization table key body =>
      exact absurd signed
        (untokened_putValue _ _ _ _ _ _ _ _ answered _ _)
  | patchValue authorization table key body =>
      exact absurd signed
        (untokened_patchValue _ _ _ _ _ _ _ _ answered _ _)
  | deleteValue authorization table key =>
      exact absurd signed
        (untokened_deleteValue _ _ _ _ _ _ _ answered _ _)
  | getValue authorization table key =>
      exact absurd signed
        (untokened_getValue _ _ _ _ _ _ _ answered _ _)
  | putValueInternal table key incoming =>
      simp only [handle, putValueInternal] at answered
      split at answered <;> cases answered <;> cases signed
  | getTableStore table =>
      simp only [handle, getTableStore] at answered
      split at answered <;> cases answered <;> cases signed
  | getAllKeys table =>
      simp only [handle, getAllKeys] at answered
      split at answered <;> cases answered <;> cases signed
  | getMultipleKeys table keys =>
      simp only [handle, getMultipleKeys] at answered
      split at answered <;> cases answered <;> cases signed
  | getGlobalStore apiKey =>
      simp only [handle, getGlobalStore] at answered
      split at answered
      · split at answered <;> cases answered <;> cases signed
      · cases answered
        cases signed
      · cases answered
        cases signed
  | adminGetTables authorization =>
      simp only [handle, adminGetTables] at answered
      split at answered <;> cases answered <;> cases signed
  | adminGetKeys authorization table =>
      simp only [handle, adminGetKeys] at answered
      split at answered
      · split at answered <;> cases answered <;> cases signed
      · cases answered
        cases signed
  | adminGetRecord authorization table key =>
      simp only [handle, adminGetRecord] at answered
      split at answered
      · split at answered <;> cases answered <;> cases signed
      · cases answered
        cases signed
  | adminPutRecord authorization table key body =>
      simp only [handle, adminPutRecord] at answered
      split at answered <;> cases answered <;> cases signed
  | adminDeleteRecord authorization table key =>
      simp only [handle, adminDeleteRecord] at answered
      split at answered <;> cases answered <;> cases signed

namespace HandedOut

variable {environment : Environment} {currentAddr : String}
  (handedOut : HandedOut environment)

theorem tokenOf {request : Request} {claims : TokenClaims}
    (issued : handedOut.Issued request claims) : TokenOf request claims := by
  obtain ⟨answer, member, same, status, signed⟩ := issued
  obtain ⟨_, _, _, _, answered⟩ := handedOut.genuine answer member
  rw [← same]
  exact tokenOf_of_handle answered signed

/-! ## Who changes the record -/

/-- A client sends the request, and its token is one that was handed out. -/
def FromClient : ServingEvent → Prop
  | .request header request _ _ =>
      ¬ Replicates environment header request ∧
        ∀ claims, request.authorization = .bearer claims →
          ∃ source, handedOut.Issued source claims
  | _ => True

/-- The record whose owner is compared with the subject of the token before a
write. -/
def ownedTarget : Request → Option (String × String)
  | .putValue _ table key _ => some (table, key)
  | .patchValue _ table key _ => some (table, key)
  | .deleteValue _ table key => some (table, key)
  | _ => none

/-- No write to the record comes with a token of a user called `admin`. -/
def NoUserAdmin (table key : String) : ServingEvent → Prop
  | .request _ request _ _ =>
      ownedTarget request = some (table, key) →
        ∀ claims userHeader body, request.authorization = .bearer claims →
          ¬ handedOut.Issued (.access "admin" userHeader body) claims
  | _ => True

/-- Every DELETE that is about to remove the key was sent with a token of
`admin_login`. -/
def AdminRemovals (table key : String) (node : ServingNode) : Prop :=
  ∀ removal ∈ node.removals, removal.table = table → removal.key = key →
    handedOut.AdminToken removal.authorization

/-- The request behind the step was sent with a token of `admin_login`. -/
def CarriesAdminToken (node : ServingNode) : ServingEvent → Prop
  | .request _ request _ _ => handedOut.AdminToken request.authorization
  | .remove index => ∃ removal, node.removals[index]? = some removal ∧
      handedOut.AdminToken removal.authorization
  | _ => False

/-- What holds while the record stands. -/
structure UnderAdmin (table key : String) (node : ServingNode) : Prop where
  owned : ∃ record, node.store.record table key = some record ∧
    record.owner = "admin"
  removals : handedOut.AdminRemovals table key node

variable {handedOut}

/-- An admin token is one of `admin_login`. -/
theorem adminToken_of_valid {authorization : Authorization}
    (known : ∀ claims, authorization = .bearer claims →
      ∃ source, handedOut.Issued source claims)
    (valid : validateAdminToken authorization = true) :
    handedOut.AdminToken authorization := by
  cases authorization with
  | bearer claims =>
      obtain ⟨source, issued⟩ := known claims rfl
      cases handedOut.tokenOf issued with
      | admin password =>
          exact ⟨_, password, rfl, issued⟩
      | user user userHeader body =>
          cases valid
  | _ =>
      cases valid

/-- So is a token with the subject `admin`, unless a user has that name. -/
theorem adminToken_of_sub {claims : TokenClaims}
    (known : ∃ source, handedOut.Issued source claims)
    (noUser : ∀ userHeader body,
      ¬ handedOut.Issued (.access "admin" userHeader body) claims)
    (named : claims.sub = "admin") :
    handedOut.AdminToken (.bearer claims) := by
  obtain ⟨source, issued⟩ := known
  cases handedOut.tokenOf issued with
  | admin password =>
      exact ⟨_, password, rfl, issued⟩
  | user user userHeader body =>
      have isAdmin : user = "admin" := named
      subst isAdmin
      exact absurd issued (noUser userHeader body)

/-- Who passes the owner check of a write to the record has an admin's
token. -/
theorem adminToken_of_owner {node : ServingNode} {table key : String}
    {header : Option HeaderValue} {request : Request}
    {replicas : ReplicaAnswers} {now : Nat} {claims : TokenClaims}
    {held : VersionedValue} (under : handedOut.UnderAdmin table key node)
    (client : handedOut.FromClient (.request header request replicas now))
    (noUser : handedOut.NoUserAdmin table key
      (.request header request replicas now))
    (presented : request.authorization = .bearer claims)
    (isTarget : ownedTarget request = some (table, key))
    (stored : node.store.record table key = some held)
    (own : held.owner = claims.sub) :
    handedOut.AdminToken (.bearer claims) := by
  obtain ⟨found, isFound, owned⟩ := under.owned
  have same : held = found := by
    rw [stored] at isFound
    exact Option.some.inj isFound
  apply adminToken_of_sub (client.2 claims presented)
  · intro userHeader secret
    exact noUser isTarget claims userHeader secret presented
  · rw [← own, same, owned]

/-- A client's request that changes the record has an admin's token. -/
theorem adminToken_of_effect {node : ServingNode} {table key : String}
    {header : Option HeaderValue} {request : Request}
    {replicas : ReplicaAnswers} {now : Nat}
    (under : handedOut.UnderAdmin table key node)
    (client : handedOut.FromClient (.request header request replicas now))
    (noUser : handedOut.NoUserAdmin table key
      (.request header request replicas now))
    {change : Change VersionedValue}
    (acts : RequestEffect environment currentAddr node.store header now table
      key request change) :
    handedOut.AdminToken request.authorization := by
  cases acts with
  | put claims body newValue accepted =>
      obtain ⟨held, stored, _⟩ := id under.owned
      rw [stored] at accepted
      rcases putLocal_eq_ok_iff.mp accepted with missing | present
      · cases missing.1
      · obtain ⟨base, found, own, _⟩ := present
        exact adminToken_of_owner under client noUser rfl rfl
          (stored.trans found) own
  | patch claims body newValue accepted =>
      obtain ⟨base, found, own, _⟩ := patchLocal_eq_ok_iff.mp accepted
      exact adminToken_of_owner under client noUser rfl rfl found own
  | delete authorization presents =>
      exact absurd presents client.1
  | merge incoming presents =>
      exact absurd presents client.1
  | register userHeader secret notInternal isAuth missing =>
      obtain ⟨held, stored, _⟩ := under.owned
      rw [stored] at missing
      cases missing
  | replicate userHeader hashed presents isAuth =>
      exact absurd presents client.1
  | adminPut authorization body valid =>
      exact adminToken_of_valid client.2 valid
  | adminDelete authorization valid =>
      exact adminToken_of_valid client.2 valid

/-- Whatever a client's request leaves of the record belongs to the admin. -/
theorem owner_of_effect {node : ServingNode} {table key : String}
    {header : Option HeaderValue} {request : Request}
    {replicas : ReplicaAnswers} {now : Nat}
    (under : handedOut.UnderAdmin table key node)
    (client : handedOut.FromClient (.request header request replicas now))
    {change : Change VersionedValue}
    (acts : RequestEffect environment currentAddr node.store header now table
      key request change)
    {record : VersionedValue}
    (written : change.apply mergeIncoming (node.store.record table key) =
      some record) :
    record.owner = "admin" := by
  obtain ⟨held, stored, owned⟩ := under.owned
  rw [stored] at written
  cases acts with
  | put claims body newValue accepted =>
      cases written
      rw [stored] at accepted
      rcases putLocal_eq_ok_iff.mp accepted with missing | present
      · cases missing.1
      · obtain ⟨base, found, _, result⟩ := present
        cases found
        rw [result]
        exact owned
  | patch claims body newValue accepted =>
      cases written
      rw [stored] at accepted
      obtain ⟨base, found, _, result⟩ := patchLocal_eq_ok_iff.mp accepted
      cases found
      rw [result]
      exact owned
  | delete authorization presents =>
      exact absurd presents client.1
  | merge incoming presents =>
      exact absurd presents client.1
  | register userHeader secret notInternal isAuth missing =>
      rw [stored] at missing
      cases missing
  | replicate userHeader hashed presents isAuth =>
      exact absurd presents client.1
  | adminPut authorization body valid =>
      cases written
      rw [stored]
      exact owned
  | adminDelete authorization valid =>
      cases written

theorem takeOver_removals_of_none {node : ServingNode} {request : Request}
    {outcome : Outcome} {response : Option Response}
    (stays : removalOf request outcome = none) :
    (node.takeOver request outcome response).removals = node.removals := by
  rw [takeOver, stays]
  exact List.append_nil _

theorem record_takeOver_deleteRemove (node : ServingNode) (removal : Removal)
    (table key : String) :
    (node.takeOver removal.request
      (deleteRemove node.store removal.table removal.key)
      (deleteRemove node.store removal.table
        removal.key).response).store.record table key =
      if table = removal.table ∧ key = removal.key then none
      else node.store.record table key :=
  Store.record_removeRecord _ _ _ _ _

/-- A DELETE that passes its check on a record of the admin has an admin's
token. -/
theorem removals_of_request {node : ServingNode} {table key : String}
    {header : Option HeaderValue} {request : Request}
    {replicas : ReplicaAnswers} {now : Nat}
    (under : handedOut.UnderAdmin table key node)
    (client : handedOut.FromClient (.request header request replicas now))
    (noUser : handedOut.NoUserAdmin table key
      (.request header request replicas now))
    {removal : Removal}
    (left : removalOf request (handle environment currentAddr node.store
      header request now) = some removal)
    (isTable : removal.table = table) (isKey : removal.key = key) :
    handedOut.AdminToken removal.authorization := by
  unfold removalOf at left
  split at left
  · rename_i table' key' remains
    cases left
    cases handlerTask_of_handle remains with
    | delete claims table' key' existing found own =>
        simp only at isTable isKey
        rw [isTable, isKey] at found
        exact adminToken_of_owner under client noUser rfl
          (by rw [ownedTarget, isTable, isKey]) found own
  · cases left

/-- One step: whoever changes the record has an admin's token, and as long as
it stands it stays a record of the admin. -/
theorem underAdmin_step {node next : ServingNode} {event : ServingEvent}
    {table key : String} (under : handedOut.UnderAdmin table key node)
    (client : handedOut.FromClient event)
    (noUser : handedOut.NoUserAdmin table key event)
    (taken : step environment currentAddr node event = some next) :
    (next.store.record table key = node.store.record table key ∨
        handedOut.CarriesAdminToken node event) ∧
      (next.store.record table key ≠ none →
        handedOut.UnderAdmin table key next) := by
  obtain ⟨held, stored, owned⟩ := id under.owned
  cases taken_of_step taken with
  | request header request replicas now =>
      have result : (node.takeOver request
          (handle environment currentAddr node.store header request now)
          (answerOf (handle environment currentAddr node.store header request
            now) replicas)).store.record table key =
          (requestChange environment currentAddr node.store header request
            now table key).apply mergeIncoming
              (node.store.record table key) :=
        record_handle environment currentAddr node.store header request now
          table key
      have removals : handedOut.AdminRemovals table key (node.takeOver request
          (handle environment currentAddr node.store header request now)
          (answerOf (handle environment currentAddr node.store header request
            now) replicas)) := by
        intro removal member isTable isKey
        simp only [takeOver, List.mem_append, Option.mem_toList] at member
        rcases member with old | isNew
        · exact under.removals removal old isTable isKey
        · exact removals_of_request under client noUser isNew isTable isKey
      rw [result]
      rcases requestChange_cases environment currentAddr node.store header
        request now table key with kept | acts
      · rw [kept] at result ⊢
        refine ⟨Or.inl rfl, fun _ => ⟨?_, removals⟩⟩
        exact ⟨held, result.trans stored, owned⟩
      · have token := adminToken_of_effect under client noUser acts
        refine ⟨Or.inr token, fun present => ⟨?_, removals⟩⟩
        obtain ⟨record, written⟩ := Option.ne_none_iff_exists'.mp present
        exact ⟨record, result.trans written,
          owner_of_effect under client acts written⟩
  | remove index removal found =>
      have result := record_takeOver_deleteRemove
        { node with removals := node.removals.eraseIdx index } removal table
        key
      by_cases own : table = removal.table ∧ key = removal.key
      · rw [if_pos own] at result
        refine ⟨Or.inr ⟨removal, found, ?_⟩,
          fun present => absurd result present⟩
        exact under.removals removal (List.mem_of_getElem? found) own.1.symm
          own.2.symm
      · rw [if_neg own] at result
        refine ⟨Or.inl result, fun _ =>
          ⟨⟨held, result.trans stored, owned⟩, ?_⟩⟩
        intro other member
        rw [takeOver_removals_of_none rfl] at member
        exact under.removals other (List.mem_of_mem_eraseIdx member)
  | notify index number announced _ _ =>
      exact ⟨Or.inl rfl, fun _ => ⟨under.owned, under.removals⟩⟩
  | subscribers event manager _ _ =>
      exact ⟨Or.inl rfl, fun _ => ⟨under.owned, under.removals⟩⟩

/-- A record that `admin_put_record` has created. -/
theorem underAdmin_of_created {node created : ServingNode}
    {table key : String} {header : Option HeaderValue}
    {authorization : Authorization} {body : HashMap String Value}
    {replicas : ReplicaAnswers} {now : Nat}
    (absent : node.store.record table key = none)
    (removals : handedOut.AdminRemovals table key node)
    (valid : validateAdminToken authorization = true)
    (taken : step environment currentAddr node (.request header
      (.adminPutRecord authorization table key body) replicas now) =
        some created) :
    handedOut.UnderAdmin table key created := by
  have result : (handle environment currentAddr node.store header
      (.adminPutRecord authorization table key body) now) =
        adminPutRecord currentAddr node.store authorization table key body
          now := rfl
  cases taken
  constructor
  · refine ⟨VersionedValue.new body "admin" currentAddr now, ?_, rfl⟩
    simp only [takeOver]
    rw [result, adminPutRecord, if_pos valid]
    simp only [Store.record_insertRecord_self, Store.record_orDefault, absent]
    rfl
  · unfold AdminRemovals
    rw [takeOver_removals_of_none]
    · exact removals
    · rw [result, adminPutRecord, if_pos valid]
      rfl

/-- A record that `admin_put_record` created is changed or removed only with a
token of `admin_login`, provided that no other DELETE was about to remove its
key then, and that no write to it comes with a token of a user called
`admin`. -/
theorem changed_by_admin {node created final next : ServingNode}
    {table key : String} {header : Option HeaderValue}
    {authorization : Authorization} {body : HashMap String Value}
    {replicas : ReplicaAnswers} {now : Nat} {after : List ServingEvent}
    {event : ServingEvent}
    (absent : node.store.record table key = none)
    (valid : validateAdminToken authorization = true)
    (taken : step environment currentAddr node (.request header
      (.adminPutRecord authorization table key body) replicas now) =
        some created)
    (continued : runSteps (step environment currentAddr) created after =
      some final)
    (stands : Throughout (step environment currentAddr)
      (fun state => state.store.record table key ≠ none) created after)
    (changes : step environment currentAddr final event = some next)
    (clients : ∀ sent ∈ after ++ [event], handedOut.FromClient sent)
    (removals : handedOut.AdminRemovals table key node)
    (noUser : ∀ sent ∈ after ++ [event],
      handedOut.NoUserAdmin table key sent) :
    next.store.record table key = final.store.record table key ∨
      handedOut.CarriesAdminToken final event := by
  have start := underAdmin_of_created absent removals valid taken
  have last : event ∈ after ++ [event] := by
    simp
  have under : handedOut.UnderAdmin table key final := by
    clear last absent valid taken removals
    induction after generalizing created with
    | nil =>
        cases Option.some.inj continued
        exact start
    | cons first rest inductionHypothesis =>
        obtain ⟨middle, enabled, finished⟩ :=
          runSteps_cons_eq_some.mp continued
        have present := (stands.2 middle enabled).start
        have here : first ∈ first :: rest ++ [event] := List.mem_cons_self
        apply inductionHypothesis finished (stands.2 middle enabled)
        · intro sent member
          exact clients sent (List.mem_cons_of_mem _ member)
        · intro sent member
          exact noUser sent (List.mem_cons_of_mem _ member)
        · exact (underAdmin_step start (clients first here)
            (noUser first here) enabled).2 present
  exact (underAdmin_step under (clients event last) (noUser event last)
    changes).1

/-! ## A user called admin -/

def adminLoginToken : Authorization :=
  .bearer ⟨"admin", some true⟩

def userAdminToken : Authorization :=
  .bearer ⟨"admin", none⟩

def sampleHandedOut : HandedOut sampleEnvironment where
  answers :=
    [(.adminLogin "admin123", ⟨200, .token ⟨"admin", some true⟩ none⟩),
      (.access "admin" none (.json "x"),
        ⟨201, .token ⟨"admin", none⟩ (some "User created")⟩),
      (.access "alice" none (.json "y"),
        ⟨201, .token ⟨"alice", none⟩ (some "User created")⟩)]
  genuine := by
    intro answer member
    simp only [List.mem_cons, List.not_mem_nil, or_false] at member
    rcases member with same | same | same
    all_goals
      rw [same]
      exact ⟨"A", ∅, none, 1, by decide⟩

/-- Alice and a user called admin register. -/
def usersRegistered : ServingNode :=
  runResult (step sampleEnvironment "A") (start ∅)
    [.request none (.access "alice" none (.json "y")) [] 1,
      .request none (.access "admin" none (.json "x")) [] 2]
    (by decide)

/-- The note of the admin, and an attempt of alice to overwrite it. -/
def adminCreates : ServingEvent :=
  .request none (.adminPutRecord adminLoginToken "notes" "n" ∅) [] 3

def aliceAttempts : ServingEvent :=
  .request none (.putValue aliceToken "notes" "n" ∅) [] 4

def noteCreated : ServingNode :=
  (step sampleEnvironment "A" usersRegistered adminCreates).get (by decide)

def noteDefended : ServingNode :=
  runResult (step sampleEnvironment "A") noteCreated [aliceAttempts]
    (by decide)

def adminReplaces : ServingEvent :=
  .request none (.adminPutRecord adminLoginToken "notes" "n" ∅) [] 5

def noteReplaced : ServingNode :=
  (step sampleEnvironment "A" noteDefended adminReplaces).get (by decide)

theorem noteReplaced_by_admin :
    noteReplaced.store.record "notes" "n" =
        noteDefended.store.record "notes" "n" ∨
      sampleHandedOut.CarriesAdminToken noteDefended adminReplaces := by
  have adminKnown : ∀ claims, adminLoginToken = .bearer claims →
      ∃ source, sampleHandedOut.Issued source claims := by
    intro claims same
    cases same
    exact ⟨.adminLogin "admin123", _, List.mem_cons_self, rfl, none, rfl⟩
  have aliceKnown : ∀ claims, aliceToken = .bearer claims →
      ∃ source, sampleHandedOut.Issued source claims := by
    intro claims same
    cases same
    exact ⟨.access "alice" none (.json "y"), _,
      List.mem_cons_of_mem _ (List.mem_cons_of_mem _ List.mem_cons_self),
      rfl, some "User created", rfl⟩
  apply changed_by_admin (by decide) (by decide) (Option.some_get _).symm
    (runSteps_eq_some_runResult _ noteCreated [aliceAttempts] (by decide))
    (by decide) (Option.some_get _).symm
  · intro sent member
    simp only [List.cons_append, List.nil_append, List.mem_cons,
      List.not_mem_nil, or_false] at member
    rcases member with same | same
    · rw [same]
      exact ⟨Bool.false_ne_true, aliceKnown⟩
    · rw [same]
      exact ⟨Bool.false_ne_true, adminKnown⟩
  · intro removal member
    have none : usersRegistered.removals = [] := by decide
    rw [none] at member
    cases member
  · intro sent member
    simp only [List.cons_append, List.nil_append, List.mem_cons,
      List.not_mem_nil, or_false] at member
    rcases member with same | same
    · rw [same]
      intro _ claims userHeader body presented issued
      cases presented
      have alice := (sampleHandedOut.tokenOf issued).claims_of_access
      exact absurd alice (by decide)
    · rw [same]
      intro own
      cases own

/-- The user called admin overwrites the note. -/
def userAdminWrites : ServingEvent :=
  .request none (.putValue userAdminToken "notes" "n" ∅) [] 5

def noteTaken : ServingNode :=
  (step sampleEnvironment "A" noteDefended userAdminWrites).get (by decide)

theorem noteTaken_by_user :
    usersRegistered.store.record "notes" "n" = none ∧
      usersRegistered.removals = [] ∧
      step sampleEnvironment "A" usersRegistered adminCreates =
        some noteCreated ∧
      runSteps (step sampleEnvironment "A") noteCreated [aliceAttempts] =
        some noteDefended ∧
      step sampleEnvironment "A" noteDefended userAdminWrites =
        some noteTaken ∧
      sampleHandedOut.FromClient userAdminWrites ∧
      noteTaken.store.record "notes" "n" ≠
        noteDefended.store.record "notes" "n" ∧
      ¬ sampleHandedOut.CarriesAdminToken noteDefended userAdminWrites := by
  refine ⟨by decide, by decide, (Option.some_get _).symm,
    runSteps_eq_some_runResult _ _ _ _, (Option.some_get _).symm,
    ⟨Bool.false_ne_true, ?_⟩, by decide, ?_⟩
  · intro claims presented
    cases presented
    exact ⟨.access "admin" none (.json "x"), _,
      List.mem_cons_of_mem _ List.mem_cons_self, rfl, some "User created",
      rfl⟩
  · intro carries
    obtain ⟨claims, password, presented, issued⟩ := carries
    cases presented
    cases sampleHandedOut.tokenOf issued

end HandedOut

end DynaRust.Security
