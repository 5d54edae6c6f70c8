import DynaRust.Foundation.Url

/-!
# Routes and the URLs sent to peers

The route table of `main.rs`, and what becomes of the URLs that handlers build
with `format!` when a peer parses, routes and decodes them.
-/

namespace DynaRust.Network

open DynaRust.Foundation

inductive Method where
  | get
  | put
  | patch
  | post
  | delete
  deriving DecidableEq

/-- The functions that routes lead to. -/
inductive Handler where
  | joinCluster
  | getMembership
  | updateMembership
  | indirectPing
  | heartbeat
  | putValueInternal
  | getValue
  | putValue
  | patchValue
  | deleteValue
  | getTableStore
  | getGlobalStore
  | getAllKeys
  | getMultipleKeys
  | subscribeToKey
  | access
  | adminDashboard
  | adminLogin
  | adminGetTables
  | adminGetKeys
  | adminGetRecord
  | adminPutRecord
  | adminDeleteRecord
  | getStats
  deriving DecidableEq

/-- A segment of a route: fixed text, or `{name}`, which takes any nonempty
segment. -/
inductive Pattern where
  | literal (text : String)
  | parameter
  deriving DecidableEq

structure Route where
  method : Method
  pattern : List Pattern
  handler : Handler
  deriving DecidableEq

section Table

open Method Pattern Handler

/-- `.route(..)` in the order of `main.rs`; `get_stats` comes last as a
service. -/
def routes : List Route :=
  [⟨post, [literal "join"], joinCluster⟩,
    ⟨get, [literal "membership"], getMembership⟩,
    ⟨post, [literal "update_membership"], updateMembership⟩,
    ⟨post, [literal "indirect_ping"], indirectPing⟩,
    ⟨get, [literal "heartbeat"], heartbeat⟩,
    ⟨put, [literal "internal", parameter, literal "key", parameter],
      putValueInternal⟩,
    ⟨get, [parameter, literal "key", parameter], getValue⟩,
    ⟨put, [parameter, literal "key", parameter], putValue⟩,
    ⟨patch, [parameter, literal "key", parameter], patchValue⟩,
    ⟨delete, [parameter, literal "key", parameter], deleteValue⟩,
    ⟨get, [parameter, literal "store"], getTableStore⟩,
    ⟨get, [literal "store"], getGlobalStore⟩,
    ⟨get, [parameter, literal "keys"], getAllKeys⟩,
    ⟨post, [parameter, literal "keys"], getMultipleKeys⟩,
    ⟨get, [parameter, literal "subscribe", parameter], subscribeToKey⟩,
    ⟨post, [literal "auth", parameter], access⟩,
    ⟨get, [literal "admin"], adminDashboard⟩,
    ⟨post, [literal "admin", literal "login"], adminLogin⟩,
    ⟨get, [literal "admin", literal "tables"], adminGetTables⟩,
    ⟨get, [literal "admin", literal "table", parameter, literal "keys"],
      adminGetKeys⟩,
    ⟨get, [literal "admin", literal "table", parameter, literal "key", parameter],
      adminGetRecord⟩,
    ⟨put, [literal "admin", literal "table", parameter, literal "key", parameter],
      adminPutRecord⟩,
    ⟨delete,
      [literal "admin", literal "table", parameter, literal "key", parameter],
      adminDeleteRecord⟩,
    ⟨get, [literal "stats"], getStats⟩]

end Table

def literalBytes (text : String) : Bytes :=
  asBytes text.toList

/-- The parameters of a matching path, each percent-decoded once. -/
def matchPattern : List Pattern → List Bytes → Option (List Bytes)
  | [], [] => some []
  | .literal text :: patterns, segment :: segments =>
      if percentDecode segment = literalBytes text then
        matchPattern patterns segments
      else
        none
  | .parameter :: patterns, segment :: segments =>
      if segment = [] then
        none
      else
        (matchPattern patterns segments).map fun parameters =>
          percentDecode segment :: parameters
  | _, _ => none

/-- The first route that fits the method and the path. -/
def route (method : Method) (path : List Bytes) :
    Option (Handler × List Bytes) :=
  routes.findSome? fun entry =>
    if entry.method = method then
      (matchPattern entry.pattern path).map fun parameters =>
        (entry.handler, parameters)
    else
      none

/-- Who handles a request, and with which parameters.  Parameters are the
bytes before they are read as UTF-8. -/
structure Arrival where
  peer : Bytes
  handler : Handler
  parameters : List Bytes
  deriving DecidableEq

def arrive (method : Method) (url : Bytes) : Option Arrival :=
  (parseUrl url).bind fun parsed =>
    (route method parsed.path).map fun found =>
      ⟨parsed.authority, found.1, found.2⟩

/-- The same at a node that was reached, by the rest of the URL. -/
def arriveAt (method : Method) (path : Bytes) :
    Option (Handler × List Bytes) :=
  route method (pathSegments (stripEnd path))

/-- A URL leads to the node it names, and from there on the path decides. -/
theorem arrive_append {authority : Bytes} (isAuthority : IsAuthority authority)
    (method : Method) (path : Bytes) :
    arrive method (httpScheme ++ authority ++ 47 :: path) =
      (arriveAt method (47 :: path)).map fun found =>
        ⟨authority, found.1, found.2⟩ := by
  rw [arrive, parseUrl_append isAuthority]
  rfl

/-- The decoded path that a pattern and its parameters describe. -/
def fillPattern : List Pattern → List Bytes → Option (List Bytes)
  | [], [] => some []
  | .literal text :: patterns, parameters =>
      (fillPattern patterns parameters).map fun path =>
        literalBytes text :: path
  | .parameter :: patterns, value :: parameters =>
      (fillPattern patterns parameters).map fun path => value :: path
  | _, _ => none

/-- Matching is the inverse of filling in, with nonempty parameters. -/
theorem matchPattern_eq_some_iff {patterns : List Pattern}
    {path parameters : List Bytes} :
    matchPattern patterns path = some parameters ↔
      fillPattern patterns parameters = some (path.map percentDecode) ∧
        [] ∉ parameters := by
  induction patterns generalizing path parameters with
  | nil =>
      cases path <;> cases parameters <;> simp [matchPattern, fillPattern]
  | cons pattern rest inductionHypothesis =>
      cases pattern with
      | literal text =>
          cases path with
          | nil =>
              simp [matchPattern, fillPattern]
          | cons segment path =>
              rw [matchPattern, fillPattern, List.map_cons]
              by_cases same : percentDecode segment = literalBytes text
              · rw [if_pos same, inductionHypothesis, same]
                simp
              · simp [same, Ne.symm same]
      | parameter =>
          cases path with
          | nil =>
              cases parameters <;> simp [matchPattern, fillPattern]
          | cons segment path =>
              cases parameters with
              | nil =>
                  simp [matchPattern, fillPattern]
              | cons value parameters =>
                  rw [matchPattern, fillPattern, List.map_cons]
                  by_cases empty : segment = []
                  · subst empty
                    rw [if_pos rfl]
                    refine iff_of_false (Option.some_ne_none _).symm ?_
                    rintro ⟨shape, proper⟩
                    obtain ⟨_, _, same⟩ := Option.map_eq_some_iff.mp shape
                    have empty : value = [] := (List.cons.inj same).1
                    exact proper (empty ▸ List.mem_cons_self)
                  · have filled : [] ≠ percentDecode segment := fun same =>
                      empty (percentDecode_eq_nil.mp same.symm)
                    rw [if_neg empty]
                    simp only [Option.map_eq_some_iff, inductionHypothesis,
                      List.cons.injEq, List.mem_cons, not_or]
                    constructor
                    · rintro ⟨_, ⟨shape, proper⟩, rfl, rfl⟩
                      exact ⟨⟨_, shape, rfl, rfl⟩, filled, proper⟩
                    · rintro ⟨⟨_, shape, rfl, rfl⟩, _, proper⟩
                      exact ⟨_, ⟨shape, proper⟩, rfl, rfl⟩

theorem length_of_matchPattern {patterns : List Pattern}
    {path parameters : List Bytes}
    (matched : matchPattern patterns path = some parameters) :
    patterns.length = path.length := by
  induction patterns generalizing path parameters with
  | nil =>
      cases path with
      | nil =>
          rfl
      | cons segment rest =>
          cases matched
  | cons pattern rest inductionHypothesis =>
      cases path with
      | nil =>
          cases pattern <;> cases matched
      | cons segment path =>
          refine congrArg Nat.succ ?_
          cases pattern with
          | literal text =>
              rw [matchPattern] at matched
              split at matched
              · exact inductionHypothesis matched
              · cases matched
          | parameter =>
              rw [matchPattern] at matched
              split at matched
              · cases matched
              · obtain ⟨_, later, -⟩ := Option.map_eq_some_iff.mp matched
                exact inductionHypothesis later

/-! ## What handlers send to peers -/

/-- The requests about one record that a node sends to a peer. -/
inductive PeerCall where
  /-- By `put_value`, `patch_value`, read repair and
  `replicate_admin_change`. -/
  | write
  /-- By the remote read of `get_value`. -/
  | read
  /-- By `delete_value` and `admin_delete_record`. -/
  | remove
  deriving DecidableEq

namespace PeerCall

def method : PeerCall → Method
  | write => .put
  | read => .get
  | remove => .delete

/-- The handler that the call is meant for. -/
def handler : PeerCall → Handler
  | write => .putValueInternal
  | read => .getValue
  | remove => .deleteValue

/-- `format!("http://{}/internal/{}/key/{}", ..)` for writes,
`format!("http://{}/{}/key/{}", ..)` otherwise. -/
def url (target table key : String) : PeerCall → String
  | write => "http://" ++ target ++ "/internal/" ++ table ++ "/key/" ++ key
  | read => "http://" ++ target ++ "/" ++ table ++ "/key/" ++ key
  | remove => "http://" ++ target ++ "/" ++ table ++ "/key/" ++ key

/-- The part of the URL behind the address. -/
def path (table key : String) : PeerCall → String
  | write => "/internal/" ++ table ++ "/key/" ++ key
  | read => "/" ++ table ++ "/key/" ++ key
  | remove => "/" ++ table ++ "/key/" ++ key

theorem url_eq (target table key : String) (call : PeerCall) :
    call.url target table key = "http://" ++ target ++ call.path table key := by
  cases call <;> simp [url, path, String.append_assoc]

/-- At its peer the call is given to the intended handler, with the same table
and key. -/
def Lands (table key : String) (call : PeerCall) : Prop :=
  arriveAt call.method (asBytes (call.path table key).toList) =
    some (call.handler, [asBytes table.toList, asBytes key.toList])

instance (table key : String) (call : PeerCall) :
    Decidable (call.Lands table key) :=
  inferInstanceAs (Decidable (_ = _))

/-- The call reaches the intended handler of the peer with the same table and
key. -/
def Reaches (target table key : String) (call : PeerCall) : Prop :=
  arrive call.method (asBytes (call.url target table key).toList) =
    some ⟨asBytes target.toList, call.handler,
      [asBytes table.toList, asBytes key.toList]⟩

instance (target table key : String) (call : PeerCall) :
    Decidable (call.Reaches target table key) :=
  inferInstanceAs (Decidable (_ = _))

/-- A table and key that need no encoding: plain pieces, and no control
character or blank at the end of the key. -/
structure Addressable (table key : String) : Prop where
  tablePlain : IsPlainPiece (asBytes table.toList)
  keyPlain : IsPlainPiece (asBytes key.toList)
  keyEnding : ∀ byte ∈ (asBytes key.toList).getLast?, isBlank byte = false

/-- The fixed pieces in front of the table. -/
def front : PeerCall → List String
  | write => ["internal"]
  | read => []
  | remove => []

/-- The route of the intended handler. -/
def route (call : PeerCall) : Route where
  method := call.method
  pattern := call.front.map .literal ++
    [.parameter, .literal "key", .parameter]
  handler := call.handler

/-- The pieces of the path of the URL. -/
def pieces (table key : String) (call : PeerCall) : List Bytes :=
  call.front.map literalBytes ++
    [asBytes table.toList, literalBytes "key", asBytes key.toList]

theorem asBytes_path (table key : String) (call : PeerCall) :
    asBytes (call.path table key).toList =
      joinPath (call.pieces table key) := by
  have internal : asBytes "/internal/".toList =
      joinPath [literalBytes "internal"] ++ [47] := by decide
  have slash : asBytes "/".toList = [47] := by decide
  have middle : asBytes "/key/".toList =
      joinPath [literalBytes "key"] ++ [47] := by decide
  cases call with
  | write =>
      simp only [path, pieces, front, String.toList_append, asBytes_append,
        internal, middle]
      simp
  | read =>
      simp only [path, pieces, front, String.toList_append, asBytes_append,
        slash, middle]
      simp
  | remove =>
      simp only [path, pieces, front, String.toList_append, asBytes_append,
        slash, middle]
      simp

/-- Whether a call reaches its handler does not depend on the peer. -/
theorem reaches_iff_lands {target table key : String}
    (isAuthority : IsAuthority (asBytes target.toList)) (call : PeerCall) :
    call.Reaches target table key ↔ call.Lands table key := by
  have present : call.pieces table key ≠ [] :=
    List.append_ne_nil_of_right_ne_nil _ (List.cons_ne_nil _ _)
  obtain ⟨first, rest, pieces⟩ := List.exists_cons_of_ne_nil present
  have path : asBytes (call.path table key).toList =
      47 :: (first ++ joinPath rest) := by
    rw [asBytes_path, pieces]
    rfl
  have scheme : asBytes "http://".toList = httpScheme := by decide
  have url : asBytes (call.url target table key).toList =
      httpScheme ++ asBytes target.toList ++ 47 :: (first ++ joinPath rest) := by
    rw [url_eq, String.toList_append, String.toList_append, asBytes_append,
      asBytes_append, scheme, path]
  rw [Reaches, Lands, url, arrive_append isAuthority, ← path,
    Option.map_eq_some_iff]
  constructor
  · rintro ⟨⟨handler, parameters⟩, found, same⟩
    obtain ⟨-, rfl, rfl⟩ := Arrival.mk.injEq .. ▸ same
    exact found
  · intro found
    exact ⟨_, found, rfl⟩

/-- Only the own route leads to the handler. -/
private theorem eq_route_of_handler (call : PeerCall) :
    ∀ entry ∈ routes, entry.handler = call.handler → entry = call.route := by
  cases call <;> decide

/-- No route before the own one has its method and length. -/
private theorem exists_routes_eq (call : PeerCall) :
    ∃ before after, routes = before ++ call.route :: after ∧
      ∀ entry ∈ before, entry.method = call.method →
        entry.pattern.length ≠ call.route.pattern.length := by
  cases call with
  | write =>
      exact ⟨routes.take 5, routes.drop 6, by decide, by decide⟩
  | read =>
      exact ⟨routes.take 6, routes.drop 7, by decide, by decide⟩
  | remove =>
      exact ⟨routes.take 9, routes.drop 10, by decide, by decide⟩

private theorem route_eq_some_iff {path parameters : List Bytes}
    (call : PeerCall) :
    Network.route call.method path = some (call.handler, parameters) ↔
      matchPattern call.route.pattern path = some parameters := by
  have ownMethod : call.route.method = call.method :=
    rfl
  constructor
  · intro found
    obtain ⟨entry, among, taken⟩ := List.exists_of_findSome?_eq_some found
    obtain ⟨-, matched⟩ := Option.ite_none_right_eq_some.mp taken
    obtain ⟨parameters', fits, same⟩ := Option.map_eq_some_iff.mp matched
    have own := eq_route_of_handler call entry among
      (congrArg Prod.fst same)
    rw [← own, fits]
    exact congrArg (fun pair => some pair.2) same
  · intro matched
    obtain ⟨before, after, shape, others⟩ := exists_routes_eq call
    refine List.findSome?_eq_some_iff.mpr
      ⟨before, call.route, after, shape, ?_, fun entry among => ?_⟩
    · rw [if_pos ownMethod, matched]
      rfl
    · by_cases sameMethod : entry.method = call.method
      · rw [if_pos sameMethod, Option.map_eq_none_iff,
          Option.eq_none_iff_forall_ne_some]
        intro others' fits
        apply others entry among sameMethod
        rw [length_of_matchPattern fits, length_of_matchPattern matched]
      · exact if_neg sameMethod

private theorem fillPattern_route (table key : String) (call : PeerCall) :
    fillPattern call.route.pattern
        [asBytes table.toList, asBytes key.toList] =
      some (call.pieces table key) := by
  cases call <;> rfl

private theorem plain_literals (call : PeerCall) :
    ∀ text ∈ "key" :: call.front, IsPlainPiece (literalBytes text) := by
  have internal : IsPlainPiece (literalBytes "internal") := by
    decide
  have key : IsPlainPiece (literalBytes "key") := by
    decide
  cases call with
  | write =>
      intro text among
      rcases List.mem_cons.mp among with rfl | inFront
      · exact key
      · rw [List.mem_singleton.mp inFront]
        exact internal
  | read =>
      exact List.forall_mem_singleton.mpr key
  | remove =>
      exact List.forall_mem_singleton.mpr key

private theorem roundTrips_pieces_iff {table key : String}
    (keyNonempty : asBytes key.toList ≠ []) (call : PeerCall) :
    RoundTrips (call.pieces table key) ↔ Addressable table key := by
  have ending : (joinPath (call.pieces table key)).getLast? =
      (asBytes key.toList).getLast? := by
    have shape : joinPath (call.pieces table key) =
        joinPath (call.front.map literalBytes ++
          [asBytes table.toList, literalBytes "key"]) ++ [47] ++
            asBytes key.toList := by
      rw [pieces]
      simp only [joinPath_append, joinPath_cons, joinPath_nil]
      simp
    rw [shape]
    exact List.getLast?_append_of_ne_nil _ keyNonempty
  constructor
  · intro roundTrips
    refine ⟨roundTrips.plain _ ?_, roundTrips.plain _ ?_,
      ending ▸ roundTrips.ending⟩
    · exact List.mem_append_right _ List.mem_cons_self
    · exact List.mem_append_right _
        (List.mem_cons_of_mem _ (List.mem_cons_of_mem _ List.mem_cons_self))
  · intro addressable
    refine ⟨fun piece among => ?_, ending ▸ addressable.keyEnding⟩
    have literals := plain_literals call
    rcases List.mem_append.mp among with inFront | rest
    · obtain ⟨text, member, rfl⟩ := List.mem_map.mp inFront
      exact literals text (List.mem_cons_of_mem _ member)
    rcases List.mem_cons.mp rest with rfl | behind
    · exact addressable.tablePlain
    rcases List.mem_cons.mp behind with rfl | last
    · exact literals "key" List.mem_cons_self
    · rw [List.mem_singleton.mp last]
      exact addressable.keyPlain

theorem lands_iff_addressable {table key : String}
    (tableNonempty : table ≠ "") (keyNonempty : key ≠ "") (call : PeerCall) :
    call.Lands table key ↔ Addressable table key := by
  have tableBytes : asBytes table.toList ≠ [] := by
    rw [Ne, asBytes_eq_nil, String.toList_eq_nil_iff]
    exact tableNonempty
  have keyBytes : asBytes key.toList ≠ [] := by
    rw [Ne, asBytes_eq_nil, String.toList_eq_nil_iff]
    exact keyNonempty
  have present : call.pieces table key ≠ [] :=
    List.append_ne_nil_of_right_ne_nil _ (List.cons_ne_nil _ _)
  rw [Lands, arriveAt, asBytes_path, route_eq_some_iff,
    matchPattern_eq_some_iff, fillPattern_route, Option.some_inj, eq_comm,
    decode_pathSegments_iff present, roundTrips_pieces_iff keyBytes]
  refine and_iff_left ?_
  intro empty
  rcases List.mem_cons.mp empty with same | last
  · exact tableBytes same.symm
  · exact keyBytes (List.mem_singleton.mp last).symm

/-- Parameters are never empty. -/
theorem nonempty_of_lands {table key : String} {call : PeerCall}
    (lands : call.Lands table key) : table ≠ "" ∧ key ≠ "" := by
  have matched := (route_eq_some_iff call).mp lands
  have proper := (matchPattern_eq_some_iff.mp matched).2
  constructor
  · rintro rfl
    exact proper List.mem_cons_self
  · rintro rfl
    exact proper (List.mem_cons_of_mem _ List.mem_cons_self)

/-- If one call about a record lands, every call does. -/
theorem Lands.other {table key : String} {call : PeerCall}
    (lands : call.Lands table key) (other : PeerCall) :
    other.Lands table key := by
  obtain ⟨tableNonempty, keyNonempty⟩ := nonempty_of_lands lands
  have addressable := (lands_iff_addressable tableNonempty keyNonempty
    call).mp lands
  exact (lands_iff_addressable tableNonempty keyNonempty other).mpr
    addressable

/-- A call reaches its handler with the same table and key exactly when they
are addressable. -/
theorem reaches_iff_addressable {target table key : String}
    (isAuthority : IsAuthority (asBytes target.toList))
    (tableNonempty : table ≠ "") (keyNonempty : key ≠ "") (call : PeerCall) :
    call.Reaches target table key ↔ Addressable table key :=
  (reaches_iff_lands isAuthority call).trans
    (lands_iff_addressable tableNonempty keyNonempty call)

/-- A blank inside the key is encoded and decoded again. -/
theorem blankInside_reaches :
    write.Reaches "10.0.0.1:6660" "users" "a b" := by
  have ending : (asBytes "a b".toList).getLast? = some 98 := by
    decide
  refine (reaches_iff_addressable (by decide) (by decide) (by decide)
    write).mpr ⟨by decide, by decide, ?_⟩
  intro byte last
  cases ending.symm.trans last
  rfl

/-- A slash makes two segments of the key, and no route takes the path. -/
theorem slash_not_reaches :
    ¬ write.Reaches "10.0.0.1:6660" "users" "a/b" := by
  decide

end PeerCall

/-! ## Registrations sent to peers -/

/-- `format!("http://{}/auth/{}", target, username)` behind the address. -/
def registrationPath (username : String) : String :=
  "/auth/" ++ username

/-- At its peer a replicated registration is given to `access`, with the same
name. -/
def RegistrationLands (username : String) : Prop :=
  arriveAt .post (asBytes (registrationPath username).toList) =
    some (.access, [asBytes username.toList])

instance (username : String) : Decidable (RegistrationLands username) :=
  inferInstanceAs (Decidable (_ = _))

/-- A name that needs no encoding.  `POST /auth/keys` asks for the keys of the
table `auth`. -/
structure AddressableUser (username : String) : Prop where
  plain : IsPlainPiece (asBytes username.toList)
  ending : ∀ byte ∈ (asBytes username.toList).getLast?, isBlank byte = false
  notKeys : asBytes username.toList ≠ literalBytes "keys"

theorem asBytes_registrationPath (username : String) :
    asBytes (registrationPath username).toList =
      joinPath [literalBytes "auth", asBytes username.toList] := by
  have front : asBytes "/auth/".toList =
      joinPath [literalBytes "auth"] ++ [47] := by decide
  rw [registrationPath, String.toList_append, asBytes_append, front]
  simp

/-- Where a POST on two segments goes, the first being `auth`. -/
private theorem route_post_auth {first second : Bytes}
    (isAuth : percentDecode first = literalBytes "auth") :
    route .post [first, second] =
      if percentDecode second = literalBytes "keys" then
        some (.getMultipleKeys, [literalBytes "auth"])
      else if second = [] then none
      else some (.access, [percentDecode second]) := by
  have present : first ≠ [] := by
    rintro rfl
    exact absurd isAuth (by decide)
  have notAdmin : literalBytes "auth" ≠ literalBytes "admin" := by decide
  simp only [route, routes, List.findSome?, matchPattern, isAuth]
  simp only [reduceCtorEq, if_false, if_true, present, notAdmin]
  by_cases isKeys : percentDecode second = literalBytes "keys"
  · simp [isKeys]
  · by_cases empty : second = []
    · subst empty
      simp [isKeys]
    · simp [isKeys, empty]

/-- Only `auth/{user}` leads to `access`. -/
private theorem decode_of_route_access {path : List Bytes} {username : Bytes}
    (found : route .post path = some (.access, [username])) :
    path.map percentDecode = [literalBytes "auth", username] := by
  have only : ∀ entry ∈ routes, entry.handler = .access →
      entry = ⟨.post, [.literal "auth", .parameter], .access⟩ := by
    decide
  obtain ⟨entry, among, taken⟩ := List.exists_of_findSome?_eq_some found
  obtain ⟨-, matched⟩ := Option.ite_none_right_eq_some.mp taken
  obtain ⟨parameters, fits, same⟩ := Option.map_eq_some_iff.mp matched
  obtain ⟨isAccess, rfl⟩ := Prod.mk.inj same
  rw [only entry among isAccess] at fits
  exact (Option.some.inj (matchPattern_eq_some_iff.mp fits).1).symm

private theorem roundTrips_registration_iff {username : Bytes}
    (nonempty : username ≠ []) :
    RoundTrips [literalBytes "auth", username] ↔
      IsPlainPiece username ∧
        ∀ byte ∈ username.getLast?, isBlank byte = false := by
  have ending : (joinPath [literalBytes "auth", username]).getLast? =
      username.getLast? := by
    have shape : joinPath [literalBytes "auth", username] =
        joinPath [literalBytes "auth"] ++ [47] ++ username := by
      simp
    rw [shape]
    exact List.getLast?_append_of_ne_nil _ nonempty
  have auth : IsPlainPiece (literalBytes "auth") := by decide
  constructor
  · intro roundTrips
    exact ⟨roundTrips.plain _ (List.mem_cons_of_mem _ List.mem_cons_self),
      ending ▸ roundTrips.ending⟩
  · rintro ⟨plain, last⟩
    refine ⟨List.forall_mem_cons.mpr ⟨auth, ?_⟩, ending ▸ last⟩
    exact List.forall_mem_singleton.mpr plain

/-- A replicated registration reaches `access` with the same name exactly when
the name is addressable. -/
theorem registrationLands_iff {username : String} (nonempty : username ≠ "") :
    RegistrationLands username ↔ AddressableUser username := by
  have bytes : asBytes username.toList ≠ [] := by
    rw [Ne, asBytes_eq_nil, String.toList_eq_nil_iff]
    exact nonempty
  have back := decode_pathSegments_iff
    (List.cons_ne_nil (literalBytes "auth") [asBytes username.toList])
  rw [RegistrationLands, arriveAt, asBytes_registrationPath]
  constructor
  · intro found
    have decoded := decode_of_route_access found
    obtain ⟨plain, ending⟩ :=
      (roundTrips_registration_iff bytes).mp (back.mp decoded)
    refine ⟨plain, ending, ?_⟩
    intro isKeys
    obtain ⟨first, _, shape, isAuth, rest⟩ := List.map_eq_cons_iff.mp decoded
    obtain ⟨second, _, rfl, isUser, empty⟩ := List.map_eq_cons_iff.mp rest
    rw [shape, List.map_eq_nil_iff.mp empty, route_post_auth isAuth, isUser,
      if_pos isKeys] at found
    cases found
  · intro addressable
    have decoded := back.mpr ((roundTrips_registration_iff bytes).mpr
      ⟨addressable.plain, addressable.ending⟩)
    obtain ⟨first, _, shape, isAuth, rest⟩ := List.map_eq_cons_iff.mp decoded
    obtain ⟨second, _, rfl, isUser, empty⟩ := List.map_eq_cons_iff.mp rest
    have present : second ≠ [] := by
      rintro rfl
      exact bytes isUser.symm
    rw [shape, List.map_eq_nil_iff.mp empty, route_post_auth isAuth, isUser,
      if_neg addressable.notKeys, if_neg present]

end DynaRust.Network
