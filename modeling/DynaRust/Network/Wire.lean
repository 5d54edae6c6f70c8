import DynaRust.Network.Cluster
import DynaRust.Network.Routes

/-!
# Requests on the wire

What a peer handles of a request that was sent to it: the headers as they can
be read, and the route and the names that its path leads to.  `wireStep` is
the step of a cluster whose requests travel so.  Nodes are reached under their
addresses, so the path alone decides.
-/

namespace DynaRust.Network

open DynaRust.Foundation DynaRust.Storage

/-! ## Headers -/

/-- The characters of a header that `to_str` reads. -/
def isVisibleAscii (char : Char) : Bool :=
  decide (32 ≤ char.toNat ∧ char.toNat < 127) || char == '\t'

/-- Blanks around a header value are not part of it. -/
def isHeaderBlank (char : Char) : Bool :=
  char == ' ' || char == '\t'

def trimHeader (content : Text) : Text :=
  List.rdropWhile isHeaderBlank (List.dropWhile isHeaderBlank content)

/-- `HeaderValue::from_str` takes everything but control characters. -/
def IsHeaderText (content : String) : Prop :=
  ∀ char ∈ content.toList,
    (32 ≤ char.toNat ∧ char.toNat ≠ 127) ∨ char = '\t'

instance (content : String) : Decidable (IsHeaderText content) :=
  List.decidableBAll _ content.toList

/-- What arrives of a header value; a request that cannot carry it is not
sent. -/
def HeaderValue.arrives : HeaderValue → Option HeaderValue
  | .text content =>
      if IsHeaderText content then
        let trimmed := trimHeader content.toList
        if trimmed.all isVisibleAscii then
          some (.text (String.ofList trimmed))
        else
          some .binary
      else
        none
  | .binary => some .binary

/-- A text that arrives as it was sent: visible ASCII, no blank at either
end. -/
structure IsPlainHeader (content : String) : Prop where
  visible : ∀ char ∈ content.toList, isVisibleAscii char = true
  beginning : ∀ char ∈ content.toList.head?, isHeaderBlank char = false
  ending : ∀ char ∈ content.toList.getLast?, isHeaderBlank char = false

theorem trimHeader_eq_self_iff (content : Text) :
    trimHeader content = content ↔
      (∀ char ∈ content.head?, isHeaderBlank char = false) ∧
        ∀ char ∈ content.getLast?, isHeaderBlank char = false := by
  have starts : List.dropWhile isHeaderBlank content = content ↔
      ∀ char ∈ content.head?, isHeaderBlank char = false := by
    cases content with
    | nil =>
        simp
    | cons first rest =>
        simp [List.dropWhile_eq_self_iff]
  have ends : List.rdropWhile isHeaderBlank content = content ↔
      ∀ char ∈ content.getLast?, isHeaderBlank char = false := by
    rw [List.rdropWhile_eq_self_iff]
    constructor
    · intro solid char last
      obtain ⟨nonempty, rfl⟩ := List.mem_getLast?_eq_getLast last
      exact Bool.eq_false_iff.mpr (solid nonempty)
    · intro solid nonempty
      exact Bool.eq_false_iff.mp
        (solid _ (List.getLast?_eq_getLast_of_ne_nil nonempty))
  rw [← starts, ← ends]
  constructor
  · intro same
    have whole : List.dropWhile isHeaderBlank content = content := by
      apply (List.dropWhile_suffix isHeaderBlank).eq_of_length_le
      have shorter := (List.rdropWhile_prefix isHeaderBlank
        (List.dropWhile isHeaderBlank content)).length_le
      rw [← trimHeader, same] at shorter
      exact shorter
    rw [trimHeader, whole] at same
    exact ⟨whole, same⟩
  · rintro ⟨start, ending⟩
    rw [trimHeader, start, ending]

theorem isPlainHeader_iff {content : String} :
    IsPlainHeader content ↔ content.toList.all isVisibleAscii = true ∧
      trimHeader content.toList = content.toList := by
  rw [trimHeader_eq_self_iff, List.all_eq_true]
  exact ⟨fun plain => ⟨plain.visible, plain.beginning, plain.ending⟩,
    fun ⟨visible, beginning, ending⟩ => ⟨visible, beginning, ending⟩⟩

instance (content : String) : Decidable (IsPlainHeader content) :=
  decidable_of_iff _ isPlainHeader_iff.symm

theorem IsPlainHeader.isHeaderText {content : String}
    (plain : IsPlainHeader content) : IsHeaderText content := by
  intro char member
  have visible := plain.visible char member
  rw [isVisibleAscii, Bool.or_eq_true, decide_eq_true_eq, beq_iff_eq]
    at visible
  rcases visible with ⟨low, high⟩ | tab
  · exact Or.inl ⟨low, by omega⟩
  · exact Or.inr tab

theorem exists_arrives {content : String} (isText : IsHeaderText content) :
    ∃ arrived, (HeaderValue.text content).arrives = some arrived := by
  simp only [HeaderValue.arrives, if_pos isText]
  split
  · exact ⟨_, rfl⟩
  · exact ⟨_, rfl⟩

/-- A plain text is what arrives of it, and no other text is. -/
theorem arrives_text_iff (content : String) :
    (HeaderValue.text content).arrives = some (.text content) ↔
      IsPlainHeader content := by
  have whole : String.ofList (trimHeader content.toList) = content ↔
      trimHeader content.toList = content.toList := by
    constructor
    · intro same
      rw [← String.toList_ofList (l := trimHeader content.toList), same]
    · intro same
      rw [same, String.ofList_toList]
  rw [isPlainHeader_iff]
  constructor
  · intro arrived
    simp only [HeaderValue.arrives] at arrived
    split at arrived
    · split at arrived
      · rename_i visible
        simp only [Option.some.injEq, HeaderValue.text.injEq] at arrived
        have same := whole.mp arrived
        exact ⟨same ▸ visible, same⟩
      · cases arrived
    · cases arrived
  · rintro ⟨visible, same⟩
    have isText := (isPlainHeader_iff.mpr ⟨visible, same⟩).isHeaderText
    simp only [HeaderValue.arrives, if_pos isText, same, visible, if_true,
      String.ofList_toList]

/-! ## Requests -/

/-- A parameter as a handler is given it. -/
def nameOf (parameter : Bytes) : String :=
  String.ofList (fromUtf8Lossy parameter)

@[simp]
theorem nameOf_asBytes (name : String) :
    nameOf (asBytes name.toList) = name := by
  rw [nameOf, fromUtf8Lossy_asBytes, String.ofList_toList]

def InternalRequest.method : InternalRequest → Method
  | .putValueInternal _ _ _ => .put
  | .deleteValue _ _ => .delete
  | .access _ _ => .post

/-- The URL of the request behind the address of its target. -/
def InternalRequest.path : InternalRequest → String
  | .putValueInternal table key _ => PeerCall.write.path table key
  | .deleteValue table key => PeerCall.remove.path table key
  | .access username _ => registrationPath username

/-- The request that a handler makes of this one.  The other handlers that a
path can lead to refuse it: it has no token, and no body of theirs. -/
def InternalRequest.readAs (content : InternalRequest) :
    Handler × List Bytes → Option Request
  | (handler, parameters) =>
      match content, handler, parameters with
      | .putValueInternal _ _ payload, .putValueInternal, [table, key] =>
          some (.putValueInternal (nameOf table) (nameOf key) payload)
      | .deleteValue _ _, .deleteValue, [table, key] =>
          some (.deleteValue .missing (nameOf table) (nameOf key))
      | .access username hashedSecret, .access, [user] =>
          (HeaderValue.text username).arrives.map fun userHeader =>
            .access (nameOf user) (some userHeader) (.bincode hashedSecret)
      | _, _, _ => none

/-- What the peer is asked to do. -/
def InternalRequest.arrives (content : InternalRequest) : Option Request :=
  (arriveAt content.method (asBytes content.path.toList)).bind content.readAs

/-- What becomes of names and headers on the way, and what stays. -/
inductive ArrivesAs : InternalRequest → Request → Prop
  | putValueInternal (table key arrivedTable arrivedKey : String)
      (payload : VersionedValue) :
      ArrivesAs (.putValueInternal table key payload)
        (.putValueInternal arrivedTable arrivedKey payload)
  | deleteValue (table key arrivedTable arrivedKey : String) :
      ArrivesAs (.deleteValue table key)
        (.deleteValue .missing arrivedTable arrivedKey)
  | access (username hashedSecret user : String) (userHeader : HeaderValue) :
      ArrivesAs (.access username hashedSecret)
        (.access user (some userHeader) (.bincode hashedSecret))

theorem arrivesAs_of_arrives {content : InternalRequest} {request : Request}
    (arrived : content.arrives = some request) :
    ArrivesAs content request := by
  obtain ⟨⟨handler, parameters⟩, -, read⟩ := Option.bind_eq_some_iff.mp arrived
  simp only [InternalRequest.readAs] at read
  split at read
  · cases read
    exact .putValueInternal _ _ _ _ _
  · cases read
    exact .deleteValue _ _ _ _
  · obtain ⟨userHeader, -, rfl⟩ := Option.map_eq_some_iff.mp read
    exact .access _ _ _ userHeader
  · cases read

/-- The request arrives for the record it is about. -/
def InternalRequest.Lands : InternalRequest → Prop
  | .putValueInternal table key _ => PeerCall.write.Lands table key
  | .deleteValue table key => PeerCall.remove.Lands table key
  | .access username _ => RegistrationLands username ∧ IsPlainHeader username

instance (content : InternalRequest) : Decidable content.Lands := by
  unfold InternalRequest.Lands
  split <;> infer_instance

theorem InternalRequest.Lands.arrives {content : InternalRequest}
    (lands : content.Lands) : content.arrives = some content.request := by
  cases content with
  | putValueInternal table key payload =>
      have arrived : arriveAt .put
          (asBytes (PeerCall.write.path table key).toList) =
            some (.putValueInternal,
              [asBytes table.toList, asBytes key.toList]) :=
        lands
      rw [InternalRequest.arrives, InternalRequest.method,
        InternalRequest.path, arrived, Option.bind_some]
      simp only [InternalRequest.readAs, nameOf_asBytes,
        InternalRequest.request]
  | deleteValue table key =>
      have arrived : arriveAt .delete
          (asBytes (PeerCall.remove.path table key).toList) =
            some (.deleteValue,
              [asBytes table.toList, asBytes key.toList]) :=
        lands
      rw [InternalRequest.arrives, InternalRequest.method,
        InternalRequest.path, arrived, Option.bind_some]
      simp only [InternalRequest.readAs, nameOf_asBytes,
        InternalRequest.request]
  | access username hashedSecret =>
      have arrived : arriveAt .post
          (asBytes (registrationPath username).toList) =
            some (.access, [asBytes username.toList]) :=
        lands.1
      rw [InternalRequest.arrives, InternalRequest.method,
        InternalRequest.path, arrived, Option.bind_some]
      simp only [InternalRequest.readAs, nameOf_asBytes,
        InternalRequest.request, (arrives_text_iff username).mpr lands.2,
        Option.map_some]

/-- What its target is given of a message: the header it checks and the
request. -/
def Message.arrives (message : Message) : Option (HeaderValue × Request) :=
  message.header.bind fun header =>
    header.arrives.bind fun arrived =>
      message.content.arrives.map fun request => (arrived, request)

/-- What `get_value` of a peer makes of an internal GET. -/
def answerTo (environment : Environment) (store : Store)
    (header : HeaderValue) :
    Handler × List Bytes → Option (Option VersionedValue)
  | (.getValue, [table, key]) =>
      if headerPresents environment.clusterSecret (some header) then
        replicaAnswer environment store (nameOf table) (nameOf key)
      else none
  | _ => none

/-- The answer to the internal GET of `get_value`; nothing that another
handler says is read as a record. -/
def remoteAnswer (environment : Environment) (store : Store)
    (table key : String) : Option (Option VersionedValue) :=
  (HeaderValue.text environment.clusterSecret).arrives.bind fun header =>
    (arriveAt .get (asBytes (PeerCall.read.path table key).toList)).bind
      (answerTo environment store header)

/-- Under names that land, a replica answers its record or refuses. -/
theorem remoteAnswer_of_lands (environment : Environment)
    {table key : String} (lands : PeerCall.read.Lands table key)
    (store : Store) :
    remoteAnswer environment store table key =
      (HeaderValue.text environment.clusterSecret).arrives.bind fun header =>
        if headerPresents environment.clusterSecret (some header) then
          some (store.record table key)
        else none := by
  simp only [PeerCall.Lands, PeerCall.method, PeerCall.handler] at lands
  simp [remoteAnswer, lands, answerTo]

theorem remoteAnswer_eq {environment : Environment}
    (plain : IsPlainHeader environment.clusterSecret) {table key : String}
    (lands : PeerCall.read.Lands table key) (store : Store) :
    remoteAnswer environment store table key =
      some (store.record table key) := by
  rw [remoteAnswer_of_lands environment lands store,
    (arrives_text_iff _).mpr plain]
  simp [headerPresents]

theorem eq_record_of_remoteAnswer {environment : Environment}
    {table key : String} (lands : PeerCall.read.Lands table key)
    {store : Store} {found : Option VersionedValue}
    (answered : remoteAnswer environment store table key = some found) :
    found = store.record table key := by
  rw [remoteAnswer_of_lands environment lands store] at answered
  obtain ⟨header, -, read⟩ := Option.bind_eq_some_iff.mp answered
  exact (Option.some.inj (Option.ite_none_right_eq_some.mp read).2).symm

/-! ## The cluster -/

namespace Cluster

/-- Handle at its target what arrives of a message. -/
def receiveArrived (environment : Environment) (cluster : Cluster)
    (message : Message) (now : Nat) : Cluster :=
  match message.arrives with
  | some (header, request) =>
      cluster.perform message.target
        (handle environment message.target (cluster.storeAt message.target)
          (some header) request now)
  | none => cluster

/-- A step in which requests between nodes are parsed, routed and decoded by
their receivers.  A node asks its own store directly. -/
def wireStep (environment : Environment) (cluster : Cluster) :
    ClusterEvent → Option Cluster
  | .deliver index now =>
      cluster.messages[index]?.map fun message =>
        receiveArrived environment
          { cluster with messages := cluster.messages.eraseIdx index }
          message now
  | .redeliver index now =>
      cluster.messages[index]?.map fun message =>
        receiveArrived environment cluster message now
  | .answer index target =>
      match cluster.tasks[index]? with
      | some (node, .collect user table key targets answers) =>
          if target ∈ targets ∧ answers.lookup target = none then
            let answer :=
              if target = node then some (cluster.recordAt node table key)
              else remoteAnswer environment (cluster.storeAt target) table key
            some { cluster with
              tasks := cluster.tasks.set index (node,
                .collect user table key targets
                  (answers ++ [(target, answer)])) }
          else none
      | _ => none
  | .pullStore joiner seed =>
      match (HeaderValue.text environment.clusterSecretOrEmpty).arrives with
      | some header =>
          match (getGlobalStore environment.clusterSecret
              (cluster.storeAt seed) (some header)).response with
          | some ⟨200, .store remote⟩ =>
              some { cluster with
                snapshots := cluster.snapshots ++ [(joiner, remote)] }
          | _ => some cluster
      | none => some cluster
  | event => step environment cluster event

/-- The names that the event takes over the wire arrive as they are. -/
def NamesLand (cluster : Cluster) : ClusterEvent → Prop
  | .deliver index _ =>
      ∀ message ∈ cluster.messages[index]?, message.content.Lands
  | .redeliver index _ =>
      ∀ message ∈ cluster.messages[index]?, message.content.Lands
  | .answer index target =>
      match cluster.tasks[index]? with
      | some (node, .collect _ table key _ _) =>
          target = node ∨ PeerCall.read.Lands table key
      | _ => True
  | _ => True

instance (cluster : Cluster) (event : ClusterEvent) :
    Decidable (cluster.NamesLand event) := by
  unfold NamesLand
  split
  · infer_instance
  · infer_instance
  · split <;> infer_instance
  · infer_instance

end Cluster

end DynaRust.Network
