import DynaRust.Storage.Engine

/-!
# Registration and login
-/

namespace DynaRust.Security

open DynaRust.Foundation DynaRust.Network DynaRust.Storage

/-- `value_map.insert("secret", json!(hash))`. -/
def secretMap (hash : String) : HashMap String Value :=
  (∅ : HashMap String Value).insert "secret" (.string hash)

/-- `value.get("secret").and_then(|v| v.as_str())`. -/
def storedHash (record : VersionedValue) : Option String :=
  (record.value.lookup "secret").bind Value.asStr

@[simp]
theorem storedHash_new (hash owner nodeId : String) (now : Nat) :
    storedHash (VersionedValue.new (secretMap hash) owner nodeId now) =
      some hash := by
  simp [storedHash, VersionedValue.new, secretMap]

/-- `POST /auth/{user}`.  The internal branch stores the transmitted hash
whatever is stored already; the other one registers or logs in. -/
def access (environment : Environment) (currentAddr : String) (store : Store)
    (header : Option HeaderValue) (username : String)
    (userHeader : Option HeaderValue) (body : AccessBody) (now : Nat) :
    Outcome :=
  if headerPresents environment.clusterSecret header then
    match body with
    | .bincode providedSecret =>
        let opened := store.orDefault "auth"
        let owner := (userHeader.bind HeaderValue.toStr).getD username
        let newRec :=
          VersionedValue.new (secretMap providedSecret) owner currentAddr now
        { store := opened.insertRecord "auth" username newRec
          response := some ⟨201, .status "User replicated"⟩
          notification := some ⟨"auth", username, .updated newRec⟩ }
    | _ => { store := store, response := some ⟨400, .empty⟩ }
  else
    match body with
    | .json providedSecret =>
        let opened := store.orDefault "auth"
        match opened.record "auth" username with
        | none =>
            let hashed := environment.sha256Hex providedSecret
            let newRec :=
              VersionedValue.new (secretMap hashed) username currentAddr now
            { store := opened.insertRecord "auth" username newRec
              response := some
                ⟨201, .token ⟨username, none⟩ (some "User created")⟩
              notification := some ⟨"auth", username, .updated newRec⟩
              task := some (.fanOut (.access username hashed)) }
        | some userRecord =>
            match storedHash userRecord with
            | none =>
                { store := opened
                  response := some ⟨500, .error "Corrupt user record"⟩ }
            | some stored =>
                if stored ≠ environment.sha256Hex providedSecret then
                  { store := opened
                    response := some ⟨401, .error "Invalid credentials"⟩ }
                else
                  { store := opened
                    response := some ⟨200, .token ⟨username, none⟩ none⟩ }
    | _ => { store := store, response := some ⟨400, .empty⟩ }

end DynaRust.Security
