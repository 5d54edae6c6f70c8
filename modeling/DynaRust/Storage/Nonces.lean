import DynaRust.Foundation.Fallback
import DynaRust.Storage.Persistance

/-!
# Nonces under the fixed key

Every save and every snapshot encrypts under the one key of the program.
`encrypt` ignores a failure of the random source and goes on with a nonce of
zeros, so the nonces of the returned ciphertexts differ only as long as this
happens at most once.
-/

namespace DynaRust.Storage

open DynaRust.Foundation

/-! ## Calls of `encrypt` -/

/-- A call of `encrypt` with the answer of the random source. -/
structure EncryptCall where
  draw : Option Nonce
  plain : Text
  deriving DecidableEq

namespace EncryptCall

/-- The nonce after `let _ = OsRng.try_fill_bytes(&mut nonce)`. -/
def nonce (call : EncryptCall) : Nonce :=
  call.draw.getD zeroNonce

def result (cipher : Cipher) (call : EncryptCall) : Option Text :=
  cipher.encrypt call.draw call.plain

/-- What is known of the libraries on this call: the cipher accepts plaintexts
by their length, and base64 decodes what it encoded. -/
structure Documented (cipher : Cipher) (limit : Nat) (call : EncryptCall) :
    Prop where
  accepts : (cipher.encryptBytes call.nonce (asBytes call.plain)).isSome =
    decide (byteLength call.plain ≤ limit)
  decodes : ∀ ciphertext,
    cipher.encryptBytes call.nonce (asBytes call.plain) = some ciphertext →
      cipher.decodeBase64 (cipher.encodeBase64
        (call.nonce.val ++ ciphertext)) =
          some (call.nonce.val ++ ciphertext)

/-- The plaintext is accepted, and the nonce is all zeros because the draw
failed or gave it. -/
def sealsWithZeros (limit : Nat) (call : EncryptCall) : Bool :=
  fallsBack zeroNonce call.draw && decide (byteLength call.plain ≤ limit)

end EncryptCall

/-- The calls up to the first that returns an error. -/
def callsMade (cipher : Cipher) : List EncryptCall → List EncryptCall
  | [] => []
  | call :: rest =>
      match call.result cipher with
      | none => [call]
      | some _ => call :: callsMade cipher rest

/-- The calls for the chunks of a table. -/
def chunkCalls (chance : Chance) (tableName : String) (rows : Rows) :
    List EncryptCall :=
  (chunks chance tableName rows).mapIdx fun index chunk =>
    ⟨chance.draw tableName index, chunk⟩

/-- What the key is used for. -/
inductive KeyUse where
  | saveToCold (chance : Chance) (listing : Listing)
  | snapshotTask (draw : Option Nonce) (plain : Text)

def KeyUse.calls (cipher : Cipher) : KeyUse → List EncryptCall
  | .saveToCold chance listing =>
      callsMade cipher (listing.entries.flatMap fun table =>
        chunkCalls chance table.1 table.2)
  | .snapshotTask draw plain => [⟨draw, plain⟩]

theorem encryptedChunks_eq_map (cipher : Cipher) (chance : Chance)
    (tableName : String) (rows : Rows) :
    encryptedChunks cipher chance tableName rows =
      (chunkCalls chance tableName rows).map (EncryptCall.result cipher) := by
  apply List.ext_getElem?
  intro index
  simp only [encryptedChunks, chunkCalls, List.getElem?_map,
    List.getElem?_mapIdx, Option.map_map]
  rfl

/-- The calls made are those whose results reach the file. -/
theorem chunkSteps_callsMade (cipher : Cipher) (file : Location)
    (calls : List EncryptCall) :
    chunkSteps file ((callsMade cipher calls).map
        (EncryptCall.result cipher)) =
      chunkSteps file (calls.map (EncryptCall.result cipher)) := by
  induction calls with
  | nil =>
      rfl
  | cons call rest inductionHypothesis =>
      rw [callsMade]
      cases outcome : call.result cipher with
      | none =>
          simp [outcome, chunkSteps]
      | some encrypted =>
          simp [outcome, chunkSteps, inductionHypothesis]

/-! ## The nonces of the ciphertexts -/

/-- The nonce that `decrypt` splits off. -/
def carriedNonce (cipher : Cipher) (encrypted : Text) : Option Bytes :=
  (cipher.decodeBase64 encrypted).map fun data => data.take 12

/-- No two returned ciphertexts carry the same nonce. -/
def NoncesDiffer (cipher : Cipher) (calls : List EncryptCall) : Prop :=
  ((calls.filterMap (EncryptCall.result cipher)).map
    (carriedNonce cipher)).Nodup

instance (cipher : Cipher) (calls : List EncryptCall) :
    Decidable (NoncesDiffer cipher calls) :=
  inferInstanceAs (Decidable (List.Nodup _))

variable {cipher : Cipher} {limit : Nat}

namespace EncryptCall

theorem result_eq_none {call : EncryptCall}
    (documented : call.Documented cipher limit)
    (tooLong : ¬ byteLength call.plain ≤ limit) :
    call.result cipher = none := by
  have refused := documented.accepts
  rw [decide_eq_false tooLong, Option.isSome_eq_false_iff,
    Option.isNone_iff_eq_none] at refused
  rw [result, Cipher.encrypt, ← nonce, refused, Option.map_none]

/-- A returned ciphertext carries the nonce of its call. -/
theorem exists_result {call : EncryptCall}
    (documented : call.Documented cipher limit)
    (fits : byteLength call.plain ≤ limit) :
    ∃ encrypted, call.result cipher = some encrypted ∧
      carriedNonce cipher encrypted = some call.nonce.val := by
  have accepted := documented.accepts
  rw [decide_eq_true fits] at accepted
  obtain ⟨ciphertext, sealed⟩ := Option.isSome_iff_exists.mp accepted
  refine ⟨cipher.encodeBase64 (call.nonce.val ++ ciphertext), ?_, ?_⟩
  · rw [result, Cipher.encrypt, ← nonce, sealed, Option.map_some]
  · rw [carriedNonce, documented.decodes ciphertext sealed, Option.map_some,
      List.take_left' call.nonce.property]

end EncryptCall

theorem carriedNonces_eq {calls : List EncryptCall}
    (documented : ∀ call ∈ calls, call.Documented cipher limit) :
    (calls.filterMap (EncryptCall.result cipher)).map (carriedNonce cipher) =
      (calls.filter fun call => decide (byteLength call.plain ≤ limit)).map
        fun call => some call.nonce.val := by
  induction calls with
  | nil =>
      rfl
  | cons call rest inductionHypothesis =>
      have documentedCall := documented call List.mem_cons_self
      have later := inductionHypothesis fun other member =>
        documented other (List.mem_cons_of_mem call member)
      by_cases fits : byteLength call.plain ≤ limit
      · obtain ⟨encrypted, returned, carried⟩ :=
          EncryptCall.exists_result documentedCall fits
        rw [List.filterMap_cons_some returned, List.map_cons, carried, later,
          List.filter_cons_of_pos (by simpa using fits), List.map_cons]
      · have refused := EncryptCall.result_eq_none documentedCall fits
        rw [List.filterMap_cons_none refused, later,
          List.filter_cons_of_neg (by simpa using fits)]

/-- For any calls: the nonces differ exactly if zeros are used at most
once. -/
theorem noncesDiffer_calls_iff {calls : List EncryptCall}
    (documented : ∀ call ∈ calls, call.Documented cipher limit)
    (fresh : (calls.filterMap EncryptCall.draw).Nodup) :
    NoncesDiffer cipher calls ↔
      calls.countP (EncryptCall.sealsWithZeros limit) ≤ 1 := by
  have injective : Function.Injective fun nonce : Nonce =>
      some nonce.val := by
    intro first second same
    exact Subtype.ext (Option.some.inj same)
  have freshAccepted : (((calls.filter fun call =>
      decide (byteLength call.plain ≤ limit)).map
        EncryptCall.draw).filterMap id).Nodup := by
    rw [List.filterMap_map]
    exact fresh.sublist (List.filter_sublist.filterMap _)
  have zeros : calls.countP (EncryptCall.sealsWithZeros limit) =
      ((calls.filter fun call =>
        decide (byteLength call.plain ≤ limit)).map
          EncryptCall.draw).countP (fallsBack zeroNonce) := by
    rw [List.countP_map, List.countP_filter]
    rfl
  have nonces : ((calls.filter fun call =>
      decide (byteLength call.plain ≤ limit)).map fun call =>
        some call.nonce.val) =
      (((calls.filter fun call =>
        decide (byteLength call.plain ≤ limit)).map
          EncryptCall.draw).map fun draw => draw.getD zeroNonce).map
            fun nonce => some nonce.val := by
    rw [List.map_map, List.map_map]
    rfl
  rw [NoncesDiffer, carriedNonces_eq documented, nonces,
    List.nodup_map_iff injective, nodup_map_getD_iff freshAccepted, zeros]

/-- Over all saves and snapshots under the key, in whatever order their calls
were made, no nonce is reused exactly if at most one call that returns a
ciphertext had a failed draw or drew the zeros. -/
theorem noncesDiffer_iff {uses : List KeyUse} {calls : List EncryptCall}
    (interleaved : calls.Perm (uses.flatMap (KeyUse.calls cipher)))
    (documented : ∀ call ∈ calls, call.Documented cipher limit)
    (fresh : (calls.filterMap EncryptCall.draw).Nodup) :
    NoncesDiffer cipher calls ↔
      (uses.flatMap (KeyUse.calls cipher)).countP
        (EncryptCall.sealsWithZeros limit) ≤ 1 := by
  rw [noncesDiffer_calls_iff documented fresh, interleaved.countP_eq]

/-! ## Three ciphertexts

They are those of AES-256-GCM for the key of the bytes 0 to 31.
-/

namespace SealedText

/-- The pretty-printed store of a new node. -/
def defaultStore : Text :=
  "\x7b\n  \"default\": \x7b\x7d\n\x7d".toList

/-- The same with a second empty table. -/
def twoTables : Text :=
  "\x7b\n  \"default\": \x7b\x7d,\n  \"t\": \x7b\x7d\n\x7d".toList

def defaultUnderZeros : SealedText where
  nonce := zeroNonce
  plain := defaultStore
  ciphertext := [
    117, 182, 149, 254, 151, 72, 230, 219, 105, 221, 197, 65, 58, 22, 177,
    226, 175, 73, 43, 228, 171, 146, 183, 201, 121, 197, 16, 153, 102, 36, 23,
    107, 78, 96, 239]
  base64 := [
    'A', 'A', 'A', 'A', 'A', 'A', 'A', 'A', 'A', 'A', 'A', 'A', 'A', 'A', 'A',
    'A', 'd', 'b', 'a', 'V', '/', 'p', 'd', 'I', '5', 't', 't', 'p', '3', 'c',
    'V', 'B', 'O', 'h', 'a', 'x', '4', 'q', '9', 'J', 'K', '+', 'S', 'r', 'k',
    'r', 'f', 'J', 'e', 'c', 'U', 'Q', 'm', 'W', 'Y', 'k', 'F', '2', 't', 'O',
    'Y', 'O', '8', '=']

def tablesUnderZeros : SealedText where
  nonce := zeroNonce
  plain := twoTables
  ciphertext := [
    117, 182, 149, 254, 151, 72, 230, 219, 105, 221, 197, 65, 58, 22, 177,
    226, 175, 111, 92, 115, 8, 163, 20, 13, 186, 190, 200, 254, 207, 130, 181,
    14, 61, 195, 224, 117, 200, 203, 205, 220, 200, 97, 240, 10, 129, 176]
  base64 := [
    'A', 'A', 'A', 'A', 'A', 'A', 'A', 'A', 'A', 'A', 'A', 'A', 'A', 'A', 'A',
    'A', 'd', 'b', 'a', 'V', '/', 'p', 'd', 'I', '5', 't', 't', 'p', '3', 'c',
    'V', 'B', 'O', 'h', 'a', 'x', '4', 'q', '9', 'v', 'X', 'H', 'M', 'I', 'o',
    'x', 'Q', 'N', 'u', 'r', '7', 'I', '/', 's', '+', 'C', 't', 'Q', '4', '9',
    'w', '+', 'B', '1', 'y', 'M', 'v', 'N', '3', 'M', 'h', 'h', '8', 'A', 'q',
    'B', 's', 'A', '=', '=']

def defaultDrawn : SealedText where
  nonce := ⟨[17, 34, 51, 68, 85, 102, 119, 136, 153, 170, 187, 204], rfl⟩
  plain := defaultStore
  ciphertext := [
    26, 195, 201, 19, 222, 91, 161, 18, 51, 192, 238, 14, 123, 149, 70, 64,
    138, 48, 96, 109, 17, 12, 17, 59, 86, 22, 192, 23, 122, 10, 194, 253, 230,
    74, 148]
  base64 := [
    'E', 'S', 'I', 'z', 'R', 'F', 'V', 'm', 'd', '4', 'i', 'Z', 'q', 'r', 'v',
    'M', 'G', 's', 'P', 'J', 'E', '9', '5', 'b', 'o', 'R', 'I', 'z', 'w', 'O',
    '4', 'O', 'e', '5', 'V', 'G', 'Q', 'I', 'o', 'w', 'Y', 'G', '0', 'R', 'D',
    'B', 'E', '7', 'V', 'h', 'b', 'A', 'F', '3', 'o', 'K', 'w', 'v', '3', 'm',
    'S', 'p', 'Q', '=']

end SealedText

/-- The libraries on these texts. -/
def snapshotCipher : Cipher :=
  tableCipher [SealedText.defaultUnderZeros, SealedText.tablesUnderZeros,
    SealedText.defaultDrawn]

/-- A snapshot with a failed draw and one with a nonce. -/
theorem noncesDiffer_iff_snapshots :
    NoncesDiffer snapshotCipher
      [⟨none, SealedText.defaultStore⟩,
        ⟨some SealedText.defaultDrawn.nonce, SealedText.defaultStore⟩] := by
  have documented : ∀ call ∈ [EncryptCall.mk none SealedText.defaultStore,
      ⟨some SealedText.defaultDrawn.nonce, SealedText.defaultStore⟩],
        call.Documented snapshotCipher (2 ^ 36) := by
    intro call member
    rcases List.mem_cons.mp member with rfl | member
    · exact ⟨by decide, by decide⟩
    · rw [List.mem_singleton.mp member]
      exact ⟨by decide, by decide⟩
  have interleaved : [EncryptCall.mk none SealedText.defaultStore,
      ⟨some SealedText.defaultDrawn.nonce, SealedText.defaultStore⟩].Perm
        ([KeyUse.snapshotTask none SealedText.defaultStore,
          .snapshotTask (some SealedText.defaultDrawn.nonce)
            SealedText.defaultStore].flatMap (KeyUse.calls snapshotCipher)) :=
    List.Perm.refl _
  exact (noncesDiffer_iff interleaved documented (by decide)).mpr (by decide)

/-- Two snapshots while the random source fails. -/
theorem failedDraws_reuse_nonce :
    ([KeyUse.snapshotTask none SealedText.defaultStore,
        .snapshotTask none SealedText.twoTables].flatMap
      (KeyUse.calls snapshotCipher)).filterMap
        (EncryptCall.result snapshotCipher) =
        [SealedText.defaultUnderZeros.base64,
          SealedText.tablesUnderZeros.base64] ∧
      ¬ NoncesDiffer snapshotCipher
        ([KeyUse.snapshotTask none SealedText.defaultStore,
          .snapshotTask none SealedText.twoTables].flatMap
            (KeyUse.calls snapshotCipher)) := by
  constructor <;> decide

end DynaRust.Storage
