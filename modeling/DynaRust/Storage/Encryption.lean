import DynaRust.Foundation.Text

/-!
# Encryption at rest

`encrypt` and `decrypt` of `persistance.rs` over the third-party parts they
call: AES-256-GCM under the built-in key and standard base64.
-/

namespace DynaRust.Storage

open DynaRust.Foundation

/-- A 96-bit nonce. -/
abbrev Nonce := { bytes : Bytes // bytes.length = 12 }

/-- The cipher under the key compiled into the program, and base64. -/
structure Cipher where
  encryptBytes : Nonce → Bytes → Option Bytes
  decryptBytes : Nonce → Bytes → Option Bytes
  encodeBase64 : Bytes → Text
  decodeBase64 : Text → Option Bytes

inductive DecryptError where
  | base64
  | tooShort
  | decryption
  | utf8
  deriving DecidableEq

/-- `[0u8; 12]`, which a failed `try_fill_bytes` leaves as it is. -/
def zeroNonce : Nonce :=
  ⟨List.replicate 12 0, rfl⟩

namespace Cipher

/-- What is stored for a plaintext, `draw` being what the random source
gave. -/
def encrypt (cipher : Cipher) (draw : Option Nonce) (plain : Text) :
    Option Text :=
  let nonce := draw.getD zeroNonce
  (cipher.encryptBytes nonce (asBytes plain)).map fun ciphertext =>
    cipher.encodeBase64 (nonce.val ++ ciphertext)

def decrypt (cipher : Cipher) (encrypted : Text) :
    Except DecryptError Text :=
  match cipher.decodeBase64 encrypted with
  | none => .error .base64
  | some data =>
      if long : 12 ≤ data.length then
        let nonce : Nonce :=
          ⟨data.take 12, by rw [List.length_take, Nat.min_eq_left long]⟩
        match cipher.decryptBytes nonce (data.drop 12) with
        | none => .error .decryption
        | some plaintext =>
            match fromUtf8 plaintext with
            | none => .error .utf8
            | some text => .ok text
      else
        .error .tooShort

/-- The cipher and base64 give back what they were given, here for one
plaintext and one nonce; base64 text is solid. -/
structure Reliable (cipher : Cipher) (nonce : Nonce) (plain ciphertext : Bytes) :
    Prop where
  sealed : cipher.encryptBytes nonce plain = some ciphertext
  unsealed : cipher.decryptBytes nonce ciphertext = some plain
  decoded : cipher.decodeBase64
    (cipher.encodeBase64 (nonce.val ++ ciphertext)) =
      some (nonce.val ++ ciphertext)
  nonempty : cipher.encodeBase64 (nonce.val ++ ciphertext) ≠ []
  solid : ∀ char ∈ cipher.encodeBase64 (nonce.val ++ ciphertext),
    isWhitespace char = false

/-- An encrypted text that decrypts to what it was made from. -/
structure Restores (cipher : Cipher) (plain encrypted : Text) : Prop where
  decrypts : cipher.decrypt encrypted = .ok plain
  nonempty : encrypted ≠ []
  solid : ∀ char ∈ encrypted, isWhitespace char = false

/-- `decrypt` undoes `encrypt`. -/
theorem exists_encrypt_restores {cipher : Cipher} {draw : Option Nonce}
    {plain : Text} {ciphertext : Bytes}
    (reliable : cipher.Reliable (draw.getD zeroNonce) (asBytes plain)
      ciphertext) :
    ∃ encrypted, cipher.encrypt draw plain = some encrypted ∧
      cipher.Restores plain encrypted := by
  have nonceLength := (draw.getD zeroNonce).property
  refine ⟨_, by rw [encrypt, reliable.sealed]; rfl, ?_,
    reliable.nonempty, reliable.solid⟩
  rw [decrypt, reliable.decoded]
  have long : 12 ≤ ((draw.getD zeroNonce).val ++ ciphertext).length := by
    rw [List.length_append, nonceLength]
    exact Nat.le_add_right 12 _
  have first : ((draw.getD zeroNonce).val ++ ciphertext).take 12 =
      (draw.getD zeroNonce).val :=
    List.take_left' nonceLength
  have second : ((draw.getD zeroNonce).val ++ ciphertext).drop 12 =
      ciphertext :=
    List.drop_left' nonceLength
  simp only [dif_pos long, first, second, Subtype.coe_eta,
    reliable.unsealed, fromUtf8_asBytes]

end Cipher

/-! ## Ciphers given by a table -/

/-- A plaintext under one nonce, with its ciphertext and base64 text. -/
structure SealedText where
  nonce : Nonce
  plain : Text
  ciphertext : Bytes
  base64 : Text

/-- A cipher as it behaves on the listed texts. -/
def tableCipher (texts : List SealedText) : Cipher where
  encryptBytes nonce plain := (texts.find? fun text =>
    text.nonce = nonce ∧ asBytes text.plain = plain).map (·.ciphertext)
  decryptBytes nonce ciphertext := (texts.find? fun text =>
    text.nonce = nonce ∧ text.ciphertext = ciphertext).map
      fun text => asBytes text.plain
  encodeBase64 bytes := ((texts.find? fun text =>
    text.nonce.val ++ text.ciphertext = bytes).map (·.base64)).getD []
  decodeBase64 encoded := (texts.find? fun text =>
    text.base64 = encoded).map fun text => text.nonce.val ++ text.ciphertext

/-- The entry is found again by its base64 text and restored. -/
structure SealedText.Sound (texts : List SealedText) (text : SealedText) :
    Prop where
  encodes : (tableCipher texts).encodeBase64
    (text.nonce.val ++ text.ciphertext) = text.base64
  restores : (tableCipher texts).Restores text.plain text.base64

theorem SealedText.sound_of_all {texts : List SealedText} {text : SealedText}
    (encodes : (tableCipher texts).encodeBase64
      (text.nonce.val ++ text.ciphertext) = text.base64)
    (decrypts : (tableCipher texts).decrypt text.base64 = .ok text.plain)
    (nonempty : text.base64 ≠ [])
    (solid : text.base64.all (fun char => !isWhitespace char) = true) :
    text.Sound texts := by
  refine ⟨encodes, decrypts, nonempty, ?_⟩
  intro char inside
  have visible := List.all_eq_true.mp solid char inside
  simpa using visible

/-- What a sound table encrypts is an entry, so it is restored. -/
theorem tableCipher_restores {texts : List SealedText}
    (sound : ∀ text ∈ texts, text.Sound texts) {draw : Option Nonce}
    {plain encrypted : Text}
    (sealed : (tableCipher texts).encrypt draw plain = some encrypted) :
    (tableCipher texts).Restores plain encrypted := by
  obtain ⟨ciphertext, encryptedBytes, encoded⟩ :=
    Option.map_eq_some_iff.mp sealed
  obtain ⟨text, found, rfl⟩ := Option.map_eq_some_iff.mp encryptedBytes
  have listed : text ∈ texts := List.mem_of_find?_eq_some found
  have entry := List.find?_some found
  obtain ⟨sameNonce, sameBytes⟩ := of_decide_eq_true entry
  have samePlain : text.plain = plain := by
    have texts := congrArg fromUtf8 sameBytes
    rw [fromUtf8_asBytes, fromUtf8_asBytes] at texts
    exact Option.some.inj texts
  rw [← encoded, ← sameNonce, (sound text listed).encodes, ← samePlain]
  exact (sound text listed).restores

end DynaRust.Storage
