import DynaRust.Storage.DataDirectory

/-!
# Chunking is transparent

A chunk is a run of whole record lines, so decrypting the chunks of a table in
their order gives back its lines, and reading them gives the records that one
chunk with all lines would give.  The lines may be of any length and hold line
feeds inside.
-/

namespace DynaRust.Storage

open DynaRust.Foundation

variable {cipher : Cipher} {json : Json}

/-! ## No chunk is empty -/

theorem ne_nil_of_mem_chunkLoop {limit : Nat} {lines : List Text}
    (nonempty : ∀ line ∈ lines, line ≠ []) {pending chunk : Text}
    (member : chunk ∈ chunkLoop limit pending lines) : chunk ≠ [] := by
  induction lines generalizing pending with
  | nil =>
      rw [chunkLoop] at member
      split at member
      · cases member
      · rename_i filled
        rw [List.mem_singleton.mp member]
        exact filled
  | cons line rest inductionHypothesis =>
      have nonemptyRest : ∀ other ∈ rest, other ≠ [] :=
        fun other later => nonempty other (List.mem_cons_of_mem line later)
      rw [chunkLoop] at member
      split at member
      · rcases List.mem_cons.mp member with rfl | later
        · exact List.append_ne_nil_of_right_ne_nil pending
            (nonempty line List.mem_cons_self)
        · exact inductionHypothesis nonemptyRest later
      · exact inductionHypothesis nonemptyRest member

/-- The chunks are runs of whole lines, and each run has a line. -/
theorem chunkLoop_runs (limit : Nat) {lines : List Text}
    (terminated : ∀ line ∈ lines, Terminated line) :
    ∃ groups : List (List Text), groups.flatten = lines ∧
      (∀ group ∈ groups, group ≠ []) ∧
      chunkLoop limit [] lines = groups.map List.flatten := by
  have nonempty : ∀ line ∈ lines, line ≠ [] :=
    fun line member => (terminated line member).ne_nil
  have nonemptyAll : ∀ line ∈ [] ++ lines, line ≠ [] := by
    rw [List.nil_append]
    exact nonempty
  obtain ⟨groups, flat, same⟩ := chunkLoop_groups limit nonemptyAll
  rw [List.nil_append] at flat
  rw [List.flatten_nil] at same
  refine ⟨groups, flat, ?_, same⟩
  rintro group member rfl
  have isChunk : ([] : Text) ∈ chunkLoop limit [] lines := by
    rw [same]
    exact List.mem_map_of_mem member
  exact ne_nil_of_mem_chunkLoop nonempty isChunk rfl

/-! ## Reading back -/

/-- The chunks of any lines under any limit decrypt to runs of whole lines,
none of them empty, that together are the lines in their order; a load builds
the same table from them as from a single chunk with all lines. -/
theorem chunking_transparent {limit : Nat} {lines encrypted : List Text}
    {whole : Text} {draw : Nat → Option Nonce} {drawWhole : Option Nonce}
    (terminated : ∀ line ∈ lines, Terminated line)
    (undoes : ∀ plain ∈ lines.flatten :: chunkLoop limit [] lines,
      ∀ draw text, cipher.encrypt draw plain = some text →
        cipher.Restores plain text)
    (written : (chunkLoop limit [] lines).mapIdx (fun index chunk =>
      cipher.encrypt (draw index) chunk) = encrypted.map some)
    (single : cipher.encrypt drawWhole lines.flatten = some whole) :
    (∃ groups : List (List Text), groups.flatten = lines ∧
      (∀ group ∈ groups, group ≠ [] ∧ group.flatten ≠ []) ∧
      chunkLoop limit [] lines = groups.map List.flatten ∧
      List.Forall₂ (fun text group =>
        cipher.decrypt text = .ok group.flatten) encrypted groups) ∧
    loadSnapshot cipher json ∅ (splitLines (storedText encrypted)) =
      loadSnapshot cipher json ∅ (splitLines (storedText [whole])) := by
  obtain ⟨groups, flat, nonempty, same⟩ := chunkLoop_runs limit terminated
  have restores : List.Forall₂ cipher.Restores (chunkLoop limit [] lines)
      encrypted :=
    forall₂_of_mapIdx
      (fun _ chunk text found => undoes chunk
        (List.mem_cons_of_mem _ (List.mem_of_getElem? found)) _ text)
      written
  have restoresWhole : List.Forall₂ cipher.Restores [lines.flatten]
      [whole] :=
    List.Forall₂.cons
      (undoes lines.flatten List.mem_cons_self drawWhole whole single)
      List.Forall₂.nil
  refine ⟨⟨groups, flat, ?_, same, ?_⟩, ?_⟩
  · intro group member
    refine ⟨nonempty group member, ?_⟩
    have isChunk : group.flatten ∈ chunkLoop limit [] lines := by
      rw [same]
      exact List.mem_map_of_mem member
    exact ne_nil_of_mem_chunkLoop
      (fun line among => (terminated line among).ne_nil) isChunk
  · rw [same, List.forall₂_map_left_iff] at restores
    exact (restores.imp fun _ _ restored => restored.decrypts).flip
  · rw [loadSnapshot_storedText restores, loadSnapshot_storedText restoresWhole,
      same, readBack_groups flat terminated]

/-! ## Two lines

The ciphertexts are those of AES-256-GCM for the key of the bytes 0 to 31.
-/

namespace SealedText

def lineA : Text :=
  ['a', ' ', '=', ' ', '{', '}', '\n']

def lineB : Text :=
  ['b', ' ', '=', ' ', '{', '}', '\n']

def firstLine : SealedText where
  nonce := ⟨[41, 42, 43, 44, 45, 46, 47, 48, 49, 50, 51, 52], rfl⟩
  plain := lineA
  ciphertext := [
    26, 181, 199, 225, 14, 133, 20, 148, 86, 123, 73, 239, 231, 3, 79, 242,
    112, 42, 162, 28, 13, 196, 103]
  base64 := [
    'K', 'S', 'o', 'r', 'L', 'C', '0', 'u', 'L', 'z', 'A', 'x', 'M', 'j', 'M',
    '0', 'G', 'r', 'X', 'H', '4', 'Q', '6', 'F', 'F', 'J', 'R', 'W', 'e', '0',
    'n', 'v', '5', 'w', 'N', 'P', '8', 'n', 'A', 'q', 'o', 'h', 'w', 'N', 'x',
    'G', 'c', '=']

def secondLine : SealedText where
  nonce := ⟨[1, 2, 3, 4, 5, 6, 7, 8, 9, 10, 11, 12], rfl⟩
  plain := lineB
  ciphertext := [
    103, 202, 103, 245, 151, 233, 250, 52, 59, 81, 93, 2, 189, 123, 69, 220,
    162, 100, 225, 121, 97, 252, 108]
  base64 := [
    'A', 'Q', 'I', 'D', 'B', 'A', 'U', 'G', 'B', 'w', 'g', 'J', 'C', 'g', 's',
    'M', 'Z', '8', 'p', 'n', '9', 'Z', 'f', 'p', '+', 'j', 'Q', '7', 'U', 'V',
    '0', 'C', 'v', 'X', 't', 'F', '3', 'K', 'J', 'k', '4', 'X', 'l', 'h', '/',
    'G', 'w', '=']

def bothLines : SealedText where
  nonce := ⟨[21, 22, 23, 24, 25, 26, 27, 28, 29, 30, 31, 32], rfl⟩
  plain := lineA ++ lineB
  ciphertext := [
    90, 73, 140, 72, 220, 40, 104, 50, 209, 213, 168, 114, 126, 143, 193, 125,
    36, 76, 233, 143, 61, 171, 178, 148, 106, 250, 89, 180, 246, 113]
  base64 := [
    'F', 'R', 'Y', 'X', 'G', 'B', 'k', 'a', 'G', 'x', 'w', 'd', 'H', 'h', '8',
    'g', 'W', 'k', 'm', 'M', 'S', 'N', 'w', 'o', 'a', 'D', 'L', 'R', '1', 'a',
    'h', 'y', 'f', 'o', '/', 'B', 'f', 'S', 'R', 'M', '6', 'Y', '8', '9', 'q',
    '7', 'K', 'U', 'a', 'v', 'p', 'Z', 't', 'P', 'Z', 'x']

end SealedText

/-- The libraries on these texts. -/
def chunkCipher : Cipher :=
  tableCipher [SealedText.firstLine, SealedText.secondLine,
    SealedText.bothLines]

theorem chunkCipher_restores {draw : Option Nonce} {plain encrypted : Text}
    (sealed : chunkCipher.encrypt draw plain = some encrypted) :
    chunkCipher.Restores plain encrypted := by
  refine tableCipher_restores ?_ sealed
  rw [List.forall_mem_cons, List.forall_mem_cons, List.forall_mem_singleton]
  exact ⟨SealedText.sound_of_all rfl rfl (by decide) (by decide),
    SealedText.sound_of_all rfl rfl (by decide) (by decide),
    SealedText.sound_of_all rfl rfl (by decide) (by decide)⟩

/-- Under a limit of three bytes each line is a chunk; neither text is a
record. -/
theorem chunking_transparent_two :
    loadSnapshot chunkCipher ⟨fun _ => none, fun _ => none⟩ ∅
        (splitLines (storedText
          [SealedText.firstLine.base64, SealedText.secondLine.base64])) =
      loadSnapshot chunkCipher ⟨fun _ => none, fun _ => none⟩ ∅
        (splitLines (storedText [SealedText.bothLines.base64])) := by
  have terminated : ∀ line ∈ [SealedText.lineA, SealedText.lineB],
      Terminated line := by
    rw [List.forall_mem_cons, List.forall_mem_singleton]
    exact ⟨⟨['a', ' ', '=', ' ', '{', '}'], rfl⟩,
      ⟨['b', ' ', '=', ' ', '{', '}'], rfl⟩⟩
  have written : (chunkLoop 3 [] [SealedText.lineA,
      SealedText.lineB]).mapIdx (fun index chunk => chunkCipher.encrypt
        (if index = 0 then some SealedText.firstLine.nonce
          else some SealedText.secondLine.nonce) chunk) =
        [SealedText.firstLine.base64,
          SealedText.secondLine.base64].map some := by
    decide
  have single : chunkCipher.encrypt (some SealedText.bothLines.nonce)
      [SealedText.lineA, SealedText.lineB].flatten =
        some SealedText.bothLines.base64 := by
    decide
  exact (chunking_transparent terminated
    (fun _ _ _ _ => chunkCipher_restores) written single).2

end DynaRust.Storage
