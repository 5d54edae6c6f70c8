import DynaRust.Foundation.Text

/-!
# The way of a path through a URL

Parsing of `http` URLs by the URL standard, percent-encoding and
percent-decoding, and which path pieces come through unchanged.
-/

namespace DynaRust.Foundation

/-! ## Percent-encoding -/

def isHexDigit (byte : UInt8) : Bool :=
  (48 ≤ byte && byte ≤ 57) || (65 ≤ byte && byte ≤ 70) ||
    (97 ≤ byte && byte ≤ 102)

def hexValue (byte : UInt8) : UInt8 :=
  if byte ≤ 57 then byte - 48 else if byte ≤ 70 then byte - 55 else byte - 87

def hexDigit (value : UInt8) : UInt8 :=
  if value < 10 then value + 48 else value + 55

/-- Two hexadecimal digits come next. -/
def twoHexDigits : Bytes → Bool
  | first :: second :: _ => isHexDigit first && isHexDigit second
  | _ => false

/-- A `%` without two digits behind it stands for itself. -/
def percentDecode : Bytes → Bytes
  | [] => []
  | [last] => [last]
  | [byte, last] => [byte, last]
  | byte :: first :: second :: rest =>
      if byte = 37 ∧ isHexDigit first ∧ isHexDigit second then
        (hexValue first * 16 + hexValue second) :: percentDecode rest
      else
        byte :: percentDecode (first :: second :: rest)

/-- Somewhere there is a `%` with two digits behind it. -/
def hasEscape : Bytes → Bool
  | [] => false
  | byte :: rest => (byte == 37 && twoHexDigits rest) || hasEscape rest

/-- The path percent-encode set. -/
def inPathSet (byte : UInt8) : Bool :=
  byte ≤ 32 || 126 < byte || byte == 34 || byte == 35 || byte == 60 ||
    byte == 62 || byte == 63 || byte == 94 || byte == 96 || byte == 123 ||
    byte == 125

def percentEncodeByte (byte : UInt8) : Bytes :=
  if inPathSet byte then [37, hexDigit (byte / 16), hexDigit (byte % 16)]
  else [byte]

def percentEncode (bytes : Bytes) : Bytes :=
  bytes.flatMap percentEncodeByte

theorem percentDecode_cons {byte : UInt8} {rest : Bytes}
    (noEscape : ¬ (byte = 37 ∧ twoHexDigits rest = true)) :
    percentDecode (byte :: rest) = byte :: percentDecode rest := by
  match rest with
  | [] =>
      rfl
  | [last] =>
      rfl
  | first :: second :: later =>
      rw [percentDecode, if_neg]
      rintro ⟨isPercent, digits⟩
      refine noEscape ⟨isPercent, ?_⟩
      rw [twoHexDigits, digits.1, digits.2]
      rfl

theorem percentDecode_escape {first second : UInt8} (rest : Bytes)
    (firstDigit : isHexDigit first = true)
    (secondDigit : isHexDigit second = true) :
    percentDecode (37 :: first :: second :: rest) =
      (hexValue first * 16 + hexValue second) :: percentDecode rest := by
  rw [percentDecode, if_pos ⟨rfl, firstDigit, secondDigit⟩]

/-- The escapes of a text are met from left to right. -/
theorem escape_induction {motive : Bytes → Prop} (nil : motive [])
    (escape : ∀ first second rest, isHexDigit first = true →
      isHexDigit second = true → motive rest →
      motive (37 :: first :: second :: rest))
    (plain : ∀ byte rest, ¬ (byte = 37 ∧ twoHexDigits rest = true) →
      motive rest → motive (byte :: rest)) (bytes : Bytes) : motive bytes := by
  induction bytes using percentDecode.induct with
  | case1 =>
      exact nil
  | case2 last =>
      exact plain last [] (fun both => Bool.false_ne_true both.2) nil
  | case3 byte last =>
      have short : motive [last] :=
        plain last [] (fun both => Bool.false_ne_true both.2) nil
      exact plain byte [last] (fun both => Bool.false_ne_true both.2) short
  | case4 byte first second rest digits inductionHypothesis =>
      obtain ⟨rfl, firstDigit, secondDigit⟩ := digits
      exact escape first second rest firstDigit secondDigit
        inductionHypothesis
  | case5 byte first second rest noDigits inductionHypothesis =>
      refine plain byte _ ?_ inductionHypothesis
      rintro ⟨isPercent, digits⟩
      rw [twoHexDigits, Bool.and_eq_true] at digits
      exact noDigits ⟨isPercent, digits⟩

theorem hasEscape_cons_eq_false {byte : UInt8} {rest : Bytes} :
    hasEscape (byte :: rest) = false ↔
      ¬ (byte = 37 ∧ twoHexDigits rest = true) ∧ hasEscape rest = false := by
  rw [hasEscape, Bool.or_eq_false_iff, ← Bool.not_eq_true, Bool.and_eq_true,
    beq_iff_eq]

theorem percentDecode_eq_self {bytes : Bytes}
    (noEscape : hasEscape bytes = false) : percentDecode bytes = bytes := by
  induction bytes with
  | nil =>
      rfl
  | cons byte rest inductionHypothesis =>
      obtain ⟨here, later⟩ := hasEscape_cons_eq_false.mp noEscape
      rw [percentDecode_cons here, inductionHypothesis later]

theorem length_percentDecode_le (bytes : Bytes) :
    (percentDecode bytes).length ≤ bytes.length := by
  induction bytes using escape_induction with
  | nil =>
      exact Nat.le_refl 0
  | escape first second rest firstDigit secondDigit inductionHypothesis =>
      rw [percentDecode_escape rest firstDigit secondDigit]
      simp only [List.length_cons]
      omega
  | plain byte rest noEscape inductionHypothesis =>
      rw [percentDecode_cons noEscape]
      exact Nat.succ_le_succ inductionHypothesis

/-- Decoding an escape makes the text shorter. -/
theorem hasEscape_eq_false_of_length {bytes : Bytes}
    (same : (percentDecode bytes).length = bytes.length) :
    hasEscape bytes = false := by
  induction bytes using escape_induction with
  | nil =>
      rfl
  | escape first second rest firstDigit secondDigit _ =>
      have bound := length_percentDecode_le rest
      rw [percentDecode_escape rest firstDigit secondDigit] at same
      simp only [List.length_cons] at same
      omega
  | plain byte rest noEscape inductionHypothesis =>
      rw [percentDecode_cons noEscape] at same
      have later := inductionHypothesis (Nat.succ.inj same)
      exact hasEscape_cons_eq_false.mpr ⟨noEscape, later⟩

theorem percentDecode_eq_nil {bytes : Bytes} :
    percentDecode bytes = [] ↔ bytes = [] := by
  constructor
  · intro empty
    induction bytes using escape_induction with
    | nil =>
        rfl
    | escape first second rest firstDigit secondDigit _ =>
        rw [percentDecode_escape rest firstDigit secondDigit] at empty
        cases empty
    | plain byte rest noEscape _ =>
        rw [percentDecode_cons noEscape] at empty
        cases empty
  · rintro rfl
    rfl

private theorem hexDigits_of_byte : ∀ byte : Fin 256,
    let high := hexDigit (UInt8.ofNat byte / 16)
    let low := hexDigit (UInt8.ofNat byte % 16)
    isHexDigit high = true ∧ isHexDigit low = true ∧
      hexValue high * 16 + hexValue low = UInt8.ofNat byte ∧
      (isHexDigit (UInt8.ofNat byte) = true →
        inPathSet (UInt8.ofNat byte) = false) := by
  decide +kernel

private theorem hexDigits (byte : UInt8) :
    isHexDigit (hexDigit (byte / 16)) = true ∧
      isHexDigit (hexDigit (byte % 16)) = true ∧
      hexValue (hexDigit (byte / 16)) * 16 + hexValue (hexDigit (byte % 16)) =
        byte ∧
      (isHexDigit byte = true → inPathSet byte = false) := by
  have finite := hexDigits_of_byte ⟨byte.toNat, byte.toNat_lt⟩
  simpa only [UInt8.ofNat_toNat] using finite

private theorem percentDecode_encodedByte {byte : UInt8} (rest : Bytes)
    (encoded : inPathSet byte = true) :
    percentDecode (percentEncodeByte byte ++ rest) =
      byte :: percentDecode rest := by
  obtain ⟨high, low, value, -⟩ := hexDigits byte
  rw [percentEncodeByte, if_pos encoded]
  rw [List.cons_append, List.cons_append, List.cons_append, List.nil_append,
    percentDecode_escape rest high low, value]

/-- An encoded byte starts with `%`, so encoding makes no new escape. -/
private theorem twoHexDigits_percentEncode {rest : Bytes}
    (noDigits : twoHexDigits rest = false) :
    twoHexDigits (percentEncode rest) = false := by
  match rest with
  | [] =>
      rfl
  | [last] =>
      rw [percentEncode, List.flatMap_singleton, percentEncodeByte]
      split <;> rfl
  | first :: second :: later =>
      rw [percentEncode, List.flatMap_cons, List.flatMap_cons,
        percentEncodeByte, percentEncodeByte]
      split
      · rfl
      · split
        · exact Bool.and_false _
        · exact noDigits

/-- Encoding does not change what is decoded. -/
@[simp]
theorem percentDecode_percentEncode (bytes : Bytes) :
    percentDecode (percentEncode bytes) = percentDecode bytes := by
  have plainDigit (digit : UInt8) (isDigit : isHexDigit digit = true) :
      percentEncodeByte digit = [digit] := by
    rw [percentEncodeByte, (hexDigits digit).2.2.2 isDigit]
    rfl
  induction bytes using escape_induction with
  | nil =>
      rfl
  | escape first second rest firstDigit secondDigit inductionHypothesis =>
      have shape : percentEncode (37 :: first :: second :: rest) =
          37 :: first :: second :: percentEncode rest := by
        rw [percentEncode, List.flatMap_cons, List.flatMap_cons,
          List.flatMap_cons, plainDigit first firstDigit,
          plainDigit second secondDigit]
        rfl
      rw [shape, percentDecode_escape _ firstDigit secondDigit,
        percentDecode_escape _ firstDigit secondDigit, inductionHypothesis]
  | plain byte rest noEscape inductionHypothesis =>
      rw [percentDecode_cons noEscape, ← inductionHypothesis]
      rw [percentEncode, List.flatMap_cons]
      by_cases encoded : inPathSet byte = true
      · exact percentDecode_encodedByte _ encoded
      · rw [percentEncodeByte, if_neg encoded, List.singleton_append]
        apply percentDecode_cons
        rintro ⟨isPercent, digits⟩
        have noDigits : twoHexDigits rest = false :=
          Bool.eq_false_iff.mpr fun digits => noEscape ⟨isPercent, digits⟩
        have absent := twoHexDigits_percentEncode noDigits
        exact Bool.false_ne_true (absent.symm.trans digits)

/-! ## Parsing -/

/-- A C0 control or space. -/
def isBlank (byte : UInt8) : Bool :=
  byte ≤ 32

def isTabOrNewline (byte : UInt8) : Bool :=
  byte == 9 || byte == 10 || byte == 13

/-- In `http` URLs a backslash separates like a slash. -/
def isSlash (byte : UInt8) : Bool :=
  byte == 47 || byte == 92

/-- The query starts with `?`, the fragment with `#`. -/
def endsPath (byte : UInt8) : Bool :=
  byte == 63 || byte == 35

/-- What the parser removes before it starts. -/
def stripUrl (url : Bytes) : Bytes :=
  ((url.dropWhile isBlank).rdropWhile isBlank).filter
    fun byte => !isTabOrNewline byte

/-- `.` or `%2e`. -/
def isSingleDot (piece : Bytes) : Bool :=
  percentDecode piece == [46]

/-- `..`, `.%2e`, `%2e.` or `%2e%2e`. -/
def isDoubleDot (piece : Bytes) : Bool :=
  percentDecode piece == [46, 46]

/-- The path state: the segments so far and the pieces to come. -/
def collectSegments (path : List Bytes) : List Bytes → List Bytes
  | [] => path
  | [last] =>
      if isDoubleDot last then path.dropLast ++ [[]]
      else if isSingleDot last then path ++ [[]]
      else path ++ [percentEncode last]
  | piece :: rest =>
      if isDoubleDot piece then collectSegments path.dropLast rest
      else if isSingleDot piece then collectSegments path rest
      else collectSegments (path ++ [percentEncode piece]) rest

/-- The segments behind the authority; a slash in front opens the path. -/
def pathSegments (text : Bytes) : List Bytes :=
  match (text.takeWhile fun byte => !endsPath byte).splitOnP isSlash with
  | _ :: piece :: rest => collectSegments [] (piece :: rest)
  | pieces => collectSegments [] pieces

structure Url where
  authority : Bytes
  path : List Bytes
  deriving DecidableEq

/-- `http://`. -/
def httpScheme : Bytes :=
  [104, 116, 116, 112, 58, 47, 47]

def inAuthority (byte : UInt8) : Bool :=
  !isSlash byte && !endsPath byte

def parseUrl (url : Bytes) : Option Url :=
  let stripped := stripUrl url
  if httpScheme.isPrefixOf stripped then
    let rest := (stripped.drop httpScheme.length).dropWhile isSlash
    some {
      authority := rest.takeWhile inAuthority
      path := pathSegments (rest.dropWhile inAuthority) }
  else
    none

/-! ## Pieces that come through -/

def joinPath (pieces : List Bytes) : Bytes :=
  pieces.flatMap fun piece => 47 :: piece

@[simp]
theorem joinPath_nil : joinPath [] = [] :=
  rfl

@[simp]
theorem joinPath_cons (piece : Bytes) (rest : List Bytes) :
    joinPath (piece :: rest) = 47 :: piece ++ joinPath rest :=
  rfl

theorem joinPath_append (first second : List Bytes) :
    joinPath (first ++ second) = joinPath first ++ joinPath second :=
  List.flatMap_append

/-- A host and port. -/
structure IsAuthority (text : Bytes) : Prop where
  nonempty : text ≠ []
  plain : ∀ byte ∈ text, isBlank byte = false ∧ inAuthority byte = true

/-- A piece in which nothing has a meaning of its own. -/
structure IsPlainPiece (piece : Bytes) : Prop where
  plain : ∀ byte ∈ piece, isTabOrNewline byte = false ∧ isSlash byte = false ∧
    endsPath byte = false
  noEscape : hasEscape piece = false
  notDot : piece ≠ [46]
  notDots : piece ≠ [46, 46]

instance (text : Bytes) : Decidable (IsAuthority text) :=
  decidable_of_iff (text ≠ [] ∧ text.all (fun byte =>
      decide (isBlank byte = false ∧ inAuthority byte = true)) = true)
    ⟨fun both => ⟨both.1, fun byte among =>
        of_decide_eq_true (List.all_eq_true.mp both.2 byte among)⟩,
      fun both => ⟨both.nonempty, List.all_eq_true.mpr fun byte among =>
        decide_eq_true (both.plain byte among)⟩⟩

instance (piece : Bytes) : Decidable (IsPlainPiece piece) :=
  decidable_of_iff (piece.all (fun byte => decide (isTabOrNewline byte =
      false ∧ isSlash byte = false ∧ endsPath byte = false)) = true ∧
        hasEscape piece = false ∧ piece ≠ [46] ∧ piece ≠ [46, 46])
    ⟨fun all => ⟨fun byte among =>
        of_decide_eq_true (List.all_eq_true.mp all.1 byte among),
        all.2.1, all.2.2.1, all.2.2.2⟩,
      fun all => ⟨List.all_eq_true.mpr fun byte among =>
        decide_eq_true (all.plain byte among),
        all.noEscape, all.notDot, all.notDots⟩⟩

/-- The pieces are plain, and no blank at the end is stripped with the URL. -/
structure RoundTrips (pieces : List Bytes) : Prop where
  plain : ∀ piece ∈ pieces, IsPlainPiece piece
  ending : ∀ byte ∈ (joinPath pieces).getLast?, isBlank byte = false

/-! ### Splitting -/

private theorem splitOnP_joinPath {pieces : List Bytes}
    (noSlash : ∀ piece ∈ pieces, ∀ byte ∈ piece, isSlash byte = false)
    {first : Bytes} (firstPlain : ∀ byte ∈ first, isSlash byte = false) :
    (first ++ joinPath pieces).splitOnP isSlash = first :: pieces := by
  induction pieces generalizing first with
  | nil =>
      rw [joinPath_nil, List.append_nil]
      exact List.splitOnP_eq_singleton firstPlain
  | cons piece rest inductionHypothesis =>
      rw [joinPath_cons, List.cons_append,
        List.splitOnP_append_cons_of_forall_mem firstPlain 47 (by decide),
        inductionHypothesis
          (fun other among => noSlash other (List.mem_cons_of_mem _ among))
          (noSlash piece List.mem_cons_self)]

/-- Splitting keeps every byte but the separators. -/
private theorem length_joinPath_splitOnP (text : Bytes) :
    (joinPath (text.splitOnP isSlash)).length = text.length + 1 := by
  induction text with
  | nil =>
      rfl
  | cons byte rest inductionHypothesis =>
      rw [List.splitOnP_cons_eq_if_modifyHead]
      split
      · rw [joinPath_cons]
        simp [inductionHypothesis]
      · cases shape : rest.splitOnP isSlash with
        | nil =>
            exact absurd shape (List.splitOnP_ne_nil _ _)
        | cons head tail =>
            rw [shape] at inductionHypothesis
            simp at inductionHypothesis ⊢
            omega

private theorem noSlash_of_mem_splitOnP {text piece : Bytes}
    (among : piece ∈ text.splitOnP isSlash) :
    ∀ byte ∈ piece, byte ∈ text ∧ isSlash byte = false := by
  induction text generalizing piece with
  | nil =>
      rw [List.mem_singleton.mp among]
      exact fun _ inside => absurd inside List.not_mem_nil
  | cons byte rest inductionHypothesis =>
      rw [List.splitOnP_cons_eq_if_modifyHead] at among
      have later {piece : Bytes} (among : piece ∈ rest.splitOnP isSlash) :
          ∀ other ∈ piece, other ∈ byte :: rest ∧ isSlash other = false :=
        fun other inside => (inductionHypothesis among other inside).imp_left
          (List.mem_cons_of_mem byte)
      split at among
      · rcases List.mem_cons.mp among with rfl | inside
        · exact fun _ inside => absurd inside List.not_mem_nil
        · exact later inside
      · rename_i notSlash
        cases shape : rest.splitOnP isSlash with
        | nil =>
            exact absurd shape (List.splitOnP_ne_nil _ _)
        | cons head tail =>
            rw [shape, List.modifyHead_cons] at among
            rcases List.mem_cons.mp among with rfl | inside
            · refine List.forall_mem_cons.mpr
                ⟨⟨List.mem_cons_self, Bool.eq_false_iff.mpr notSlash⟩, ?_⟩
              exact later (shape ▸ List.mem_cons_self)
            · exact later (shape ▸ List.mem_cons_of_mem head inside)

/-! ### Collecting -/

private theorem collectSegments_plain {pieces : List Bytes}
    (noDots : ∀ piece ∈ pieces,
      isSingleDot piece = false ∧ isDoubleDot piece = false)
    (path : List Bytes) :
    collectSegments path pieces = path ++ pieces.map percentEncode := by
  induction pieces generalizing path with
  | nil =>
      exact (List.append_nil path).symm
  | cons piece rest inductionHypothesis =>
      obtain ⟨notSingle, notDouble⟩ := noDots piece List.mem_cons_self
      have later := inductionHypothesis fun other among =>
        noDots other (List.mem_cons_of_mem piece among)
      have next : collectSegments path (piece :: rest) =
          collectSegments (path ++ [percentEncode piece]) rest := by
        cases rest with
        | nil =>
            simp [collectSegments, notSingle, notDouble]
        | cons other rest =>
            simp [collectSegments, notSingle, notDouble]
      rw [next, later, List.append_assoc, List.map_cons, List.singleton_append]

/-- The length of the path that the decoded segments make. -/
private def decodedLength (path : List Bytes) : Nat :=
  (joinPath (path.map percentDecode)).length

private theorem decodedLength_concat (path : List Bytes) (segment : Bytes) :
    decodedLength (path ++ [segment]) =
      decodedLength path + (percentDecode segment).length + 1 := by
  rw [decodedLength, decodedLength, List.map_append, joinPath_append,
    List.length_append]
  simp
  omega

private theorem decodedLength_dropLast (path : List Bytes) :
    decodedLength path.dropLast ≤ decodedLength path := by
  rcases List.eq_nil_or_concat path with rfl | ⟨before, last, rfl⟩
  · exact Nat.le_refl _
  · rw [List.concat_eq_append, List.dropLast_concat, decodedLength_concat]
    omega

private theorem length_dot {piece : Bytes}
    (isDot : isSingleDot piece = true ∨ isDoubleDot piece = true) :
    1 ≤ piece.length := by
  have bound := length_percentDecode_le piece
  rcases isDot with single | double
  · rw [beq_iff_eq.mp single] at bound
    exact bound
  · rw [beq_iff_eq.mp double] at bound
    exact Nat.le_of_succ_le bound

private theorem length_joinPath_cons (piece : Bytes) (rest : List Bytes) :
    (joinPath (piece :: rest)).length =
      piece.length + 1 + (joinPath rest).length := by
  rw [joinPath_cons, List.length_append, List.length_cons]

/-- A dot segment makes the path shorter, every other piece keeps it as long
at most. -/
private theorem decodedLength_collectSegments (path pieces : List Bytes) :
    decodedLength (collectSegments path pieces) ≤
        decodedLength path + (joinPath pieces).length ∧
      (decodedLength (collectSegments path pieces) =
          decodedLength path + (joinPath pieces).length →
        ∀ piece ∈ pieces,
          isSingleDot piece = false ∧ isDoubleDot piece = false) := by
  have empty (path : List Bytes) :
      decodedLength (path ++ [[]]) = decodedLength path + 1 :=
    decodedLength_concat path []
  have encoded (path : List Bytes) (piece : Bytes) :
      decodedLength (path ++ [percentEncode piece]) ≤
        decodedLength path + piece.length + 1 := by
    have bound := length_percentDecode_le piece
    rw [decodedLength_concat, percentDecode_percentEncode]
    omega
  induction path, pieces using collectSegments.induct with
  | case1 path =>
      exact ⟨Nat.le_refl _, fun _ _ among => absurd among List.not_mem_nil⟩
  | case2 path last double =>
      have long := length_dot (Or.inr double)
      have shorter := decodedLength_dropLast path
      rw [collectSegments, if_pos double, empty, length_joinPath_cons]
      exact ⟨by omega, fun same => by omega⟩
  | case3 path last notDouble single =>
      have long := length_dot (Or.inl single)
      rw [collectSegments, if_neg notDouble, if_pos single, empty,
        length_joinPath_cons]
      exact ⟨by omega, fun same => by omega⟩
  | case4 path last notDouble notSingle =>
      have bound := encoded path last
      rw [collectSegments, if_neg notDouble, if_neg notSingle,
        length_joinPath_cons]
      refine ⟨by omega, fun _ piece among => ?_⟩
      rw [List.mem_singleton.mp among]
      exact ⟨Bool.eq_false_iff.mpr notSingle, Bool.eq_false_iff.mpr notDouble⟩
  | case5 path piece rest nonempty double inductionHypothesis =>
      have long := length_dot (Or.inr double)
      have shorter := decodedLength_dropLast path
      have bound := inductionHypothesis.1
      rw [collectSegments.eq_3 _ _ _ nonempty, if_pos double, length_joinPath_cons]
      exact ⟨by omega, fun same => by omega⟩
  | case6 path piece rest nonempty notDouble single inductionHypothesis =>
      have long := length_dot (Or.inl single)
      have bound := inductionHypothesis.1
      rw [collectSegments.eq_3 _ _ _ nonempty, if_neg notDouble, if_pos single,
        length_joinPath_cons]
      exact ⟨by omega, fun same => by omega⟩
  | case7 path piece rest nonempty notDouble notSingle inductionHypothesis =>
      have bound := encoded path piece
      have whole := inductionHypothesis.1
      rw [collectSegments.eq_3 _ _ _ nonempty, if_neg notDouble, if_neg notSingle,
        length_joinPath_cons]
      refine ⟨by omega, fun same => ?_⟩
      have later := inductionHypothesis.2 (by omega)
      exact List.forall_mem_cons.mpr
        ⟨⟨Bool.eq_false_iff.mpr notSingle, Bool.eq_false_iff.mpr notDouble⟩,
          later⟩

/-! ### Stripping -/

/-- What stripping leaves of a path at the end of a URL. -/
def stripEnd (path : Bytes) : Bytes :=
  (path.rdropWhile isBlank).filter fun byte => !isTabOrNewline byte

private theorem rdropWhile_append_cons (before path : Bytes) :
    (before ++ 47 :: path).rdropWhile isBlank =
      before ++ (47 :: path).rdropWhile isBlank := by
  have kept : ((47 :: path).reverse.dropWhile isBlank).isEmpty = false := by
    rw [List.isEmpty_eq_false_iff, Ne, List.dropWhile_eq_nil_iff]
    intro blanks
    exact absurd (blanks 47 (by simp)) (by decide)
  rw [List.rdropWhile, List.rdropWhile, List.reverse_append,
    List.dropWhile_append, kept, if_neg Bool.false_ne_true,
    List.reverse_append, List.reverse_reverse]

private theorem stripEnd_sublist (path : Bytes) :
    (stripEnd path).Sublist path :=
  (List.filter_sublist).trans (List.rdropWhile_prefix _ _).sublist

private theorem stripEnd_cons (path : Bytes) :
    ∃ rest, stripEnd (47 :: path) = 47 :: rest := by
  have shape := rdropWhile_append_cons [] path
  have start := List.rdropWhile_prefix isBlank (47 :: path)
  cases stripped : (47 :: path).rdropWhile isBlank with
  | nil =>
      have blanks := List.rdropWhile_eq_nil_iff.mp stripped
      exact absurd (blanks 47 List.mem_cons_self) (by decide)
  | cons head rest =>
      rw [stripped] at start
      have same := (List.cons_prefix_cons.mp start).1
      subst same
      exact ⟨_, by rw [stripEnd, stripped, List.filter_cons_of_pos (by decide)]⟩

private theorem stripUrl_append {authority path : Bytes}
    (isAuthority : IsAuthority authority) :
    stripUrl (httpScheme ++ authority ++ 47 :: path) =
      httpScheme ++ authority ++ stripEnd (47 :: path) := by
  have kept : (httpScheme ++ authority).filter
      (fun byte => !isTabOrNewline byte) = httpScheme ++ authority := by
    have scheme : ∀ byte ∈ httpScheme, (!isTabOrNewline byte) = true :=
      List.all_eq_true.mp rfl
    rw [List.filter_eq_self]
    intro byte among
    rcases List.mem_append.mp among with inScheme | host
    · exact scheme byte inScheme
    · have notBlank := (isAuthority.plain byte host).1
      by_contra tab
      simp only [isTabOrNewline, isBlank, decide_eq_false_iff_not,
        Bool.not_eq_true', Bool.not_eq_false, Bool.or_eq_true,
        beq_iff_eq] at tab notBlank
      rcases tab with (rfl | rfl) | rfl <;> exact notBlank (by decide)
  have start : (httpScheme ++ authority ++ 47 :: path).dropWhile isBlank =
      httpScheme ++ authority ++ 47 :: path :=
    rfl
  rw [stripUrl, start, rdropWhile_append_cons, List.filter_append, kept,
    stripEnd]

/-- The parser finds the authority, and the path in what was not stripped. -/
theorem parseUrl_append {authority path : Bytes}
    (isAuthority : IsAuthority authority) :
    parseUrl (httpScheme ++ authority ++ 47 :: path) =
      some ⟨authority, pathSegments (stripEnd (47 :: path))⟩ := by
  obtain ⟨rest, shape⟩ := stripEnd_cons path
  have inside : ∀ byte ∈ authority, inAuthority byte = true :=
    fun byte among => (isAuthority.plain byte among).2
  have noSlash : (authority ++ 47 :: rest).dropWhile isSlash =
      authority ++ 47 :: rest := by
    cases authority with
    | nil =>
        exact absurd rfl isAuthority.nonempty
    | cons head tail =>
        have plain := inside head List.mem_cons_self
        rw [inAuthority, Bool.and_eq_true, Bool.not_eq_true'] at plain
        rw [List.cons_append, List.dropWhile_cons_of_neg]
        exact Bool.eq_false_iff.mp plain.1
  have hasScheme : httpScheme.isPrefixOf
      (httpScheme ++ authority ++ stripEnd (47 :: path)) = true := by
    rw [List.isPrefixOf_iff_prefix, List.append_assoc]
    exact List.prefix_append _ _
  rw [parseUrl, stripUrl_append isAuthority]
  simp only [if_pos hasScheme]
  rw [List.append_assoc, List.drop_left, shape, noSlash,
    List.takeWhile_append_of_pos inside, List.dropWhile_append_of_pos inside]
  simp [inAuthority, isSlash]

/-! ### The pieces that come back -/

private theorem stripEnd_eq_self {path : Bytes}
    (noTab : ∀ byte ∈ path, isTabOrNewline byte = false)
    (ending : ∀ byte ∈ path.getLast?, isBlank byte = false) :
    stripEnd path = path := by
  have kept : path.rdropWhile isBlank = path := by
    rw [List.rdropWhile_eq_self_iff]
    intro nonempty
    have last := ending _ (List.getLast?_eq_getLast_of_ne_nil nonempty)
    exact Bool.eq_false_iff.mp last
  rw [stripEnd, kept, List.filter_eq_self]
  intro byte among
  rw [noTab byte among]
  rfl

private theorem pathSegments_cons (rest : Bytes) :
    pathSegments (47 :: rest) = collectSegments []
      ((rest.takeWhile fun byte => !endsPath byte).splitOnP isSlash) := by
  have cut : (47 :: rest).takeWhile (fun byte => !endsPath byte) =
      47 :: rest.takeWhile fun byte => !endsPath byte :=
    rfl
  have noSlash : ∀ byte ∈ ([] : Bytes), isSlash byte = false :=
    fun _ among => absurd among List.not_mem_nil
  have pieces := List.splitOnP_append_cons_of_forall_mem noSlash 47
    (by decide) (rest.takeWhile fun byte => !endsPath byte)
  rw [List.nil_append] at pieces
  rw [pathSegments, cut, pieces]
  cases shape : (rest.takeWhile fun byte => !endsPath byte).splitOnP isSlash with
  | nil =>
      exact absurd shape (List.splitOnP_ne_nil _ _)
  | cons piece others =>
      rfl

private theorem noDots_of_plain {piece : Bytes} (plain : IsPlainPiece piece) :
    isSingleDot piece = false ∧ isDoubleDot piece = false := by
  rw [isSingleDot, isDoubleDot, percentDecode_eq_self plain.noEscape]
  exact ⟨beq_eq_false_iff_ne.mpr plain.notDot,
    beq_eq_false_iff_ne.mpr plain.notDots⟩

/-- Plain pieces come back. -/
private theorem pathSegments_of_roundTrips {pieces : List Bytes}
    (nonempty : pieces ≠ []) (roundTrips : RoundTrips pieces) :
    (pathSegments (stripEnd (joinPath pieces))).map percentDecode =
      pieces := by
  have bytePlain : ∀ byte ∈ joinPath pieces,
      isTabOrNewline byte = false ∧ endsPath byte = false := by
    intro byte among
    obtain ⟨piece, member, inside⟩ := List.mem_flatMap.mp among
    rcases List.mem_cons.mp inside with rfl | within
    · decide
    · have plain := (roundTrips.plain piece member).plain byte within
      exact ⟨plain.1, plain.2.2⟩
  rw [stripEnd_eq_self (fun byte among => (bytePlain byte among).1)
    roundTrips.ending]
  obtain ⟨first, others, rfl⟩ := List.exists_cons_of_ne_nil nonempty
  have noEnd : (first ++ joinPath others).takeWhile
      (fun byte => !endsPath byte) = first ++ joinPath others := by
    rw [List.takeWhile_eq_self_iff]
    intro byte among
    rw [(bytePlain byte (List.mem_cons_of_mem 47 among)).2]
    rfl
  have noSlash (piece : Bytes) (member : piece ∈ first :: others) :
      ∀ byte ∈ piece, isSlash byte = false := fun byte within =>
    ((roundTrips.plain piece member).plain byte within).2.1
  have split := splitOnP_joinPath
    (fun piece member => noSlash piece (List.mem_cons_of_mem first member))
    (noSlash first List.mem_cons_self)
  rw [joinPath_cons, List.cons_append, pathSegments_cons, noEnd, split,
    collectSegments_plain fun piece member =>
      noDots_of_plain (roundTrips.plain piece member),
    List.nil_append, List.map_map]
  have each : ∀ piece ∈ first :: others,
      (percentDecode ∘ percentEncode) piece = piece := by
    intro piece member
    rw [Function.comp_apply, percentDecode_percentEncode]
    exact percentDecode_eq_self (roundTrips.plain piece member).noEscape
  exact (List.map_congr_left each).trans (List.map_id _)

/-- Decoding makes a path shorter unless it has no escapes. -/
private theorem length_joinPath_decode (pieces : List Bytes) :
    decodedLength pieces ≤ (joinPath pieces).length ∧
      (decodedLength pieces = (joinPath pieces).length →
        ∀ piece ∈ pieces, hasEscape piece = false) := by
  induction pieces with
  | nil =>
      exact ⟨Nat.le_refl _, fun _ _ among => absurd among List.not_mem_nil⟩
  | cons piece rest inductionHypothesis =>
      have bound := length_percentDecode_le piece
      have whole := inductionHypothesis.1
      rw [decodedLength] at whole ⊢
      rw [List.map_cons, length_joinPath_cons, length_joinPath_cons]
      refine ⟨by omega, fun same => ?_⟩
      have own : hasEscape piece = false :=
        hasEscape_eq_false_of_length (by omega)
      have later := inductionHypothesis.2 (by rw [decodedLength]; omega)
      exact List.forall_mem_cons.mpr ⟨own, later⟩

/-- Nothing but plain pieces comes back: everything that happens on the way
makes the path shorter. -/
private theorem roundTrips_of_pathSegments {pieces : List Bytes}
    (nonempty : pieces ≠ [])
    (back : (pathSegments (stripEnd (joinPath pieces))).map percentDecode =
      pieces) : RoundTrips pieces := by
  obtain ⟨first, others, rfl⟩ := List.exists_cons_of_ne_nil nonempty
  obtain ⟨rest, shape⟩ := stripEnd_cons (first ++ joinPath others)
  have raw : joinPath (first :: others) = 47 :: (first ++ joinPath others) :=
    rfl
  rw [raw, shape, pathSegments_cons] at back
  let cut := rest.takeWhile fun byte => !endsPath byte
  let split := cut.splitOnP isSlash
  have backLength : decodedLength (collectSegments [] split) =
      (joinPath (first :: others)).length := by
    rw [decodedLength, back]
  have collected := decodedLength_collectSegments [] split
  have splitLength : (joinPath split).length = cut.length + 1 :=
    length_joinPath_splitOnP cut
  have cutLength : cut.length ≤ rest.length :=
    (List.takeWhile_prefix _).length_le
  have sublist := stripEnd_sublist (joinPath (first :: others))
  have stripLength := sublist.length_le
  have start : decodedLength ([] : List Bytes) = 0 :=
    rfl
  rw [raw, shape] at sublist stripLength
  rw [List.length_cons] at stripLength
  rw [raw] at backLength
  have noDots := collected.2 (by omega)
  -- nothing was stripped and nothing cut off
  have unstripped : stripEnd (joinPath (first :: others)) =
      joinPath (first :: others) := by
    rw [raw, shape]
    exact sublist.eq_of_length (by rw [List.length_cons]; omega)
  have uncut : cut = first ++ joinPath others := by
    have whole : cut = rest := by
      apply (List.takeWhile_prefix _).eq_of_length
      change cut.length = rest.length
      omega
    rw [raw, shape] at unstripped
    rw [whole]
    exact (List.cons.inj unstripped).2
  -- the pieces are those that were split
  have plainSegments := collectSegments_plain noDots []
  have decoded : split.map percentDecode = first :: others := by
    rw [← back]
    change _ = (collectSegments [] split).map percentDecode
    rw [plainSegments, List.nil_append, List.map_map]
    exact List.map_congr_left fun piece _ =>
      (percentDecode_percentEncode piece).symm
  have noEscape := (length_joinPath_decode split).2 (by
    rw [decodedLength, decoded, raw]
    omega)
  have same : split = first :: others := by
    rw [← decoded]
    refine ((List.map_congr_left fun piece member => ?_).trans
      (List.map_id split)).symm
    exact percentDecode_eq_self (noEscape piece member)
  refine ⟨fun piece member => ?_, ?_⟩
  · rw [← same] at member
    refine ⟨fun byte within => ?_, noEscape piece member, ?_, ?_⟩
    · obtain ⟨inCut, notSlash⟩ := noSlash_of_mem_splitOnP member byte within
      have notEnd := List.mem_takeWhile_imp inCut
      rw [uncut] at inCut
      have inRaw : byte ∈ stripEnd (joinPath (first :: others)) := by
        rw [unstripped, raw]
        exact List.mem_cons_of_mem 47 inCut
      have notTab := (List.mem_filter.mp inRaw).2
      exact ⟨Bool.not_eq_true' _ ▸ notTab, notSlash,
        Bool.not_eq_true' _ ▸ notEnd⟩
    · rintro rfl
      exact absurd (noDots [46] member).1 (by decide)
    · rintro rfl
      exact absurd (noDots [46, 46] member).2 (by decide)
  · have kept : (joinPath (first :: others)).rdropWhile isBlank =
        joinPath (first :: others) := by
      apply (List.rdropWhile_prefix _ _).eq_of_length_le
      rw [← unstripped]
      exact (List.filter_sublist).length_le.trans
        (by rw [unstripped])
    rw [List.rdropWhile_eq_self_iff] at kept
    intro byte last
    obtain ⟨present, rfl⟩ := List.mem_getLast?_eq_getLast last
    exact Bool.eq_false_iff.mpr (kept present)

/-- Which pieces a parsed and decoded path gives back. -/
theorem decode_pathSegments_iff {pieces : List Bytes}
    (nonempty : pieces ≠ []) :
    (pathSegments (stripEnd (joinPath pieces))).map percentDecode = pieces ↔
      RoundTrips pieces :=
  ⟨roundTrips_of_pathSegments nonempty, pathSegments_of_roundTrips nonempty⟩

end DynaRust.Foundation
