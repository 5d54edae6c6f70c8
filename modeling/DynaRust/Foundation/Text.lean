import Mathlib.Algebra.GroupWithZero.Nat
import Mathlib.Data.List.DropRight

/-!
# Text as a list of characters

Lines, trimming, splitting and UTF-8 with the meaning of Rust's `str` methods
of those names.
-/

namespace DynaRust.Foundation

universe u

abbrev Text := List Char

/-! ## Splitting at a separator -/

section Split

variable {α : Type u} [DecidableEq α]

/-- The parts before and after the first separator. -/
def splitOnce (separator : α) : List α → Option (List α × List α)
  | [] => none
  | head :: rest =>
      if head = separator then some ([], rest)
      else (splitOnce separator rest).map fun parts =>
        (head :: parts.1, parts.2)

theorem splitOnce_append {separator : α} {first : List α}
    (absent : separator ∉ first) (rest : List α) :
    splitOnce separator (first ++ separator :: rest) = some (first, rest) := by
  induction first with
  | nil =>
      simp [splitOnce]
  | cons head tail inductionHypothesis =>
      have other : head ≠ separator :=
        Ne.symm (List.ne_of_not_mem_cons absent)
      rw [List.cons_append, splitOnce, if_neg other,
        inductionHypothesis (List.not_mem_of_not_mem_cons absent)]
      rfl

/-- The first part holds no separator and stands in the text. -/
theorem splitOnce_eq_some {separator : α} {text first rest : List α}
    (split : splitOnce separator text = some (first, rest)) :
    separator ∉ first ∧ text = first ++ separator :: rest := by
  induction text generalizing first with
  | nil =>
      cases split
  | cons head tail inductionHypothesis =>
      rw [splitOnce] at split
      split at split
      · rename_i same
        cases Option.some.inj split
        exact ⟨List.not_mem_nil, by rw [same, List.nil_append]⟩
      · rename_i different
        obtain ⟨⟨before, after⟩, found, same⟩ :=
          Option.map_eq_some_iff.mp split
        cases same
        obtain ⟨absent, shape⟩ := inductionHypothesis found
        refine ⟨?_, by rw [shape, List.cons_append]⟩
        exact List.not_mem_cons_of_ne_of_not_mem (Ne.symm different) absent

end Split

/-- Two pairs are joined to one text exactly if they are equal or a part that
ends with a separator has moved from one side to the other. -/
theorem append_separator_eq_iff {α : Type u} {separator : α}
    {first second first' second' : List α} :
    first ++ separator :: second = first' ++ separator :: second' ↔
      (first' = first ∧ second' = second) ∨
      (∃ middle, first' = first ++ separator :: middle ∧
        second = middle ++ separator :: second') ∨
      ∃ middle, first = first' ++ separator :: middle ∧
        second' = middle ++ separator :: second := by
  rw [List.append_eq_append_iff]
  constructor
  · intro split
    rcases split with ⟨moved, firstLonger, rest⟩ | ⟨moved, firstLonger, rest⟩
    · cases moved with
      | nil =>
          left
          have same : second = second' := List.tail_eq_of_cons_eq rest
          exact ⟨by simpa using firstLonger, same.symm⟩
      | cons head middle =>
          right
          left
          injection rest with sameHead sameTail
          rw [← sameHead] at firstLonger
          exact ⟨middle, firstLonger, sameTail⟩
    · cases moved with
      | nil =>
          left
          have same : second' = second := List.tail_eq_of_cons_eq rest
          exact ⟨by simpa using firstLonger.symm, same⟩
      | cons head middle =>
          right
          right
          injection rest with sameHead sameTail
          rw [← sameHead] at firstLonger
          exact ⟨middle, firstLonger, sameTail⟩
  · intro cases
    rcases cases with ⟨sameFirst, sameSecond⟩ |
      ⟨middle, longer, rest⟩ | ⟨middle, longer, rest⟩
    · left
      exact ⟨[], by simp [sameFirst], by simp [sameSecond]⟩
    · left
      exact ⟨separator :: middle, longer, by simp [rest]⟩
    · right
      exact ⟨separator :: middle, longer, by simp [rest]⟩

/-! ## White space -/

/-- `char::is_whitespace`, the Unicode property `White_Space`. -/
def isWhitespace (char : Char) : Bool :=
  let code := char.toNat
  (9 ≤ code && code ≤ 13) || code == 0x20 || code == 0x85 || code == 0xA0 ||
    code == 0x1680 || (0x2000 ≤ code && code ≤ 0x200A) || code == 0x2028 ||
    code == 0x2029 || code == 0x202F || code == 0x205F || code == 0x3000

/-- `str::trim`. -/
def trim (text : Text) : Text :=
  (text.dropWhile isWhitespace).rdropWhile isWhitespace

private theorem dropWhile_eq_self_of_isPrefix {p : Char → Bool}
    {text start : Text} (initial : start <+: text)
    (same : text.dropWhile p = text) : start.dropWhile p = start := by
  rw [List.dropWhile_eq_self_iff] at same ⊢
  intro nonempty
  have longer := Nat.lt_of_lt_of_le nonempty initial.length_le
  rw [initial.getElem nonempty]
  exact same longer

@[simp]
theorem trim_trim (text : Text) : trim (trim text) = trim text := by
  have leading : (trim text).dropWhile isWhitespace = trim text :=
    dropWhile_eq_self_of_isPrefix (List.rdropWhile_prefix _ _)
      (List.dropWhile_idempotent _ _)
  rw [trim, leading]
  exact List.rdropWhile_idempotent _ _

theorem mem_of_mem_trim {text : Text} {char : Char}
    (member : char ∈ trim text) : char ∈ text :=
  (List.dropWhile_suffix _).subset
    ((List.rdropWhile_prefix _ _).subset member)

theorem trim_eq_self_of_forall {text : Text}
    (solid : ∀ char ∈ text, isWhitespace char = false) :
    trim text = text := by
  have leading : text.dropWhile isWhitespace = text := by
    rw [List.dropWhile_eq_self_iff]
    intro nonempty
    simp [solid _ (List.getElem_mem nonempty)]
  rw [trim, leading, List.rdropWhile_eq_self_iff]
  intro nonempty
  simp [solid _ (List.getLast_mem nonempty)]

/-- A blank behind a trimmed text is trimmed. -/
theorem trim_append_space {text : Text} (trimmed : trim text = text) :
    trim (text ++ [' ']) = text := by
  by_cases empty : text = []
  · subst empty
    rfl
  · have leading : (text ++ [' ']).dropWhile isWhitespace = text ++ [' '] := by
      have own : text.dropWhile isWhitespace = text := by
        apply (List.dropWhile_suffix isWhitespace).eq_of_length_le
        have shorter := (List.rdropWhile_prefix isWhitespace
          (text.dropWhile isWhitespace)).length_le
        rw [← trim, trimmed] at shorter
        exact shorter
      rw [List.dropWhile_eq_self_iff] at own ⊢
      intro _
      have positive := List.length_pos_of_ne_nil empty
      rw [List.getElem_append_left positive]
      exact own positive
    rw [trim, leading, List.rdropWhile_concat_pos _ _ _ (by decide)]
    have own : text.rdropWhile isWhitespace = text := by
      rw [← trimmed, trim]
      exact List.rdropWhile_idempotent _ _
    exact own

/-- A blank before a text with solid ends is trimmed. -/
theorem trim_space_cons {first last : Char} {middle : Text}
    (solidFirst : isWhitespace first = false)
    (solidLast : isWhitespace last = false) :
    trim (' ' :: (first :: middle ++ [last])) = first :: middle ++ [last] := by
  have leading : (' ' :: (first :: middle ++ [last])).dropWhile isWhitespace =
      first :: middle ++ [last] := by
    rw [List.dropWhile_cons_of_pos (by decide), List.cons_append,
      List.dropWhile_cons_of_neg (by simp [solidFirst])]
  rw [trim, leading]
  exact List.rdropWhile_concat_neg _ _ _ (by simp [solidLast])

/-! ## Lines -/

/-- The line read so far, kept reversed, without a carriage return at its
end. -/
def finishLine (current : Text) : Text :=
  if current.head? = some '\r' then current.tail.reverse
  else current.reverse

/-- `splitLines` behind the reversed beginning of a line. -/
def splitLinesFrom (current : Text) : Text → List Text
  | [] => if current = [] then [] else [current.reverse]
  | char :: rest =>
      if char = '\n' then
        finishLine current :: splitLinesFrom [] rest
      else
        splitLinesFrom (char :: current) rest

/-- `str::lines` and `BufRead::lines`: a line ends with `\n` or `\r\n`, the
last one maybe without. -/
def splitLines (text : Text) : List Text :=
  splitLinesFrom [] text

/-- A line that a line feed can follow without losing a character. -/
def IsLine (line : Text) : Prop :=
  '\n' ∉ line ∧ line.getLast? ≠ some '\r'

private theorem splitLinesFrom_append {line : Text} (noFeed : '\n' ∉ line)
    (current rest : Text) :
    splitLinesFrom current (line ++ rest) =
      splitLinesFrom (line.reverse ++ current) rest := by
  induction line generalizing current with
  | nil =>
      rfl
  | cons head tail inductionHypothesis =>
      have other : head ≠ '\n' := Ne.symm (List.ne_of_not_mem_cons noFeed)
      rw [List.cons_append, splitLinesFrom, if_neg other,
        inductionHypothesis (List.not_mem_of_not_mem_cons noFeed),
        List.reverse_cons, List.append_assoc, List.singleton_append]

theorem splitLines_line {line : Text} (isLine : IsLine line) (rest : Text) :
    splitLines (line ++ '\n' :: rest) = line :: splitLines rest := by
  have noReturn : ¬ line.reverse.head? = some '\r' := by
    rw [List.head?_reverse]
    exact isLine.2
  rw [splitLines, splitLinesFrom_append isLine.1, List.append_nil,
    splitLinesFrom, if_pos rfl, finishLine, if_neg noReturn,
    List.reverse_reverse]
  rfl

private theorem splitLinesFrom_append_feed (current first rest : Text) :
    splitLinesFrom current (first ++ '\n' :: rest) =
      splitLinesFrom current (first ++ ['\n']) ++ splitLines rest := by
  induction first generalizing current with
  | nil =>
      simp only [List.nil_append, splitLinesFrom, if_true, List.cons_append]
      rfl
  | cons char tail inductionHypothesis =>
      rw [List.cons_append, List.cons_append, splitLinesFrom, splitLinesFrom]
      split
      · rw [inductionHypothesis, List.cons_append]
      · exact inductionHypothesis (char :: current)

/-- A text that ends with a line feed is read on its own. -/
theorem splitLines_append_feed (first rest : Text) :
    splitLines (first ++ ['\n'] ++ rest) =
      splitLines (first ++ ['\n']) ++ splitLines rest := by
  rw [List.append_assoc, List.singleton_append]
  exact splitLinesFrom_append_feed [] first rest

/-- Terminated lines and a last one without a line feed are read back. -/
theorem splitLines_lines {lines : List Text} {tail : Text}
    (allLines : ∀ line ∈ lines, IsLine line) (noFeed : '\n' ∉ tail) :
    splitLines (lines.flatMap (fun line => line ++ ['\n']) ++ tail) =
      lines ++ if tail = [] then [] else [tail] := by
  induction lines with
  | nil =>
      have only := splitLinesFrom_append noFeed [] []
      rw [List.append_nil, List.append_nil] at only
      rw [List.flatMap_nil, List.nil_append, splitLines, only,
        splitLinesFrom]
      simp
  | cons line rest inductionHypothesis =>
      have later := inductionHypothesis fun other member =>
        allLines other (List.mem_cons_of_mem line member)
      rw [List.flatMap_cons, List.append_assoc, List.append_assoc,
        List.singleton_append,
        splitLines_line (allLines line List.mem_cons_self), later,
        List.cons_append]

theorem splitLines_terminated {lines : List Text}
    (allLines : ∀ line ∈ lines, IsLine line) :
    splitLines (lines.flatMap fun line => line ++ ['\n']) = lines := by
  have noFeed : '\n' ∉ ([] : Text) := List.not_mem_nil
  have whole := splitLines_lines allLines noFeed
  rw [List.append_nil, if_pos rfl, List.append_nil] at whole
  exact whole

private theorem noFeed_of_mem_splitLinesFrom {current text line : Text}
    (noFeed : '\n' ∉ current)
    (member : line ∈ splitLinesFrom current text) : '\n' ∉ line := by
  induction text generalizing current with
  | nil =>
      rw [splitLinesFrom] at member
      split at member
      · cases member
      · rw [List.mem_singleton] at member
        rw [member, List.mem_reverse]
        exact noFeed
  | cons head tail inductionHypothesis =>
      rw [splitLinesFrom] at member
      split at member
      · rcases List.mem_cons.mp member with rfl | later
        · rw [finishLine]
          split
          · rw [List.mem_reverse]
            exact fun inside => noFeed (List.mem_of_mem_tail inside)
          · rw [List.mem_reverse]
            exact noFeed
        · exact inductionHypothesis List.not_mem_nil later
      · rename_i different
        exact inductionHypothesis
          (List.not_mem_cons_of_ne_of_not_mem (Ne.symm different) noFeed)
          member

theorem noFeed_of_mem_splitLines {text line : Text}
    (member : line ∈ splitLines text) : '\n' ∉ line :=
  noFeed_of_mem_splitLinesFrom List.not_mem_nil member

/-! ## UTF-8 -/

abbrev Bytes := List UInt8

/-- `str::as_bytes`. -/
def asBytes (text : Text) : Bytes :=
  text.flatMap String.utf8EncodeChar

theorem asBytes_append (first second : Text) :
    asBytes (first ++ second) = asBytes first ++ asBytes second :=
  List.flatMap_append

theorem asBytes_eq_nil {text : Text} : asBytes text = [] ↔ text = [] := by
  constructor
  · intro empty
    cases text with
    | nil =>
        rfl
    | cons head rest =>
        have first := (List.append_eq_nil_iff.mp empty).1
        exact absurd first String.utf8EncodeChar_ne_nil
  · rintro rfl
    rfl

/-- `String::from_utf8`. -/
def fromUtf8 (bytes : Bytes) : Option Text :=
  (ByteArray.utf8Decode? bytes.toByteArray).map Array.toList

@[simp]
theorem fromUtf8_asBytes (text : Text) :
    fromUtf8 (asBytes text) = some text := by
  have encoded : (asBytes text).toByteArray = text.utf8Encode :=
    rfl
  rw [fromUtf8, encoded, List.utf8Decode?_utf8Encode]
  rfl

/-- Where the bytes behind the first one of a character lie; none for a byte
that starts no longer character. -/
def continuations (first : UInt8) : List (UInt8 × UInt8) :=
  if 0xC2 ≤ first ∧ first ≤ 0xDF then [(0x80, 0xBF)]
  else if first = 0xE0 then [(0xA0, 0xBF), (0x80, 0xBF)]
  else if first = 0xED then [(0x80, 0x9F), (0x80, 0xBF)]
  else if 0xE1 ≤ first ∧ first ≤ 0xEF then [(0x80, 0xBF), (0x80, 0xBF)]
  else if first = 0xF0 then [(0x90, 0xBF), (0x80, 0xBF), (0x80, 0xBF)]
  else if 0xF1 ≤ first ∧ first ≤ 0xF3 then
    [(0x80, 0xBF), (0x80, 0xBF), (0x80, 0xBF)]
  else if first = 0xF4 then [(0x80, 0x8F), (0x80, 0xBF), (0x80, 0xBF)]
  else []

/-- The bits of a character read so far, and the ranges of the bytes that are
still to come. -/
abbrev PartialChar := Nat × List (UInt8 × UInt8)

/-- A byte at the beginning of a character. -/
def startChar (byte : UInt8) : Text × Option PartialChar :=
  if byte < 0x80 then ([Char.ofNat byte.toNat], none)
  else
    match continuations byte with
    | [] => (['\uFFFD'], none)
    | ranges =>
        ([], some (byte.toNat % 2 ^ (6 - ranges.length), ranges))

/-- Every maximal beginning of a character that is not completed becomes
U+FFFD. -/
def replaceInvalid : Option PartialChar → Bytes → Text
  | none, [] => []
  | some _, [] => ['\uFFFD']
  | some (bits, (low, high) :: ranges), byte :: rest =>
      if low ≤ byte ∧ byte ≤ high then
        let bits := bits * 64 + byte.toNat % 64
        if ranges = [] then Char.ofNat bits :: replaceInvalid none rest
        else replaceInvalid (some (bits, ranges)) rest
      else
        '\uFFFD' :: (startChar byte).1 ++
          replaceInvalid (startChar byte).2 rest
  | _, byte :: rest =>
      (startChar byte).1 ++ replaceInvalid (startChar byte).2 rest

/-- `String::from_utf8_lossy`. -/
def fromUtf8Lossy (bytes : Bytes) : Text :=
  match fromUtf8 bytes with
  | some text => text
  | none => replaceInvalid none bytes

@[simp]
theorem fromUtf8Lossy_asBytes (text : Text) :
    fromUtf8Lossy (asBytes text) = text := by
  rw [fromUtf8Lossy, fromUtf8_asBytes]

/-- A byte that starts nothing, and a character that is cut short. -/
example : fromUtf8Lossy [0x61, 0xFF, 0xE2, 0x82, 0x62] =
    ['a', '\uFFFD', '\uFFFD', 'b'] := by
  decide

end DynaRust.Foundation
