import DynaRust.Foundation.Text

/-!
# Server-sent events

How a client reads an event stream: lines end with a line feed, a carriage
return or both; `data` lines are gathered, and an empty line dispatches them
as one event.  Other fields carry no data.
-/

namespace DynaRust.Foundation

/-- The ended lines of a stream, the first one continuing `current`. -/
def endedLines (current : Text) : Text → List Text
  | [] => []
  | '\r' :: '\n' :: rest => current :: endedLines [] rest
  | '\r' :: rest => current :: endedLines [] rest
  | '\n' :: rest => current :: endedLines [] rest
  | char :: rest => endedLines (current ++ [char]) rest

def dataName : Text := ['d', 'a', 't', 'a']

/-- The value of a `data` line, without the blank behind the colon. -/
def dataValue (line : Text) : Option Text :=
  match splitOnce ':' line with
  | some (field, ' ' :: value) => if field = dataName then some value else none
  | some (field, value) => if field = dataName then some value else none
  | none => if line = dataName then some [] else none

/-- The events that are dispatched, `data` being gathered so far. -/
def dispatched (data : List Text) : List Text → List Text
  | [] => []
  | line :: rest =>
      if line = [] then
        if data = [] then dispatched [] rest
        else List.intercalate ['\n'] data :: dispatched [] rest
      else
        match dataValue line with
        | some value => dispatched (data ++ [value]) rest
        | none => dispatched data rest

/-- The events that a client has read from the beginning of a stream. -/
def eventsRead (stream : Text) : List Text :=
  dispatched [] (endedLines [] stream)

/-- An event with one `data` line. -/
def eventFrame (payload : Text) : Text :=
  dataName ++ ':' :: ' ' :: (payload ++ ['\n', '\n'])

/-- The text fits on one line of a stream. -/
def OnOneLine (text : Text) : Prop :=
  '\n' ∉ text ∧ '\r' ∉ text

instance (text : Text) : Decidable (OnOneLine text) :=
  inferInstanceAs (Decidable (_ ∧ _))

private theorem endedLines_cons {char : Char} (notReturn : char ≠ '\r')
    (notFeed : char ≠ '\n') (current rest : Text) :
    endedLines current (char :: rest) =
      endedLines (current ++ [char]) rest := by
  rw [endedLines.eq_def]
  split
  · rename_i empty
    cases empty
  · rename_i same
    cases same
    exact absurd rfl notReturn
  · rename_i same
    cases same
    exact absurd rfl notReturn
  · rename_i same
    cases same
    exact absurd rfl notFeed
  · rename_i same
    cases same
    rfl

theorem endedLines_line {line : Text} (one : OnOneLine line)
    (current rest : Text) :
    endedLines current (line ++ '\n' :: rest) =
      (current ++ line) :: endedLines [] rest := by
  induction line generalizing current with
  | nil =>
      rw [List.nil_append, List.append_nil, endedLines]
  | cons char others inductionHypothesis =>
      obtain ⟨noFeed, noReturn⟩ := one
      have later : OnOneLine others :=
        ⟨List.not_mem_of_not_mem_cons noFeed,
          List.not_mem_of_not_mem_cons noReturn⟩
      rw [List.cons_append,
        endedLines_cons (Ne.symm (List.ne_of_not_mem_cons noReturn))
          (Ne.symm (List.ne_of_not_mem_cons noFeed)),
        inductionHypothesis later, List.append_assoc, List.singleton_append]

theorem dataValue_frame (payload : Text) :
    dataValue (dataName ++ ':' :: ' ' :: payload) = some payload := by
  have absent : ':' ∉ dataName := by decide
  rw [dataValue, splitOnce_append absent]
  exact if_pos rfl

theorem eventsRead_frame {payload : Text} (one : OnOneLine payload)
    (rest : Text) :
    eventsRead (eventFrame payload ++ rest) = payload :: eventsRead rest := by
  have line : OnOneLine (dataName ++ ':' :: ' ' :: payload) := by
    have name : OnOneLine dataName := by decide
    constructor
    · simp [name.1, one.1]
    · simp [name.2, one.2]
  have empty : OnOneLine [] := by decide
  have shape : eventFrame payload ++ rest =
      (dataName ++ ':' :: ' ' :: payload) ++ '\n' :: ([] ++ '\n' :: rest) := by
    simp [eventFrame]
  rw [eventsRead, shape, endedLines_line line, endedLines_line empty,
    dispatched, if_neg (by simp [dataName]), List.nil_append,
    dataValue_frame]
  dsimp only
  rw [List.nil_append, dispatched, if_pos (List.append_nil []),
    if_neg (List.cons_ne_nil _ _), List.intercalate_singleton]
  rfl

/-- A stream of one-line payloads is read as these payloads. -/
theorem eventsRead_frames {payloads : List Text}
    (one : ∀ payload ∈ payloads, OnOneLine payload) :
    eventsRead (payloads.flatMap eventFrame) = payloads := by
  induction payloads with
  | nil =>
      rfl
  | cons payload rest inductionHypothesis =>
      rw [List.flatMap_cons, eventsRead_frame (one payload List.mem_cons_self),
        inductionHypothesis fun other among =>
          one other (List.mem_cons_of_mem payload among)]

/-! ## A stream that breaks off -/

theorem endedLines_prefix {first : Text} (noReturn : '\r' ∉ first)
    (current rest : Text) :
    endedLines current first <+: endedLines current (first ++ rest) := by
  induction first generalizing current with
  | nil =>
      exact List.nil_prefix
  | cons char others inductionHypothesis =>
      have later := inductionHypothesis
        (List.not_mem_of_not_mem_cons noReturn)
      rw [List.cons_append]
      by_cases feed : char = '\n'
      · subst feed
        rw [endedLines, endedLines]
        exact (List.cons_prefix_cons).mpr ⟨rfl, later []⟩
      · have notReturn := Ne.symm (List.ne_of_not_mem_cons noReturn)
        rw [endedLines_cons notReturn feed, endedLines_cons notReturn feed]
        exact later _

theorem dispatched_prefix (data first rest : List Text) :
    dispatched data first <+: dispatched data (first ++ rest) := by
  induction first generalizing data with
  | nil =>
      exact List.nil_prefix
  | cons line others inductionHypothesis =>
      rw [List.cons_append, dispatched, dispatched]
      split
      · split
        · exact inductionHypothesis []
        · exact List.cons_prefix_cons.mpr ⟨rfl, inductionHypothesis []⟩
      · split
        · exact inductionHypothesis _
        · exact inductionHypothesis _

/-- However far the stream of one-line payloads has got, the client has read
the first of them and no part of another one. -/
theorem eventsRead_prefix {payloads : List Text}
    (one : ∀ payload ∈ payloads, OnOneLine payload) {received : Text}
    (start : received <+: payloads.flatMap eventFrame) :
    eventsRead received <+: payloads := by
  obtain ⟨rest, whole⟩ := start
  have noReturn : '\r' ∉ received := by
    intro among
    have inside : '\r' ∈ payloads.flatMap eventFrame := by
      rw [← whole]
      exact List.mem_append_left rest among
    obtain ⟨payload, member, within⟩ := List.mem_flatMap.mp inside
    have absent := (one payload member).2
    simp [eventFrame, dataName, absent] at within
  obtain ⟨later, lines⟩ := endedLines_prefix noReturn [] rest
  have events := dispatched_prefix [] (endedLines [] received) later
  rw [lines, whole] at events
  rw [← eventsRead_frames one]
  exact events

end DynaRust.Foundation
