import Mathlib.Data.List.Basic

/-!
# Readers of a bounded broadcast channel

A channel keeps the values that were sent last, `capacity` of them.  A reader
that has fallen further behind is told so at its next read, and goes on with
the oldest value that is still kept.
-/

namespace DynaRust.Foundation

universe u

variable {α : Type u}

/-- What a read finds. -/
inductive Received (α : Type u) where
  | value (value : α)
  | lagged
  | empty
  deriving DecidableEq

/-- The number of values behind the reader, and those that it was given. -/
structure Reader (α : Type u) where
  position : Nat
  taken : List α

namespace Reader

/-- A reader that is made when `sent` has been sent. -/
def opened (sent : List α) : Reader α where
  position := sent.length
  taken := []

/-- What the reader finds when `sent` has been sent. -/
def finds (capacity : Nat) (sent : List α) (reader : Reader α) :
    Received α :=
  if reader.position + capacity < sent.length then .lagged
  else
    match sent[reader.position]? with
    | some value => .value value
    | none => .empty

/-- The reader after the read. -/
def read (capacity : Nat) (sent : List α) (reader : Reader α) : Reader α :=
  match reader.finds capacity sent with
  | .value value =>
      { position := reader.position + 1, taken := reader.taken ++ [value] }
  | .lagged => { reader with position := sent.length - capacity }
  | .empty => reader

/-- Everything that can come of a read. -/
theorem read_cases (capacity : Nat) (sent : List α) (reader : Reader α) :
    (reader.finds capacity sent = .lagged ∧
      reader.position + capacity < sent.length ∧
      reader.read capacity sent =
        { reader with position := sent.length - capacity }) ∨
    (∃ value, reader.finds capacity sent = .value value ∧
      sent.length ≤ reader.position + capacity ∧
      sent[reader.position]? = some value ∧
      reader.read capacity sent =
        { position := reader.position + 1,
          taken := reader.taken ++ [value] }) ∨
    (reader.finds capacity sent = .empty ∧
      sent.length ≤ reader.position ∧ reader.read capacity sent = reader) := by
  by_cases behind : reader.position + capacity < sent.length
  · have found : reader.finds capacity sent = .lagged := if_pos behind
    exact Or.inl ⟨found, behind, by rw [read, found]⟩
  · right
    cases there : sent[reader.position]? with
    | some value =>
        have found : reader.finds capacity sent = .value value := by
          rw [finds, if_neg behind, there]
        exact Or.inl ⟨value, found, Nat.le_of_not_lt behind, rfl,
          by rw [read, found]⟩
    | none =>
        have found : reader.finds capacity sent = .empty := by
          rw [finds, if_neg behind, there]
        exact Or.inr ⟨found, List.getElem?_eq_none_iff.mp there,
          by rw [read, found]⟩

/-! ## What a reader has been given -/

/-- The reader was made at position `start` and has been given values of what
was sent since, in order; what it was given last is the value before its
position, unless it has just lost values. -/
structure Follows (capacity start : Nat) (sent : List α)
    (reader : Reader α) : Prop where
  begun : start ≤ reader.position
  inside : reader.position ≤ sent.length
  ordered : List.Sublist reader.taken
    ((sent.take reader.position).drop start)
  recent : reader.position = start ∨
    reader.position + capacity ≤ sent.length ∨
    reader.taken.getLast? = (sent.take reader.position).getLast?

variable {capacity start : Nat} {sent : List α} {reader : Reader α}

theorem follows_opened (capacity : Nat) (sent : List α) :
    Follows capacity sent.length sent (opened sent) where
  begun := Nat.le_refl _
  inside := Nat.le_refl _
  ordered := List.nil_sublist _
  recent := Or.inl rfl

/-- More can be sent meanwhile. -/
theorem Follows.send (follows : Follows capacity start sent reader)
    (more : List α) : Follows capacity start (sent ++ more) reader where
  begun := follows.begun
  inside := by
    rw [List.length_append]
    exact Nat.le_trans follows.inside (Nat.le_add_right _ _)
  ordered := by
    rw [List.take_append_of_le_length follows.inside]
    exact follows.ordered
  recent := by
    rw [List.take_append_of_le_length follows.inside, List.length_append]
    rcases follows.recent with fresh | lost | last
    · exact Or.inl fresh
    · exact Or.inr (Or.inl (Nat.le_trans lost (Nat.le_add_right _ _)))
    · exact Or.inr (Or.inr last)

private theorem take_succ_of_getElem? {value : α}
    (there : sent[reader.position]? = some value) :
    sent.take (reader.position + 1) =
      sent.take reader.position ++ [value] := by
  rw [List.take_add_one, there]
  rfl

theorem Follows.read (follows : Follows capacity start sent reader) :
    Follows capacity start sent (reader.read capacity sent) := by
  rcases reader.read_cases capacity sent with ⟨-, behind, same⟩ |
    ⟨value, -, -, there, same⟩ | ⟨-, -, same⟩
  · rw [same]
    have forward : reader.position ≤ sent.length - capacity := by omega
    refine ⟨Nat.le_trans follows.begun forward, Nat.sub_le _ _, ?_, ?_⟩
    · refine follows.ordered.trans ?_
      have earlier : sent.take reader.position =
          (sent.take (sent.length - capacity)).take reader.position := by
        rw [List.take_take, Nat.min_eq_left forward]
      rw [earlier, List.drop_take]
      exact List.take_sublist _ _
    · right
      left
      dsimp only
      omega
  · rw [same]
    obtain ⟨within, -⟩ := List.getElem?_eq_some_iff.mp there
    refine ⟨Nat.le_succ_of_le follows.begun, within, ?_, ?_⟩
    · dsimp only
      have enough : start ≤ (sent.take reader.position).length := by
        rw [List.length_take, Nat.min_eq_left follows.inside]
        exact follows.begun
      rw [take_succ_of_getElem? there, List.drop_append_of_le_length enough]
      exact follows.ordered.append (List.Sublist.refl [value])
    · right
      right
      dsimp only
      rw [take_succ_of_getElem? there, List.getLast?_concat,
        List.getLast?_concat]
  · rw [same]
    exact follows

theorem Follows.sublist (follows : Follows capacity start sent reader) :
    List.Sublist reader.taken (sent.drop start) := by
  refine follows.ordered.trans ?_
  rw [List.drop_take]
  exact List.take_sublist _ _

/-- Who has read everything was given the last value. -/
theorem Follows.getLast?_of_finds_empty
    (follows : Follows capacity start sent reader) (positive : 0 < capacity)
    (finished : reader.finds capacity sent = .empty) :
    reader.taken.getLast? = (sent.drop start).getLast? := by
  have all : reader.position = sent.length := by
    rcases reader.read_cases capacity sent with ⟨found, -, -⟩ |
      ⟨value, found, -, -, -⟩ | ⟨-, all, -⟩
    · rw [finished] at found
      cases found
    · rw [finished] at found
      cases found
    · exact Nat.le_antisymm follows.inside all
  have ordered := follows.ordered
  rw [all, List.take_length] at ordered
  rcases follows.recent with fresh | lost | last
  · have nothing : sent.drop start = [] :=
      List.drop_eq_nil_of_le (by omega)
    rw [nothing] at ordered ⊢
    rw [List.sublist_nil.mp ordered]
  · omega
  · rw [all, List.take_length] at last
    by_cases nothing : sent.drop start = []
    · rw [nothing] at ordered ⊢
      rw [List.sublist_nil.mp ordered]
    · have something : start < sent.length := by
        by_contra outside
        exact nothing (List.drop_eq_nil_of_le (Nat.le_of_not_lt outside))
      rw [last, List.getLast?_drop, if_neg (Nat.not_le_of_lt something)]

/-! ## Reading until nothing is left -/

/-- How many reads are left until the reader has to wait. -/
def readsLeft (capacity : Nat) (sent : List α) (reader : Reader α) : Nat :=
  if reader.position + capacity < sent.length then capacity + 1
  else sent.length - reader.position

theorem readsLeft_le (capacity : Nat) (sent : List α) (reader : Reader α) :
    reader.readsLeft capacity sent ≤ capacity + 1 := by
  unfold readsLeft
  split
  · exact Nat.le_refl _
  · omega

theorem finds_eq_empty_iff :
    reader.finds capacity sent = .empty ↔
      reader.readsLeft capacity sent = 0 := by
  constructor
  · intro finished
    rcases reader.read_cases capacity sent with ⟨found, -, -⟩ |
      ⟨value, found, -, -, -⟩ | ⟨-, all, -⟩
    · rw [finished] at found
      cases found
    · rw [finished] at found
      cases found
    · unfold readsLeft
      rw [if_neg (by omega)]
      omega
  · intro none
    unfold readsLeft at none
    split at none
    · cases none
    · rename_i keepsUp
      rw [finds, if_neg keepsUp, List.getElem?_eq_none (by omega)]

theorem readsLeft_read (left : reader.readsLeft capacity sent ≠ 0) :
    (reader.read capacity sent).readsLeft capacity sent + 1 =
      reader.readsLeft capacity sent := by
  rcases reader.read_cases capacity sent with ⟨-, behind, same⟩ |
    ⟨value, -, keepsUp, there, same⟩ | ⟨-, all, -⟩
  · rw [same]
    simp only [readsLeft, if_pos behind]
    rw [if_neg (by omega)]
    omega
  · obtain ⟨within, -⟩ := List.getElem?_eq_some_iff.mp there
    rw [same]
    simp only [readsLeft]
    rw [if_neg (by omega), if_neg (by omega)]
    omega
  · unfold readsLeft at left
    split at left
    · omega
    · omega

end Reader

end DynaRust.Foundation
