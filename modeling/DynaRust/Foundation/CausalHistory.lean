import Mathlib.Data.List.Basic
import Mathlib.Logic.Relation
import Mathlib.Order.Basic

/-!
# Vector clocks over a causal history

A history is the list of all writes in the order in which they were made.
Each write records its maker, its clock and the writes its maker knew.  If a
maker never gives the same own counter twice, and every other entry of a clock
is covered by a known write, then comparing clocks is sound for causality.
-/

namespace DynaRust.Foundation

universe u

/-- One write of a history: the entries of `known` are positions in it. -/
structure Stamp (κ : Type u) where
  maker : κ
  clock : κ → Nat
  known : List Nat

variable {κ : Type u}

private theorem getElem?_append_of_some
    {history : List (Stamp κ)} {position : Nat} {write : Stamp κ}
    (old : history[position]? = some write) (extension : List (Stamp κ)) :
    (history ++ extension)[position]? = some write := by
  obtain ⟨bound, _⟩ := List.getElem?_eq_some_iff.mp old
  rw [List.getElem?_append_left bound]
  exact old

/-- The write at the second position was made by a node that knew the write at
the first one, directly or through a chain of such steps. -/
def HappenedBefore (history : List (Stamp κ)) : Nat → Nat → Prop :=
  Relation.TransGen fun earlier later =>
    ∃ stamp, history[later]? = some stamp ∧ earlier ∈ stamp.known

theorem happenedBefore_of_known {history : List (Stamp κ)}
    {earlier later : Nat} {stamp : Stamp κ}
    (found : history[later]? = some stamp) (known : earlier ∈ stamp.known) :
    HappenedBefore history earlier later :=
  Relation.TransGen.single ⟨stamp, found, known⟩

/-- Later writes do not change what happened before what. -/
theorem HappenedBefore.append {history : List (Stamp κ)} {earlier later : Nat}
    (before : HappenedBefore history earlier later)
    (extension : List (Stamp κ)) :
    HappenedBefore (history ++ extension) earlier later := by
  refine Relation.TransGen.mono ?_ _ _ before
  rintro first second ⟨stamp, found, known⟩
  exact ⟨stamp, getElem?_append_of_some found extension, known⟩

/-- Going back in causal order does not leave a set that contains whatever its
members knew. -/
theorem HappenedBefore.mem_of_closed {history : List (Stamp κ)}
    {earlier later : Nat} (before : HappenedBefore history earlier later)
    (past : Nat → Prop)
    (closed : ∀ position < history.length, ∀ stamp ∈ history[position]?,
      past position → ∀ known ∈ stamp.known, past known)
    (inside : past later) : past earlier := by
  induction before using Relation.TransGen.head_induction_on with
  | single direct =>
      obtain ⟨stamp, found, known⟩ := direct
      exact closed later (List.getElem?_eq_some_iff.mp found).1 stamp found
        inside _ known
  | @head first middle direct _ inductionHypothesis =>
      obtain ⟨stamp, found, known⟩ := direct
      exact closed middle (List.getElem?_eq_some_iff.mp found).1 stamp found
        inductionHypothesis _ known

/-- What one further write must satisfy. -/
structure Admissible (history : List (Stamp κ)) (stamp : Stamp κ) : Prop where
  /-- Only writes of the history are known. -/
  knownPast : ∀ position ∈ stamp.known, position < history.length
  /-- A maker knows its own writes. -/
  ownKnown : ∀ (position : Nat) (write : Stamp κ),
    history[position]? = some write → write.maker = stamp.maker → position ∈ stamp.known
  /-- The own counter has not been given before. -/
  ownFresh : ∀ (position : Nat) (write : Stamp κ),
    history[position]? = some write → write.maker = stamp.maker →
      write.clock stamp.maker < stamp.clock stamp.maker
  ownPositive : 0 < stamp.clock stamp.maker
  /-- Every other entry is zero or covered by a known write. -/
  covered : ∀ node, node ≠ stamp.maker → stamp.clock node = 0 ∨
    ∃ position ∈ stamp.known, ∃ write : Stamp κ,
      history[position]? = some write ∧
      stamp.clock node ≤ write.clock node

/-- Histories built from admissible writes. -/
inductive WellStamped : List (Stamp κ) → Prop
  | empty : WellStamped []
  | write {history : List (Stamp κ)} {stamp : Stamp κ} :
      WellStamped history → Admissible history stamp →
      WellStamped (history ++ [stamp])

/-- A position of an extended history is an old one or the last one. -/
private theorem getElem?_snoc {history : List (Stamp κ)} {stamp write : Stamp κ}
    {position : Nat}
    (found : (history ++ [stamp])[position]? = some write) :
    history[position]? = some write ∨
      (position = history.length ∧ write = stamp) := by
  rcases Nat.lt_or_ge position history.length with old | late
  · rw [List.getElem?_append_left old] at found
    exact Or.inl found
  · obtain ⟨bound, _⟩ := List.getElem?_eq_some_iff.mp found
    have last : position = history.length := by
      simp only [List.length_append, List.length_singleton] at bound
      omega
    subst last
    rw [List.getElem?_concat_length] at found
    exact Or.inr ⟨rfl, (Option.some.inj found).symm⟩

namespace WellStamped

/-- Whatever happened before a write stands earlier in the history. -/
theorem lt_of_happenedBefore {history : List (Stamp κ)}
    (stamped : WellStamped history) {earlier later : Nat}
    (before : HappenedBefore history earlier later) : earlier < later := by
  have direct : ∀ {history : List (Stamp κ)}, WellStamped history →
      ∀ {first second : Nat} {stamp : Stamp κ},
        history[second]? = some stamp → first ∈ stamp.known →
          first < second := by
    intro history stamped
    induction stamped with
    | empty =>
        intro _ _ _ found
        simp at found
    | @write history newest _ admissible inductionHypothesis =>
        intro first second stamp found known
        rcases getElem?_snoc found with old | ⟨rfl, rfl⟩
        · exact inductionHypothesis old known
        · exact admissible.knownPast first known
  induction before with
  | single known =>
      obtain ⟨_, found, known⟩ := known
      exact direct stamped found known
  | tail _ known inductionHypothesis =>
      obtain ⟨_, found, known⟩ := known
      exact Nat.lt_trans inductionHypothesis (direct stamped found known)

/-- Every own counter is positive. -/
theorem own_positive {history : List (Stamp κ)}
    (stamped : WellStamped history) {position : Nat} {write : Stamp κ}
    (found : history[position]? = some write) :
    0 < write.clock write.maker := by
  induction stamped with
  | empty =>
      simp at found
  | write _ admissible inductionHypothesis =>
      rcases getElem?_snoc found with old | ⟨_, rfl⟩
      · exact inductionHypothesis old
      · exact admissible.ownPositive

/-- A clock entry never exceeds what its node has given out itself. -/
theorem entry_given {history : List (Stamp κ)}
    (stamped : WellStamped history) {position : Nat} {write : Stamp κ}
    (found : history[position]? = some write) {node : κ}
    (positive : 0 < write.clock node) :
    ∃ (origin : Nat) (given : Stamp κ),
      history[origin]? = some given ∧ given.maker = node ∧
      write.clock node ≤ given.clock node := by
  induction stamped generalizing position write with
  | empty =>
      simp at found
  | @write history newest _ admissible inductionHypothesis =>
      rcases getElem?_snoc found with old | ⟨_, rfl⟩
      · obtain ⟨origin, given, member, maker, bound⟩ :=
          inductionHypothesis old positive
        exact ⟨origin, given, getElem?_append_of_some member [newest],
          maker, bound⟩
      · by_cases own : node = write.maker
        · subst own
          exact ⟨history.length, write, by simp, rfl, Nat.le_refl _⟩
        · rcases admissible.covered node own with zero | covering
          · omega
          · obtain ⟨base, _, source, sourceFound, below⟩ := covering
            obtain ⟨origin, given, member, maker, bound⟩ :=
              inductionHypothesis sourceFound (by omega)
            exact ⟨origin, given, getElem?_append_of_some member [write],
              maker, by omega⟩

/-- A write whose clock reaches another write's own counter is that write or
has it in its past. -/
theorem eq_or_happenedBefore {history : List (Stamp κ)}
    (stamped : WellStamped history) {first second : Nat}
    {source target : Stamp κ}
    (sourceFound : history[first]? = some source)
    (targetFound : history[second]? = some target)
    (reaches : source.clock source.maker ≤ target.clock source.maker) :
    first = second ∨ HappenedBefore history first second := by
  induction stamped generalizing second target with
  | empty =>
      simp at sourceFound
  | @write history newest earlier admissible inductionHypothesis =>
      rcases getElem?_snoc sourceFound with sourceOld | ⟨rfl, rfl⟩
      · rcases getElem?_snoc targetFound with targetOld | ⟨rfl, rfl⟩
        · rcases inductionHypothesis sourceOld targetOld reaches with
            same | before
          · exact Or.inl same
          · exact Or.inr (before.append [newest])
        · refine Or.inr ?_
          by_cases own : source.maker = target.maker
          · exact happenedBefore_of_known targetFound
              (admissible.ownKnown first source sourceOld own)
          · rcases admissible.covered source.maker own with zero | covering
            · have positive := own_positive earlier sourceOld
              omega
            · obtain ⟨base, baseKnown, write, baseFound, below⟩ := covering
              have last := happenedBefore_of_known targetFound baseKnown
              rcases inductionHypothesis sourceOld baseFound
                  (Nat.le_trans reaches below) with rfl | before
              · exact last
              · exact Relation.TransGen.trans (before.append [target]) last
      · rcases getElem?_snoc targetFound with targetOld | ⟨rfl, rfl⟩
        · -- An older clock cannot hold a counter that was given only now.
          have positive := admissible.ownPositive
          obtain ⟨origin, given, member, maker, bound⟩ :=
            entry_given earlier targetOld
              (Nat.lt_of_lt_of_le positive reaches)
          have fresh := admissible.ownFresh origin given member maker
          omega
        · exact Or.inl rfl

/-- Clock comparison is sound for causality. -/
theorem happenedBefore_of_clock_le {history : List (Stamp κ)}
    (stamped : WellStamped history) {first second : Nat}
    {source target : Stamp κ}
    (sourceFound : history[first]? = some source)
    (targetFound : history[second]? = some target)
    (distinct : first ≠ second) (below : source.clock ≤ target.clock) :
    HappenedBefore history first second :=
  (eq_or_happenedBefore stamped sourceFound targetFound
    (below source.maker)).resolve_left distinct

/-- No two writes carry the same clock. -/
theorem clock_injective {history : List (Stamp κ)}
    (stamped : WellStamped history) {first second : Nat}
    {source target : Stamp κ}
    (sourceFound : history[first]? = some source)
    (targetFound : history[second]? = some target)
    (same : source.clock = target.clock) : first = second := by
  by_contra distinct
  have forward := stamped.lt_of_happenedBefore <|
    stamped.happenedBefore_of_clock_le sourceFound targetFound distinct
      (fun node => Nat.le_of_eq (congrFun same node))
  have backward := stamped.lt_of_happenedBefore <|
    stamped.happenedBefore_of_clock_le targetFound sourceFound
      (Ne.symm distinct)
      (fun node => Nat.le_of_eq (congrFun same.symm node))
  omega

end WellStamped

end DynaRust.Foundation
