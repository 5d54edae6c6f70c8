import DynaRust.Foundation.Selection
import DynaRust.Storage.Engine
import Mathlib.Data.List.MinMax

/-!
# Which version a read selects

`get_value` passes the answers of the replicas to `max_by`, which expects a
total order.  Its comparator falls back to timestamps for concurrent versions
and is not transitive: a version with a dominated clock and a late timestamp
can come out, if a third one lies between it and the newer one.
-/

namespace DynaRust.Storage

open DynaRust.Foundation

theorem selectLatest_eq_select (versions : List VersionedValue) :
    selectLatest versions = mergeContest.select versions := by
  cases versions with
  | nil =>
      rfl
  | cons first rest =>
      exact selectLatest_cons first rest

theorem exists_selectLatest {versions : List VersionedValue}
    (answered : versions ≠ []) :
    ∃ latest, selectLatest versions = some latest := by
  cases versions with
  | nil =>
      exact absurd rfl answered
  | cons first rest =>
      exact ⟨_, rfl⟩

/-- None of the versions dominates this one. -/
def Undominated (versions : List VersionedValue) (version : VersionedValue) :
    Prop :=
  ∀ other ∈ versions, other.dominates version = false

/-- Some of the versions, none of them dominated, beat all others: by their
clocks, or by timestamps where the clocks are concurrent. -/
def HasFront (versions : List VersionedValue) : Prop :=
  ∃ front, mergeContest.Prevails versions front ∧
    ∀ member ∈ versions, member ∈ front → Undominated versions member

/-- Whatever the order of the answers, an undominated version is selected:
exactly if the versions have a front. -/
theorem selects_undominated_iff_front (first : VersionedValue)
    (rest : List VersionedValue) :
    (∀ order, order.Perm (first :: rest) →
      ∃ latest, selectLatest order = some latest ∧
        Undominated (first :: rest) latest) ↔
      HasFront (first :: rest) := by
  have inhabited : first :: rest ≠ [] := List.cons_ne_nil first rest
  rw [HasFront, ← mergeContest.every_order_selects_iff inhabited
    (Undominated (first :: rest))]
  constructor
  · intro always order permutes final selected
    obtain ⟨latest, found, undominated⟩ := always order permutes
    rw [selectLatest_eq_select, selected] at found
    rw [Option.some.inj found]
    exact undominated
  · intro always order permutes
    have answered : order ≠ [] := by
      intro empty
      rw [empty] at permutes
      exact inhabited permutes.nil_eq.symm
    obtain ⟨latest, selected⟩ := exists_selectLatest answered
    refine ⟨latest, selected, ?_⟩
    rw [selectLatest_eq_select] at selected
    exact always order permutes latest selected

private def skewedAnswer (node : String) (counter : UInt64) (timestamp : Nat) :
    VersionedValue where
  value := ∅
  vectorClock := (∅ : VectorClock).insert node counter
  timestamp := timestamp
  owner := "alice"

/-- The first answer is an update of the last one by a node whose clock is
behind; the one in between was created elsewhere. -/
def skewedAnswers : List VersionedValue :=
  [skewedAnswer "n1" 2 10, skewedAnswer "n2" 1 20, skewedAnswer "n1" 1 30]

theorem skewedAnswers_select_dominated :
    ∃ latest, selectLatest skewedAnswers = some latest ∧
      ¬ Undominated skewedAnswers latest := by
  refine ⟨skewedAnswer "n1" 1 30, by decide, ?_⟩
  intro undominated
  have newer := undominated (skewedAnswer "n1" 2 10) List.mem_cons_self
  revert newer
  decide

/-- Timestamps that grow along the clocks are enough: the versions with the
largest one are a front. -/
theorem hasFront_of_timestamps {versions : List VersionedValue}
    (answered : versions ≠ [])
    (grow : ∀ older ∈ versions, ∀ newer ∈ versions,
      newer.dominates older = true → older.timestamp < newer.timestamp) :
    HasFront versions := by
  let front : Set VersionedValue :=
    {latest | ∀ other ∈ versions, other.timestamp ≤ latest.timestamp}
  refine ⟨front, ⟨?_, ?_⟩, ?_⟩
  · obtain ⟨latest, largest⟩ := Option.ne_none_iff_exists'.mp
      (mt (List.argmax_eq_none (f := VersionedValue.timestamp)).mp answered)
    exact ⟨latest, List.argmax_mem largest,
      fun other listed => List.le_of_mem_argmax listed largest⟩
  · intro member listed inside other otherListed outside
    have notLargest : ∃ third ∈ versions,
        other.timestamp < third.timestamp := by
      by_contra none
      push Not at none
      exact outside none
    obtain ⟨third, thirdListed, later⟩ := notLargest
    have larger : other.timestamp < member.timestamp :=
      lt_of_lt_of_le later (inside third thirdListed)
    apply (VersionedValue.beats_iff member other).mpr
    right
    refine ⟨?_, larger⟩
    by_contra newer
    have smaller := grow member listed other otherListed
      (Bool.eq_true_of_not_eq_false newer)
    exact lt_asymm larger smaller
  · intro member listed inside other otherListed
    by_contra newer
    have larger := grow member listed other otherListed
      (Bool.eq_true_of_not_eq_false newer)
    exact absurd (inside other otherListed) (Nat.not_le_of_lt larger)

end DynaRust.Storage
