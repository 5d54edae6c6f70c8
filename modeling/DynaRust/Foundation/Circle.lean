import Mathlib.Data.List.Perm.Basic
import Mathlib.Data.List.Pairwise

/-!
# Walking around a circle

Points stand on the circle of the 64-bit numbers.  A walk goes up from a
start, passes from the largest number to zero, and takes each label when it
first meets it.
-/

namespace DynaRust.Foundation

universe u

/-! ## First occurrences -/

section FirstMet

variable {α : Type u} [DecidableEq α]

/-- The members of the list, in the order of their first occurrences. -/
def firstMet : List α → List α
  | [] => []
  | item :: rest =>
      item :: (firstMet rest).filter fun other => other ≠ item

@[simp]
theorem mem_firstMet {tested : α} {items : List α} :
    tested ∈ firstMet items ↔ tested ∈ items := by
  induction items with
  | nil =>
      rfl
  | cons item rest inductionHypothesis =>
      rw [firstMet, List.mem_cons, List.mem_cons, List.mem_filter,
        inductionHypothesis, decide_eq_true_eq]
      by_cases same : tested = item
      · simp [same]
      · simp [same]

theorem nodup_firstMet (items : List α) : (firstMet items).Nodup := by
  induction items with
  | nil =>
      exact List.nodup_nil
  | cons item rest inductionHypothesis =>
      rw [firstMet]
      apply List.nodup_cons.mpr
      refine ⟨?_, inductionHypothesis.filter _⟩
      simp

/-- Leaving out members does not change the order of the others. -/
theorem firstMet_filter (keep : α → Bool) (items : List α) :
    firstMet (items.filter keep) = (firstMet items).filter keep := by
  induction items with
  | nil =>
      rfl
  | cons item rest inductionHypothesis =>
      cases kept : keep item with
      | true =>
          rw [List.filter_cons_of_pos kept, firstMet, firstMet,
            List.filter_cons_of_pos kept, inductionHypothesis,
            List.filter_comm]
      | false =>
          have dropped : ¬ keep item = true :=
            Bool.eq_false_iff.mp kept
          rw [List.filter_cons_of_neg dropped, firstMet,
            List.filter_cons_of_neg dropped, inductionHypothesis,
            List.filter_filter]
          apply List.filter_congr
          intro other _
          cases keptOther : keep other with
          | true =>
              have different : other ≠ item := by
                rintro rfl
                exact dropped keptOther
              simp [different]
          | false =>
              rfl

/-! ### The first few, with and without one member -/

theorem take_erase_prefix {items : List α} (distinct : items.Nodup)
    (removed : α) (count : Nat) :
    (items.take count).erase removed <+: (items.erase removed).take count := by
  have distinctTaken : (items.take count).Nodup :=
    distinct.sublist (List.take_sublist count items)
  apply List.prefix_take_iff.mpr
  constructor
  · rw [distinct.erase_eq_filter, distinctTaken.erase_eq_filter]
    exact (List.take_prefix count items).filter _
  · exact Nat.le_trans List.length_erase_le (List.length_take_le count items)

theorem take_erase_of_notMem {items : List α} (distinct : items.Nodup)
    {removed : α} {count : Nat} (absent : removed ∉ items.take count) :
    (items.erase removed).take count = items.take count := by
  have kept := take_erase_prefix distinct removed count
  rw [List.erase_of_not_mem absent] at kept
  refine (kept.eq_of_length_le ?_).symm
  have shorter : (items.erase removed).length ≤ items.length :=
    List.length_erase_le
  rw [List.length_take, List.length_take]
  omega

/-- Taking one member out makes room for at most one other. -/
theorem take_erase_new_unique {items : List α} (distinct : items.Nodup)
    {removed first second : α} {count : Nat}
    (firstTaken : first ∈ (items.erase removed).take count)
    (firstNew : first ∉ items.take count)
    (secondTaken : second ∈ (items.erase removed).take count)
    (secondNew : second ∉ items.take count) : first = second := by
  obtain ⟨added, parts⟩ := take_erase_prefix distinct removed count
  have room : added.length ≤ 1 := by
    have lengths := congrArg List.length parts
    have shorter : (items.erase removed).length ≤ items.length :=
      List.length_erase_le
    have lost : (items.take count).length - 1 ≤
        ((items.take count).erase removed).length :=
      List.le_length_erase
    rw [List.length_append, List.length_take] at lengths
    rw [List.length_take] at lost
    omega
  have isAdded : ∀ item, item ∈ (items.erase removed).take count →
      item ∉ items.take count → item ∈ added := by
    intro item taken new
    rw [← parts] at taken
    refine (List.mem_append.mp taken).resolve_left ?_
    intro kept
    exact new (List.mem_of_mem_erase kept)
  have firstAdded := isAdded first firstTaken firstNew
  have secondAdded := isAdded second secondTaken secondNew
  cases added with
  | nil =>
      cases firstAdded
  | cons only more =>
      have noMore : more = [] := by
        apply List.eq_nil_of_length_eq_zero
        rw [List.length_cons] at room
        omega
      subst noMore
      rw [List.mem_singleton.mp firstAdded, List.mem_singleton.mp secondAdded]

end FirstMet

/-! ## The order of a walk -/

section Clockwise

variable {α : Type u} {start : UInt64}

/-- The first point is no farther from `start`, in wrapping subtraction. -/
def notFarther (start : UInt64) (first second : UInt64 × α) : Bool :=
  decide (first.1 - start ≤ second.1 - start)

/-- The points in the order in which a walk up from `start` meets them. -/
def clockwise (start : UInt64) (points : List (UInt64 × α)) :
    List (UInt64 × α) :=
  points.mergeSort (notFarther start)

/-- Strictly growing distances from `start`. -/
def IsWalk (start : UInt64) (points : List (UInt64 × α)) : Prop :=
  points.Pairwise fun first second => first.1 - start < second.1 - start

/-- No two points share a position. -/
def Scattered (points : List (UInt64 × α)) : Prop :=
  points.Pairwise fun first second => first.1 ≠ second.1

theorem perm_clockwise (start : UInt64) (points : List (UInt64 × α)) :
    (clockwise start points).Perm points :=
  List.mergeSort_perm points (notFarther start)

theorem Scattered.perm {points other : List (UInt64 × α)}
    (scattered : Scattered points) (same : points.Perm other) :
    Scattered other :=
  List.Pairwise.perm scattered same Ne.symm

theorem IsWalk.scattered {walk : List (UInt64 × α)}
    (isWalk : IsWalk start walk) : Scattered walk := by
  refine List.Pairwise.imp ?_ isWalk
  intro first second nearer samePosition
  rw [samePosition] at nearer
  exact UInt64.lt_irrefl _ nearer

theorem notFarther_trans (start : UInt64) (first second third : UInt64 × α)
    (lower : notFarther start first second = true)
    (upper : notFarther start second third = true) :
    notFarther start first third = true :=
  decide_eq_true
    (UInt64.le_trans (of_decide_eq_true lower) (of_decide_eq_true upper))

theorem notFarther_total (start : UInt64) (first second : UInt64 × α) :
    (notFarther start first second || notFarther start second first) =
      true := by
  simp only [notFarther, Bool.or_eq_true, decide_eq_true_eq]
  exact UInt64.le_total (first.1 - start) (second.1 - start)

theorem pairwise_clockwise (start : UInt64) (points : List (UInt64 × α)) :
    (clockwise start points).Pairwise fun first second =>
      first.1 - start ≤ second.1 - start := by
  have sorted := List.pairwise_mergeSort (notFarther_trans start)
    (notFarther_total start) points
  exact sorted.imp fun nearer => of_decide_eq_true nearer

/-- Points at different positions are met one after the other. -/
theorem isWalk_clockwise {points : List (UInt64 × α)}
    (scattered : Scattered points) (start : UInt64) :
    IsWalk start (clockwise start points) := by
  have apart : Scattered (clockwise start points) :=
    scattered.perm (perm_clockwise start points).symm
  refine ((pairwise_clockwise start points).and apart).imp ?_
  rintro first second ⟨nearer, different⟩
  refine UInt64.lt_of_le_of_ne nearer ?_
  intro sameDistance
  apply different
  apply UInt64.toNat_inj.mp
  have distances := congrArg UInt64.toNat sameDistance
  have firstBound := first.1.toNat_lt
  have secondBound := second.1.toNat_lt
  have startBound := start.toNat_lt
  rw [UInt64.toNat_sub, UInt64.toNat_sub] at distances
  omega

/-- There is only one walk through given points. -/
theorem IsWalk.eq_clockwise {walk points : List (UInt64 × α)}
    (isWalk : IsWalk start walk) (same : walk.Perm points) :
    walk = clockwise start points := by
  have sorted : IsWalk start (clockwise start points) :=
    isWalk_clockwise (isWalk.scattered.perm same) start
  have permutation : walk.Perm (clockwise start points) :=
    same.trans (perm_clockwise start points).symm
  refine List.Perm.eq_of_pairwise ?_ isWalk sorted permutation
  intro first second _ _ nearer farther
  exact absurd (UInt64.lt_trans nearer farther) (UInt64.lt_irrefl _)

theorem clockwise_perm {points other : List (UInt64 × α)}
    (scattered : Scattered points) (same : points.Perm other) :
    clockwise start points = clockwise start other :=
  (isWalk_clockwise scattered start).eq_clockwise
    ((perm_clockwise start points).trans same)

/-- Taking points away does not change the order of the others. -/
theorem clockwise_filter {points : List (UInt64 × α)}
    (scattered : Scattered points) (keep : UInt64 × α → Bool) :
    (clockwise start points).filter keep =
      clockwise start (points.filter keep) :=
  IsWalk.eq_clockwise
    (List.Pairwise.filter keep (isWalk_clockwise scattered start))
    ((perm_clockwise start points).filter keep)

/-! ## Two ascending halves -/

private theorem sub_lt_sub_above {start first second : UInt64}
    (above : start ≤ first) (smaller : first < second) :
    first - start < second - start := by
  rw [UInt64.le_iff_toNat_le] at above
  rw [UInt64.lt_iff_toNat_lt] at smaller ⊢
  have firstBound := first.toNat_lt
  have secondBound := second.toNat_lt
  rw [UInt64.toNat_sub, UInt64.toNat_sub]
  omega

private theorem sub_lt_sub_below {start first second : UInt64}
    (below : second < start) (smaller : first < second) :
    first - start < second - start := by
  rw [UInt64.lt_iff_toNat_lt] at below smaller ⊢
  have startBound := start.toNat_lt
  rw [UInt64.toNat_sub, UInt64.toNat_sub]
  omega

private theorem sub_lt_sub_across {start first second : UInt64}
    (above : start ≤ first) (below : second < start) :
    first - start < second - start := by
  rw [UInt64.le_iff_toNat_le] at above
  rw [UInt64.lt_iff_toNat_lt] at below ⊢
  have firstBound := first.toNat_lt
  have startBound := start.toNat_lt
  rw [UInt64.toNat_sub, UInt64.toNat_sub]
  omega

/-- An ascending list, read from `start` to its end and then from its
beginning, is the walk. -/
theorem clockwise_of_ascending (start : UInt64)
    {ring points : List (UInt64 × α)}
    (ascending : ring.Pairwise fun first second => first.1 < second.1)
    (same : ring.Perm points) :
    (ring.filter fun point => decide (start ≤ point.1)) ++
        (ring.filter fun point => decide (point.1 < start)) =
      clockwise start points := by
  apply IsWalk.eq_clockwise
  · apply List.pairwise_append.mpr
    refine ⟨?_, ?_, ?_⟩
    · refine List.Pairwise.imp_of_mem ?_ (ascending.filter _)
      intro first second member _ smaller
      have above := of_decide_eq_true (List.mem_filter.mp member).2
      exact sub_lt_sub_above above smaller
    · refine List.Pairwise.imp_of_mem ?_ (ascending.filter _)
      intro first second _ member smaller
      have below := of_decide_eq_true (List.mem_filter.mp member).2
      exact sub_lt_sub_below below smaller
    · intro first firstMember second secondMember
      have above := of_decide_eq_true (List.mem_filter.mp firstMember).2
      have below := of_decide_eq_true (List.mem_filter.mp secondMember).2
      exact sub_lt_sub_across above below
  · have complement : (fun point : UInt64 × α =>
        decide (point.1 < start)) =
          fun point => !decide (start ≤ point.1) := by
      funext point
      rw [← decide_not, decide_eq_decide]
      exact UInt64.not_le.symm
    rw [complement]
    exact (List.filter_append_perm _ ring).trans same

end Clockwise

end DynaRust.Foundation
