import DynaRust.Foundation.FiniteMap
import Mathlib.Order.Basic
import Mathlib.Tactic.Common

/-!
# Versioned values

The record type of the store with its constructors and the vector-clock
comparison (`engine.rs`).  Counters are `u64` and wrap; timestamps are only
ever compared, so they are natural numbers.
-/

namespace DynaRust.Storage

open DynaRust.Foundation

/-- A JSON value.  Only strings are ever looked into, so numbers, arrays and
objects are kept by their text. -/
inductive Value where
  | null
  | bool (flag : Bool)
  | number (text : String)
  | string (text : String)
  | array (text : String)
  | object (text : String)
  deriving DecidableEq, Repr

/-- `Value::as_str`. -/
@[simp]
def Value.asStr : Value → Option String
  | .string text => some text
  | _ => none

/-- Node addresses to write counters. -/
abbrev VectorClock := HashMap String UInt64

namespace VectorClock

/-- `vector_clock.get(node).copied().unwrap_or(0)`. -/
def counter (clock : VectorClock) (node : String) : UInt64 :=
  (clock.lookup node).getD 0

/-- `let counter = entry(node_id).or_insert(0); *counter += 1`. -/
def increment (clock : VectorClock) (node : String) : VectorClock :=
  clock.insert node (counter clock node + 1)

/-- The clock read as a function into the naturals, a missing node being
zero. -/
def reading (clock : VectorClock) (node : String) : Nat :=
  (counter clock node).toNat

@[simp]
theorem counter_increment_self (clock : VectorClock) (node : String) :
    counter (increment clock node) node = counter clock node + 1 := by
  simp [increment, counter]

theorem counter_increment_of_ne
    (clock : VectorClock) {node other : String} (different : other ≠ node) :
    counter (increment clock node) other = counter clock other := by
  simp [increment, counter, Finmap.lookup_insert_of_ne clock different]

theorem reading_increment_of_ne
    (clock : VectorClock) {node other : String} (different : other ≠ node) :
    reading (increment clock node) other = reading clock other := by
  rw [reading, reading, counter_increment_of_ne clock different]

/-- Below `u64::MAX` an increment adds one. -/
theorem reading_increment_self
    (clock : VectorClock) {node : String}
    (room : reading clock node + 1 < UInt64.size) :
    reading (increment clock node) node = reading clock node + 1 := by
  simp only [reading, counter_increment_self, UInt64.toNat_add] at room ⊢
  exact Nat.mod_eq_of_lt room

/-- At `u64::MAX` it starts again from zero. -/
theorem reading_increment_of_full
    (clock : VectorClock) {node : String}
    (full : UInt64.size ≤ reading clock node + 1) :
    reading (increment clock node) node = 0 := by
  have bound : reading clock node < UInt64.size :=
    UInt64.toNat_lt_size (counter clock node)
  have last : reading clock node + 1 = UInt64.size := by
    omega
  rw [reading] at last
  rw [reading, counter_increment_self, UInt64.toNat_add, UInt64.toNat_one,
    last]
  exact Nat.mod_self _

/-! ## The two loops of `dominates` -/

/-- The loop over the other clock: `none` is the early `return false`, `some`
carries `strictly_newer`. -/
def compareOther (clock : VectorClock) (strictlyNewer : Bool) :
    List (Sigma fun _ : String => UInt64) → Option Bool
  | [] => some strictlyNewer
  | ⟨node, otherCount⟩ :: rest =>
      if counter clock node < otherCount then
        none
      else if counter clock node > otherCount then
        compareOther clock true rest
      else
        compareOther clock strictlyNewer rest

/-- The loop over the own clock, for the nodes the other clock lacks. -/
def compareSelf (other : VectorClock) (strictlyNewer : Bool) :
    List (Sigma fun _ : String => UInt64) → Bool
  | [] => strictlyNewer
  | ⟨node, ownCount⟩ :: rest =>
      if node ∉ other ∧ ownCount > 0 then
        compareSelf other true rest
      else
        compareSelf other strictlyNewer rest

/-- Both loops, over one enumeration of each clock. -/
def dominatesListed (clock other : AList fun _ : String => UInt64) : Bool :=
  match compareOther clock.toFinmap false other.entries with
  | none => false
  | some strictlyNewer =>
      compareSelf other.toFinmap strictlyNewer clock.entries

theorem compareOther_eq_some_iff
    (clock : VectorClock) (strictlyNewer result : Bool)
    (entries : List (Sigma fun _ : String => UInt64)) :
    compareOther clock strictlyNewer entries = some result ↔
      (∀ entry ∈ entries, entry.2 ≤ counter clock entry.1) ∧
        (result = true ↔ strictlyNewer = true ∨
          ∃ entry ∈ entries, entry.2 < counter clock entry.1) := by
  induction entries generalizing strictlyNewer with
  | nil =>
      cases strictlyNewer <;> cases result <;> simp [compareOther]
  | cons entry rest inductionHypothesis =>
      obtain ⟨node, otherCount⟩ := entry
      rw [compareOther]
      split
      · rename_i smaller
        have notBelow : ¬ otherCount ≤ counter clock node :=
          UInt64.not_le.mpr smaller
        simp [notBelow]
      · rename_i notSmaller
        have below : otherCount ≤ counter clock node :=
          UInt64.not_lt.mp notSmaller
        split
        · rename_i larger
          have larger' : otherCount < counter clock node := larger
          rw [inductionHypothesis]
          simp [below, larger']
        · rename_i notLarger
          have notLarger' : ¬ otherCount < counter clock node := notLarger
          rw [inductionHypothesis]
          simp [below, notLarger']

theorem compareSelf_eq_true_iff
    (other : VectorClock) (strictlyNewer : Bool)
    (entries : List (Sigma fun _ : String => UInt64)) :
    compareSelf other strictlyNewer entries = true ↔
      strictlyNewer = true ∨
        ∃ entry ∈ entries, entry.1 ∉ other ∧ 0 < entry.2 := by
  induction entries generalizing strictlyNewer with
  | nil =>
      simp [compareSelf]
  | cons entry rest inductionHypothesis =>
      obtain ⟨node, ownCount⟩ := entry
      rw [compareSelf]
      split
      · rename_i found
        rw [inductionHypothesis]
        simp [found.1, show 0 < ownCount from found.2]
      · rename_i notFound
        have notFound' : ¬ (node ∉ other ∧ 0 < ownCount) := notFound
        rw [inductionHypothesis]
        simp only [List.mem_cons, exists_eq_or_imp, notFound', false_or]

private theorem counter_of_mem_entries
    {clock : AList fun _ : String => UInt64} {node : String} {count : UInt64}
    (member : Sigma.mk node count ∈ clock.entries) :
    counter clock.toFinmap node = count := by
  have found : clock.lookup node = some count :=
    List.mem_dlookup clock.nodupKeys member
  simp [counter, found]

private theorem mem_entries_of_mem
    {clock : AList fun _ : String => UInt64} {node : String}
    (present : node ∈ clock.toFinmap) :
    Sigma.mk node (counter clock.toFinmap node) ∈ clock.entries := by
  obtain ⟨count, found⟩ := Finmap.mem_iff.mp present
  have member : Sigma.mk node count ∈ clock.entries :=
    List.of_mem_dlookup found
  rwa [counter_of_mem_entries member]

theorem counter_of_notMem {clock : VectorClock} {node : String}
    (absent : node ∉ clock) : counter clock node = 0 := by
  rw [counter, Finmap.lookup_eq_none.mpr absent, Option.getD_none]

/-- The first loop passes exactly when no reading of `other` is larger. -/
private theorem entries_le_iff
    (clock : VectorClock) (other : AList fun _ : String => UInt64) :
    (∀ entry ∈ other.entries, entry.2 ≤ counter clock entry.1) ↔
      reading other.toFinmap ≤ reading clock := by
  constructor
  · intro bounds node
    by_cases present : node ∈ other.toFinmap
    · exact UInt64.le_iff_toNat_le.mp (bounds _ (mem_entries_of_mem present))
    · rw [reading, counter_of_notMem present]
      exact Nat.zero_le _
  · rintro order ⟨node, count⟩ member
    have bound := order node
    rw [reading, counter_of_mem_entries member] at bound
    exact UInt64.le_iff_toNat_le.mpr bound

/-- The two loops raise the flag exactly when some reading of `other` is
smaller. -/
private theorem entries_lt_iff
    (clock other : AList fun _ : String => UInt64) :
    ((∃ entry ∈ other.entries,
        entry.2 < counter clock.toFinmap entry.1) ∨
      ∃ entry ∈ clock.entries,
        entry.1 ∉ other.toFinmap ∧ 0 < entry.2) ↔
      ∃ node, reading other.toFinmap node < reading clock.toFinmap node := by
  constructor
  · rintro (⟨⟨node, count⟩, member, smaller⟩ |
      ⟨⟨node, count⟩, member, absent, positive⟩)
    · refine ⟨node, ?_⟩
      rw [reading, counter_of_mem_entries member]
      exact UInt64.lt_iff_toNat_lt.mp smaller
    · refine ⟨node, ?_⟩
      rw [reading, reading, counter_of_notMem absent,
        counter_of_mem_entries member]
      exact UInt64.lt_iff_toNat_lt.mp positive
  · rintro ⟨node, smaller⟩
    by_cases present : node ∈ other.toFinmap
    · exact Or.inl ⟨_, mem_entries_of_mem present,
        UInt64.lt_iff_toNat_lt.mpr smaller⟩
    · rw [reading, counter_of_notMem present] at smaller
      have positive : 0 < counter clock.toFinmap node :=
        UInt64.lt_iff_toNat_lt.mpr smaller
      have presentSelf : node ∈ clock.toFinmap := by
        by_contra absent
        rw [counter_of_notMem absent] at positive
        exact absurd positive (UInt64.lt_irrefl 0)
      exact Or.inr ⟨_, mem_entries_of_mem presentSelf, present, positive⟩

/-- On any enumerations of the clocks, the loops decide the strict pointwise
order of the readings. -/
theorem dominatesListed_eq_true_iff
    (clock other : AList fun _ : String => UInt64) :
    dominatesListed clock other = true ↔
      reading other.toFinmap < reading clock.toFinmap := by
  rw [dominatesListed, Pi.lt_def, ← entries_le_iff, ← entries_lt_iff]
  cases outcome : compareOther clock.toFinmap false other.entries with
  | none =>
      have fails : ¬ ∀ entry ∈ other.entries,
          entry.2 ≤ counter clock.toFinmap entry.1 := by
        intro bounds
        have passes := (compareOther_eq_some_iff clock.toFinmap false
          (decide (∃ entry ∈ other.entries,
            entry.2 < counter clock.toFinmap entry.1))
          other.entries).mpr ⟨bounds, by simp⟩
        rw [outcome] at passes
        cases passes
      exact iff_of_false Bool.false_ne_true (fun both => fails both.1)
  | some flag =>
      obtain ⟨bounds, raised⟩ :=
        (compareOther_eq_some_iff _ _ _ _).mp outcome
      simp only [Bool.false_eq_true, false_or] at raised
      rw [compareSelf_eq_true_iff, raised]
      exact (and_iff_right bounds).symm

end VectorClock

/-! ## Records -/

/-- A record of the store. -/
structure VersionedValue where
  value : HashMap String Value
  vectorClock : VectorClock
  timestamp : Nat
  owner : String
  deriving DecidableEq

namespace VersionedValue

open VectorClock

/-- `VersionedValue::new`, at the clock reading `now`. -/
def new (value : HashMap String Value) (owner nodeId : String) (now : Nat) :
    VersionedValue where
  value := value
  vectorClock := (∅ : VectorClock).insert nodeId 1
  timestamp := now
  owner := owner

/-- `VersionedValue::update`. -/
def update (self : VersionedValue) (value : HashMap String Value)
    (nodeId : String) (now : Nat) : VersionedValue :=
  { self with
    value := value
    vectorClock := increment self.vectorClock nodeId
    timestamp := now }

/-- `VersionedValue::patch`. -/
def patch (self : VersionedValue) (updates : HashMap String Value)
    (nodeId : String) (now : Nat) : VersionedValue :=
  { self with
    value := HashMap.insertAll updates self.value
    vectorClock := increment self.vectorClock nodeId
    timestamp := now }

/-- `VersionedValue::dominates`, the two loops run over any enumerations of
the clocks. -/
def dominates (self other : VersionedValue) : Bool :=
  Finmap.liftOn₂ self.vectorClock other.vectorClock dominatesListed <| by
    intro first second first' second' permutation permutation'
    apply Bool.eq_iff_iff.mpr
    rw [dominatesListed_eq_true_iff, dominatesListed_eq_true_iff,
      AList.toFinmap_eq.mpr permutation, AList.toFinmap_eq.mpr permutation']

/-- `dominates` is the strict pointwise order of the clock readings. -/
theorem dominates_iff (self other : VersionedValue) :
    self.dominates other = true ↔
      reading other.vectorClock < reading self.vectorClock := by
  rw [dominates]
  induction self.vectorClock, other.vectorClock using Finmap.induction_on₂ with
  | H clock other =>
      rw [Finmap.liftOn₂_toFinmap]
      exact dominatesListed_eq_true_iff clock other

theorem dominates_asymm {self other : VersionedValue}
    (forward : self.dominates other = true) :
    other.dominates self = false := by
  rw [Bool.eq_false_iff]
  intro backward
  exact lt_asymm ((dominates_iff _ _).mp forward)
    ((dominates_iff _ _).mp backward)

theorem dominates_irrefl (self : VersionedValue) :
    self.dominates self = false := by
  rw [Bool.eq_false_iff]
  intro loop
  exact lt_irrefl _ ((dominates_iff _ _).mp loop)

theorem dominates_trans {first second third : VersionedValue}
    (upper : first.dominates second = true)
    (lower : second.dominates third = true) :
    first.dominates third = true := by
  rw [dominates_iff] at upper lower ⊢
  exact lt_trans lower upper

/-- Incrementing one counter below `u64::MAX` gives a dominating clock. -/
theorem dominates_of_increment {base derived : VersionedValue}
    {nodeId : String}
    (clock : derived.vectorClock = increment base.vectorClock nodeId)
    (room : reading base.vectorClock nodeId + 1 < UInt64.size) :
    derived.dominates base = true := by
  rw [dominates_iff, clock, Pi.lt_def]
  constructor
  · intro node
    by_cases own : node = nodeId
    · subst own
      rw [reading_increment_self base.vectorClock room]
      exact Nat.le_succ _
    · rw [reading_increment_of_ne base.vectorClock own]
  · refine ⟨nodeId, ?_⟩
    rw [reading_increment_self base.vectorClock room]
    exact Nat.lt_succ_self _

/-- Incrementing a counter at `u64::MAX` gives a dominated clock. -/
theorem dominates_of_increment_full {base derived : VersionedValue}
    {nodeId : String}
    (clock : derived.vectorClock = increment base.vectorClock nodeId)
    (full : UInt64.size ≤ reading base.vectorClock nodeId + 1) :
    base.dominates derived = true := by
  have restarted := reading_increment_of_full base.vectorClock full
  rw [dominates_iff, clock, Pi.lt_def]
  constructor
  · intro node
    by_cases own : node = nodeId
    · subst own
      rw [restarted]
      exact Nat.zero_le _
    · rw [reading_increment_of_ne base.vectorClock own]
  · refine ⟨nodeId, ?_⟩
    have positive : 1 < UInt64.size := by
      decide
    rw [restarted]
    omega

theorem dominates_iff_counter (self other : VersionedValue) :
    self.dominates other = true ↔
      (∀ node, counter other.vectorClock node ≤
          counter self.vectorClock node) ∧
        ∃ node, counter other.vectorClock node <
          counter self.vectorClock node := by
  rw [dominates_iff, Pi.lt_def]
  simp only [Pi.le_def, reading, UInt64.le_iff_toNat_le,
    UInt64.lt_iff_toNat_lt]

/-- Every enumeration of the two clocks gives the answer of `dominates`. -/
theorem dominatesListed_eq_dominates {self other : VersionedValue}
    {own others : AList fun _ : String => UInt64}
    (listsOwn : own.toFinmap = self.vectorClock)
    (listsOther : others.toFinmap = other.vectorClock) :
    dominatesListed own others = self.dominates other := by
  apply Bool.eq_iff_iff.mpr
  rw [dominatesListed_eq_true_iff, dominates_iff, listsOwn, listsOther]

/-- `dominates` is the strict order of the clocks, a missing node being read
as zero, whichever way the two maps are iterated. -/
theorem dominates_strictClockOrder (first second third : VersionedValue) :
    (first.dominates second = true ↔
      (∀ node, counter second.vectorClock node ≤
          counter first.vectorClock node) ∧
        ∃ node, counter second.vectorClock node <
          counter first.vectorClock node) ∧
      first.dominates first = false ∧
      (first.dominates second = true → second.dominates first = false) ∧
      (first.dominates second = true → second.dominates third = true →
        first.dominates third = true) ∧
      ∀ own other : AList fun _ : String => UInt64,
        own.toFinmap = first.vectorClock →
          other.toFinmap = second.vectorClock →
            dominatesListed own other = first.dominates second := by
  refine ⟨dominates_iff_counter first second, dominates_irrefl first,
    dominates_asymm, dominates_trans, ?_⟩
  intro own other listsOwn listsOther
  exact dominatesListed_eq_dominates listsOwn listsOther

/-- Explicit zeros on both sides and a node that only one clock names. -/
theorem dominates_strictClockOrder_zeros :
    (VersionedValue.mk ∅ (((∅ : VectorClock).insert "a" 1).insert "b" 0) 0
        "u").dominates
      ⟨∅, (∅ : VectorClock).insert "c" 0, 5, "u"⟩ = true ∧
    (VersionedValue.mk ∅ ((∅ : VectorClock).insert "c" 0) 5 "u").dominates
      ⟨∅, ((∅ : VectorClock).insert "a" 1).insert "b" 0, 0, "u"⟩ =
        false := by
  have order := dominates_strictClockOrder
    ⟨∅, ((∅ : VectorClock).insert "a" 1).insert "b" 0, 0, "u"⟩
    ⟨∅, (∅ : VectorClock).insert "c" 0, 5, "u"⟩
    ⟨∅, (∅ : VectorClock).insert "c" 0, 5, "u"⟩
  have newer := order.1.mpr ⟨by
    intro node
    by_cases isC : node = "c"
    · subst isC
      decide
    · have absent : counter ((∅ : VectorClock).insert "c" 0) node = 0 := by
        simp [counter, Finmap.lookup_insert_of_ne _ isC]
      rw [absent]
      exact UInt64.zero_le, "a", by decide⟩
  exact ⟨newer, order.2.2.1 newer⟩

end VersionedValue

end DynaRust.Storage
