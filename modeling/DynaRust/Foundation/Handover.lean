import DynaRust.Foundation.Contest

/-!
# Feeding a replica from a source

A source takes one element after the other, each newer than the one before.
Copies of them travel in any order, may be duplicated, and are offered to a
replica and back to the source.  The replica ends with what the source holds
if every element that the source still holds is on its way to the replica from
some moment on.  An element that the replica held earlier may contend with
those of the source.
-/

namespace DynaRust.Foundation

universe u

/-- A contest in which newer elements win.  Elements may also beat each other
for other reasons, and that is not transitive in general. -/
structure Succession (α : Type u) extends Contest α where
  newer : α → α → Prop
  newer_trans : ∀ {first second third : α},
    newer first second → newer second third → newer first third
  beats_of_newer : ∀ {first second : α},
    newer first second → beats first second = true

structure Feed (α : Type u) where
  source : Option α
  replica : Option α
  flying : Set α

namespace Succession

variable {α : Type u} (succession : Succession α)

/-- The source holds the element or a newer one. -/
def IsPast (source : Option α) (element : α) : Prop :=
  ∃ current ∈ source, current = element ∨ succession.newer current element

/-- One move of a feed, with the element that the source takes and the copy
that is offered to the replica. -/
inductive Move : Option α → Option α → Feed α → Feed α → Prop
  | write {before after : Feed α} (element : α) :
      (∀ held ∈ before.source, succession.newer element held) →
      after.source = some element →
      after.replica = before.replica →
      (∀ copy ∈ after.flying, copy ∈ before.flying ∨ copy = element) →
      Move (some element) none before after
  | merge {before after : Feed α} (toSource toReplica : Option α) :
      (∀ copy ∈ toSource, copy ∈ before.flying) →
      (∀ copy ∈ toReplica, copy ∈ before.flying) →
      after.source =
        succession.offerAll before.source toSource.toList →
      after.replica =
        succession.offerAll before.replica toReplica.toList →
      (∀ copy ∈ after.flying,
        copy ∈ before.flying ∨ copy ∈ before.source) →
      Move none toReplica before after

/-- A move by which nothing is written and nothing offered. -/
theorem Move.idle {before after : Feed α}
    (source : after.source = before.source)
    (replica : after.replica = before.replica)
    (flying : ∀ copy ∈ after.flying,
      copy ∈ before.flying ∨ copy ∈ before.source) :
    succession.Move none none before after := by
  refine .merge none none ?_ ?_ source replica flying
  · intro copy offered
    cases offered
  · intro copy offered
    cases offered

/-- Everything that flies was once taken by the source, and so was what the
replica holds, unless it held that at the start. -/
structure Sound (earlier : Option α) (feed : Feed α) : Prop where
  flying : ∀ copy ∈ feed.flying, succession.IsPast feed.source copy
  replica : ∀ held ∈ feed.replica,
    succession.IsPast feed.source held ∨ earlier = some held

/-- What the source holds is due to be offered to the replica, or it was and
is held unless the earlier element withstands it. -/
def Covered (earlier : Option α) (due : Set α) (feed : Feed α) : Prop :=
  ∀ current ∈ feed.source, current ∈ due ∨ feed.replica = some current ∨
    ∃ old ∈ earlier, old ≠ current ∧ succession.beats current old = false

variable {succession}

theorem not_newer_self (element : α) :
    ¬ succession.newer element element := by
  intro loop
  have beaten := succession.beats_of_newer loop
  rw [succession.beats_irrefl] at beaten
  cases beaten

theorem IsPast.mono {source : Option α} {element newest : α}
    (past : succession.IsPast source element)
    (grows : ∀ held ∈ source, succession.newer newest held) :
    succession.IsPast (some newest) element := by
  obtain ⟨current, held, order⟩ := past
  have above := grows current held
  refine ⟨newest, rfl, Or.inr ?_⟩
  rcases order with rfl | newer
  · exact above
  · exact succession.newer_trans above newer

theorem not_isPast_of_newer {source : Option α} {newest : α}
    (grows : ∀ held ∈ source, succession.newer newest held) :
    ¬ succession.IsPast source newest := by
  rintro ⟨current, held, order⟩
  have above := grows current held
  rcases order with rfl | newer
  · exact not_newer_self _ above
  · exact not_newer_self _ (succession.newer_trans above newer)

theorem isPast_self {source : Option α} {current : α}
    (held : current ∈ source) : succession.IsPast source current :=
  ⟨current, held, Or.inl rfl⟩

/-- An element of the past does not replace the current one. -/
theorem IsPast.refused {current element : α}
    (past : succession.IsPast (some current) element) :
    succession.beats element current = false := by
  obtain ⟨other, held, order⟩ := past
  cases Option.some.inj held
  rcases order with rfl | newer
  · exact succession.beats_irrefl current
  · exact succession.asymm _ _ (succession.beats_of_newer newer)

/-- The current element replaces one of the past. -/
theorem IsPast.offer {current element : α}
    (past : succession.IsPast (some current) element) :
    succession.offer (some element) current = current := by
  obtain ⟨other, held, order⟩ := past
  cases Option.some.inj held
  rcases order with rfl | newer
  · exact succession.offer_self current
  · exact succession.offer_of_beats (succession.beats_of_newer newer)

/-- Copies of the past come back to the source without effect. -/
theorem offerAll_toList_of_isPast {source offered : Option α}
    (past : ∀ copy ∈ offered, succession.IsPast source copy) :
    succession.offerAll source offered.toList = source := by
  cases offered with
  | none =>
      rfl
  | some copy =>
      obtain ⟨current, held, order⟩ := past copy rfl
      cases held
      apply succession.offerAll_refused
      intro incoming member
      rw [List.mem_singleton.mp member]
      exact IsPast.refused ⟨current, rfl, order⟩

variable {earlier written offered : Option α} {before after : Feed α}

theorem Move.source_eq (moved : succession.Move written offered before after)
    (sound : succession.Sound earlier before) :
    after.source = written.or before.source := by
  cases moved with
  | write element grows source replica flying =>
      exact source
  | merge toSource _ sourceFlies replicaFlies source replica flying =>
      rw [source]
      apply offerAll_toList_of_isPast
      intro copy isOffered
      exact sound.flying copy (sourceFlies copy isOffered)

theorem Move.replica_eq
    (moved : succession.Move written offered before after) :
    after.replica =
      succession.offerAll before.replica offered.toList := by
  cases moved with
  | write element grows source replica flying =>
      exact replica
  | merge toSource _ sourceFlies replicaFlies source replica flying =>
      exact replica

theorem IsPast.move {element : α}
    (past : succession.IsPast before.source element)
    (moved : succession.Move written offered before after)
    (sound : succession.Sound earlier before) :
    succession.IsPast after.source element := by
  have sourceEq := moved.source_eq sound
  cases moved with
  | write newest grows source replica flying =>
      rw [source]
      exact past.mono grows
  | merge toSource _ sourceFlies replicaFlies source replica flying =>
      rw [sourceEq]
      exact past

theorem Sound.move (sound : succession.Sound earlier before)
    (moved : succession.Move written offered before after) :
    succession.Sound earlier after := by
  have sourceEq := moved.source_eq sound
  cases moved with
  | write element grows source replica flying =>
      constructor
      · intro copy member
        rw [source]
        rcases flying copy member with old | rfl
        · exact (sound.flying copy old).mono grows
        · exact isPast_self rfl
      · intro held isHeld
        rw [replica] at isHeld
        rw [source]
        rcases sound.replica held isHeld with past | isEarlier
        · exact Or.inl (past.mono grows)
        · exact Or.inr isEarlier
  | merge toSource _ sourceFlies replicaFlies source replica flying =>
      rw [Option.none_or] at sourceEq
      constructor
      · intro copy member
        rw [sourceEq]
        rcases flying copy member with old | current
        · exact sound.flying copy old
        · exact isPast_self current
      · intro held isHeld
        rw [sourceEq]
        cases offered with
        | none =>
            rw [replica] at isHeld
            exact sound.replica held isHeld
        | some copy =>
            have outcome : succession.offer before.replica copy = held := by
              rw [replica] at isHeld
              exact Option.some.inj isHeld
            rcases succession.offer_eq_or before.replica copy with
              isNew | isOld
            · rw [← outcome, isNew]
              exact Or.inl (sound.flying copy (replicaFlies copy rfl))
            · rw [outcome] at isOld
              exact sound.replica held isOld

/-- The replica holds the current element after it is offered, unless the
earlier element withstands it. -/
private theorem covered_of_offer (feed : Feed α) {current : α}
    (replica : ∀ held ∈ feed.replica,
      succession.IsPast (some current) held ∨ earlier = some held) :
    succession.offer feed.replica current = current ∨
      ∃ old ∈ earlier, old ≠ current ∧
        succession.beats current old = false := by
  cases holds : feed.replica with
  | none =>
      exact Or.inl rfl
  | some held =>
      rcases replica held holds with past | isEarlier
      · exact Or.inl past.offer
      · by_cases same : held = current
        · subst same
          exact Or.inl (succession.offer_self held)
        · cases wins : succession.beats current held with
          | true =>
              exact Or.inl (succession.offer_of_beats wins)
          | false =>
              exact Or.inr ⟨held, isEarlier, same, wins⟩

/-- The current element stays covered if a new one becomes due and one that is
due stays due until it is offered. -/
theorem Covered.move {due dueAfter : Set α}
    (covered : succession.Covered earlier due before)
    (sound : succession.Sound earlier before)
    (moved : succession.Move written offered before after)
    (kept : ∀ current ∈ after.source,
      current ∈ due ∨ current ∉ before.source →
        current ∈ dueAfter ∨ offered = some current) :
    succession.Covered earlier dueAfter after := by
  intro current isCurrent
  have sourceEq := moved.source_eq sound
  cases moved with
  | write element grows source replica flying =>
      have isNew : current ∉ before.source := by
        intro held
        rw [source] at isCurrent
        cases isCurrent
        exact not_isPast_of_newer grows (isPast_self held)
      rcases kept current isCurrent (Or.inr isNew) with isDue | isOffered
      · exact Or.inl isDue
      · cases isOffered
  | merge toSource _ sourceFlies replicaFlies source replica flying =>
      rw [Option.none_or] at sourceEq
      have held : before.source = some current := by
        rw [← sourceEq]
        exact isCurrent
      rcases covered current held with isDue | holds | withstood
      · rcases kept current isCurrent (Or.inl isDue) with isDue | rfl
        · exact Or.inl isDue
        · have holdsPast : ∀ other ∈ before.replica,
              succession.IsPast (some current) other ∨
                earlier = some other := by
            rw [← held]
            exact sound.replica
          rcases covered_of_offer before holdsPast with isHeld | withstood
          · exact Or.inr (Or.inl (replica.trans (congrArg some isHeld)))
          · exact Or.inr (Or.inr withstood)
      · refine Or.inr (Or.inl ?_)
        rw [replica, holds]
        apply offerAll_toList_of_isPast
        intro copy isOffered
        rw [← held]
        exact sound.flying copy (replicaFlies copy isOffered)
      · exact Or.inr (Or.inr withstood)

/-- Once nothing is due, the replica holds what the source holds, if that
replaces the earlier element. -/
theorem Covered.caughtUp {feed : Feed α}
    (covered : succession.Covered earlier ∅ feed) {current : α}
    (isCurrent : feed.source = some current)
    (replaces : ∀ old ∈ earlier,
      current = old ∨ succession.beats current old = true) :
    feed.replica = some current := by
  rcases covered current isCurrent with isDue | holds |
    ⟨old, isEarlier, different, withstands⟩
  · cases isDue
  · exact holds
  · rcases replaces old isEarlier with same | wins
    · exact absurd same.symm different
    · rw [withstands] at wins
      cases wins

end Succession

end DynaRust.Foundation
