import DynaRust.Foundation.Contest
import DynaRust.Storage.VersionedValue

/-!
# The merge rule of replication

`put_value_internal` replaces a stored version by an incoming one when the
incoming clock dominates, or when neither does and the incoming timestamp is
larger.  The rule has no tie-break: two concurrent versions with one timestamp
each stay where they are.
-/

namespace DynaRust.Storage

open DynaRust.Foundation

namespace VersionedValue

/-- The condition under which `put_value_internal` replaces `existing`. -/
def beats (incoming existing : VersionedValue) : Bool :=
  incoming.dominates existing ||
    (!existing.dominates incoming &&
      decide (incoming.timestamp > existing.timestamp))

theorem beats_iff (incoming existing : VersionedValue) :
    incoming.beats existing = true ↔
      incoming.dominates existing = true ∨
        (existing.dominates incoming = false ∧
          existing.timestamp < incoming.timestamp) := by
  simp [beats]

theorem beats_of_dominates {incoming existing : VersionedValue}
    (newer : incoming.dominates existing = true) :
    incoming.beats existing = true :=
  (beats_iff incoming existing).mpr (Or.inl newer)

theorem beats_asymm (incoming existing : VersionedValue)
    (wins : incoming.beats existing = true) :
    existing.beats incoming = false := by
  rw [Bool.eq_false_iff]
  intro back
  rcases (beats_iff incoming existing).mp wins with newer | ⟨notOlder, later⟩
  · rcases (beats_iff existing incoming).mp back with older | ⟨notNewer, _⟩
    · rw [dominates_asymm newer] at older
      cases older
    · rw [newer] at notNewer
      cases notNewer
  · rcases (beats_iff existing incoming).mp back with older | ⟨_, earlier⟩
    · rw [notOlder] at older
      cases older
    · exact lt_asymm later earlier

end VersionedValue

open VersionedValue

/-- Versions contend for a key by the merge rule. -/
def mergeContest : Contest VersionedValue where
  beats := beats
  asymm := beats_asymm

@[simp]
theorem mergeContest_beats (incoming existing : VersionedValue) :
    mergeContest.beats incoming existing = incoming.beats existing :=
  rfl

/-- `table.entry(key).and_modify(..).or_insert_with(..)` of
`put_value_internal`: the record afterwards. -/
def mergeIncoming (existing : Option VersionedValue)
    (incoming : VersionedValue) : VersionedValue :=
  match existing with
  | some existing =>
      if incoming.dominates existing ||
          (!existing.dominates incoming &&
            decide (incoming.timestamp > existing.timestamp)) then
        incoming
      else
        existing
  | none => incoming

theorem mergeIncoming_some (existing incoming : VersionedValue) :
    mergeIncoming (some existing) incoming =
      if incoming.beats existing then incoming else existing :=
  rfl

theorem mergeIncoming_eq_offer (existing : Option VersionedValue)
    (incoming : VersionedValue) :
    mergeIncoming existing incoming = mergeContest.offer existing incoming := by
  cases existing <;> rfl

/-- The stored record or the incoming one, never a mixture. -/
theorem mergeIncoming_eq_or (existing : Option VersionedValue)
    (incoming : VersionedValue) :
    mergeIncoming existing incoming = incoming ∨
      existing = some (mergeIncoming existing incoming) := by
  rw [mergeIncoming_eq_offer]
  exact mergeContest.offer_eq_or existing incoming

end DynaRust.Storage
