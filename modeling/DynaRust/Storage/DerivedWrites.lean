import DynaRust.Foundation.Runs
import DynaRust.Storage.Engine

/-!
# Writes derived from a version

Every `update` and `patch` counts the clock entry of its node up by one, so a
version made from another by such writes dominates it, wherever the writes
happened and whatever clocks stamped them.
-/

namespace DynaRust.Storage

open DynaRust.Foundation DynaRust.Network VectorClock

/-- One call of `update` or `patch`, at the clock reading `now`. -/
inductive LocalWrite where
  | update (value : HashMap String Value) (nodeId : String) (now : Nat)
  | patch (updates : HashMap String Value) (nodeId : String) (now : Nat)

namespace LocalWrite

/-- The node whose counter the write increments. -/
def nodeId : LocalWrite → String
  | .update _ nodeId _ => nodeId
  | .patch _ nodeId _ => nodeId

/-- The version after the write. -/
def apply (version : VersionedValue) : LocalWrite → VersionedValue
  | .update value nodeId now => version.update value nodeId now
  | .patch updates nodeId now => version.patch updates nodeId now

theorem vectorClock_apply (version : VersionedValue) (write : LocalWrite) :
    (write.apply version).vectorClock =
      increment version.vectorClock write.nodeId := by
  cases write with
  | update value nodeId now =>
      rfl
  | patch updates nodeId now =>
      rfl

end LocalWrite

/-- A write as the step of a run over versions. -/
def derive (version : VersionedValue) (write : LocalWrite) :
    Option VersionedValue :=
  some (write.apply version)

/-- The counter that the write increments does not wrap. -/
def HasRoom (version : VersionedValue) (write : LocalWrite) : Prop :=
  reading version.vectorClock write.nodeId + 1 < UInt64.size

instance (version : VersionedValue) (write : LocalWrite) :
    Decidable (HasRoom version write) :=
  inferInstanceAs (Decidable (_ < _))

theorem dominates_derive {version next : VersionedValue} {write : LocalWrite}
    (room : HasRoom version write) (derived : derive version write = some next) :
    next.dominates version = true := by
  cases Option.some.inj derived
  exact VersionedValue.dominates_of_increment
    (LocalWrite.vectorClock_apply version write) room

/-- The end of a run dominates the version it started from. -/
theorem dominates_of_derives {base result : VersionedValue}
    {writes : List LocalWrite} (someWrite : writes ≠ [])
    (room : StepsMeet derive HasRoom base writes)
    (derived : runSteps derive base writes = some result) :
    result.dominates base = true := by
  cases writes with
  | nil =>
      exact absurd rfl someWrite
  | cons write rest =>
      obtain ⟨next, taken, finished⟩ := runSteps_cons_eq_some.mp derived
      have above : next.dominates base = true :=
        dominates_derive room.1 taken
      have keepsAbove : ∀ (version : VersionedValue) (later : LocalWrite)
          (after : VersionedValue), HasRoom version later →
            derive version later = some after →
              version.dominates base = true →
                after.dominates base = true := by
        intro version later after roomLater takenLater dominated
        exact VersionedValue.dominates_trans
          (dominates_derive roomLater takenLater) dominated
      exact runSteps_induction (fun version => version.dominates base = true)
        keepsAbove (room.2 next taken) finished above

/-! ## Derived versions at a replica -/

/-- A derived version replaces what it was derived from at every replica, and
is never replaced by it.  The writes before `earlier` only say that it may be
any version of the sequence. -/
theorem derived_wins {base earlier result : VersionedValue}
    {before after : List LocalWrite} (later : after ≠ [])
    (room : StepsMeet derive HasRoom base (before ++ after))
    (reached : runSteps derive base before = some earlier)
    (finished : runSteps derive earlier after = some result) :
    result.dominates earlier = true ∧
      ∀ (clusterSecret : String) (store : Store)
        (header : Option HeaderValue) (tableName keyVal : String),
          providedSecret header = clusterSecret →
            (store.record tableName keyVal = some earlier →
              (putValueInternal clusterSecret store header tableName keyVal
                result).store.record tableName keyVal = some result) ∧
            (store.record tableName keyVal = some result →
              (putValueInternal clusterSecret store header tableName keyVal
                earlier).store.record tableName keyVal = some result) := by
  have roomAfter : StepsMeet derive HasRoom earlier after :=
    (stepsMeet_append reached room).2
  have newer : result.dominates earlier = true :=
    dominates_of_derives later roomAfter finished
  have wins : result.beats earlier = true :=
    VersionedValue.beats_of_dominates newer
  have loses : earlier.beats result = false :=
    VersionedValue.beats_asymm result earlier wins
  refine ⟨newer, ?_⟩
  intro clusterSecret store header tableName keyVal authentic
  constructor
  · intro stored
    rw [record_putValueInternal authentic, if_pos ⟨rfl, rfl⟩, stored,
      mergeIncoming_some, if_pos wins]
  · intro stored
    rw [record_putValueInternal authentic, if_pos ⟨rfl, rfl⟩, stored,
      mergeIncoming_some, loses]
    rfl

/-- A PATCH at another node whose clock runs behind. -/
theorem derived_wins_backwards :
    ((LocalWrite.patch ∅ "b" 3).apply
      ((LocalWrite.update ∅ "a" 9).apply
        (VersionedValue.new ∅ "u" "a" 5))).dominates
      (VersionedValue.new ∅ "u" "a" 5) = true := by
  have room : StepsMeet derive HasRoom (VersionedValue.new ∅ "u" "a" 5)
      ([] ++ [.update ∅ "a" 9, .patch ∅ "b" 3]) := by
    decide
  exact (derived_wins (List.cons_ne_nil _ _) room rfl rfl).1

end DynaRust.Storage
