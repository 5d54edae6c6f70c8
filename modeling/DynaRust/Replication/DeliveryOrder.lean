import DynaRust.Storage.Engine

/-!
# When the order of deliveries does not matter

Versions of one key reach a node that does not have it yet, each in an
internal PUT.  The merge rule is asymmetric but neither total nor transitive,
so the order in which they arrive may decide what is stored.  It does not
exactly if one of the versions beats all others.
-/

namespace DynaRust.Replication

open DynaRust.Foundation DynaRust.Network DynaRust.Storage

/-- The store after an internal PUT with the cluster secret. -/
def deliver (clusterSecret table key : String) (store : Store)
    (incoming : VersionedValue) : Store :=
  (putValueInternal clusterSecret store (some (.text clusterSecret)) table key
    incoming).store

/-- The store after the listed deliveries. -/
def deliverAll (clusterSecret table key : String) (store : Store)
    (versions : List VersionedValue) : Store :=
  versions.foldl (deliver clusterSecret table key) store

theorem record_deliver (clusterSecret table key : String) (store : Store)
    (incoming : VersionedValue) :
    (deliver clusterSecret table key store incoming).record table key =
      some (mergeContest.offer (store.record table key) incoming) := by
  rw [deliver, putValueInternal, if_neg (by simp [providedSecret]),
    ← mergeIncoming_eq_offer]
  simp

/-- `beats` says when an internal PUT replaces the stored version. -/
theorem deliver_replaces_iff {clusterSecret table key : String}
    {store : Store} {existing incoming : VersionedValue}
    (stored : store.record table key = some existing)
    (different : incoming ≠ existing) :
    (deliver clusterSecret table key store incoming).record table key =
        some incoming ↔
      incoming.beats existing = true := by
  rw [record_deliver, stored, Option.some_inj]
  cases outcome : incoming.beats existing with
  | true =>
      simp [mergeContest.offer_of_beats outcome]
  | false =>
      simp [mergeContest.offer_of_not_beats outcome, Ne.symm different]

theorem record_deliverAll (clusterSecret table key : String) (store : Store)
    (versions : List VersionedValue) :
    (deliverAll clusterSecret table key store versions).record table key =
      mergeContest.offerAll (store.record table key) versions := by
  induction versions generalizing store with
  | nil =>
      rfl
  | cons incoming rest inductionHypothesis =>
      rw [deliverAll, List.foldl_cons, Contest.offerAll,
        ← record_deliver clusterSecret]
      exact inductionHypothesis (deliver clusterSecret table key store incoming)

/-- All orders of the deliveries end with one version if and only if some
version beats all others.  That one is then stored after any deliveries of
these versions, also repeated ones. -/
theorem same_result_iff_winner {clusterSecret table key : String}
    {store : Store} {versions : List VersionedValue}
    (distinct : versions.Nodup) (absent : store.record table key = none) :
    ((∃ final, ∀ order, order.Perm versions →
        (deliverAll clusterSecret table key store order).record table key =
          some final) ↔
      ∃ winner, mergeContest.IsWinner {version | version ∈ versions}
        winner) ∧
    ∀ winner, mergeContest.IsWinner {version | version ∈ versions} winner →
      ∀ deliveries, (∀ version, version ∈ deliveries ↔ version ∈ versions) →
        (deliverAll clusterSecret table key store deliveries).record table
          key = some winner := by
  have winnerStored : ∀ winner,
      mergeContest.IsWinner {version | version ∈ versions} winner →
      ∀ deliveries, (∀ version, version ∈ deliveries ↔ version ∈ versions) →
        (deliverAll clusterSecret table key store deliveries).record table
          key = some winner := by
    intro winner wins deliveries same
    rw [record_deliverAll, absent]
    apply wins.offerAll_eq ((same winner).mpr wins.mem)
    · intro incoming delivered
      exact (same incoming).mp delivered
    · intro existing held
      cases held
  refine ⟨⟨?_, ?_⟩, winnerStored⟩
  · intro ⟨final, always⟩
    refine ⟨final, ?_⟩
    by_contra loses
    obtain ⟨order, permutes, avoids⟩ :=
      mergeContest.exists_perm_avoiding distinct loses
    have outcome := always order permutes
    rw [record_deliverAll, absent] at outcome
    exact avoids outcome
  · intro ⟨winner, wins⟩
    refine ⟨winner, ?_⟩
    intro order permutes
    exact winnerStored winner wins order fun version => permutes.mem_iff

private def createdOn (node : String) (counter : UInt64) : VersionedValue where
  value := ∅
  vectorClock := (∅ : VectorClock).insert node counter
  timestamp := 7
  owner := "alice"

theorem update_stored_and_tie_undecided :
    (deliverAll "s" "notes" "n" ∅
        [createdOn "a" 2, createdOn "a" 1, createdOn "a" 2]).record "notes" "n" =
      some (createdOn "a" 2) ∧
    ¬ ∃ final, ∀ order, order.Perm [createdOn "a" 1, createdOn "b" 1] →
      (deliverAll "s" "notes" "n" ∅ order).record "notes" "n" =
        some final := by
  constructor
  · have distinct : [createdOn "a" 1, createdOn "a" 2].Nodup := by decide
    apply (same_result_iff_winner distinct rfl).2
    · refine ⟨by simp, ?_⟩
      intro other member different
      rcases List.mem_cons.mp member with same | later
      · rw [same]
        decide
      · exact absurd (List.mem_singleton.mp later) different
    · intro version
      simp only [List.mem_cons, List.not_mem_nil, or_false]
      tauto
  · have distinct : [createdOn "a" 1, createdOn "b" 1].Nodup := by decide
    rw [(same_result_iff_winner distinct rfl).1]
    intro ⟨winner, wins⟩
    have beatsFirst := wins.beats (createdOn "a" 1) (by simp)
    have beatsSecond := wins.beats (createdOn "b" 1) (by simp)
    rcases List.mem_cons.mp wins.mem with same | later
    · rw [same] at beatsSecond
      exact absurd (beatsSecond (by decide)) (by decide)
    · rw [List.mem_singleton.mp later] at beatsFirst
      exact absurd (beatsFirst (by decide)) (by decide)

end DynaRust.Replication
