import DynaRust.Storage.Engine
import DynaRust.Storage.GlobalMerge

/-!
# Merging a store at once or record by record

A pulled store leaves the records that its single records would have left, had
they been sent to the internal PUT handler one after the other, in any order.
-/

namespace DynaRust.Storage

open DynaRust.Foundation DynaRust.Network

/-- A record on its way to the internal PUT handler. -/
structure Delivery where
  table : String
  key : String
  version : VersionedValue
  deriving DecidableEq

/-- The deliveries are the records of the store, each once. -/
structure DeliversOnce (remote : Store) (deliveries : List Delivery) :
    Prop where
  once : deliveries.Nodup
  mem_iff : ∀ delivery, delivery ∈ deliveries ↔
    remote.record delivery.table delivery.key = some delivery.version

theorem deliversOnce_empty : DeliversOnce ∅ [] where
  once := List.nodup_nil
  mem_iff := by
    intro delivery
    simp

theorem DeliversOnce.insertRecord {remote : Store}
    {deliveries : List Delivery} (delivers : DeliversOnce remote deliveries)
    {table key : String} (vacant : remote.record table key = none)
    (version : VersionedValue) :
    DeliversOnce (remote.insertRecord table key version)
      (⟨table, key, version⟩ :: deliveries) where
  once := by
    apply List.nodup_cons.mpr
    refine ⟨?_, delivers.once⟩
    intro member
    have found := (delivers.mem_iff ⟨table, key, version⟩).mp member
    rw [vacant] at found
    cases found
  mem_iff := by
    rintro ⟨table', key', version'⟩
    rw [List.mem_cons, delivers.mem_iff, Store.record_insertRecord]
    simp only [Delivery.mk.injEq]
    by_cases same : table' = table ∧ key' = key
    · obtain ⟨rfl, rfl⟩ := same
      simp [vacant, eq_comm]
    · rw [if_neg same, ← and_assoc]
      exact or_iff_right fun all => same all.1

/-- A store has one record under a table and key, so no two deliveries go
there. -/
theorem DeliversOnce.pairwise {remote : Store} {deliveries : List Delivery}
    (delivers : DeliversOnce remote deliveries) :
    deliveries.Pairwise fun first second =>
      ¬ (first.table = second.table ∧ first.key = second.key) := by
  refine List.Pairwise.imp_of_mem ?_ delivers.once
  rintro ⟨table, key, version⟩ ⟨table', key', version'⟩ firstMember
    secondMember different ⟨rfl, rfl⟩
  have firstFound := (delivers.mem_iff _).mp firstMember
  have secondFound := (delivers.mem_iff _).mp secondMember
  have sameVersion : version = version' :=
    Option.some.inj (firstFound.symm.trans secondFound)
  exact different (congrArg (Delivery.mk _ _) sameVersion)

/-- Send the deliveries to `put_value_internal`, one after the other. -/
def deliverAll (clusterSecret : String) (header : Option HeaderValue)
    (store : Store) (deliveries : List Delivery) : Store :=
  deliveries.foldl
    (fun store delivery => (putValueInternal clusterSecret store header
      delivery.table delivery.key delivery.version).store)
    store

variable {clusterSecret : String} {header : Option HeaderValue}

theorem record_deliverAll_of_forall_ne
    (authentic : providedSecret header = clusterSecret) {table key : String}
    {deliveries : List Delivery}
    (others : ∀ delivery ∈ deliveries,
      ¬ (table = delivery.table ∧ key = delivery.key)) (store : Store) :
    (deliverAll clusterSecret header store deliveries).record table key =
      store.record table key := by
  induction deliveries generalizing store with
  | nil =>
      rfl
  | cons delivery rest inductionHypothesis =>
      have otherAddress := others delivery List.mem_cons_self
      have otherRest : ∀ later ∈ rest,
          ¬ (table = later.table ∧ key = later.key) :=
        fun later member => others later (List.mem_cons_of_mem _ member)
      rw [deliverAll, List.foldl_cons, ← deliverAll,
        inductionHypothesis otherRest, record_putValueInternal authentic,
        if_neg otherAddress]

/-- A delivered record meets the record that was there at the start. -/
theorem record_deliverAll_of_mem
    (authentic : providedSecret header = clusterSecret)
    {deliveries : List Delivery} {delivery : Delivery}
    (once : deliveries.Pairwise fun first second =>
      ¬ (first.table = second.table ∧ first.key = second.key))
    (member : delivery ∈ deliveries) (store : Store) :
    (deliverAll clusterSecret header store deliveries).record delivery.table
        delivery.key =
      some (mergeIncoming (store.record delivery.table delivery.key)
        delivery.version) := by
  induction deliveries generalizing store with
  | nil =>
      cases member
  | cons first rest inductionHypothesis =>
      obtain ⟨alone, onceRest⟩ := List.pairwise_cons.mp once
      rw [deliverAll, List.foldl_cons, ← deliverAll]
      rcases List.mem_cons.mp member with isFirst | later
      · subst isFirst
        rw [record_deliverAll_of_forall_ne authentic alone,
          record_putValueInternal authentic, if_pos ⟨rfl, rfl⟩]
      · have otherAddress : ¬ (delivery.table = first.table ∧
            delivery.key = first.key) := by
          intro same
          exact alone delivery later ⟨same.1.symm, same.2.symm⟩
        rw [inductionHypothesis onceRest later,
          record_putValueInternal authentic, if_neg otherAddress]

theorem record_deliverAll
    (authentic : providedSecret header = clusterSecret) {remote : Store}
    {deliveries : List Delivery} (delivers : DeliversOnce remote deliveries)
    (store : Store) (table key : String) :
    (deliverAll clusterSecret header store deliveries).record table key =
      ((remote.record table key).map
        (mergeIncoming (store.record table key))).or
          (store.record table key) := by
  cases sent : remote.record table key with
  | none =>
      have others : ∀ delivery ∈ deliveries,
          ¬ (table = delivery.table ∧ key = delivery.key) := by
        rintro delivery member ⟨sameTable, sameKey⟩
        have found := (delivers.mem_iff delivery).mp member
        rw [← sameTable, ← sameKey, sent] at found
        cases found
      rw [record_deliverAll_of_forall_ne authentic others]
      rfl
  | some version =>
      have member : ⟨table, key, version⟩ ∈ deliveries :=
        (delivers.mem_iff ⟨table, key, version⟩).mpr sent
      exact record_deliverAll_of_mem authentic delivers.pairwise member store

/-! ## Merging again -/

theorem mergeIncoming_again (existing : Option VersionedValue)
    (incoming : VersionedValue) :
    mergeIncoming (some (mergeIncoming existing incoming)) incoming =
      mergeIncoming existing incoming := by
  simp only [mergeIncoming_eq_offer]
  exact mergeContest.offer_again existing incoming

theorem mergeTableState_again (localTable remote : Table) :
    mergeTableState (mergeTableState localTable remote) remote =
      mergeTableState localTable remote := by
  apply Finmap.ext_lookup
  intro key
  rw [lookup_mergeTableState, lookup_mergeTableState]
  cases remote.lookup key with
  | none =>
      rfl
  | some incoming =>
      exact congrArg some (mergeIncoming_again (localTable.lookup key) incoming)

theorem mergeGlobalStore_again (localStore remote : Store) :
    mergeGlobalStore (mergeGlobalStore localStore remote) remote =
      mergeGlobalStore localStore remote := by
  apply Finmap.ext_lookup
  intro table
  rw [lookup_mergeGlobalStore, lookup_mergeGlobalStore]
  cases remote.lookup table with
  | none =>
      rfl
  | some remoteTable =>
      exact congrArg some (mergeTableState_again
        ((localStore.lookup table).getD ∅) remoteTable)

/-- The bulk merge agrees with every order of single deliveries, touches only
what the remote store mentions, removes nothing and can be repeated. -/
theorem mergeGlobalStore_agrees_with_deliveries
    (authentic : providedSecret header = clusterSecret)
    (localStore : Store) {remote : Store} {deliveries : List Delivery}
    (delivers : DeliversOnce remote deliveries) :
    (∀ table key,
      (mergeGlobalStore localStore remote).record table key =
        (deliverAll clusterSecret header localStore deliveries).record table
          key) ∧
      (∀ table key, remote.record table key = none →
        (mergeGlobalStore localStore remote).record table key =
          localStore.record table key) ∧
      (∀ table key, (localStore.record table key).isSome = true →
        ((mergeGlobalStore localStore remote).record table key).isSome =
          true) ∧
      mergeGlobalStore (mergeGlobalStore localStore remote) remote =
        mergeGlobalStore localStore remote := by
  refine ⟨?_, ?_, ?_, mergeGlobalStore_again localStore remote⟩
  · intro table key
    rw [record_mergeGlobalStore, record_deliverAll authentic delivers]
  · intro table key unmentioned
    rw [record_mergeGlobalStore, unmentioned]
    rfl
  · intro table key present
    rw [record_mergeGlobalStore, Option.isSome_or, present, Bool.or_true]

/-- A concurrent record with a later timestamp and one in a new table. -/
theorem mergeGlobalStore_agrees_with_deliveries_two :
    (mergeGlobalStore
        ((∅ : Store).insertRecord "t" "k" (.new ∅ "u" "a" 4))
        (((∅ : Store).insertRecord "t" "k" (.new ∅ "u" "b" 7)).insertRecord
          "s" "k" (.new ∅ "u" "b" 1))).record "t" "k" =
      (deliverAll "secret" (some (.text "secret"))
        ((∅ : Store).insertRecord "t" "k" (.new ∅ "u" "a" 4))
        [⟨"s", "k", .new ∅ "u" "b" 1⟩,
          ⟨"t", "k", .new ∅ "u" "b" 7⟩]).record "t" "k" := by
  have delivers := (deliversOnce_empty.insertRecord
    (Store.record_empty "t" "k") (.new ∅ "u" "b" 7)).insertRecord
      (by simp [Store.record_insertRecord] :
        ((∅ : Store).insertRecord "t" "k" (.new ∅ "u" "b" 7)).record "s" "k" =
          none)
      (.new ∅ "u" "b" 1)
  exact (mergeGlobalStore_agrees_with_deliveries rfl
    ((∅ : Store).insertRecord "t" "k" (.new ∅ "u" "a" 4)) delivers).1 "t" "k"

end DynaRust.Storage
