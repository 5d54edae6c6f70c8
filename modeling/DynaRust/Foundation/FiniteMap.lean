import Mathlib.Data.Finmap

/-!
# Finite maps with an arbitrary iteration order

Hash maps are modelled by `Finmap`: two maps are equal when they answer every
lookup alike, and a loop over the entries is a fold over some enumeration of
them.  A loop may therefore be lifted to maps only after its result has been
shown not to depend on the enumeration.
-/

namespace DynaRust.Foundation

universe u v w

/-- A finite map from keys to values, without an order on its entries. -/
abbrev HashMap (κ : Type u) (α : Type v) := Finmap (fun _ : κ => α)

namespace HashMap

variable {κ : Type u} {α : Type v} [DecidableEq κ]

theorem lookup_insert_eq_ite
    (map : HashMap κ α) (key tested : κ) (value : α) :
    (map.insert key value).lookup tested =
      if tested = key then some value else map.lookup tested := by
  by_cases same : tested = key
  · subst tested
    rw [if_pos rfl, Finmap.lookup_insert]
  · rw [if_neg same, Finmap.lookup_insert_of_ne map same]

theorem lookup_erase_eq_ite
    (map : HashMap κ α) (key tested : κ) :
    (map.erase key).lookup tested =
      if tested = key then none else map.lookup tested := by
  by_cases same : tested = key
  · subst tested
    rw [if_pos rfl, Finmap.lookup_erase]
  · rw [if_neg same, Finmap.lookup_erase_ne same]

theorem erase_eq_self {map : HashMap κ α} {key : κ}
    (absent : map.lookup key = none) : map.erase key = map := by
  apply Finmap.ext_lookup
  intro tested
  rw [lookup_erase_eq_ite]
  by_cases same : tested = key
  · rw [if_pos same, same, absent]
  · rw [if_neg same]

/-! ## Visiting every entry of one map to update another -/

variable {β : Type w}

/-- Visit the listed entries one after the other; `combine` sees what is stored
under the key and what is listed for it. -/
def updateEntries (combine : Option α → β → α) :
    List (Sigma fun _ : κ => β) → HashMap κ α → HashMap κ α
  | [], map => map
  | ⟨key, value⟩ :: rest, map =>
      updateEntries combine rest
        (map.insert key (combine (map.lookup key) value))

theorem lookup_updateEntries (combine : Option α → β → α)
    {entries : List (Sigma fun _ : κ => β)}
    (distinct : entries.NodupKeys) (map : HashMap κ α) (tested : κ) :
    (updateEntries combine entries map).lookup tested =
      ((entries.dlookup tested).map (combine (map.lookup tested))).or
        (map.lookup tested) := by
  induction entries generalizing map with
  | nil =>
      simp [updateEntries]
  | cons entry rest inductionHypothesis =>
      obtain ⟨key, value⟩ := entry
      have parts := List.nodupKeys_cons.mp distinct
      rw [updateEntries, inductionHypothesis parts.2,
        lookup_insert_eq_ite]
      by_cases same : tested = key
      · subst tested
        have absent : rest.dlookup key = none :=
          List.dlookup_eq_none.mpr parts.1
        simp [absent]
      · rw [if_neg same, List.dlookup_cons_ne rest ⟨key, value⟩ same]

/-- The loop over all entries of `updates`, in any order. -/
def updateAll (combine : Option α → β → α) (updates : HashMap κ β)
    (map : HashMap κ α) : HashMap κ α :=
  updates.liftOn (fun listed => updateEntries combine listed.entries map) <| by
    intro first second permutation
    apply Finmap.ext_lookup
    intro tested
    rw [lookup_updateEntries combine first.nodupKeys,
      lookup_updateEntries combine second.nodupKeys,
      List.perm_dlookup tested first.nodupKeys permutation]

/-- Every key of `updates` is combined once, every other key is kept. -/
theorem lookup_updateAll (combine : Option α → β → α)
    (updates : HashMap κ β) (map : HashMap κ α) (tested : κ) :
    (updateAll combine updates map).lookup tested =
      ((updates.lookup tested).map (combine (map.lookup tested))).or
        (map.lookup tested) := by
  induction updates using Finmap.induction_on with
  | H listed =>
      rw [updateAll, Finmap.liftOn_toFinmap,
        lookup_updateEntries combine listed.nodupKeys]
      rfl

/-- Insert every entry of `updates`. -/
def insertAll (updates map : HashMap κ α) : HashMap κ α :=
  updateAll (fun _ value => value) updates map

@[simp]
theorem lookup_insertAll (updates map : HashMap κ α) (tested : κ) :
    (insertAll updates map).lookup tested =
      (updates.lookup tested).or (map.lookup tested) := by
  rw [insertAll, lookup_updateAll, Option.map_id']

end HashMap

end DynaRust.Foundation
