import DynaRust.Foundation.FiniteMap
import Mathlib.Data.Finset.Card

/-!
# Keeping the newest entries

A folder is pruned again and again: of its entries that count, old ones are
removed as long as enough others are not older.  It is compared with the
archive, the same folder without any pruning.
-/

namespace DynaRust.Foundation

universe u v w

/-- Which names count, and when an entry was stamped. -/
structure Retention (κ : Type u) (α : Type v) (τ : Type w) where
  counts : κ → Bool
  stamp : α → τ

namespace Retention

variable {κ : Type u} {α : Type v} {τ : Type w} [DecidableEq κ]

/-- The names that count. -/
def counted (retention : Retention κ α τ) (folder : HashMap κ α) : Finset κ :=
  folder.keys.filter fun name => retention.counts name = true

variable {retention : Retention κ α τ}

theorem mem_counted {folder : HashMap κ α} {name : κ} :
    name ∈ retention.counted folder ↔
      (∃ entry, folder.lookup name = some entry) ∧
        retention.counts name = true := by
  rw [counted, Finset.mem_filter, Finmap.mem_keys, Finmap.mem_iff]

theorem counted_insert (folder : HashMap κ α) (name : κ) (entry : α) :
    retention.counted (folder.insert name entry) =
      if retention.counts name = true then
        insert name (retention.counted folder)
      else retention.counted folder := by
  ext other
  rw [mem_counted, HashMap.lookup_insert_eq_ite]
  by_cases counts : retention.counts name = true
  · rw [if_pos counts, Finset.mem_insert, mem_counted]
    by_cases same : other = name
    · simp [same, counts]
    · simp [same]
  · rw [if_neg counts, mem_counted]
    by_cases same : other = name
    · simp [same, counts]
    · simp [same]

theorem counted_erase (folder : HashMap κ α) (name : κ) :
    retention.counted (folder.erase name) =
      (retention.counted folder).erase name := by
  ext other
  rw [mem_counted, HashMap.lookup_erase_eq_ite, Finset.mem_erase, mem_counted]
  by_cases same : other = name
  · simp [same]
  · simp [same]

variable [LinearOrder τ]

/-- The other counted names whose entries are not older. -/
def rivals (retention : Retention κ α τ) (folder : HashMap κ α) (name : κ)
    (entry : α) : Finset κ :=
  (retention.counted folder).filter fun other =>
    other ≠ name ∧ ∃ rival ∈ folder.lookup other,
      retention.stamp entry ≤ retention.stamp rival

/-- The folder is a part of the archive that has the newest `limit` counted
entries and all that do not count. -/
structure Retains (retention : Retention κ α τ) (limit : Nat)
    (archive folder : HashMap κ α) : Prop where
  archived : ∀ name entry, folder.lookup name = some entry →
    archive.lookup name = some entry
  newest : ∀ name entry, archive.lookup name = some entry →
    (retention.counts name = true →
      (retention.rivals archive name entry).card < limit) →
    folder.lookup name = some entry
  enough : min limit (retention.counted archive).card ≤
    (retention.counted folder).card

theorem mem_rivals {folder : HashMap κ α} {name other : κ} {entry : α} :
    other ∈ retention.rivals folder name entry ↔
      retention.counts other = true ∧ other ≠ name ∧
        ∃ rival, folder.lookup other = some rival ∧
          retention.stamp entry ≤ retention.stamp rival := by
  rw [rivals, Finset.mem_filter, mem_counted]
  simp only [Option.mem_def]
  constructor
  · rintro ⟨⟨-, counts⟩, different, rival⟩
    exact ⟨counts, different, rival⟩
  · rintro ⟨counts, different, rival, found, notOlder⟩
    exact ⟨⟨⟨rival, found⟩, counts⟩, different, rival, found, notOlder⟩

/-- An entry has more rivals in a folder with more entries. -/
theorem rivals_subset {smaller larger : HashMap κ α} {name : κ} {entry : α}
    (kept : ∀ other rival, other ≠ name → smaller.lookup other = some rival →
      ∃ later, larger.lookup other = some later ∧
        retention.stamp rival ≤ retention.stamp later) :
    retention.rivals smaller name entry ⊆
      retention.rivals larger name entry := by
  intro other member
  obtain ⟨counts, different, rival, found, notOlder⟩ := mem_rivals.mp member
  obtain ⟨later, present, later'⟩ := kept other rival different found
  exact mem_rivals.mpr
    ⟨counts, different, later, present, notOlder.trans later'⟩

namespace Retains

variable {limit : Nat} {archive folder : HashMap κ α} {name : κ} {entry : α}

theorem refl (limit : Nat) (folder : HashMap κ α) :
    retention.Retains limit folder folder where
  archived _ _ found := found
  newest _ _ found _ := found
  enough := min_le_right _ _

theorem counted_subset (retains : retention.Retains limit archive folder) :
    retention.counted folder ⊆ retention.counted archive := by
  intro other member
  obtain ⟨⟨found, present⟩, counts⟩ := mem_counted.mp member
  exact mem_counted.mpr
    ⟨⟨found, retains.archived other found present⟩, counts⟩

/-- An entry is written that is not older than what it replaces. -/
theorem insert (retains : retention.Retains limit archive folder)
    (forward : ∀ replaced, archive.lookup name = some replaced →
      retention.stamp replaced ≤ retention.stamp entry) :
    retention.Retains limit (archive.insert name entry)
      (folder.insert name entry) where
  archived other found present := by
    rw [HashMap.lookup_insert_eq_ite] at present ⊢
    by_cases same : other = name
    · rwa [if_pos same] at present ⊢
    · rw [if_neg same] at present ⊢
      exact retains.archived other found present
  newest other found present few := by
    rw [HashMap.lookup_insert_eq_ite] at present ⊢
    by_cases same : other = name
    · rwa [if_pos same] at present ⊢
    · rw [if_neg same] at present ⊢
      refine retains.newest other found present ?_
      intro counts
      refine (Finset.card_le_card (rivals_subset ?_)).trans_lt (few counts)
      intro third rival _ listed
      rw [HashMap.lookup_insert_eq_ite]
      by_cases written : third = name
      · rw [if_pos written]
        exact ⟨entry, rfl, forward rival (written ▸ listed)⟩
      · rw [if_neg written]
        exact ⟨rival, listed, le_rfl⟩
  enough := by
    have enough := retains.enough
    rw [counted_insert, counted_insert]
    by_cases counts : retention.counts name = true
    · rw [if_pos counts, if_pos counts]
      by_cases present : name ∈ retention.counted folder
      · rw [Finset.insert_eq_of_mem present,
          Finset.insert_eq_of_mem (retains.counted_subset present)]
        exact enough
      · have archiveGrows :=
          Finset.card_insert_le name (retention.counted archive)
        rw [Finset.card_insert_of_notMem present]
        omega
    · rw [if_neg counts, if_neg counts]
      exact enough

/-- A counted entry is removed that has `limit` rivals in the folder. -/
theorem erase (retains : retention.Retains limit archive folder)
    (counts : retention.counts name = true)
    (found : folder.lookup name = some entry)
    (old : limit ≤ (retention.rivals folder name entry).card) :
    retention.Retains limit archive (folder.erase name) where
  archived other present isPresent := by
    rw [HashMap.lookup_erase_eq_ite] at isPresent
    by_cases same : other = name
    · rw [if_pos same] at isPresent
      cases isPresent
    · rw [if_neg same] at isPresent
      exact retains.archived other present isPresent
  newest other present isPresent few := by
    rw [HashMap.lookup_erase_eq_ite]
    by_cases same : other = name
    · subst other
      have archived := retains.archived name entry found
      cases Option.some.inj (isPresent.symm.trans archived)
      have moreRivals : retention.rivals folder name entry ⊆
          retention.rivals archive name entry :=
        rivals_subset fun third rival _ listed =>
          ⟨rival, retains.archived third rival listed, le_rfl⟩
      have bound := Finset.card_le_card moreRivals
      exact absurd (few counts) (Nat.not_lt.mpr (old.trans bound))
    · rw [if_neg same]
      exact retains.newest other present isPresent few
  enough := by
    have others : retention.rivals folder name entry ⊆
        (retention.counted folder).erase name := by
      intro other member
      obtain ⟨otherCounts, different, rival, listed, -⟩ :=
        mem_rivals.mp member
      exact Finset.mem_erase.mpr
        ⟨different, mem_counted.mpr ⟨⟨rival, listed⟩, otherCounts⟩⟩
    rw [counted_erase]
    exact (min_le_left _ _).trans (old.trans (Finset.card_le_card others))

/-- Several counted entries are removed, while `limit` others stay that are
not older than any of them. -/
theorem eraseAll (retains : retention.Retains limit archive folder)
    {old : List κ} {staying : Finset κ} (many : limit ≤ staying.card)
    (counts : ∀ name ∈ old, retention.counts name = true)
    (stays : ∀ kept ∈ staying, kept ∉ old ∧ retention.counts kept = true)
    (notOlder : ∀ name ∈ old, ∀ entry, folder.lookup name = some entry →
      ∀ kept ∈ staying, ∃ rival, folder.lookup kept = some rival ∧
        retention.stamp entry ≤ retention.stamp rival) :
    retention.Retains limit archive
      (old.foldl (fun remaining name => remaining.erase name) folder) := by
  induction old generalizing folder with
  | nil =>
      exact retains
  | cons name rest inductionHypothesis =>
      rw [List.foldl_cons]
      refine inductionHypothesis ?_
        (fun other member => counts other (List.mem_cons_of_mem name member))
        (fun kept member => ⟨fun later => (stays kept member).1
          (List.mem_cons_of_mem name later), (stays kept member).2⟩) ?_
      · cases found : folder.lookup name with
        | none =>
            rw [HashMap.erase_eq_self found]
            exact retains
        | some entry =>
            refine retains.erase (counts name List.mem_cons_self) found ?_
            refine many.trans (Finset.card_le_card ?_)
            intro kept member
            have different : kept ≠ name := fun same =>
              (stays kept member).1 (same ▸ List.mem_cons_self)
            exact mem_rivals.mpr ⟨(stays kept member).2, different,
              notOlder name List.mem_cons_self entry found kept member⟩
      · intro other member entry found kept keptMember
        have different : kept ≠ name := fun same =>
          (stays kept keptMember).1 (same ▸ List.mem_cons_self)
        rw [HashMap.lookup_erase_eq_ite] at found
        by_cases same : other = name
        · rw [if_pos same] at found
          cases found
        · rw [if_neg same] at found
          rw [HashMap.lookup_erase_eq_ite, if_neg different]
          exact notOlder other (List.mem_cons_of_mem name member) entry found
            kept keptMember

end Retains

end Retention

end DynaRust.Foundation
