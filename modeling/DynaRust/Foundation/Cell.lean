import Mathlib.Data.List.Basic

/-!
# A cell and its changes

One place of a store, present or absent, and what can happen to it: it is
removed, written, rewritten if it is there, or merged with a received value.
-/

namespace DynaRust.Foundation

universe u

/-- What one step does to a cell. -/
inductive Change (α : Type u) where
  | keep
  | remove
  | write (value : α)
  | modify (value : α)
  | receive (value : α)
  deriving DecidableEq

namespace Change

variable {α : Type u}

/-- The content after the change; `merge` decides what a received value does
to the content. -/
def apply (merge : Option α → α → α) : Change α → Option α → Option α
  | .keep, held => held
  | .remove, _ => none
  | .write value, _ => some value
  | .modify value, held => held.map fun _ => value
  | .receive value, held => some (merge held value)

@[simp]
theorem apply_keep (merge : Option α → α → α) (held : Option α) :
    apply merge .keep held = held :=
  rfl

@[simp]
theorem apply_remove (merge : Option α → α → α) (held : Option α) :
    apply merge .remove held = none :=
  rfl

@[simp]
theorem apply_write (merge : Option α → α → α) (value : α)
    (held : Option α) :
    apply merge (.write value) held = some value :=
  rfl

@[simp]
theorem apply_modify (merge : Option α → α → α) (value : α)
    (held : Option α) :
    apply merge (.modify value) held = held.map fun _ => value :=
  rfl

@[simp]
theorem apply_receive (merge : Option α → α → α) (value : α)
    (held : Option α) :
    apply merge (.receive value) held = some (merge held value) :=
  rfl

/-- The changes that leave an absent cell present. -/
def fills : Change α → Bool
  | .write _ => true
  | .receive _ => true
  | _ => false

def isReceive : Change α → Bool
  | .receive _ => true
  | _ => false

/-- The value a change puts there itself. -/
def written : Change α → Option α
  | .write value => some value
  | .modify value => some value
  | _ => none

/-- The value a change merges. -/
def received : Change α → Option α
  | .receive value => some value
  | _ => none

/-- The change, if it concerns this cell. -/
def onlyIf (concerned : Prop) [Decidable concerned] (change : Change α) :
    Change α :=
  if concerned then change else .keep

@[simp]
theorem onlyIf_apply (merge : Option α → α → α) (concerned : Prop)
    [Decidable concerned] (change : Change α) (held : Option α) :
    (onlyIf concerned change).apply merge held =
      if concerned then change.apply merge held else held := by
  unfold onlyIf
  split <;> rfl

@[simp]
theorem onlyIf_true [Decidable True] (change : Change α) :
    onlyIf True change = change :=
  if_pos trivial

/-- A change that concerns other cells too keeps this one or acts on it. -/
theorem onlyIf_cases {concerned : Prop} [Decidable concerned]
    {change : Change α} {effect : Change α → Prop}
    (acts : concerned → change = .keep ∨ effect change) :
    onlyIf concerned change = .keep ∨ effect (onlyIf concerned change) := by
  unfold onlyIf
  split
  · rename_i holds
    exact acts holds
  · exact Or.inl rfl

/-- The content after a list of changes. -/
def applyAll (merge : Option α → α → α) (held : Option α)
    (changes : List (Change α)) : Option α :=
  changes.foldl (fun content change => change.apply merge content) held

/-- Every selected change is followed by a removal. -/
def RemovedAfter (selected : Change α → Bool) : List (Change α) → Prop
  | [] => True
  | change :: rest =>
      (selected change = true → .remove ∈ rest) ∧ RemovedAfter selected rest

instance RemovedAfter.instDecidable [DecidableEq α]
    (selected : Change α → Bool) :
    ∀ changes, Decidable (RemovedAfter selected changes)
  | [] => .isTrue trivial
  | change :: rest =>
      have := RemovedAfter.instDecidable selected rest
      inferInstanceAs (Decidable
        ((selected change = true → .remove ∈ rest) ∧
          RemovedAfter selected rest))

/-- A cell ends absent exactly when nothing filled it after its last removal
and it was absent or removed at all. -/
theorem applyAll_eq_none_iff (merge : Option α → α → α) (held : Option α)
    (changes : List (Change α)) :
    applyAll merge held changes = none ↔
      RemovedAfter fills changes ∧ (held = none ∨ .remove ∈ changes) := by
  induction changes generalizing held with
  | nil =>
      simp [applyAll, RemovedAfter]
  | cons change rest inductionHypothesis =>
      have unfolded :
          applyAll merge held (change :: rest) =
            applyAll merge (change.apply merge held) rest :=
        rfl
      rw [unfolded, inductionHypothesis]
      cases change with
      | keep =>
          simp [fills, RemovedAfter]
      | remove =>
          simp [fills, RemovedAfter]
      | write value =>
          simp [fills, RemovedAfter]
          tauto
      | modify value =>
          simp [fills, RemovedAfter]
      | receive value =>
          simp [fills, RemovedAfter]
          tauto

/-- A removal clears whatever happened before it. -/
theorem removedAfter_append_of_remove (selected : Change α → Bool)
    {changes later : List (Change α)} (removed : .remove ∈ later) :
    RemovedAfter selected (changes ++ later) ↔ RemovedAfter selected later := by
  induction changes with
  | nil =>
      rfl
  | cons change rest inductionHypothesis =>
      rw [List.cons_append, RemovedAfter, inductionHypothesis]
      exact and_iff_right fun _ => List.mem_append_right rest removed

theorem removedAfter_congr {selected other : Change α → Bool}
    {changes : List (Change α)}
    (same : ∀ change ∈ changes, selected change = other change) :
    RemovedAfter selected changes ↔ RemovedAfter other changes := by
  induction changes with
  | nil =>
      rfl
  | cons change rest inductionHypothesis =>
      rw [RemovedAfter, RemovedAfter, same change List.mem_cons_self,
        inductionHypothesis fun later member =>
          same later (List.mem_cons_of_mem change member)]

end Change

end DynaRust.Foundation
