import Mathlib.Data.List.Count
import Mathlib.Data.List.Nodup

/-!
# Draws with a fallback

A source gives a fresh value or fails, and every failure is replaced by one
fixed value.
-/

namespace DynaRust.Foundation

universe u

variable {α : Type u} [DecidableEq α]

/-- The draw ends in the fallback value. -/
def fallsBack (fallback : α) (draw : Option α) : Bool :=
  decide (draw = none ∨ draw = some fallback)

private theorem count_map_getD_fallback (draws : List (Option α))
    (fallback : α) :
    (draws.map fun draw => draw.getD fallback).count fallback =
      draws.countP (fallsBack fallback) := by
  rw [List.count_eq_countP, List.countP_map]
  apply List.countP_congr
  intro draw _
  cases draw with
  | none =>
      simp [fallsBack]
  | some value =>
      simp [fallsBack]

private theorem count_map_getD_of_ne (draws : List (Option α))
    {fallback value : α} (different : value ≠ fallback) :
    (draws.map fun draw => draw.getD fallback).count value =
      (draws.filterMap id).count value := by
  rw [List.count_eq_countP, List.countP_map, List.count_filterMap]
  apply List.countP_congr
  intro draw _
  cases draw with
  | none =>
      simp [Ne.symm different]
  | some drawn =>
      simp

/-- Fresh values stay different exactly if the fallback value comes up at most
once. -/
theorem nodup_map_getD_iff {draws : List (Option α)}
    (fresh : (draws.filterMap id).Nodup) (fallback : α) :
    (draws.map fun draw => draw.getD fallback).Nodup ↔
      draws.countP (fallsBack fallback) ≤ 1 := by
  rw [List.nodup_iff_count_le_one, ← count_map_getD_fallback]
  constructor
  · intro once
    exact once fallback
  · intro once value
    by_cases isFallback : value = fallback
    · rw [isFallback]
      exact once
    · rw [count_map_getD_of_ne draws isFallback]
      exact List.nodup_iff_count_le_one.mp fresh value

end DynaRust.Foundation
