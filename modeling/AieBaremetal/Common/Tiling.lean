import Mathlib.Data.List.Pairwise
import Mathlib.Data.Nat.Notation

/-!
# Ranges that fill or cover an interval

A list of ranges, each an offset with a length, tiles an interval if the first starts where the
interval does, each starts where the one before ends, and the last ends where the interval does.
Ranges in any order cover an interval if there is no gap: its start and every end of a range inside
of it lie in one of the ranges.
-/

namespace AieBaremetal.Common

/-- The ranges fill the interval in order and without a gap. -/
def Tiles : List (ℕ × ℕ) → ℕ → ℕ → Prop
  | [], start, stop => start = stop
  | range :: rest, start, stop => range.1 = start ∧ Tiles rest (start + range.2) stop

theorem Tiles.le {ranges : List (ℕ × ℕ)} {start stop : ℕ} (h : Tiles ranges start stop) : start ≤ stop := by
  induction ranges generalizing start with
  | nil => exact Nat.le_of_eq h
  | cons range rest ih => exact Nat.le_trans (Nat.le_add_right _ _) (ih h.2)

theorem Tiles.append {ranges more : List (ℕ × ℕ)} {start mid stop : ℕ} (h : Tiles ranges start mid)
    (hmore : Tiles more mid stop) : Tiles (ranges ++ more) start stop := by
  induction ranges generalizing start with
  | nil =>
    obtain rfl : start = mid := h
    exact hmore
  | cons range rest ih => exact ⟨h.1, ih h.2⟩

theorem Tiles.inside {ranges : List (ℕ × ℕ)} {start stop : ℕ} (h : Tiles ranges start stop) :
    ∀ range ∈ ranges, start ≤ range.1 ∧ range.1 + range.2 ≤ stop := by
  induction ranges generalizing start with
  | nil => exact fun range hrange => nomatch hrange
  | cons range rest ih =>
    obtain ⟨hstart, hrest⟩ := h
    intro other hother
    rcases List.mem_cons.mp hother with rfl | hother
    · exact ⟨Nat.le_of_eq hstart.symm, by rw [hstart]; exact hrest.le⟩
    · obtain ⟨hlow, hhigh⟩ := ih hrest other hother
      exact ⟨Nat.le_trans (Nat.le_add_right _ _) hlow, hhigh⟩

theorem Tiles.pairwise {ranges : List (ℕ × ℕ)} {start stop : ℕ} (h : Tiles ranges start stop) :
    ranges.Pairwise fun range later => range.1 + range.2 ≤ later.1 := by
  induction ranges generalizing start with
  | nil => exact .nil
  | cons range rest ih =>
    obtain ⟨hstart, hrest⟩ := h
    refine .cons (fun later hlater => ?_) (ih hrest)
    rw [hstart]
    exact (hrest.inside later hlater).1

theorem tiles_flatMap_range (group : ℕ → List (ℕ × ℕ)) (position : ℕ → ℕ) (n : ℕ)
    (h : ∀ i < n, Tiles (group i) (position i) (position (i + 1))) :
    Tiles ((List.range n).flatMap group) (position 0) (position n) := by
  induction n with
  | zero => rfl
  | succ n ih =>
    rw [List.range_succ, List.flatMap_append, List.flatMap_singleton]
    exact (ih fun i hi => h i (Nat.lt_succ_of_lt hi)).append (h n (Nat.lt_succ_self n))

def InRange (range : ℕ × ℕ) (a : ℕ) : Prop := range.1 ≤ a ∧ a < range.1 + range.2

end AieBaremetal.Common
