import Mathlib.Order.Basic
import Mathlib.Order.Lattice
import Mathlib.Data.List.Basic

/-!
# Consecutive ranges

A list of half-open ranges is consecutive when each starts where the one before
it stops and none is empty.  Such ranges are disjoint and cover everything
between their ends, so that looking for the range of a point finds exactly one.
-/

namespace MainlineDht.Intervals

universe u

/-- The points from `start` on, `stop` excluded. -/
structure Range (α : Type u) where
  start : α
  stop : α
  deriving DecidableEq, Repr

variable {α : Type u} [LinearOrder α]

/-- Membership, as a program tests it. -/
def Range.contains (range : Range α) (point : α) : Bool :=
  range.start ≤ point && point < range.stop

@[simp]
theorem Range.contains_iff {range : Range α} {point : α} :
    range.contains point = true ↔ range.start ≤ point ∧ point < range.stop := by
  simp [Range.contains]

/-- The ranges are non-empty and lead from `start` to `stop` without a gap. -/
def Consecutive (start stop : α) : List (Range α) → Prop
  | [] => start = stop
  | range :: ranges =>
      range.start = start ∧ range.start < range.stop ∧ Consecutive range.stop stop ranges

variable {start middle stop point : α} {range other : Range α}
  {ranges before after news : List (Range α)}

theorem consecutive_singleton (nonempty : range.start < range.stop) :
    Consecutive range.start range.stop [range] :=
  ⟨rfl, nonempty, rfl⟩

theorem consecutive_append :
    Consecutive start stop (before ++ after) ↔
      ∃ middle, Consecutive start middle before ∧ Consecutive middle stop after := by
  induction before generalizing start with
  | nil => simp [Consecutive]
  | cons range before ih =>
      rw [List.cons_append, Consecutive, ih]
      constructor
      · rintro ⟨starts, nonempty, middle, first, second⟩
        exact ⟨middle, ⟨starts, nonempty, first⟩, second⟩
      · rintro ⟨middle, ⟨starts, nonempty, first⟩, second⟩
        exact ⟨starts, nonempty, middle, first, second⟩

theorem Consecutive.le (consecutive : Consecutive start stop ranges) : start ≤ stop := by
  induction ranges generalizing start with
  | nil => exact le_of_eq consecutive
  | cons range ranges ih =>
      obtain ⟨starts, nonempty, rest⟩ := consecutive
      calc start = range.start := starts.symm
        _ ≤ range.stop := nonempty.le
        _ ≤ stop := ih rest

/-- Every range lies between the ends, and none is empty. -/
theorem Consecutive.within (consecutive : Consecutive start stop ranges)
    (member : range ∈ ranges) :
    start ≤ range.start ∧ range.start < range.stop ∧ range.stop ≤ stop := by
  obtain ⟨before, after, rfl⟩ := List.append_of_mem member
  obtain ⟨middle, first, starts, nonempty, rest⟩ := consecutive_append.mp consecutive
  exact ⟨starts ▸ first.le, nonempty, rest.le⟩

/-- Earlier ranges stop before later ones start. -/
theorem Consecutive.pairwise (consecutive : Consecutive start stop ranges) :
    ranges.Pairwise fun range other => range.stop ≤ other.start := by
  induction ranges generalizing start with
  | nil => exact List.Pairwise.nil
  | cons range ranges ih =>
      obtain ⟨_, _, rest⟩ := consecutive
      exact List.pairwise_cons.mpr ⟨fun other member => (rest.within member).1, ih rest⟩

/-- The points between the ends are those of the ranges. -/
theorem Consecutive.covers (consecutive : Consecutive start stop ranges) :
    (∃ range ∈ ranges, range.contains point) ↔ start ≤ point ∧ point < stop := by
  induction ranges generalizing start with
  | nil =>
      cases consecutive
      simp
  | cons range ranges ih =>
      obtain ⟨rfl, nonempty, rest⟩ := consecutive
      rw [List.exists_mem_cons_iff, ih rest, Range.contains_iff]
      constructor
      · rintro (⟨above, below⟩ | ⟨above, below⟩)
        · exact ⟨above, below.trans_le rest.le⟩
        · exact ⟨nonempty.le.trans above, below⟩
      · rintro ⟨above, below⟩
        rcases lt_or_ge point range.stop with here | later
        · exact Or.inl ⟨above, here⟩
        · exact Or.inr ⟨later, below⟩

/-- A point of one range is in no other. -/
theorem Consecutive.not_contains (consecutive : Consecutive start stop (before ++ range :: after))
    (inside : range.contains point) (elsewhere : other ∈ before ∨ other ∈ after) :
    ¬ other.contains point := by
  obtain ⟨_, later, across⟩ := List.pairwise_append.mp consecutive.pairwise
  rw [Range.contains_iff] at inside ⊢
  rintro ⟨above, below⟩
  rcases elsewhere with member | member
  · have earlier := across other member range List.mem_cons_self
    exact absurd (below.trans_le (earlier.trans inside.1)) (lt_irrefl point)
  · have apart := (List.pairwise_cons.mp later).1 other member
    exact absurd (inside.2.trans_le (apart.trans above)) (lt_irrefl point)

/-- A range may be replaced by ranges that cover the same. -/
theorem Consecutive.replace (consecutive : Consecutive start stop (before ++ range :: after))
    (same : Consecutive range.start range.stop news) :
    Consecutive start stop (before ++ news ++ after) := by
  obtain ⟨middle, first, rfl, _, rest⟩ := consecutive_append.mp consecutive
  exact consecutive_append.mpr
    ⟨range.stop, consecutive_append.mpr ⟨range.start, first, same⟩, rest⟩

/-- A range in two halves. -/
theorem consecutive_halves (lower : range.start < middle) (upper : middle < range.stop) :
    Consecutive range.start range.stop [⟨range.start, middle⟩, ⟨middle, range.stop⟩] :=
  ⟨rfl, lower, rfl, upper, rfl⟩

/-- Only the last range stops at the end. -/
theorem Consecutive.stop_lt (consecutive : Consecutive start stop ranges)
    (notLast : range ∈ ranges.dropLast) : range.stop < stop := by
  have split := List.dropLast_append_getLast (List.ne_nil_of_mem (List.dropLast_subset _ notLast))
  rw [← split] at consecutive
  obtain ⟨middle, first, starts, nonempty, rest⟩ := consecutive_append.mp consecutive
  calc range.stop ≤ middle := (first.within notLast).2.2
    _ = _ := starts.symm
    _ < _ := nonempty
    _ = stop := rest

end MainlineDht.Intervals
