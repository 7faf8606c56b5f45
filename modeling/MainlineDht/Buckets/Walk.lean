import Mathlib.Data.List.Perm.Basic
import Mathlib.Data.List.Range
import Mathlib.Data.List.Nodup

/-!
# Walking outward from an index

A walk from `start` over the indices `0` to `last` visits, for growing offsets,
the index below and the index above.  It goes on while the lower index is
positive or the upper one in range.  The lower bound is strict: index 0 is
visited only while the upper side still keeps the walk going.
-/

namespace MainlineDht.Buckets

variable {start last offset i : Nat}

/-- The indices at one offset: the lower one, then the upper one. -/
def stops (start last offset : Nat) : List Nat :=
  (if offset ≤ start then [start - offset] else []) ++
    (if 0 < offset ∧ start + offset ≤ last then [start + offset] else [])

/-- The indices visited from an offset on. -/
def walk (start last offset : Nat) : List Nat :=
  if offset < start ∨ start + offset ≤ last then
    stops start last offset ++ walk start last (offset + 1)
  else []
termination_by start + last + 1 - offset
decreasing_by omega

theorem walk_of_continues (continues : offset < start ∨ start + offset ≤ last) :
    walk start last offset = stops start last offset ++ walk start last (offset + 1) := by
  rw [walk, if_pos continues]

theorem walk_of_stops (done : ¬ (offset < start ∨ start + offset ≤ last)) :
    walk start last offset = [] := by
  rw [walk, if_neg done]

theorem mem_stops (inside : start ≤ last) :
    i ∈ stops start last offset ↔ i ≤ last ∧ (i + offset = start ∨ i = start + offset) := by
  unfold stops
  split <;> split <;> simp <;> omega

theorem nodup_stops : (stops start last offset).Nodup := by
  unfold stops
  split <;> split <;> simp
  omega

/-- Index 0 is reached when the walk starts there or has as far to go upwards. -/
def ReachesZero (start last : Nat) : Prop :=
  start = 0 ∨ 2 * start ≤ last

/-- The walk visits every index at its offset or further out, but possibly 0. -/
theorem mem_walk (inside : start ≤ last) :
    i ∈ walk start last offset ↔
      i ≤ last ∧ (i + offset ≤ start ∨ start + offset ≤ i) ∧ (i = 0 → ReachesZero start last) := by
  unfold ReachesZero
  induction offset using walk.induct start last with
  | case1 offset continues ih =>
      rw [walk_of_continues continues, List.mem_append, mem_stops inside, ih]
      omega
  | case2 offset done =>
      rw [walk_of_stops done]
      simp only [List.not_mem_nil, false_iff]
      omega

/-- No index is visited twice. -/
theorem nodup_walk (inside : start ≤ last) : (walk start last offset).Nodup := by
  induction offset using walk.induct start last with
  | case1 offset continues ih =>
      rw [walk_of_continues continues, List.nodup_append']
      refine ⟨nodup_stops, ih, ?_⟩
      intro i now later
      rw [mem_stops inside] at now
      rw [mem_walk inside] at later
      omega
  | case2 offset done =>
      rw [walk_of_stops done]
      exact List.nodup_nil

/-- A walk that reaches 0 visits every index once. -/
theorem walk_perm_range (inside : start ≤ last) (reaches : ReachesZero start last) :
    (walk start last 0).Perm (List.range (last + 1)) := by
  apply (List.perm_ext_iff_of_nodup (nodup_walk inside) List.nodup_range).mpr
  intro i
  rw [mem_walk inside, List.mem_range]
  constructor
  · omega
  · intro small
    exact ⟨by omega, by omega, fun _ => reaches⟩

/-- Any other walk visits every index but 0. -/
theorem cons_walk_perm_range (inside : start ≤ last) (misses : ¬ ReachesZero start last) :
    (0 :: walk start last 0).Perm (List.range (last + 1)) := by
  have fresh : 0 ∉ walk start last 0 := fun visited => misses (((mem_walk inside).mp visited).2.2 rfl)
  apply (List.perm_ext_iff_of_nodup (List.nodup_cons.mpr ⟨fresh, nodup_walk inside⟩)
    List.nodup_range).mpr
  intro i
  rw [List.mem_cons, mem_walk inside, List.mem_range]
  constructor
  · omega
  · intro small
    by_cases zero : i = 0
    · exact Or.inl zero
    · exact Or.inr ⟨by omega, by omega, fun same => absurd same zero⟩

/-! ## Walking to both ends -/

/-- The indices visited from an offset on by a walk that goes on while there is
an index at the offset. -/
def outward (start last offset : Nat) : List Nat :=
  if offset ≤ start ∨ start + offset ≤ last then
    stops start last offset ++ outward start last (offset + 1)
  else []
termination_by start + last + 1 - offset
decreasing_by omega

theorem outward_of_continues (continues : offset ≤ start ∨ start + offset ≤ last) :
    outward start last offset = stops start last offset ++ outward start last (offset + 1) := by
  rw [outward, if_pos continues]

theorem outward_of_stops (done : ¬ (offset ≤ start ∨ start + offset ≤ last)) :
    outward start last offset = [] := by
  rw [outward, if_neg done]

/-- At offset 0 there is one index. -/
theorem outward_zero : outward start last 0 = start :: outward start last 1 := by
  rw [outward_of_continues (Or.inl (Nat.zero_le start)), stops, if_pos (Nat.zero_le start),
    if_neg (fun both => absurd both.1 (Nat.lt_irrefl 0))]
  rfl

/-- The walk visits every index at its offset or further out. -/
theorem mem_outward (inside : start ≤ last) :
    i ∈ outward start last offset ↔ i ≤ last ∧ (i + offset ≤ start ∨ start + offset ≤ i) := by
  induction offset using outward.induct start last with
  | case1 offset continues ih =>
      rw [outward_of_continues continues, List.mem_append, mem_stops inside, ih]
      omega
  | case2 offset done =>
      rw [outward_of_stops done]
      simp only [List.not_mem_nil, false_iff]
      omega

/-- One index is further out than another on the same side of the start. -/
def FurtherOut (start i j : Nat) : Prop :=
  (i < j ∧ j ≤ start) ∨ (start ≤ j ∧ j < i)

/-- Each side is visited from the start on, and no index twice. -/
theorem pairwise_outward (inside : start ≤ last) :
    (outward start last offset).Pairwise fun i j => i ≠ j ∧ ¬ FurtherOut start i j := by
  unfold FurtherOut
  induction offset using outward.induct start last with
  | case1 offset continues ih =>
      rw [outward_of_continues continues, List.pairwise_append]
      refine ⟨?_, ih, ?_⟩
      · unfold stops
        split <;> split <;> simp
        omega
      · intro i now j later
        rw [mem_stops inside] at now
        rw [mem_outward inside] at later
        omega
  | case2 offset done =>
      rw [outward_of_stops done]
      exact List.Pairwise.nil

theorem nodup_outward (inside : start ≤ last) : (outward start last offset).Nodup :=
  (pairwise_outward inside).imp And.left

/-- From the start on, the walk visits every index once. -/
theorem outward_perm_range (inside : start ≤ last) :
    (outward start last 0).Perm (List.range (last + 1)) := by
  apply (List.perm_ext_iff_of_nodup (nodup_outward inside) List.nodup_range).mpr
  intro i
  rw [mem_outward inside, List.mem_range]
  omega

end MainlineDht.Buckets
