import Mathlib.Data.List.Basic
import Mathlib.Data.List.TakeDrop
import Mathlib.Data.List.Nodup

/-!
# The beginning of a sequence made of blocks

Blocks are visited one after the other, and the first `n` items of their
contents are taken.  How many a block gives depends on what lies ahead of it.
-/

namespace MainlineDht.Sequence

universe u

variable {B A : Type u} [DecidableEq B] {contents : B → List A} {visits : List B} {block other : B}
  {item : A} {n : Nat}

/-- The number of items in the blocks visited before a block. -/
def ahead (contents : B → List A) (visits : List B) (block : B) : Nat :=
  ((visits.takeWhile fun visited => visited ≠ block).flatMap contents).length

theorem ahead_cons_self : ahead contents (block :: visits) block = 0 := by
  simp [ahead]

theorem ahead_cons_of_ne (differ : other ≠ block) :
    ahead contents (other :: visits) block =
      (contents other).length + ahead contents visits block := by
  simp [ahead, differ]

theorem sub_ahead_cons (fresh : other ∉ visits) (member : block ∈ visits) :
    n - ahead contents (other :: visits) block =
      n - (contents other).length - ahead contents visits block := by
  have differ : other ≠ block := fun same => fresh (same.symm ▸ member)
  rw [ahead_cons_of_ne differ, Nat.sub_add_eq]

/-- Only the sizes of the blocks count. -/
theorem ahead_congr {contents' : B → List A}
    (sizes : ∀ other, (contents' other).length = (contents other).length) :
    ahead contents' visits block = ahead contents visits block := by
  simp only [ahead, List.length_flatMap, sizes]

theorem ahead_append (fresh : block ∉ visits) (later : List B) :
    ahead contents (visits ++ block :: later) block = (visits.flatMap contents).length := by
  induction visits with
  | nil => exact ahead_cons_self
  | cons first visits ih =>
      rw [List.mem_cons, not_or] at fresh
      rw [List.cons_append, ahead_cons_of_ne (Ne.symm fresh.1), ih fresh.2, List.flatMap_cons,
        List.length_append]

/-- Taking the first items, and then some more, and the first ones again. -/
theorem take_take_append (n : Nat) (first second : List A) :
    (first.take n ++ second).take n = (first ++ second).take n := by
  rw [List.take_append, List.take_append, List.take_take, Nat.min_self, List.length_take]
  congr 2
  omega

/-- What is cut at a number of items is cut in each block at the number that the
blocks ahead of it leave. -/
theorem mem_cut_flatMap {cut : Nat → List A → List A} (cut_nil : ∀ n, cut n [] = [])
    (cut_append : ∀ n first second,
      cut n (first ++ second) = cut n first ++ cut (n - first.length) second)
    (distinct : visits.Nodup) :
    item ∈ cut n (visits.flatMap contents) ↔
      ∃ block ∈ visits, item ∈ cut (n - ahead contents visits block) (contents block) := by
  induction visits generalizing n with
  | nil => simp [cut_nil]
  | cons first visits ih =>
      obtain ⟨fresh, distinct⟩ := List.nodup_cons.mp distinct
      rw [List.flatMap_cons, cut_append, List.mem_append, ih distinct,
        List.exists_mem_cons_iff, ahead_cons_self, Nat.sub_zero]
      apply or_congr_right
      apply exists_congr
      intro block
      apply and_congr_right
      intro member
      rw [sub_ahead_cons fresh member]

/-- A block gives the items that the blocks ahead of it leave room for. -/
theorem mem_take_flatMap (distinct : visits.Nodup) :
    item ∈ (visits.flatMap contents).take n ↔
      ∃ block ∈ visits, item ∈ (contents block).take (n - ahead contents visits block) :=
  mem_cut_flatMap (fun _ => List.take_nil) (fun _ _ _ => List.take_append) distinct

/-- It keeps back the others. -/
theorem mem_drop_flatMap (distinct : visits.Nodup) :
    item ∈ (visits.flatMap contents).drop n ↔
      ∃ block ∈ visits, item ∈ (contents block).drop (n - ahead contents visits block) :=
  mem_cut_flatMap (fun _ => List.drop_nil) (fun _ _ _ => List.drop_append) distinct

/-- Where visits never go back in an order, a block has those before it in that
order ahead. -/
theorem ahead_add_le {Before : B → B → Prop}
    (ordered : visits.Pairwise fun first second => first ≠ second ∧ ¬ Before second first)
    (member : block ∈ visits) (otherMember : other ∈ visits) (differ : block ≠ other)
    (before : Before block other) :
    ahead contents visits block + (contents block).length ≤ ahead contents visits other := by
  obtain ⟨near, far, rfl⟩ := List.append_of_mem otherMember
  obtain ⟨orderedNear, orderedRest, across⟩ := List.pairwise_append.mp ordered
  have isNear : block ∈ near := by
    rcases List.mem_append.mp member with isNear | rest
    · exact isNear
    · have isFar := (List.mem_cons.mp rest).resolve_left differ
      exact absurd before ((List.pairwise_cons.mp orderedRest).1 block isFar).2
  have notNear : other ∉ near :=
    fun isNear => (across other isNear other List.mem_cons_self).1 rfl
  obtain ⟨nearer, between, rfl⟩ := List.append_of_mem isNear
  have notNearer : block ∉ nearer :=
    fun isNearer => ((List.pairwise_append.mp orderedNear).2.2 block isNearer block
      List.mem_cons_self).1 rfl
  rw [ahead_append notNear, List.append_assoc, List.cons_append, ahead_append notNearer,
    List.flatMap_append, List.flatMap_cons, List.length_append, List.length_append,
    ← Nat.add_assoc]
  exact Nat.le_add_right _ _

end MainlineDht.Sequence
