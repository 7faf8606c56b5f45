import Mathlib.Data.List.Basic

/-!
# Chunks of a fixed size

The pieces of a sequence that have exactly a given size, one after the other.
What is left at the end is in no chunk.
-/

namespace MainlineDht.Sequence

universe u v

variable {A : Type u} {B : Type v} {size : Nat} {items : List A}

/-- The items of the chunk at an index. -/
def chunkAt (size : Nat) (items : List A) (index : Nat) : List A :=
  (items.drop (size * index)).take size

/-- The chunks of exactly `size` items. -/
def chunksExact (size : Nat) (items : List A) : List (List A) :=
  (List.range (items.length / size)).map (chunkAt size items)

theorem length_chunksExact (size : Nat) (items : List A) :
    (chunksExact size items).length = items.length / size := by
  rw [chunksExact, List.length_map, List.length_range]

theorem chunksExact_of_lt (few : items.length < size) : chunksExact size items = [] := by
  rw [chunksExact, Nat.div_eq_of_lt few]
  rfl

theorem chunkAt_succ (size : Nat) (items : List A) (index : Nat) :
    chunkAt size items (index + 1) = chunkAt size (items.drop size) index := by
  rw [chunkAt, chunkAt, List.drop_drop, Nat.mul_succ, Nat.add_comm]

theorem chunksExact_map (f : A → B) (size : Nat) (items : List A) :
    chunksExact size (items.map f) = (chunksExact size items).map (List.map f) := by
  rw [chunksExact, chunksExact, List.length_map, List.map_map]
  apply List.map_congr_left
  intro index _
  rw [chunkAt, ← List.map_drop, ← List.map_take]
  rfl

/-- The first chunk, and those of the rest. -/
theorem chunksExact_of_le (positive : 0 < size) (enough : size ≤ items.length) :
    chunksExact size items = items.take size :: chunksExact size (items.drop size) := by
  have count : items.length / size = (items.drop size).length / size + 1 := by
    rw [List.length_drop, Nat.div_eq_sub_div positive enough]
  rw [chunksExact, count, List.range_succ_eq_map, List.map_cons, List.map_map, chunksExact]
  congr 1
  exact List.map_congr_left fun index _ => chunkAt_succ size items index

theorem length_of_mem_chunksExact {chunk : List A} (member : chunk ∈ chunksExact size items) :
    chunk.length = size := by
  rcases List.mem_map.mp member with ⟨index, below, rfl⟩
  have upTo : size * (index + 1) ≤ items.length :=
    calc size * (index + 1) ≤ size * (items.length / size) :=
          Nat.mul_le_mul_left size (List.mem_range.mp below)
      _ ≤ items.length := Nat.mul_div_le items.length size
  rw [Nat.mul_succ] at upTo
  rw [chunkAt, List.length_take, List.length_drop]
  omega

/-- Blocks of the size, one after the other, are cut where they meet. -/
theorem chunksExact_flatMap {f : B → List A} {blocks : List B} (positive : 0 < size)
    (sized : ∀ block ∈ blocks, (f block).length = size) :
    chunksExact size (blocks.flatMap f) = blocks.map f := by
  induction blocks with
  | nil => exact chunksExact_of_lt positive
  | cons block blocks ih =>
      have first : (f block).length = size := sized block List.mem_cons_self
      have enough : size ≤ (f block ++ blocks.flatMap f).length := by
        rw [List.length_append, first]
        exact Nat.le_add_right _ _
      rw [List.flatMap_cons, chunksExact_of_le positive enough, List.map_cons,
        ← ih fun other member => sized other (List.mem_cons_of_mem _ member), ← first,
        List.take_left, List.drop_left]

/-- A sequence of whole chunks is made of them. -/
theorem flatten_chunksExact (positive : 0 < size) (whole : size ∣ items.length) :
    (chunksExact size items).flatten = items := by
  rcases whole with ⟨count, length_eq⟩
  induction count generalizing items with
  | zero =>
      rw [Nat.mul_zero] at length_eq
      rw [chunksExact_of_lt (length_eq ▸ positive), List.length_eq_zero_iff.mp length_eq]
      rfl
  | succ count ih =>
      rw [Nat.mul_succ] at length_eq
      have rest : (items.drop size).length = size * count := by
        rw [List.length_drop, length_eq, Nat.add_sub_cancel]
      rw [chunksExact_of_le positive (length_eq ▸ Nat.le_add_left _ _), List.flatten_cons, ih rest,
        List.take_append_drop]

end MainlineDht.Sequence
