import MainlineDht.Sequence.SwapRemove
import Mathlib.Data.List.GetD

/-!
# The fixed-capacity vector of the Rust node

Eight slots, of which the first `length` are in use.  A slot that was never
written is `none`; one that was moved out of keeps its bits.  The result of an
operation is `none` where the source panics, and also where it would read a slot
that was never written.

`Holds` says which list a vector stands for, and each operation has one lemma
in terms of it.
-/

namespace MainlineDht.Rust

open Sequence

/-- `BUCKET_SIZE` -/
abbrev bucketSize : Nat := 8

/-- A length and eight slots; a slot that was never written holds nothing. -/
structure FixedVec (T : Type) where
  data : Vector (Option T) bucketSize
  length : Nat

namespace FixedVec

variable {T : Type}

/-- An empty vector. -/
def new : FixedVec T where
  data := Vector.replicate bucketSize none
  length := 0

/-- The number of items that there is room for. -/
def emptySlots (v : FixedVec T) : Nat :=
  bucketSize - v.length

/-- There is no room left. -/
def isFull (v : FixedVec T) : Bool :=
  v.length = bucketSize

/-- There is room left. -/
def isNotFull (v : FixedVec T) : Bool :=
  v.length < bucketSize

/-- The number of items. -/
def len (v : FixedVec T) : Nat :=
  v.length

/-- Read a slot. -/
def slot (v : FixedVec T) (index : Nat) : Option T :=
  v.data[index]?.join

/-- Write an item behind the last one; `assert!` panics in a full vector. -/
def push (v : FixedVec T) (item : T) : Option (FixedVec T) :=
  if v.isNotFull then
    some { data := v.data.setIfInBounds v.length (some item), length := v.length + 1 }
  else none

/-- The slots in use, read one after the other.  `iter` goes over the same. -/
def asSlice (v : FixedVec T) : Option (List T) :=
  (List.range v.length).mapM v.slot

/-- The removed item and what is left. -/
def swapRemove (v : FixedVec T) (index : Nat) : Option (T × FixedVec T) :=
  if index < v.length then do
    let lastIndex := v.length - 1
    -- the last one is swapped in for an element other than the last
    if index < lastIndex then
      let last ← v.slot lastIndex
      let item ← v.slot index
      return (item, { data := v.data.setIfInBounds index (some last), length := lastIndex })
    else
      let item ← v.slot index
      return (item, { v with length := lastIndex })
  else none

/-- The slots of the other vector are copied to the start of the slots. -/
def append (v other : FixedVec T) : Option (FixedVec T) :=
  if v.emptySlots ≥ other.length then
    some
      { data := Vector.ofFn fun i : Fin bucketSize =>
          if i < other.length then other.data[i] else v.data[i]
        length := v.length + other.length }
  else none

/-- The new items are copied behind those in use.  The place behind them is
looked up even if there is nothing to copy, and a full vector has none. -/
def appendVec (v : FixedVec T) (newItems : List T) : Option (FixedVec T) :=
  if v.emptySlots ≥ newItems.length then
    if v.length < bucketSize then
      some
        { data := Vector.ofFn fun i : Fin bucketSize =>
            if v.length ≤ i ∧ i < v.length + newItems.length then newItems[i - v.length]?
            else v.data[i]
          length := v.length + newItems.length }
    else none
  else none

/-- What `drop` drops, the items in the slots in use. -/
def occupants (v : FixedVec T) : List T :=
  (List.range v.length).filterMap v.slot

/-- `v == other` -/
def eq [BEq T] (v other : FixedVec T) : Option Bool := do
  let items ← v.asSlice
  let others ← other.asSlice
  return items == others

/-- `v[index]` -/
def index (v : FixedVec T) (index : Nat) : Option T :=
  if index < v.length then v.slot index else none

/-- `v[index] = item` -/
def indexMut (v : FixedVec T) (index : Nat) (item : T) : Option (FixedVec T) :=
  if index < v.length then some { v with data := v.data.setIfInBounds index (some item) } else none

theorem index_lt {v : FixedVec T} {i : Nat} {item : T} (found : v.index i = some item) :
    i < v.length := by
  by_contra outside
  rw [index, if_neg outside] at found
  cases found

theorem slot_of_index {v : FixedVec T} {i : Nat} {item : T} (found : v.index i = some item) :
    v.slot i = some item := by
  rwa [index, if_pos (index_lt found)] at found

theorem swapRemove_length {v after : FixedVec T} {i : Nat} {item : T}
    (removed : v.swapRemove i = some (item, after)) :
    i < v.length ∧ after.length = v.length - 1 := by
  unfold swapRemove at removed
  by_cases inside : i < v.length
  · constructor
    · exact inside
    · rw [if_pos inside] at removed
      by_cases swaps : i < v.length - 1
      · simp only [if_pos swaps, Option.bind_eq_bind, Option.bind_eq_some_iff] at removed
        obtain ⟨last, _, item, _, returned⟩ := removed
        cases returned
        rfl
      · simp only [if_neg swaps, Option.bind_eq_bind, Option.bind_eq_some_iff] at removed
        obtain ⟨item, _, returned⟩ := removed
        cases returned
        rfl
  · rw [if_neg inside] at removed
    cases removed

/-! ## The list a vector stands for -/

/-- The items in use, none where a slot in use was never written. -/
def items (v : FixedVec T) : List T :=
  v.asSlice.getD []

/-- The slots in use hold the items of a list. -/
structure Holds (v : FixedVec T) (items : List T) : Prop where
  length_eq : v.length = items.length
  capacity : items.length ≤ bucketSize
  slot_eq (i : Nat) : i < items.length → v.slot i = items[i]?

theorem slot_of_lt (v : FixedVec T) {i : Nat} (small : i < bucketSize) :
    v.slot i = v.data[i] := by
  rw [slot, Vector.getElem?_eq_getElem small, Option.join_some]

theorem slot_setIfInBounds (v : FixedVec T) (item : T) (length : Nat) {i j : Nat}
    (inside : i < bucketSize) :
    slot { data := v.data.setIfInBounds i (some item), length := length } j =
      if i = j then some item else v.slot j := by
  rw [slot, slot, Vector.getElem?_setIfInBounds]
  by_cases same : i = j
  · rw [if_pos same, if_pos same, if_pos (same ▸ inside), Option.join_some]
  · rw [if_neg same, if_neg same]

theorem mem_occupants {v : FixedVec T} {item : T} :
    item ∈ v.occupants ↔ ∃ i < v.length, v.slot i = some item := by
  simp [occupants]

theorem exists_append {v other : FixedVec T} (fits : v.emptySlots ≥ other.length) :
    ∃ after, v.append other = some after :=
  ⟨_, if_pos fits⟩

/-- What is appended fits, and lands at the start of the slots. -/
theorem of_append {v other after : FixedVec T} (appended : v.append other = some after) :
    v.emptySlots ≥ other.length ∧ after.length = v.length + other.length ∧
      ∀ i < other.length, i < bucketSize → after.slot i = other.slot i := by
  unfold append at appended
  split at appended
  · rename_i fits
    cases appended
    refine ⟨fits, rfl, ?_⟩
    intro i copied small
    rw [slot_of_lt _ small, slot_of_lt _ small, Vector.getElem_ofFn, if_pos copied]
    rfl
  · cases appended

/-- What is appended of a `Vec` fits, and there was room before. -/
theorem of_appendVec {v after : FixedVec T} {newItems : List T}
    (appended : v.appendVec newItems = some after) :
    v.emptySlots ≥ newItems.length ∧ v.length < bucketSize := by
  unfold appendVec at appended
  split at appended
  · split at appended
    · constructor <;> assumption
    · cases appended
  · cases appended

/-- Reading all indices of a list gives the list. -/
theorem mapM_range_eq_some {items : List T} {read : Nat → Option T}
    (reads : ∀ i < items.length, read i = items[i]?) :
    (List.range items.length).mapM read = some items := by
  induction items generalizing read with
  | nil => rfl
  | cons item items ih =>
      have first : read 0 = some item := reads 0 (Nat.zero_lt_succ _)
      have rest : (List.range items.length).mapM (read ∘ Nat.succ) = some items :=
        ih fun i inside => reads (i + 1) (Nat.succ_lt_succ inside)
      rw [List.length_cons, List.range_succ_eq_map, List.mapM_cons, List.mapM_map, first, rest]
      rfl

theorem filterMap_of_mapM {A : Type} {f : A → Option T} {list : List A} {items : List T}
    (mapped : list.mapM f = some items) : list.filterMap f = items := by
  induction list generalizing items with
  | nil =>
      cases mapped
      rfl
  | cons a list ih =>
      rw [List.mapM_cons] at mapped
      rcases Option.bind_eq_some_iff.mp mapped with ⟨item, first, rest⟩
      rcases Option.bind_eq_some_iff.mp rest with ⟨items, others, returned⟩
      cases returned
      rw [List.filterMap_cons, first, ih others]

namespace Holds

variable {v other : FixedVec T} {items others : List T} {item : T} {i : Nat}

theorem slot_getElem (holds : v.Holds items) (inside : i < items.length) :
    v.slot i = some items[i] := by
  rw [holds.slot_eq i inside, List.getElem?_eq_getElem inside]

theorem asSlice_eq (holds : v.Holds items) : v.asSlice = some items := by
  rw [asSlice, holds.length_eq]
  exact mapM_range_eq_some holds.slot_eq

theorem occupants_eq (holds : v.Holds items) : v.occupants = items := by
  have read := holds.asSlice_eq
  rw [asSlice] at read
  rw [occupants, filterMap_of_mapM read]

theorem eq_eq [BEq T] (holds : v.Holds items) (holdsOther : other.Holds others) :
    v.eq other = some (items == others) := by
  rw [eq, holds.asSlice_eq, holdsOther.asSlice_eq]
  rfl

theorem items_eq (holds : v.Holds items) : v.items = items := by
  rw [FixedVec.items, holds.asSlice_eq, Option.getD_some]

theorem isFull_iff (holds : v.Holds items) : v.isFull = true ↔ items.length = bucketSize := by
  rw [isFull, decide_eq_true_iff, holds.length_eq]

theorem isNotFull_iff (holds : v.Holds items) :
    v.isNotFull = true ↔ items.length < bucketSize := by
  rw [isNotFull, decide_eq_true_iff, holds.length_eq]

theorem not_isNotFull (holds : v.Holds items) (full : items.length = bucketSize) :
    ¬ v.isNotFull := by
  rw [holds.isNotFull_iff, full]
  exact Nat.lt_irrefl _

/-- The empty slots are as many as the list is short of the size. -/
theorem emptySlots_ge_iff (holds : v.Holds items) {count : Nat} :
    v.emptySlots ≥ count ↔ items.length + count ≤ bucketSize := by
  have capacity := holds.capacity
  rw [emptySlots, holds.length_eq]
  omega

theorem index_eq (holds : v.Holds items) (inside : i < items.length) :
    v.index i = some items[i] := by
  rw [index, if_pos (holds.length_eq ▸ inside), holds.slot_getElem inside]

theorem new : (FixedVec.new : FixedVec T).Holds [] where
  length_eq := rfl
  capacity := Nat.zero_le _
  slot_eq _ inside := absurd inside (Nat.not_lt_zero _)

theorem push (holds : v.Holds items) (room : items.length < bucketSize) (item : T) :
    ∃ v', v.push item = some v' ∧ v'.Holds (items ++ [item]) := by
  refine ⟨_, if_pos (holds.isNotFull_iff.mpr room), ?_⟩
  constructor
  · rw [List.length_append, List.length_singleton, holds.length_eq]
  · rwa [List.length_append, List.length_singleton]
  · intro i inside
    rw [slot_setIfInBounds _ _ _ (holds.length_eq ▸ room), holds.length_eq]
    by_cases isNew : items.length = i
    · subst isNew
      simp
    · have earlier : i < items.length := by
        rw [List.length_append, List.length_singleton] at inside
        omega
      rw [if_neg isNew, List.getElem?_append_left earlier, holds.slot_eq i earlier]

theorem indexMut (holds : v.Holds items) (inside : i < items.length) (item : T) :
    ∃ v', v.indexMut i item = some v' ∧ v'.Holds (items.set i item) := by
  refine ⟨_, if_pos (holds.length_eq ▸ inside), ?_⟩
  constructor
  · rw [List.length_set, holds.length_eq]
  · rw [List.length_set]
    exact holds.capacity
  · intro j below
    rw [List.length_set] at below
    rw [slot_setIfInBounds _ _ _ (Nat.lt_of_lt_of_le inside holds.capacity), List.getElem?_set,
      holds.slot_eq j below]
    by_cases same : i = j
    · rw [if_pos same, if_pos same, if_pos inside]
    · rw [if_neg same, if_neg same]

theorem swapRemove (holds : v.Holds items) (inside : i < items.length) :
    ∃ v', v.swapRemove i = some (items[i], v') ∧ v'.Holds (Sequence.swapRemove items i) := by
  rcases List.eq_nil_or_concat items with rfl | ⟨earlier, last, rfl⟩
  · cases inside
  · have length_eq : v.length = earlier.length + 1 := by
      rw [holds.length_eq, List.length_concat]
    have capacity : earlier.length ≤ bucketSize := by
      have full := holds.capacity
      rw [List.length_concat] at full
      exact Nat.le_of_succ_le full
    have slot_eq (j : Nat) (below : j < earlier.length) : v.slot j = earlier[j]? := by
      rw [holds.slot_eq j (by rw [List.length_concat]; omega), List.concat_eq_append,
        List.getElem?_append_left below]
    have removed : v.slot i = some (earlier.concat last)[i] := holds.slot_getElem inside
    rw [FixedVec.swapRemove, if_pos (holds.length_eq ▸ inside), removed]
    by_cases swaps : i < earlier.length
    · have lastSlot : v.slot (v.length - 1) = some last := by
        rw [holds.slot_eq _ (by rw [length_eq, List.length_concat]; omega), length_eq,
          Nat.add_sub_cancel, List.concat_eq_append, List.getElem?_concat_length]
      have swapsLength : i < v.length - 1 := by
        rw [length_eq]
        exact swaps
      simp only [lastSlot, if_pos swapsLength, Option.bind_eq_bind, Option.bind_some]
      refine ⟨_, rfl, ?_⟩
      rw [List.concat_eq_append, swapRemove_concat]
      constructor
      · rw [List.length_set, length_eq]
        rfl
      · rwa [List.length_set]
      · intro j below
        rw [List.length_set] at below
        rw [slot_setIfInBounds _ _ _ (Nat.lt_of_lt_of_le swaps capacity), List.getElem?_set,
          slot_eq j below, if_pos swaps]
    · have isLast : ¬ i < v.length - 1 := by
        rw [length_eq]
        exact swaps
      simp only [if_neg isLast, Option.bind_eq_bind, Option.bind_some]
      refine ⟨_, rfl, ?_⟩
      rw [List.concat_eq_append, swapRemove_concat,
        List.set_eq_of_length_le (Nat.le_of_not_lt swaps)]
      constructor
      · rw [length_eq]
        rfl
      · exact capacity
      · exact slot_eq

/-- Appending to a vector that is empty, or by one that is. -/
theorem append (holds : v.Holds items) (holdsOther : other.Holds others)
    (oneEmpty : items = [] ∨ others = []) :
    ∃ v', v.append other = some v' ∧ v'.Holds (items ++ others) := by
  have total : (items ++ others).length ≤ bucketSize := by
    rcases oneEmpty with rfl | rfl
    · exact holdsOther.capacity
    · rw [List.append_nil]
      exact holds.capacity
  have fits : v.emptySlots ≥ other.length := by
    rwa [holds.emptySlots_ge_iff, holdsOther.length_eq, ← List.length_append]
  refine ⟨_, if_pos fits, ?_⟩
  constructor
  · rw [List.length_append, holds.length_eq, holdsOther.length_eq]
  · exact total
  · intro i inside
    have small : i < bucketSize := Nat.lt_of_lt_of_le inside total
    rw [slot_of_lt _ small, Vector.getElem_ofFn]
    rcases oneEmpty with rfl | rfl
    · have copied : i < other.length := holdsOther.length_eq ▸ inside
      rw [if_pos copied, List.nil_append, ← holdsOther.slot_eq i inside, slot_of_lt _ small]
      rfl
    · have kept : ¬ i < other.length := by
        rw [holdsOther.length_eq]
        exact Nat.not_lt_zero i
      rw [List.append_nil] at inside ⊢
      rw [if_neg kept, ← holds.slot_eq i inside, slot_of_lt _ small]
      rfl

/-- Appending items of a `Vec` to a vector that is not full. -/
theorem appendVec (holds : v.Holds items) (room : items.length < bucketSize)
    (fits : items.length + others.length ≤ bucketSize) :
    ∃ v', v.appendVec others = some v' ∧ v'.Holds (items ++ others) := by
  have enough : v.emptySlots ≥ others.length := holds.emptySlots_ge_iff.mpr fits
  refine ⟨_, (if_pos enough).trans (if_pos (holds.length_eq ▸ room)), ?_⟩
  constructor
  · rw [List.length_append, holds.length_eq]
  · rwa [List.length_append]
  · intro i inside
    rw [List.length_append] at inside
    have small : i < bucketSize := Nat.lt_of_lt_of_le inside fits
    rw [slot_of_lt _ small, Vector.getElem_ofFn, holds.length_eq]
    by_cases old : i < items.length
    · rw [if_neg fun copied => Nat.not_le_of_lt old copied.1, List.getElem?_append_left old,
        ← holds.slot_eq i old, slot_of_lt _ small]
      rfl
    · have copied : items.length ≤ i := Nat.le_of_not_lt old
      rw [if_pos ⟨copied, inside⟩, List.getElem?_append_right copied]

end Holds

/-- A full vector refuses even the empty `Vec`. -/
theorem appendVec_of_full {v : FixedVec T} (full : v.length = bucketSize) (newItems : List T) :
    v.appendVec newItems = none := by
  rw [appendVec, if_neg (Nat.not_lt.mpr (Nat.le_of_eq full.symm)), ite_self]

end FixedVec

end MainlineDht.Rust
