import Mathlib.Data.List.Induction
import Mathlib.Data.List.Nodup
import Mathlib.Data.List.Perm.Basic

/-!
# Removing by swapping with the last element

Removal in constant time: the last element takes the place of the removed one.
The order changes, the elements in front of the removed one do not move.
Removing the first one again and again hands out all the others from the back.
-/

namespace MainlineDht.Sequence

universe u

variable {α : Type u}

/-- The list without the element at an index, whose place the last one takes. -/
def swapRemove (items : List α) (index : Nat) : List α :=
  match items.getLast? with
  | none => []
  | some last => (items.set index last).dropLast

@[simp]
theorem length_swapRemove (items : List α) (index : Nat) :
    (swapRemove items index).length = items.length - 1 := by
  cases items using List.reverseRecOn with
  | nil => rfl
  | append_singleton items last => simp [swapRemove]

theorem swapRemove_concat (items : List α) (last : α) (index : Nat) :
    swapRemove (items ++ [last]) index = items.set index last := by
  rw [swapRemove, List.getLast?_concat]
  by_cases inside : index < items.length
  · simp only [List.set_append_left _ _ inside, List.dropLast_concat]
  · have outside : items.length ≤ index := Nat.le_of_not_lt inside
    rw [List.set_eq_of_length_le outside]
    simp only [List.set_append_right _ _ outside]
    cases index - items.length <;> simp

/-- Removing and putting in front is a permutation. -/
theorem cons_swapRemove_perm (items : List α) {index : Nat} (inside : index < items.length) :
    (items[index] :: swapRemove items index).Perm items := by
  cases items using List.reverseRecOn with
  | nil => cases inside
  | append_singleton items last =>
      rw [swapRemove_concat]
      by_cases earlier : index < items.length
      · have moved := List.set_perm_cons_eraseIdx earlier last
        have rest := List.getElem_cons_eraseIdx_perm earlier
        rw [List.getElem_append_left earlier]
        calc (items[index] :: items.set index last).Perm
              (items[index] :: last :: items.eraseIdx index) := moved.cons _
          _ |>.Perm (last :: items[index] :: items.eraseIdx index) := List.Perm.swap _ _ _
          _ |>.Perm (last :: items) := rest.cons _
          _ |>.Perm (items ++ [last]) := (List.perm_append_singleton _ _).symm
      · have isLast : index = items.length := by simp at inside; omega
        subst isLast
        rw [List.set_eq_of_length_le (Nat.le_refl _), List.getElem_concat_length rfl]
        exact (List.perm_append_singleton _ _).symm

/-- What is in front of the removed element stays where it is. -/
theorem take_swapRemove (items : List α) {index : Nat} (inside : index < items.length) :
    (swapRemove items index).take index = items.take index := by
  cases items using List.reverseRecOn with
  | nil => cases inside
  | append_singleton items last =>
      have upTo : index ≤ items.length := Nat.le_of_lt_succ (by simpa using inside)
      rw [swapRemove_concat, List.take_set_of_le (Nat.le_refl _), List.take_append_of_le_length upTo]

/-- Writing exchanges the new item and the old one. -/
theorem set_concat_perm {items : List α} {i : Nat} (inside : i < items.length) (item : α) :
    (items.set i item ++ [items[i]]).Perm (items ++ [item]) := by
  have changed := List.set_perm_cons_eraseIdx inside item
  have kept := List.getElem_cons_eraseIdx_perm inside
  calc (items.set i item ++ [items[i]]).Perm (items[i] :: items.set i item) :=
        List.perm_append_singleton _ _
    _ |>.Perm (items[i] :: item :: items.eraseIdx i) := changed.cons _
    _ |>.Perm (item :: items[i] :: items.eraseIdx i) := List.Perm.swap _ _ _
    _ |>.Perm (item :: items) := kept.cons _
    _ |>.Perm (items ++ [item]) := (List.perm_append_singleton _ _).symm

/-! ## Removing the first element again and again -/

/-- The elements in the order in which they are removed. -/
def frontRemovals : List α → List α
  | [] => []
  | first :: rest => first :: rest.reverse

theorem frontRemovals_cons (first : α) (rest : List α) :
    frontRemovals (first :: rest) = first :: frontRemovals (swapRemove (first :: rest) 0) := by
  cases rest using List.reverseRecOn with
  | nil => rfl
  | append_singleton middle last =>
      rw [← List.cons_append, swapRemove_concat, List.set_cons_zero, List.cons_append]
      simp only [frontRemovals, List.reverse_append, List.reverse_singleton,
        List.singleton_append]

theorem frontRemovals_perm (items : List α) : (frontRemovals items).Perm items := by
  cases items with
  | nil => exact List.Perm.refl _
  | cons first rest => exact (List.reverse_perm rest).cons first

/-- The last element is the second to be removed.  So the first `n` to be removed
are the first `n` elements only if these are at most one or all. -/
theorem take_frontRemovals_iff {items : List α} (distinct : items.Nodup) {n : Nat} :
    (∀ item, item ∈ (frontRemovals items).take n ↔ item ∈ items.take n) ↔
      n < 2 ∨ items.length ≤ n := by
  constructor
  · intro same
    by_contra between
    rw [not_or, Nat.not_lt, Nat.not_le] at between
    rcases between with ⟨two, short⟩
    cases items with
    | nil => cases short
    | cons first rest =>
        cases rest using List.reverseRecOn with
        | nil =>
            rw [List.length_singleton] at short
            omega
        | append_singleton middle last =>
            have upTo : n ≤ (first :: middle).length := by
              rw [← List.cons_append, List.length_append] at short
              exact Nat.le_of_lt_succ short
            have removed : last ∈ (frontRemovals (first :: (middle ++ [last]))).take n := by
              rcases Nat.exists_eq_add_of_le' two with ⟨m, rfl⟩
              simp [frontRemovals]
            have early := (same last).mp removed
            rw [← List.cons_append] at distinct early
            rw [List.take_append_of_le_length upTo] at early
            apply List.disjoint_of_nodup_append distinct (List.mem_of_mem_take early)
            exact List.mem_singleton_self last
  · rintro (few | all) item
    · cases items with
      | nil => rfl
      | cons first rest =>
          have cases : n = 0 ∨ n = 1 := by omega
          rcases cases with rfl | rfl <;> rfl
    · have perm := frontRemovals_perm items
      have allRemoved : (frontRemovals items).length ≤ n := by
        rwa [perm.length_eq]
      rw [List.take_of_length_le all, List.take_of_length_le allRemoved]
      exact perm.mem_iff

end MainlineDht.Sequence
