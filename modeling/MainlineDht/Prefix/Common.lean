import Mathlib.Data.List.TakeDrop
import Mathlib.Order.Bounds.Basic
import Mathlib.Order.MinMax
import Mathlib.Order.Nat

/-!
# The length of the longest common prefix

`common first second` counts the positions two words agree on before they part.
Words of one length form an ultrametric space under it: two words that both
agree with a third one up to a position agree with each other up to there.
-/

namespace MainlineDht.Prefix

universe u

variable {A : Type u} [DecidableEq A]

/-- The length of the longest common prefix of two words. -/
def common : List A → List A → Nat
  | a :: first, b :: second => if a = b then common first second + 1 else 0
  | _, _ => 0

@[simp]
theorem common_nil_left (second : List A) : common [] second = 0 := by
  cases second <;> rfl

@[simp]
theorem common_nil_right (first : List A) : common first [] = 0 := by
  cases first <;> rfl

@[simp]
theorem common_cons_self (a : A) (first second : List A) :
    common (a :: first) (a :: second) = common first second + 1 :=
  if_pos rfl

theorem common_cons_of_ne {a b : A} (differ : a ≠ b) (first second : List A) :
    common (a :: first) (b :: second) = 0 :=
  if_neg differ

/-- Two words agree up to a position exactly when their prefixes of that length
are the same full prefix. -/
theorem le_common_iff {m : Nat} {first second : List A} :
    m ≤ common first second ↔
      m ≤ first.length ∧ m ≤ second.length ∧ first.take m = second.take m := by
  induction m generalizing first second with
  | zero => simp
  | succ m ih =>
      cases first with
      | nil => simp
      | cons a first =>
          cases second with
          | nil => simp
          | cons b second =>
              by_cases same : a = b
              · subst same
                simp [ih]
              · simp [common_cons_of_ne same, same]

theorem common_le_left (first second : List A) : common first second ≤ first.length :=
  (le_common_iff.mp le_rfl).1

theorem common_comm (first second : List A) : common first second = common second first := by
  apply le_antisymm
  · obtain ⟨left, right, same⟩ := le_common_iff.mp (le_refl (common first second))
    exact le_common_iff.mpr ⟨right, left, same.symm⟩
  · obtain ⟨left, right, same⟩ := le_common_iff.mp (le_refl (common second first))
    exact le_common_iff.mpr ⟨right, left, same.symm⟩

/-- The ultrametric inequality. -/
theorem min_common_le (first middle last : List A) :
    min (common first middle) (common middle last) ≤ common first last := by
  obtain ⟨left, _, toMiddle⟩ := le_common_iff.mp (min_le_left (common first middle)
    (common middle last))
  obtain ⟨_, right, fromMiddle⟩ := le_common_iff.mp (min_le_right (common first middle)
    (common middle last))
  exact le_common_iff.mpr ⟨left, right, toMiddle.trans fromMiddle⟩

/-- Where the first step is the shorter one, it decides how far the ends agree. -/
theorem common_eq_left_of_lt {first middle last : List A}
    (less : common first middle < common middle last) :
    common first last = common first middle := by
  apply le_antisymm
  · have back := min_common_le first last middle
    rw [common_comm last middle] at back
    exact (min_le_iff.mp back).resolve_right (not_le.mpr less)
  · calc common first middle = min (common first middle) (common middle last) :=
          (min_eq_left less.le).symm
      _ ≤ common first last := min_common_le first middle last

/-- All triangles are isosceles. -/
theorem common_eq_min_of_ne {first middle last : List A}
    (differ : common first middle ≠ common middle last) :
    common first last = min (common first middle) (common middle last) := by
  rcases Nat.lt_or_gt_of_ne differ with less | greater
  · rw [min_eq_left less.le, common_eq_left_of_lt less]
  · rw [min_eq_right greater.le, common_comm first last, common_comm middle last]
    rw [common_comm middle last, common_comm first middle] at greater
    exact common_eq_left_of_lt greater

/-- Words of one length agree all the way exactly when they are equal. -/
theorem common_eq_length_iff {first second : List A} (lengths : first.length = second.length) :
    common first second = first.length ↔ first = second := by
  constructor
  · intro all
    have same := (le_common_iff.mp (ge_of_eq all)).2.2
    rwa [List.take_length, lengths, List.take_length] at same
  · rintro rfl
    exact le_antisymm (common_le_left first first)
      (le_common_iff.mpr ⟨le_rfl, le_rfl, rfl⟩)

/-- Agreement goes on past a position exactly when the letters there are equal. -/
theorem lt_common_iff {i : Nat} {first second : List A} (upTo : i ≤ common first second)
    (left : i < first.length) (right : i < second.length) :
    i < common first second ↔ first[i] = second[i] := by
  rw [← Nat.succ_le_iff, le_common_iff]
  have agree := (le_common_iff.mp upTo).2.2
  constructor
  · rintro ⟨_, _, same⟩
    rw [List.take_succ_eq_append_getElem left, List.take_succ_eq_append_getElem right, agree]
      at same
    simpa only [List.append_cancel_left_eq, List.cons.injEq, and_true] using same
  · intro same
    rw [List.take_succ_eq_append_getElem left, List.take_succ_eq_append_getElem right, agree, same]
    exact ⟨left, right, rfl⟩

theorem lt_common_iff_getElem? {i : Nat} {first second : List A} (upTo : i ≤ common first second)
    (left : i < first.length) (right : i < second.length) :
    i < common first second ↔ first[i]? = second[i]? := by
  rw [lt_common_iff upTo left right, List.getElem?_eq_getElem left,
    List.getElem?_eq_getElem right, Option.some_inj]

/-- The common prefix of two words of one length ends at the first position where
they differ. -/
theorem isLeast_common {first second : List A} (lengths : first.length = second.length)
    (differ : first ≠ second) :
    IsLeast {i | first[i]? ≠ second[i]?} (common first second) := by
  have inside : common first second < first.length :=
    lt_of_le_of_ne (common_le_left first second) (mt (common_eq_length_iff lengths).mp differ)
  have goesOn {i : Nat} (upTo : i ≤ common first second) :
      i < common first second ↔ first[i]? = second[i]? := by
    have left : i < first.length := upTo.trans_lt inside
    exact lt_common_iff_getElem? upTo left (lengths ▸ left)
  constructor
  · exact mt (goesOn le_rfl).mpr (lt_irrefl _)
  · intro i apart
    exact not_lt.mp fun before => apart ((goesOn before.le).mp before)

/-- A common beginning counts in full. -/
theorem common_append_left (shared first second : List A) :
    common (shared ++ first) (shared ++ second) = shared.length + common first second := by
  induction shared with
  | nil => simp
  | cons a shared ih =>
      rw [List.cons_append, List.cons_append, common_cons_self, ih, List.length_cons]
      omega

/-- Words of one length that differ decide the common prefix of what they begin. -/
theorem common_append_of_ne {first second : List A} (lengths : first.length = second.length)
    (differ : first ≠ second) (afterFirst afterSecond : List A) :
    common (first ++ afterFirst) (second ++ afterSecond) = common first second := by
  induction first generalizing second with
  | nil => exact absurd (List.length_eq_zero_iff.mp lengths.symm).symm differ
  | cons a first ih =>
      cases second with
      | nil => simp at lengths
      | cons b second =>
          by_cases same : a = b
          · subst same
            simp only [List.cons_append, common_cons_self]
            rw [ih (by simpa using lengths) (by simpa using differ)]
          · rw [List.cons_append, List.cons_append, common_cons_of_ne same,
              common_cons_of_ne same]

/-- The common prefix of two mapped words counts the agreements before the
first disagreement. -/
theorem common_map {B : Type u} (f g : B → A) (positions : List B) :
    common (positions.map f) (positions.map g) =
      (positions.takeWhile fun i => decide (f i = g i)).length := by
  induction positions with
  | nil => rfl
  | cons i positions ih =>
      by_cases same : f i = g i
      · simp [same, ih]
      · simp [same, common_cons_of_ne same]

end MainlineDht.Prefix
