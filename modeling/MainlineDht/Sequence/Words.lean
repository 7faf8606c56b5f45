import Mathlib.Data.List.TakeDrop
import Mathlib.Logic.Equiv.Prod

/-!
# Words of a fixed length

A record whose fields have fixed widths is written as the words of its fields,
one after the other.  A field of width `n` is an equivalence between its values
and the words of length `n`; two fields in a row are again such a field.
-/

namespace MainlineDht.Sequence

universe u v w

variable {A : Type u} {V : Type v} {W : Type w} {m n : Nat}

/-- The words of a given length. -/
abbrev Word (A : Type u) (length : Nat) : Type u :=
  { word : List A // word.length = length }

namespace Word

/-- Two words in a row; a word is cut where the first one ends. -/
def appendEquiv (A : Type u) (m n : Nat) : Word A m × Word A n ≃ Word A (m + n) where
  toFun parts :=
    ⟨parts.1.val ++ parts.2.val, by
      rw [List.length_append, parts.1.property, parts.2.property]⟩
  invFun word :=
    (⟨word.val.take m, by
        rw [List.length_take, word.property, Nat.min_eq_left (Nat.le_add_right m n)]⟩,
      ⟨word.val.drop m, by
        rw [List.length_drop, word.property, Nat.add_sub_cancel_left]⟩)
  left_inv parts := by
    apply Prod.ext
    · exact Subtype.ext (List.take_left' parts.1.property)
    · exact Subtype.ext (List.drop_left' parts.1.property)
  right_inv word := Subtype.ext (List.take_append_drop m word.val)

/-- A field and another one behind it. -/
def followedBy (field : V ≃ Word A m) (next : W ≃ Word A n) : V × W ≃ Word A (m + n) :=
  (Equiv.prodCongr field next).trans (appendEquiv A m n)

@[simp]
theorem followedBy_val (field : V ≃ Word A m) (next : W ≃ Word A n) (value : V × W) :
    (followedBy field next value).val = (field value.1).val ++ (next value.2).val :=
  rfl

end Word

end MainlineDht.Sequence
