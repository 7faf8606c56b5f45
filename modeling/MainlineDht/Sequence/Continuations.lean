import MainlineDht.Sequence.Words
import Mathlib.Data.Fintype.BigOperators
import Mathlib.Data.Set.List

/-!
# How many words have a given beginning

As many as there are words to go on with.
-/

namespace MainlineDht.Sequence

universe u

variable {A : Type u} [Fintype A] {front : List A} {n : Nat}

instance Word.fintype (A : Type u) [Fintype A] (n : Nat) : Fintype (Word A n) :=
  inferInstanceAs (Fintype (List.Vector A n))

theorem Word.card (A : Type u) [Fintype A] (n : Nat) :
    Fintype.card (Word A n) = Fintype.card A ^ n :=
  card_vector n

/-- The beginning, and `n` letters more. -/
def continuation (front : List A) (rest : Word A n) : List A :=
  front ++ rest.val

omit [Fintype A] in
theorem continuation_injective : Function.Injective (@continuation A n front) :=
  fun _ _ same => Subtype.ext (List.append_cancel_left same)

/-- Different continuations are no more than that. -/
theorem length_le_of_continuations {words : List (List A)} (distinct : words.Nodup)
    (begin : ∀ word ∈ words, word ∈ Set.range (@continuation A n front)) :
    words.length ≤ Fintype.card A ^ n := by
  have lifted : words ∈ Set.range (List.map (@continuation A n front)) := by
    rw [Set.range_list_map]
    exact begin
  rcases lifted with ⟨rests, rfl⟩
  rw [List.length_map, ← Word.card]
  exact (List.Nodup.of_map _ distinct).length_le_card

/-- And there are as many. -/
theorem exists_continuations (front : List A) (n : Nat) :
    ∃ words : List (List A), words.Nodup ∧ words.length = Fintype.card A ^ n ∧
      ∀ word ∈ words, word ∈ Set.range (@continuation A n front) := by
  refine ⟨(Finset.univ.toList).map (@continuation A n front), ?_, ?_, ?_⟩
  · exact (Finset.nodup_toList _).map continuation_injective
  · rw [List.length_map, Finset.length_toList, Finset.card_univ, Word.card]
  · intro word member
    rcases List.mem_map.mp member with ⟨rest, _, rfl⟩
    exact ⟨rest, rfl⟩

end MainlineDht.Sequence
