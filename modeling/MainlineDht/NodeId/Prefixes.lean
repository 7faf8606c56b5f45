import MainlineDht.NodeId.Distance
import MainlineDht.Sequence.Continuations

/-!
# How many ids share a prefix

Ids are all the words of 160 bits, so `2 ^ (160 - m)` of them begin with the
first `m` bits of a given one.
-/

namespace MainlineDht.NodeId

open Prefix Sequence

/-! ## Every word of bits is some bytes -/

theorem ofBits_injective {first second : List Bool} (lengths : first.length = second.length)
    (same : ofBits first = ofBits second) : first = second := by
  induction first generalizing second with
  | nil => exact (List.length_eq_zero_iff.mp lengths.symm).symm
  | cons a first ih =>
      cases second with
      | nil => cases lengths
      | cons b second =>
          have shorter : first.length = second.length := Nat.succ.inj lengths
          have below := ofBits_lt first
          have belowOther := ofBits_lt second
          rw [ofBits, ofBits, shorter] at same
          rw [shorter] at below
          cases a <;> cases b <;>
            simp only [Bool.toNat_false, Bool.toNat_true, Nat.zero_mul, Nat.one_mul] at same
          · rw [ih shorter (by omega)]
          · omega
          · omega
          · rw [ih shorter (by omega)]

theorem byteBits_surjective {word : List Bool} (length : word.length = 8) :
    ∃ byte, byteBits byte = word := by
  have small : ofBits word < 256 := by
    have bound := ofBits_lt word
    rwa [length] at bound
  refine ⟨UInt8.ofNat (ofBits word), ?_⟩
  apply ofBits_injective (by rw [length_byteBits, length])
  rw [ofBits_byteBits, UInt8.toNat_ofNat', Nat.mod_eq_of_lt small]

theorem exists_bytes {n : Nat} {word : List Bool} (length : word.length = 8 * n) :
    ∃ bytes : Bytes, bytes.length = n ∧ bytes.flatMap byteBits = word := by
  induction n generalizing word with
  | zero => exact ⟨[], rfl, (List.length_eq_zero_iff.mp length).symm⟩
  | succ n ih =>
      rcases @byteBits_surjective (word.take 8) (by rw [List.length_take]; omega) with ⟨byte, first⟩
      rcases @ih (word.drop 8) (by rw [List.length_drop]; omega) with ⟨bytes, count, others⟩
      refine ⟨byte :: bytes, congrArg Nat.succ count, ?_⟩
      rw [List.flatMap_cons, first, others, List.take_append_drop]

theorem bits_surjective {word : List Bool} (length : word.length = 160) : ∃ id, bits id = word := by
  rcases @exists_bytes 20 word length with ⟨bytes, count, same⟩
  exact ⟨⟨bytes, count⟩, same⟩

/-! ## Ids that share a prefix -/

variable {self id : NodeId} {m : Nat}

theorem le_prefixLength_iff (small : m ≤ 160) : m ≤ prefixLength self id ↔
    id.bits ∈ Set.range (@continuation Bool (160 - m) (self.bits.take m)) := by
  rw [prefixLength, le_common_iff, length_bits, length_bits]
  constructor
  · rintro ⟨_, _, same⟩
    refine ⟨⟨id.bits.drop m, by rw [List.length_drop, length_bits]⟩, ?_⟩
    rw [continuation, same, List.take_append_drop]
  · rintro ⟨rest, same⟩
    have front : (self.bits.take m).length = m := by
      rw [List.length_take, length_bits, Nat.min_eq_left small]
    refine ⟨small, small, ?_⟩
    rw [← same, continuation, List.take_left' front]

/-- No more ids than that share `m` bits with one. -/
theorem length_le_of_prefixLength {ids : List NodeId} (small : m ≤ 160) (distinct : ids.Nodup)
    (share : ∀ id ∈ ids, m ≤ prefixLength self id) : ids.length ≤ 2 ^ (160 - m) := by
  have words := @length_le_of_continuations Bool _ (self.bits.take m) (160 - m) (ids.map bits)
    (distinct.map bits_injective)
  rw [List.length_map, Fintype.card_bool] at words
  apply words
  intro word member
  rcases List.mem_map.mp member with ⟨id, isId, rfl⟩
  exact (le_prefixLength_iff small).mp (share id isId)

/-- And as many do. -/
theorem exists_ids_of_prefixLength (self : NodeId) (small : m ≤ 160) :
    ∃ ids : List NodeId, ids.Nodup ∧ ids.length = 2 ^ (160 - m) ∧
      ∀ id ∈ ids, m ≤ prefixLength self id := by
  rcases exists_continuations (self.bits.take m) (160 - m) with ⟨words, distinct, count, begin⟩
  have lifted : words ∈ Set.range (List.map bits) := by
    rw [Set.range_list_map]
    intro word member
    rcases begin word member with ⟨rest, rfl⟩
    apply bits_surjective
    rw [continuation, List.length_append, List.length_take, length_bits, rest.property]
    omega
  rcases lifted with ⟨ids, rfl⟩
  refine ⟨ids, List.Nodup.of_map _ distinct, ?_, ?_⟩
  · rw [← List.length_map, count, Fintype.card_bool]
  · intro id member
    exact (le_prefixLength_iff small).mpr (begin _ (List.mem_map_of_mem member))

/-- All but the id itself, from a depth on. -/
theorem exists_others_of_prefixLength (self : NodeId) (small : m ≤ 160) :
    ∃ ids : List NodeId, ids.Nodup ∧ ids.length = 2 ^ (160 - m) - 1 ∧
      ∀ id ∈ ids, id ≠ self ∧ m ≤ prefixLength self id := by
  rcases exists_ids_of_prefixLength self small with ⟨ids, distinct, count, share⟩
  refine ⟨(ids.erase self).take (2 ^ (160 - m) - 1), (distinct.erase self).sublist
    (List.take_sublist _ _), ?_, ?_⟩
  · apply List.length_take_of_le
    rw [← count]
    exact List.le_length_erase
  · intro id member
    rcases (distinct.mem_erase_iff).mp (List.mem_of_mem_take member) with ⟨other, isId⟩
    exact ⟨other, share id isId⟩

/-- Half of the ids from a depth on are at that depth. -/
theorem exists_ids_at (self : NodeId) (below : m < 160) :
    ∃ ids : List NodeId, ids.Nodup ∧ ids.length = 2 ^ (159 - m) ∧
      ∀ id ∈ ids, prefixLength self id = m := by
  rcases exists_ids_of_prefixLength self below.le with ⟨ids, distinct, count, share⟩
  let goesOn (id : NodeId) : Bool := decide (m + 1 ≤ prefixLength self id)
  have deeper : (ids.filter goesOn).length ≤ 2 ^ (160 - (m + 1)) :=
    length_le_of_prefixLength below (distinct.filter _)
      fun id member => of_decide_eq_true (List.mem_filter.mp member).2
  have parts := @List.length_eq_length_filter_add _ ids goesOn
  have halves : 2 ^ (160 - m) = 2 ^ (159 - m) + 2 ^ (159 - m) := by
    rw [← Nat.two_mul, ← Nat.pow_succ', show (159 - m).succ = 160 - m by omega]
  have enough : 2 ^ (159 - m) ≤ (ids.filter fun id => !goesOn id).length := by
    rw [show 160 - (m + 1) = 159 - m by omega] at deeper
    omega
  refine ⟨(ids.filter fun id => !goesOn id).take (2 ^ (159 - m)),
    (distinct.filter _).sublist (List.take_sublist _ _), List.length_take_of_le enough, ?_⟩
  intro id member
  rcases List.mem_filter.mp (List.mem_of_mem_take member) with ⟨isId, stops⟩
  have atMost : ¬ m + 1 ≤ prefixLength self id := by simpa [goesOn] using stops
  exact Nat.le_antisymm (Nat.le_of_not_lt atMost) (share id isId)

end MainlineDht.NodeId
