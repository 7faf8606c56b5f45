import MainlineDht.Prefix.Common
import MainlineDht.Text.Decimal
import Mathlib.Tactic.IntervalCases

/-!
# Node ids as words of 160 bits

An id is 20 bytes.  Its bits are counted from the most significant bit of the
first byte, and `prefixLength` is the common prefix of two ids as bit words.
The byte-wise loops that compute it meet this definition in `common_bits_cons`.
-/

namespace MainlineDht

open Prefix

/-- Twenty bytes. -/
abbrev NodeId : Type := { bytes : Bytes // bytes.length = 20 }

namespace NodeId

/-- The eight bits of a byte, most significant bit first. -/
def byteBits (byte : UInt8) : List Bool :=
  [7, 6, 5, 4, 3, 2, 1, 0].map fun i => byte.toNat.testBit i

/-- The number of leading zero bits of a byte, eight for the zero byte. -/
def leadingZeros (byte : UInt8) : Nat :=
  ((byteBits byte).takeWhile fun bit => !bit).length

/-- The bits of an id. -/
def bits (id : NodeId) : List Bool :=
  id.val.flatMap byteBits

/-- The number of leading bits two ids share. -/
def prefixLength (a b : NodeId) : Nat :=
  common (bits a) (bits b)

@[simp]
theorem length_byteBits (byte : UInt8) : (byteBits byte).length = 8 :=
  rfl

theorem byteBits_injective : Function.Injective byteBits := by
  intro a b same
  apply UInt8.toNat_inj.mp
  apply Nat.eq_of_testBit_eq
  intro i
  by_cases small : i < 8
  · simp only [byteBits, List.map_cons, List.map_nil, List.cons.injEq, and_true] at same
    obtain ⟨h7, h6, h5, h4, h3, h2, h1, h0⟩ := same
    interval_cases i <;> assumption
  · have high (byte : UInt8) : byte.toNat.testBit i = false := by
      apply Nat.testBit_lt_two_pow
      calc byte.toNat < 2 ^ 8 := byte.toNat_lt
        _ ≤ 2 ^ i := Nat.pow_le_pow_right (by decide) (Nat.le_of_not_lt small)
    rw [high a, high b]

/-- Two bytes agree up to the first bit set in their exclusive or. -/
theorem common_byteBits (a b : UInt8) :
    common (byteBits a) (byteBits b) = leadingZeros (a ^^^ b) := by
  rw [byteBits, byteBits, common_map, leadingZeros, byteBits, List.takeWhile_map, List.length_map]
  congr 2
  funext i
  simp only [Function.comp_apply, UInt8.toNat_xor, Nat.testBit_xor]
  cases a.toNat.testBit i <;> cases b.toNat.testBit i <;> rfl

/-- The common prefix of two byte strings, as the first bytes decide it. -/
theorem common_bits_cons (a b : UInt8) (first second : Bytes) :
    common ((a :: first).flatMap byteBits) ((b :: second).flatMap byteBits) =
      if a = b then 8 + common (first.flatMap byteBits) (second.flatMap byteBits)
      else leadingZeros (a ^^^ b) := by
  rw [List.flatMap_cons, List.flatMap_cons]
  by_cases same : a = b
  · subst same
    rw [if_pos rfl, common_append_left, length_byteBits]
  · have lengths : (byteBits a).length = (byteBits b).length := rfl
    rw [if_neg same, common_append_of_ne lengths (byteBits_injective.ne same), common_byteBits]

theorem length_bits_of_bytes (bytes : Bytes) :
    (bytes.flatMap byteBits).length = 8 * bytes.length := by
  induction bytes with
  | nil => rfl
  | cons byte bytes ih =>
      rw [List.flatMap_cons, List.length_append, ih, length_byteBits, List.length_cons]
      omega

@[simp]
theorem length_bits (id : NodeId) : id.bits.length = 160 := by
  rw [bits, length_bits_of_bytes, id.property]

theorem bits_of_bytes_injective {first second : Bytes} (lengths : first.length = second.length)
    (same : first.flatMap byteBits = second.flatMap byteBits) : first = second := by
  induction first generalizing second with
  | nil => exact (List.length_eq_zero_iff.mp lengths.symm).symm
  | cons a first ih =>
      cases second with
      | nil => cases lengths
      | cons b second =>
          rw [List.flatMap_cons, List.flatMap_cons] at same
          obtain ⟨head, tail⟩ := List.append_inj same rfl
          rw [byteBits_injective head, ih (by simpa using lengths) tail]

theorem bits_injective : Function.Injective bits := by
  intro a b same
  exact Subtype.ext
    (bits_of_bytes_injective (a.property.trans b.property.symm) same)

theorem prefixLength_le (a b : NodeId) : prefixLength a b ≤ 160 := by
  rw [← length_bits a]
  exact common_le_left _ _

/-- Only an id itself shares all its bits. -/
theorem prefixLength_eq_iff (a b : NodeId) : prefixLength a b = 160 ↔ a = b := by
  rw [← length_bits a, prefixLength, common_eq_length_iff (by simp), bits_injective.eq_iff]

theorem prefixLength_comm (a b : NodeId) : prefixLength a b = prefixLength b a :=
  common_comm _ _

/-- Where a first id shares less with a reference than a second one, the two part
at the end of that prefix. -/
theorem prefixLength_eq_of_lt {reference a b : NodeId}
    (less : prefixLength reference a < prefixLength reference b) :
    prefixLength a b = prefixLength reference a := by
  rw [prefixLength_comm reference a] at less ⊢
  exact common_eq_left_of_lt less

/-- The bit where a common prefix may end decides whether it goes on. -/
theorem lt_prefixLength_iff {i : Nat} {a b : NodeId} (upTo : i ≤ prefixLength a b)
    (small : i < 160) :
    i < prefixLength a b ↔ a.bits[i]? = b.bits[i]? := by
  have left : i < a.bits.length := by rwa [length_bits]
  have right : i < b.bits.length := by rwa [length_bits]
  exact lt_common_iff_getElem? upTo left right

/-- The bit at a position of an id, found through its byte. -/
theorem getElem?_bits_of_bytes (bytes : Bytes) (i : Nat) :
    (bytes.flatMap byteBits)[i]? =
      bytes[i / 8]?.map fun byte => byte.toNat.testBit (7 - i % 8) := by
  induction bytes generalizing i with
  | nil => simp
  | cons byte bytes ih =>
      rw [List.flatMap_cons]
      by_cases small : i < 8
      · rw [List.getElem?_append_left (by simpa using small), Nat.div_eq_of_lt small,
          Nat.mod_eq_of_lt small]
        interval_cases i <;> rfl
      · have quotient : i / 8 = (i - 8) / 8 + 1 := by omega
        have remainder : i % 8 = (i - 8) % 8 := by omega
        rw [List.getElem?_append_right (by simpa using small), length_byteBits, ih, quotient,
          remainder, List.getElem?_cons_succ]

end NodeId

end MainlineDht
