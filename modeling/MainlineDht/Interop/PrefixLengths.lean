import MainlineDht.Go.NodeInfo
import MainlineDht.NodeId.Distance
import MainlineDht.Rust.NodeId

/-!
# Prefix lengths in the two programs

Both programs count the leading bits that two ids share, each with a loop over
bytes of its own.  The two counts are one function, which bits and distances
describe: it finds the first bit where the ids part, it makes the ids an
ultrametric space, and a longer prefix means a smaller distance.
-/

namespace MainlineDht.Interop

open NodeId Prefix

/-- Two ids with different bits at an index. -/
def PartAt (a b : NodeId) (index : Nat) : Prop :=
  ∃ bit other, Go.isBitSet a index = some bit ∧ Go.isBitSet b index = some other ∧ bit ≠ other

/-- A function that counts the leading bits two ids share, as the bits of the ids
and their distances tell. -/
structure CountsSharedBits (cpl : NodeId → NodeId → Nat) : Prop where
  parts : ∀ a b, a ≠ b → IsLeast {index | index < 160 ∧ PartAt a b index} (cpl a b)
  whole : ∀ a b, cpl a b = 160 ↔ a = b
  comm : ∀ a b, cpl a b = cpl b a
  ultrametric : ∀ a b c, min (cpl a b) (cpl b c) ≤ cpl a c
  isosceles : ∀ a b c, cpl a b ≠ cpl b c → cpl a c = min (cpl a b) (cpl b c)
  closer : ∀ a b c, cpl a c < cpl a b →
    bigEndian (Rust.distance a b) < bigEndian (Rust.distance a c)

/-- Ids part where their words of bits differ. -/
theorem partAt_iff (a b : NodeId) (index : Nat) :
    index < 160 ∧ PartAt a b index ↔ a.bits[index]? ≠ b.bits[index]? := by
  rw [PartAt, Go.isBitSet_eq, Go.isBitSet_eq]
  constructor
  · rintro ⟨-, bit, other, bit_eq, other_eq, differ⟩
    rw [bit_eq, other_eq]
    exact mt Option.some.inj differ
  · intro differ
    by_cases small : index < 160
    · have left : index < a.bits.length := by rwa [length_bits]
      have right : index < b.bits.length := by rwa [length_bits]
      rw [List.getElem?_eq_getElem left, List.getElem?_eq_getElem right] at differ ⊢
      exact ⟨small, _, _, rfl, rfl, fun same => differ (congrArg some same)⟩
    · have past (id : NodeId) : id.bits[index]? = none := by
        rw [List.getElem?_eq_none_iff, length_bits]
        exact Nat.le_of_not_lt small
      rw [past a, past b] at differ
      exact absurd rfl differ

/-- The first bit where two ids part ends their common prefix. -/
theorem isLeast_prefixLength {a b : NodeId} (differ : a ≠ b) :
    IsLeast {index | index < 160 ∧ PartAt a b index} (prefixLength a b) := by
  have lengths : a.bits.length = b.bits.length := by rw [length_bits, length_bits]
  simp only [partAt_iff]
  exact isLeast_common lengths (bits_injective.ne differ)

theorem countsSharedBits_prefixLength : CountsSharedBits prefixLength where
  parts _ _ differ := isLeast_prefixLength differ
  whole := prefixLength_eq_iff
  comm := prefixLength_comm
  ultrametric a b c := min_common_le a.bits b.bits c.bits
  isosceles _ _ _ differ := common_eq_min_of_ne differ
  closer _ _ _ less := xorNumber_lt_of_prefixLength_lt less

/-- The two programs count the same bits, and they count the shared ones. -/
theorem commonPrefixLengths_agree :
    Go.commonPrefixLength = Rust.commonPrefixLength ∧
      CountsSharedBits Go.commonPrefixLength ∧ CountsSharedBits Rust.commonPrefixLength := by
  have go : Go.commonPrefixLength = prefixLength := funext₂ Go.commonPrefixLength_eq
  have rust : Rust.commonPrefixLength = prefixLength := funext₂ Rust.commonPrefixLength_eq
  rw [go, rust]
  exact ⟨rfl, countsSharedBits_prefixLength, countsSharedBits_prefixLength⟩

end MainlineDht.Interop
