import MainlineDht.NodeId.Bits
import Mathlib.Data.Nat.Size

/-!
# The distance of node ids

The distance of two ids is their exclusive or, read as a number with the most
significant byte first.  It has as many binary digits as the common prefix leaves
of the 160 bits.  Which of two ids is closer to a third one is decided by the
first bit where the two part.
-/

namespace MainlineDht

open Prefix

/-! ## Numbers from bits -/

/-- The number with these bits, most significant bit first. -/
def ofBits : List Bool → Nat
  | [] => 0
  | bit :: bits => bit.toNat * 2 ^ bits.length + ofBits bits

/-- The number with these bytes, most significant byte first. -/
def bigEndian (bytes : Bytes) : Nat :=
  bytes.foldl (fun read byte => 256 * read + byte.toNat) 0

theorem ofBits_lt (bits : List Bool) : ofBits bits < 2 ^ bits.length := by
  induction bits with
  | nil => exact Nat.one_pos
  | cons bit bits ih =>
      rw [ofBits, List.length_cons, Nat.pow_succ]
      cases bit with
      | false => rw [Bool.toNat_false]; omega
      | true => rw [Bool.toNat_true]; omega

theorem ofBits_append (first second : List Bool) :
    ofBits (first ++ second) = ofBits first * 2 ^ second.length + ofBits second := by
  induction first with
  | nil => rw [List.nil_append, ofBits, Nat.zero_mul, Nat.zero_add]
  | cons bit first ih =>
      rw [List.cons_append, ofBits, ofBits, ih, List.length_append, Nat.pow_add, Nat.add_mul,
        Nat.mul_assoc, Nat.add_assoc]

/-- Numbers of one width compare at the first bit where they part. -/
theorem ofBits_lt_iff {first second : List Bool} (lengths : first.length = second.length)
    (differ : first ≠ second) :
    ofBits first < ofBits second ↔ first[common first second]? = some false := by
  induction first generalizing second with
  | nil => exact absurd (List.length_eq_zero_iff.mp lengths.symm).symm differ
  | cons a first ih =>
      cases second with
      | nil => cases lengths
      | cons b second =>
          have shorter : first.length = second.length := Nat.succ.inj lengths
          by_cases same : a = b
          · subst same
            rw [common_cons_self, List.getElem?_cons_succ, ofBits, ofBits, shorter,
              Nat.add_lt_add_iff_left]
            exact ih shorter fun tails => differ (congrArg _ tails)
          · have small := ofBits_lt first
            have otherSmall := ofBits_lt second
            rw [common_cons_of_ne same, List.getElem?_cons_zero, ofBits, ofBits, Option.some_inj]
            rw [← shorter] at otherSmall ⊢
            cases a with
            | false =>
                rw [Bool.eq_true_of_not_eq_false (Ne.symm same), Bool.toNat_true, Bool.toNat_false]
                exact iff_of_true (by omega) rfl
            | true =>
                rw [Bool.eq_false_of_not_eq_true (Ne.symm same), Bool.toNat_true, Bool.toNat_false]
                exact iff_of_false (by omega) (by decide)

/-- The number of the exclusive or of two words has as many binary digits as are
left of the words after their common prefix. -/
theorem common_add_size {first second : List Bool} (lengths : first.length = second.length) :
    common first second + (ofBits (List.zipWith Bool.xor first second)).size = first.length := by
  induction first generalizing second with
  | nil => rfl
  | cons a first ih =>
      obtain ⟨b, second, rfl⟩ := List.exists_cons_of_length_eq_add_one lengths.symm
      have shorter : first.length = second.length := Nat.succ.inj lengths
      rw [List.zipWith_cons_cons, List.length_cons, ofBits]
      by_cases same : a = b
      · subst same
        rw [common_cons_self, Bool.xor_self, Bool.toNat_false, Nat.zero_mul, Nat.zero_add,
          Nat.add_right_comm, ih shorter]
      · have apart : Bool.xor a b = true := by
          simpa using same
        have small := ofBits_lt (List.zipWith Bool.xor first second)
        rw [List.length_zipWith, ← shorter, Nat.min_self] at small ⊢
        rw [common_cons_of_ne same, apart, Bool.toNat_true, Nat.one_mul, Nat.zero_add]
        apply le_antisymm
        · rw [Nat.size_le, Nat.pow_succ]
          omega
        · rw [Nat.succ_le_iff, Nat.lt_size]
          exact Nat.le_add_right _ _

/-! ## Bits of a distance -/

namespace NodeId

theorem ofBits_byteBits (byte : UInt8) : ofBits (byteBits byte) = byte.toNat := by
  have all : ∀ n < 256,
      ofBits ([7, 6, 5, 4, 3, 2, 1, 0].map fun i => Nat.testBit n i) = n := by
    decide +kernel
  exact all byte.toNat byte.toNat_lt

theorem bigEndian_eq_ofBits (bytes : Bytes) : bigEndian bytes = ofBits (bytes.flatMap byteBits) := by
  have step (read : Nat) : bytes.foldl (fun read byte => 256 * read + byte.toNat) read =
      read * 2 ^ (8 * bytes.length) + ofBits (bytes.flatMap byteBits) := by
    induction bytes generalizing read with
    | nil => simp [ofBits]
    | cons byte bytes ih =>
        rw [List.foldl_cons, ih, List.flatMap_cons, ofBits_append, ofBits_byteBits,
          length_bits_of_bytes, List.length_cons, Nat.mul_succ, Nat.add_comm (8 * bytes.length),
          Nat.pow_add, Nat.add_mul, ← Nat.add_assoc, Nat.mul_comm 256 read, Nat.mul_assoc]
  rw [bigEndian, step, Nat.zero_mul, Nat.zero_add]

theorem byteBits_xor (a b : UInt8) :
    byteBits (a ^^^ b) = List.zipWith Bool.xor (byteBits a) (byteBits b) := by
  simp only [byteBits, UInt8.toNat_xor, Nat.testBit_xor, List.map_cons, List.map_nil,
    List.zipWith_cons_cons, List.zipWith_nil_left]

theorem bits_of_zipWith_xor {first second : Bytes} (lengths : first.length = second.length) :
    (List.zipWith (· ^^^ ·) first second).flatMap byteBits =
      List.zipWith Bool.xor (first.flatMap byteBits) (second.flatMap byteBits) := by
  induction first generalizing second with
  | nil => simp
  | cons a first ih =>
      cases second with
      | nil => cases lengths
      | cons b second =>
          rw [List.zipWith_cons_cons, List.flatMap_cons, List.flatMap_cons, List.flatMap_cons,
            ih (Nat.succ.inj lengths), byteBits_xor]
          have widths : (byteBits a).length = (byteBits b).length := rfl
          exact (List.zipWith_append widths).symm

/-- The same word added to two words changes nothing about where they part. -/
theorem common_zipWith_xor {first second mask : List Bool} (firstLength : first.length = mask.length)
    (secondLength : second.length = mask.length) :
    common (List.zipWith Bool.xor first mask) (List.zipWith Bool.xor second mask) =
      common first second := by
  induction mask generalizing first second with
  | nil =>
      rw [List.length_eq_zero_iff.mp firstLength]
      rfl
  | cons bit mask ih =>
      obtain ⟨a, first, rfl⟩ := List.exists_cons_of_length_eq_add_one firstLength
      obtain ⟨b, second, rfl⟩ := List.exists_cons_of_length_eq_add_one secondLength
      rw [List.zipWith_cons_cons, List.zipWith_cons_cons]
      by_cases same : a = b
      · subst same
        rw [common_cons_self, common_cons_self,
          ih (Nat.succ.inj firstLength) (Nat.succ.inj secondLength)]
      · have apart : Bool.xor a bit ≠ Bool.xor b bit := by
          simpa using same
        rw [common_cons_of_ne same, common_cons_of_ne apart]

/-- The number of the exclusive or of two ids. -/
def xorNumber (a b : NodeId) : Nat :=
  bigEndian (List.zipWith (· ^^^ ·) a.val b.val)

theorem xorNumber_eq (a b : NodeId) :
    xorNumber a b = ofBits (List.zipWith Bool.xor a.bits b.bits) := by
  rw [xorNumber, bigEndian_eq_ofBits, bits_of_zipWith_xor (a.property.trans b.property.symm)]
  rfl

/-- The distance of two ids has the binary digits that their common prefix leaves. -/
theorem prefixLength_add_size (a b : NodeId) :
    prefixLength a b + (xorNumber a b).size = 160 := by
  have lengths : a.bits.length = b.bits.length := by rw [length_bits, length_bits]
  rw [prefixLength, xorNumber_eq, common_add_size lengths, length_bits]

/-- The id that shares the longer prefix is the closer one. -/
theorem xorNumber_lt_of_prefixLength_lt {a b c : NodeId}
    (less : prefixLength a c < prefixLength a b) : xorNumber a b < xorNumber a c := by
  apply lt_of_not_ge
  intro further
  have digits := Nat.size_le_size further
  have near := prefixLength_add_size a b
  have far := prefixLength_add_size a c
  omega

/-- Of two ids, the one that agrees with the target where the two part is closer. -/
theorem xorNumber_lt_iff {a b : NodeId} (differ : a ≠ b) (target : NodeId) :
    xorNumber a target < xorNumber b target ↔
      a.bits[prefixLength a b]? = target.bits[prefixLength a b]? := by
  have lengthA : a.bits.length = target.bits.length := by rw [length_bits, length_bits]
  have lengthB : b.bits.length = target.bits.length := by rw [length_bits, length_bits]
  have parts : prefixLength a b < 160 :=
    Nat.lt_of_le_of_ne (prefixLength_le a b) (mt (prefixLength_eq_iff a b).mp differ)
  have insideA : prefixLength a b < a.bits.length := by rwa [length_bits]
  have insideTarget : prefixLength a b < target.bits.length := by rwa [length_bits]
  have same := common_zipWith_xor lengthA lengthB
  have widths : (List.zipWith Bool.xor a.bits target.bits).length =
      (List.zipWith Bool.xor b.bits target.bits).length := by
    simp
  have notEqual : List.zipWith Bool.xor a.bits target.bits ≠
      List.zipWith Bool.xor b.bits target.bits := by
    intro equal
    have whole := (common_eq_length_iff widths).mpr equal
    rw [same, List.length_zipWith, ← lengthA, Nat.min_self] at whole
    exact absurd whole (Nat.ne_of_lt insideA)
  rw [xorNumber_eq, xorNumber_eq, ofBits_lt_iff widths notEqual, same]
  change (List.zipWith Bool.xor a.bits target.bits)[prefixLength a b]? = some false ↔ _
  rw [List.getElem?_zipWith_eq_some, List.getElem?_eq_getElem insideA,
    List.getElem?_eq_getElem insideTarget]
  simp

/-- Of two ids that share prefixes of different lengths with a reference, the one
with the shorter prefix is closer to the targets on its side of the next bit, and
the other one to the targets on the side of the reference. -/
theorem xorNumber_lt_iff_of_prefixLength_lt {reference a b : NodeId}
    (less : prefixLength reference a < prefixLength reference b) (target : NodeId) :
    (xorNumber a target < xorNumber b target ↔
        target.bits[prefixLength reference a]? ≠ reference.bits[prefixLength reference a]?) ∧
      (xorNumber b target < xorNumber a target ↔
        target.bits[prefixLength reference a]? = reference.bits[prefixLength reference a]?) := by
  have differ : a ≠ b := by
    rintro rfl
    exact Nat.lt_irrefl _ less
  have small := Nat.lt_of_lt_of_le less (prefixLength_le reference b)
  have apart := mt (lt_prefixLength_iff (le_refl _) small).mpr (Nat.lt_irrefl _)
  have along := (lt_prefixLength_iff less.le small).mp less
  rw [xorNumber_lt_iff differ, xorNumber_lt_iff differ.symm, prefixLength_comm b a,
    prefixLength_eq_of_lt less, ← along]
  have inside (id : NodeId) : prefixLength reference a < id.bits.length := by
    rwa [length_bits]
  rw [List.getElem?_eq_getElem (inside a), List.getElem?_eq_getElem (inside reference),
    List.getElem?_eq_getElem (inside target)] at *
  simp only [Option.some_inj, ne_eq] at *
  have sides : ∀ x y z : Bool, x ≠ y → (y = z ↔ z ≠ x) ∧ (x = z ↔ z = x) := by decide
  exact sides _ _ _ apart

end NodeId

end MainlineDht
