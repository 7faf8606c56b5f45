import MainlineDht.NodeId.Bits
import MainlineDht.Sequence.Chunks

/-!
# Node ids in Rust

The functions of the `node_id` module.  `common_prefix_length` goes over the
bytes of the distance and counts the same leading bits as the Go function does.
-/

namespace MainlineDht.Rust

open NodeId Sequence

/-- Twenty bytes are an id. -/
def fromSlice (s : Bytes) : Except String NodeId :=
  if length : s.length = 20 then .ok ⟨s, length⟩
  else .error "Invalid node id - must be 20 bytes long"

/-- The same for the bytes of a vector. -/
def fromVec (v : Bytes) : Except String NodeId :=
  fromSlice v

/-- The ids one after the other; what is left over at the end is ignored. -/
def multipleFromVec (v : Bytes) : Except String (List NodeId) :=
  (chunksExact 20 v).mapM fromSlice

/-- The bytes of the distance of two ids. -/
def distance (a b : NodeId) : Bytes :=
  List.zipWith (· ^^^ ·) a.val b.val

/-- The loop of `common_prefix_length`, which ends at the first byte that has a
bit set. -/
def commonPrefixLengthLoop : Bytes → Nat → Nat
  | [], result => result
  | byte :: bytes, result =>
      let result := result + leadingZeros byte
      if leadingZeros byte < 8 then result else commonPrefixLengthLoop bytes result

/-- The number of leading zeros of the distance. -/
def commonPrefixLength (a b : NodeId) : Nat :=
  commonPrefixLengthLoop (distance a b) 0

theorem fromSlice_eq {s : Bytes} (length : s.length = 20) : fromSlice s = .ok ⟨s, length⟩ :=
  dif_pos length

/-- All chunks have the length of an id, so none is refused. -/
theorem multipleFromVec_eq (v : Bytes) :
    ∃ ids, multipleFromVec v = .ok ids ∧ ids.map Subtype.val = chunksExact 20 v := by
  have sized : ∀ chunk ∈ chunksExact 20 v, chunk.length = 20 :=
    fun chunk member => length_of_mem_chunksExact member
  rw [multipleFromVec]
  generalize chunksExact 20 v = chunks at sized
  induction chunks with
  | nil => exact ⟨[], rfl, rfl⟩
  | cons chunk chunks ih =>
      rcases List.forall_mem_cons.mp sized with ⟨length, others⟩
      rcases ih others with ⟨ids, read, ids_eq⟩
      refine ⟨⟨chunk, length⟩ :: ids, ?_, ?_⟩
      · rw [List.mapM_cons, fromSlice_eq length, read]
        rfl
      · rw [List.map_cons, ids_eq]

/-- A byte has fewer than eight leading zeros unless it is zero. -/
theorem leadingZeros_lt_iff (byte : UInt8) : leadingZeros byte < 8 ↔ byte ≠ 0 := by
  have agreement : Prefix.common (byteBits byte) (byteBits 0) = leadingZeros byte := by
    rw [common_byteBits, UInt8.xor_zero]
  have upTo : leadingZeros byte ≤ 8 := agreement ▸ Prefix.common_le_left _ _
  have equal : leadingZeros byte = 8 ↔ byte = 0 := by
    have lengths : (byteBits byte).length = (byteBits 0).length := rfl
    rw [← agreement, ← length_byteBits byte, Prefix.common_eq_length_iff lengths,
      byteBits_injective.eq_iff]
  constructor
  · rintro less rfl
    exact absurd (equal.mpr rfl) (Nat.ne_of_lt less)
  · intro nonzero
    exact Nat.lt_of_le_of_ne upTo (mt equal.mp nonzero)

theorem commonPrefixLengthLoop_eq {first second : Bytes} (lengths : first.length = second.length)
    (result : Nat) :
    commonPrefixLengthLoop (List.zipWith (· ^^^ ·) first second) result =
      result + Prefix.common (first.flatMap byteBits) (second.flatMap byteBits) := by
  induction first generalizing second result with
  | nil => simp [commonPrefixLengthLoop]
  | cons a first ih =>
      cases second with
      | nil => cases lengths
      | cons b second =>
          rw [List.zipWith_cons_cons, commonPrefixLengthLoop, common_bits_cons]
          by_cases same : a = b
          · have zeros : leadingZeros (a ^^^ b) = 8 := by
              rw [same, UInt8.xor_self]
              rfl
            simp only [zeros, Nat.lt_irrefl, if_false, if_pos same]
            rw [ih (Nat.succ.inj lengths), Nat.add_assoc]
          · have differs : leadingZeros (a ^^^ b) < 8 := by
              rw [leadingZeros_lt_iff]
              intro zero
              exact same (UInt8.xor_eq_zero_iff.mp zero)
            simp only [if_pos differs, if_neg same]

/-- The loop over the distance counts the leading bits two ids share. -/
theorem commonPrefixLength_eq (a b : NodeId) : commonPrefixLength a b = prefixLength a b := by
  rw [commonPrefixLength, distance,
    commonPrefixLengthLoop_eq (a.property.trans b.property.symm), Nat.zero_add]
  rfl

end MainlineDht.Rust
