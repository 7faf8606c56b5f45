import MainlineDht.NodeId.Bits
import Mathlib.Data.List.Basic
import Mathlib.Data.Nat.Bitwise

/-!
# Node ids and contacts in Go

The functions of `node_info.go` on ids, and what they compute in terms of bits.
An index out of range panics; the result is then `none`.
-/

namespace MainlineDht.Go

open NodeId

/-- The fields of a `net.UDPAddr`. -/
structure UDPAddr where
  ip : Bytes
  port : Int
  zone : Bytes
  deriving DecidableEq

/-- A node id, and the address at which its node is reached. -/
structure NodeInfo where
  nodeId : NodeId
  address : UDPAddr
  deriving DecidableEq

/-- `none` is the panic of an index past the twenty bytes. -/
def isBitSet (n : NodeId) (index : Nat) : Option Bool :=
  n.val[index / 8]?.map fun byte => (byte &&& (1 <<< UInt8.ofNat (7 - index % 8))) != 0

/-- `bytes.Equal(n[:], other[:])` -/
def isEqual (n other : NodeId) : Bool :=
  n.val == other.val

/-- The loop of `commonPrefixLength`, which adds to `result` until the bytes
differ. -/
def commonPrefixLengthLoop : Bytes → Bytes → Nat → Nat
  | a :: as, b :: bs, result =>
      if a ≠ b then result + leadingZeros (a ^^^ b)
      else commonPrefixLengthLoop as bs (result + 8)
  | _, _, result => result

/-- The number of leading bits that two ids share, counted byte by byte. -/
def commonPrefixLength (a b : NodeId) : Nat :=
  commonPrefixLengthLoop a.val b.val 0

/-- `net.IP.To4`: the four bytes of an IPv4 address, also of one in IPv6 form. -/
def to4 (ip : Bytes) : Option Bytes :=
  if ip.length = 4 then some ip
  else if ip.length = 16 ∧ ip.take 12 = List.replicate 10 0 ++ [255, 255] then some (ip.drop 12)
  else none

/-- `binary.BigEndian.AppendUint16(nil, uint16(n))` -/
def appendUint16 (n : Int) : Bytes :=
  let v := (n % 2 ^ 16).toNat
  [UInt8.ofNat (v / 256), UInt8.ofNat (v % 256)]

/-- Nothing is appended for an address that is not IPv4. -/
def compactNodeInfo (n : NodeInfo) : Bytes :=
  n.nodeId.val ++ (to4 n.address.ip).getD [] ++ appendUint16 n.address.port

/-- `net.IPv4` of the four bytes, in IPv6 form. -/
def ipv4 (bytes : Bytes) : Bytes :=
  List.replicate 10 0 ++ [255, 255] ++ bytes

/-- `binary.BigEndian.Uint16` -/
def uint16 (bytes : Bytes) : Int :=
  (bytes.foldl (fun read byte => 256 * read + byte.toNat) 0 : Nat)

/-- The error of `decodeCompactNodeInfo` and its text. -/
structure CompactNodeInfoError where
  got : Nat

/-- The text says how many bytes there were. -/
def CompactNodeInfoError.message (err : CompactNodeInfoError) : String :=
  "decoding compact node info: expected 26 bytes, got " ++ toString err.got

/-- Twenty bytes of id, four of address and two of port. -/
def decodeCompactNodeInfo (data : Bytes) : Except CompactNodeInfoError NodeInfo :=
  if length : data.length = 26 then
    .ok
      { nodeId := ⟨data.take 20, by rw [List.length_take, length]; rfl⟩
        address :=
          { ip := ipv4 ((data.drop 20).take 4), port := uint16 (data.drop 24), zone := [] } }
  else .error ⟨data.length⟩

@[simp]
theorem isEqual_iff (n other : NodeId) : isEqual n other = true ↔ n = other := by
  rw [isEqual, beq_iff_eq, Subtype.ext_iff]

/-- The mask of `isBitSet` picks one bit. -/
theorem mask_ne_zero (byte : UInt8) {k : Nat} (small : k < 8) :
    ((byte &&& (1 <<< UInt8.ofNat k)) != 0) = byte.toNat.testBit k := by
  have mask : (1 <<< UInt8.ofNat k : UInt8).toNat = 2 ^ k := by
    interval_cases k <;> rfl
  rw [Bool.eq_iff_iff, bne_iff_ne, ne_eq, ← UInt8.toNat_inj, UInt8.toNat_and, mask,
    Nat.and_two_pow]
  cases byte.toNat.testBit k <;> simp

/-- `isBitSet` reads the bits of an id. -/
theorem isBitSet_eq (n : NodeId) (index : Nat) : isBitSet n index = n.bits[index]? := by
  rw [isBitSet, bits, getElem?_bits_of_bytes]
  congr 1
  funext byte
  exact mask_ne_zero byte (by omega)

theorem commonPrefixLengthLoop_eq (first second : Bytes) (result : Nat) :
    commonPrefixLengthLoop first second result =
      result + Prefix.common (first.flatMap byteBits) (second.flatMap byteBits) := by
  induction first generalizing second result with
  | nil => simp [commonPrefixLengthLoop]
  | cons a first ih =>
      cases second with
      | nil => simp [commonPrefixLengthLoop]
      | cons b second =>
          rw [commonPrefixLengthLoop, common_bits_cons]
          by_cases same : a = b
          · rw [if_neg (not_not.mpr same), if_pos same, ih, Nat.add_assoc]
          · rw [if_pos same, if_neg same]

/-- The byte-wise loop counts the leading bits two ids share. -/
theorem commonPrefixLength_eq (a b : NodeId) : commonPrefixLength a b = prefixLength a b := by
  rw [commonPrefixLength, commonPrefixLengthLoop_eq, Nat.zero_add]
  rfl

end MainlineDht.Go
