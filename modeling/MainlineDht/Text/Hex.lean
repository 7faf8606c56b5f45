import MainlineDht.Text.Decimal
import MainlineDht.Sequence.Chunks

/-!
# Hexadecimal notation of bytes

Every byte is written as two digits, the letters in lower case.  A reader takes
letters in either case; so what is read as some bytes is their notation up to
the case of the letters.
-/

namespace MainlineDht.Text.Hex

open Sequence

/-- The number a hexadecimal digit stands for, in either case. -/
def digitValue (byte : UInt8) : Option Nat :=
  if 48 ≤ byte ∧ byte ≤ 57 then some (byte.toNat - 48)
  else if 97 ≤ byte ∧ byte ≤ 102 then some (byte.toNat - 87)
  else if 65 ≤ byte ∧ byte ≤ 70 then some (byte.toNat - 55)
  else none

/-- The lower-case digit of a number below 16. -/
def digit (n : Nat) : UInt8 :=
  UInt8.ofNat (if n < 10 then 48 + n else 87 + n)

/-- ASCII letters in lower case. -/
def lower (byte : UInt8) : UInt8 :=
  if 65 ≤ byte ∧ byte ≤ 90 then byte + 32 else byte

/-- The two digits of a byte. -/
def pair (byte : UInt8) : Bytes :=
  [digit (byte.toNat / 16), digit (byte.toNat % 16)]

/-- The notation of some bytes. -/
def hex (bytes : Bytes) : Bytes :=
  bytes.flatMap pair

theorem toNat_digit {n : Nat} (small : n < 16) :
    (digit n).toNat = if n < 10 then 48 + n else 87 + n := by
  rw [digit, UInt8.toNat_ofNat']
  apply Nat.mod_eq_of_lt
  split <;> omega

theorem toNat_lower (byte : UInt8) : (lower byte).toNat =
    if 65 ≤ byte.toNat ∧ byte.toNat ≤ 90 then byte.toNat + 32 else byte.toNat := by
  simp only [lower, UInt8.le_iff_toNat_le, UInt8.reduceToNat]
  split
  · rw [UInt8.toNat_add]
    show (byte.toNat + 32) % 256 = byte.toNat + 32
    omega
  · rfl

/-- A reader takes a byte for a number exactly if the byte is its digit in one
of the two cases. -/
theorem digitValue_eq_some_iff {byte : UInt8} {n : Nat} :
    digitValue byte = some n ↔ n < 16 ∧ lower byte = digit n := by
  simp only [digitValue, UInt8.le_iff_toNat_le, UInt8.reduceToNat]
  constructor
  · intro isValue
    have small : n < 16 := by split_ifs at isValue <;> cases isValue <;> omega
    rw [← UInt8.toNat_inj, toNat_digit small, toNat_lower]
    refine ⟨small, ?_⟩
    split_ifs at isValue <;> cases isValue <;> split_ifs <;> omega
  · rintro ⟨small, isLower⟩
    rw [← UInt8.toNat_inj, toNat_digit small, toNat_lower] at isLower
    split_ifs at isLower ⊢ <;> first | exact congrArg some (by omega) | omega

/-- Two digits are read as a byte exactly if they are its digits. -/
theorem map_lower_eq_pair_iff {first second byte : UInt8} :
    [first, second].map lower = pair byte ↔
      ∃ high low, digitValue first = some high ∧ digitValue second = some low ∧
        byte.toNat = 16 * high + low := by
  have bound := byte.toNat_lt
  constructor
  · intro same
    rcases List.cons.inj same with ⟨sameHigh, others⟩
    have sameLow := (List.cons.inj others).1
    exact ⟨byte.toNat / 16, byte.toNat % 16, digitValue_eq_some_iff.mpr ⟨by omega, sameHigh⟩,
      digitValue_eq_some_iff.mpr ⟨by omega, sameLow⟩, (Nat.div_add_mod _ _).symm⟩
  · rintro ⟨high, low, isHigh, isLow, byte_eq⟩
    rcases digitValue_eq_some_iff.mp isHigh with ⟨_, sameHigh⟩
    rcases digitValue_eq_some_iff.mp isLow with ⟨smallLow, sameLow⟩
    have high_eq : byte.toNat / 16 = high := by omega
    have low_eq : byte.toNat % 16 = low := by omega
    rw [pair, high_eq, low_eq, ← sameHigh, ← sameLow]
    rfl

theorem length_hex (bytes : Bytes) : (hex bytes).length = 2 * bytes.length := by
  induction bytes with
  | nil => rfl
  | cons byte bytes ih =>
      rw [hex, List.flatMap_cons, List.length_append, ← hex, ih]
      show 2 + 2 * bytes.length = 2 * (bytes.length + 1)
      omega

/-- A text of pairs is the notation of some bytes exactly if its pairs are theirs. -/
theorem map_lower_eq_hex_iff {text bytes : Bytes} (even : 2 ∣ text.length) :
    text.map lower = hex bytes ↔
      (chunksExact 2 text).map (List.map lower) = bytes.map pair := by
  rw [← chunksExact_map]
  constructor
  · intro same
    rw [same]
    exact chunksExact_flatMap (by decide) (fun _ _ => rfl)
  · intro same
    have whole := @flatten_chunksExact _ 2 (text.map lower) (by decide) (by rwa [List.length_map])
    rw [← whole, same]
    exact List.flatMap_def.symm

end MainlineDht.Text.Hex
