import MainlineDht.Ordered.Entries
import MainlineDht.Text.Decimal
import Mathlib.Data.List.Flatten

/-!
# Bencode values

A value is an integer, a byte string, a list or a dictionary keyed by byte
strings.  Dictionaries are finite maps, kept as sorted entry lists; `Within`
says that every dictionary inside a value is a map in this sense and that its
integers and string lengths stay inside given limits.
-/

namespace MainlineDht

/-- Bytes in numeric order, which orders byte strings lexicographically. -/
instance byteLinearOrder : LinearOrder UInt8 where
  le_refl byte := Nat.le_refl byte.toNat
  le_trans _ _ _ := Nat.le_trans
  le_antisymm _ _ := UInt8.le_antisymm
  le_total := UInt8.le_total
  lt_iff_le_not_ge first second := by
    rw [UInt8.lt_iff_toNat_lt, UInt8.le_iff_toNat_le, UInt8.le_iff_toNat_le]
    omega
  toDecidableLE := inferInstance

namespace Bencode

open Ordered Text

/-- A bencode value. -/
inductive Value
  | int (n : Int)
  | bytes (content : Bytes)
  | list (items : List Value)
  | dict (entries : List (Bytes × Value))

/-- The integers and the string lengths an implementation can hold. -/
structure Limits where
  int : Int → Prop
  len : Nat → Prop

/-- Every dictionary is sorted, and integers and lengths stay within limits. -/
inductive Value.Within (limits : Limits) : Value → Prop
  | int {n : Int} : limits.int n → Within limits (.int n)
  | bytes {content : Bytes} : limits.len content.length → Within limits (.bytes content)
  | list {items : List Value} :
      (∀ item ∈ items, Within limits item) → Within limits (.list items)
  | dict {entries : List (Bytes × Value)} : Entries.Sorted entries →
      (∀ entry ∈ entries, limits.len entry.1.length) →
      (∀ entry ∈ entries, Within limits entry.2) → Within limits (.dict entries)

/-- A dictionary made of bindings within the limits is within them. -/
theorem Value.Within.ofList {limits : Limits} {bindings : List (Bytes × Value)}
    (within : ∀ binding ∈ bindings, limits.len binding.1.length ∧ binding.2.Within limits) :
    (Value.dict (Entries.ofList bindings)).Within limits := by
  refine .dict (Entries.ofList_sorted bindings) ?_ ?_ <;> intro entry member
  · exact (within entry (Entries.mem_of_mem_ofList member)).1
  · exact (within entry (Entries.mem_of_mem_ofList member)).2

/-- Wider limits admit the value, too. -/
theorem Value.Within.mono {limits wider : Limits} {v : Value} (within : v.Within limits)
    (int : ∀ n, limits.int n → wider.int n) (len : ∀ n, limits.len n → wider.len n) :
    v.Within wider := by
  induction within with
  | int fits => exact .int (int _ fits)
  | bytes fits => exact .bytes (len _ fits)
  | list _ ih => exact .list ih
  | dict sorted keysFit _ ih => exact .dict sorted (fun entry member => len _ (keysFit entry member)) ih

/-- A byte string as it is written: its length, a colon and its content. -/
def writeBytes (content : Bytes) : Bytes :=
  Decimal.decimal content.length ++ 58 :: content

mutual

/-- Canonical notation: decimal numerals without leading zeros, dictionaries in
key order. -/
def write : Value → Bytes
  | .int n => 105 :: (Decimal.decimalInt n ++ [101])
  | .bytes content => writeBytes content
  | .list items => 108 :: (writeItems items ++ [101])
  | .dict entries => 100 :: (writeEntries entries ++ [101])

/-- The notations of list items, one after the other. -/
def writeItems : List Value → Bytes
  | [] => []
  | item :: items => write item ++ writeItems items

/-- The notations of dictionary entries, one after the other. -/
def writeEntries : List (Bytes × Value) → Bytes
  | [] => []
  | (key, value) :: entries => writeBytes key ++ (write value ++ writeEntries entries)

end

theorem writeItems_eq_flatMap (items : List Value) : writeItems items = items.flatMap write := by
  induction items with
  | nil => rfl
  | cons item items ih => rw [writeItems, ih, List.flatMap_cons]

theorem writeEntries_eq_flatMap (entries : List (Bytes × Value)) :
    writeEntries entries = entries.flatMap fun entry => writeBytes entry.1 ++ write entry.2 := by
  induction entries with
  | nil => rfl
  | cons entry entries ih => rw [writeEntries, ih, List.flatMap_cons, List.append_assoc]

/-- A dictionary without some of its entries is written no longer. -/
theorem length_write_filter_le (chosen : Bytes × Value → Bool) (entries : List (Bytes × Value)) :
    (write (.dict (entries.filter chosen))).length ≤ (write (.dict entries)).length := by
  have part : (entries.filter chosen).Sublist entries := List.filter_sublist
  have shorter := (part.flatMap fun entry => writeBytes entry.1 ++ write entry.2).length_le
  simp only [write, writeEntries_eq_flatMap, List.length_cons, List.length_append]
  omega

/-- A value inside a dictionary is written no longer than the dictionary. -/
theorem length_write_le_of_mem {entry : Bytes × Value} {entries : List (Bytes × Value)}
    (member : entry ∈ entries) : (write entry.2).length ≤ (write (.dict entries)).length := by
  have part : [entry].Sublist entries := List.singleton_sublist.mpr member
  have shorter := (part.flatMap fun entry => writeBytes entry.1 ++ write entry.2).length_le
  simp only [write, writeEntries_eq_flatMap, List.flatMap_singleton, List.length_cons,
    List.length_append] at shorter ⊢
  omega

/-- The length of a byte string takes few digits. -/
theorem length_writeBytes_le_of_lt {content : Bytes} {count : Nat} (positive : 0 < count)
    (small : content.length < 10 ^ count) :
    (writeBytes content).length ≤ content.length + count + 1 := by
  have digits := (Nat.length_toDigits_le_iff (by decide) positive).mpr small
  simp only [writeBytes, Decimal.decimal, List.length_append, List.length_map, List.length_cons]
  omega

/-- A byte string that is a little longer takes one more digit at most. -/
theorem length_writeBytes_le_of_longer {content longer : Bytes} {more : Nat}
    (length : longer.length = content.length + more) (few : more ≤ 90) :
    (writeBytes longer).length ≤ (writeBytes content).length + more + 1 := by
  have positive : 0 < (Nat.toDigits 10 content.length).length := Nat.length_toDigits_pos
  have small := (Nat.length_toDigits_le_iff (by decide : 1 < 10) positive).mp (Nat.le_refl _)
  have digits : (Nat.toDigits 10 longer.length).length ≤
      (Nat.toDigits 10 content.length).length + 1 := by
    apply (Nat.length_toDigits_le_iff (by decide : 1 < 10) (Nat.succ_pos _)).mpr
    have ten := Nat.pow_le_pow_right (by decide : 0 < 10) positive
    rw [Nat.pow_succ, length]
    omega
  simp only [writeBytes, Decimal.decimal, List.length_append, List.length_map, List.length_cons]
  omega

end Bencode

end MainlineDht
