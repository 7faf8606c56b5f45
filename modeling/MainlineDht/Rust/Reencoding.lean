import MainlineDht.Bencode.Canonical
import MainlineDht.Rust.RoundTrip

/-!
# Encoding what the Rust decoder has read

The decoder admits signs, leading zeros and keys in any order, which the encoder
never writes.  So what it has read is encoded to the same bytes exactly if these
are canonical.
-/

namespace MainlineDht.Rust

open Text Bencode

open Cursor (after)

theorem dialect_respects : dialect.Respects limits where
  int numeral := numeral.2
  len numeral := numeral.2
  keyLen numeral := numeral.2

/-- A decoded value is encoded to the bytes it was read from exactly if these
are canonical. -/
theorem encode_eq_consumed_iff (s : Bytes) (fits : s.length < 2 ^ 63) (v : Value) (c : Cursor)
    (decoded : decode s = .ok (v, c)) :
    encode v = s.take c.position ↔ Canonical .value (s.take c.position) := by
  rcases (decode_verdict s fits).derived_of_ok decoded with ⟨word, rest, rfl, derives, rfl⟩
  have consumed : (word ++ rest).take (after ([] ++ word) rest).position = word :=
    List.take_left
  rw [consumed, encode_eq_write]
  exact derives.write_eq_iff dialect_respects

/-- `d1:ai-7e1:bi0ee` with a byte behind it. -/
theorem encode_eq_consumed_iff_dict :
    ∃ v c, decode [100, 49, 58, 97, 105, 45, 55, 101, 49, 58, 98, 105, 48, 101, 101, 0] =
        .ok (v, c) ∧
      encode v = [100, 49, 58, 97, 105, 45, 55, 101, 49, 58, 98, 105, 48, 101, 101] := by
  have one : Decimal.Unpadded [49] := ⟨by decide, List.all_eq_true.mp rfl, by decide⟩
  have seven : Decimal.Unpadded [55] := ⟨by decide, List.all_eq_true.mp rfl, by decide⟩
  have keyLen : dialect.keyLen [49] 1 :=
    ⟨.plain ⟨by decide, List.all_eq_true.mp rfl, rfl⟩, by decide +kernel⟩
  have negative : dialect.int [45, 55] (-7) :=
    ⟨.minus ⟨by decide, List.all_eq_true.mp rfl, rfl⟩, by decide +kernel⟩
  have zero : dialect.int [48] 0 :=
    ⟨.plain ⟨by decide, List.all_eq_true.mp rfl, rfl⟩, by decide +kernel⟩
  have last := @Derives.entry dialect _ [98] _ _ _ _ keyLen (.int zero) .noEntries
  have derived := Derives.dict (@Derives.entry dialect _ [97] _ _ _ _ keyLen (.int negative) last)
  have decoded := decode_of_derives derived [0]
  refine ⟨_, _, decoded, (encode_eq_consumed_iff _ (by decide +kernel) _ _ decoded).mpr ?_⟩
  have lastEntry := @Canonical.entry _ [98] _ _ _ (.positive one) rfl
    (.int (.natural .zero)) .noEntries
  have entries := @Canonical.entry _ [97] _ _ _ (.positive one) rfl
    (.int (.negative seven)) lastEntry
  exact .dict entries (by decide)

end MainlineDht.Rust
