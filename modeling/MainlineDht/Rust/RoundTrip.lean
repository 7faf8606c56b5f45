import MainlineDht.Rust.BencodeLanguage

/-!
# The Rust codec round trip

Encoding writes canonical notation, which the decoder reads back with anything
behind it.  So no encoding is the beginning of another.
-/

namespace MainlineDht.Rust

open Effect Ordered Text Bencode

/-- `Bencode` -/
abbrev Bencode : Type := { value : Value // value.Within limits }

theorem encodeBytes_eq_writeBytes (v : Bytes) : encodeBytes v = writeBytes v := by
  rw [encodeBytes, writeBytes, List.append_assoc, List.singleton_append]

mutual

/-- The encoding of a value is its canonical notation. -/
theorem encode_eq_write : ∀ v : Value, encode v = write v
  | .bytes v => by rw [encode, write, encodeBytes_eq_writeBytes]
  | .int v => by rw [encode, write, List.append_assoc, List.singleton_append]
  | .list values => by
      rw [encode, write, encodeItems_eq_writeItems values, List.append_assoc, List.singleton_append]
  | .dict map => by
      rw [encode, write, encodeEntries_eq_writeEntries map, List.append_assoc,
        List.singleton_append]

theorem encodeItems_eq_writeItems : ∀ values : List Value, encodeItems values = writeItems values
  | [] => rfl
  | v :: values => by
      rw [encodeItems, writeItems, encode_eq_write v, encodeItems_eq_writeItems values]

theorem encodeEntries_eq_writeEntries :
    ∀ map : List (Bytes × Value), encodeEntries map = writeEntries map
  | [] => rfl
  | (k, v) :: map => by
      rw [encodeEntries, writeEntries, encodeBytes_eq_writeBytes, encode_eq_write v,
        encodeEntries_eq_writeEntries map, List.append_assoc]

end

/-- The decoder reads every numeral that the encoder writes. -/
theorem dialect_covers : dialect.Covers limits where
  int {n} held := ⟨Decimal.signed_decimalInt n, held⟩
  len {n} held := ⟨Decimal.digits_decimal n, held⟩
  keyLen {n} held := ⟨.plain (Decimal.digits_decimal n), held⟩

/-- Decoding the encoding of a value gives it back, and the cursor stops at what follows. -/
theorem decode_encode (v : Bencode) (rest : Bytes) :
    decode (encode v.val ++ rest) = .ok (v.val, Cursor.after (encode v.val) rest) := by
  have derives := derives_write dialect_covers v.val v.property
  rw [encode_eq_write]
  exact decode_of_derives derives rest

/-- Only a value's own encoding can begin its encoding. -/
theorem eq_of_isPrefix_encode {v w : Bencode} (isPrefix : encode v.val <+: encode w.val) : v = w := by
  obtain ⟨rest, encode_eq⟩ := isPrefix
  have whole := decode_encode w []
  rw [List.append_nil, ← encode_eq, decode_encode v rest] at whole
  exact Subtype.ext (Prod.mk.inj (Except.ok.inj whole)).1

/-- The round trip with trailing data, and what follows from it: encoding is
injective, and no encoding is a proper prefix of another. -/
theorem decode_encode_and_prefixFree :
    (∀ (v : Bencode) (rest : Bytes),
      decode (encode v.val ++ rest) = .ok (v.val, Cursor.after (encode v.val) rest)) ∧
    (∀ v w : Bencode, encode v.val = encode w.val → v = w) ∧
    ∀ v w : Bencode, encode v.val <+: encode w.val → encode v.val = encode w.val := by
  refine ⟨decode_encode, ?_, ?_⟩
  · intro v w same
    exact eq_of_isPrefix_encode (same ▸ List.prefix_refl _)
  · intro v w isPrefix
    rw [eq_of_isPrefix_encode isPrefix]

end MainlineDht.Rust
