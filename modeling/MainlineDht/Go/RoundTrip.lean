import MainlineDht.Go.BencodeVerdicts

/-!
# The Go codec round trip

Encoding writes canonical notation, in the order of the keys whatever order the
map yields them in.  Decoding reads it back, with anything behind it, unless an
integer inside is the smallest `int`: the sign is read apart from the digits,
and the digits of `-2 ^ 63` alone exceed an `int`.
-/

namespace MainlineDht.Go

open Effect Ordered Text Bencode

/-- The limits of a value without the smallest `int`. -/
abbrev symmetricLimits : Limits where
  int n := -2 ^ 63 < n ∧ n < 2 ^ 63
  len n := n < 2 ^ 63

theorem encodeItems_eq_flatMap (l : List Value) : encodeItems l = l.flatMap encode := by
  induction l with
  | nil => rfl
  | cons v l ih => rw [encodeItems, ih, List.flatMap_cons]

theorem encodeEntries_eq_map (d : List (Bytes × Value)) :
    encodeEntries d = d.map fun entry => (entry.1, encode entry.2) := by
  induction d with
  | nil => rfl
  | cons entry d ih => rw [encodeEntries, ih, List.map_cons]

/-- Sorting the keys of a sorted map changes nothing. -/
theorem mergeSort_keys {d : List (Bytes × Value)} (sorted : Entries.Sorted d) :
    (d.map Prod.fst).mergeSort = d.map Prod.fst := by
  apply List.mergeSort_of_pairwise
  rw [List.pairwise_map]
  apply sorted.imp
  intro first second below
  simpa using le_of_lt below

/-- The encoding of a value is its canonical notation. -/
theorem encode_eq_write {v : Value} {limits : Limits} (within : v.Within limits) :
    encode v = write v := by
  induction within with
  | int _ => rfl
  | bytes _ => rfl
  | @list l _ ih =>
      rw [encode, write, encodeItems_eq_flatMap, writeItems_eq_flatMap]
      congr 2
      exact List.flatMap_congr ih
  | @dict d sorted _ _ ih =>
      rw [encode, write, mergeSort_keys sorted, encodeEntries_eq_map, writeEntries_eq_flatMap,
        List.flatMap_map]
      congr 2
      apply List.flatMap_congr
      intro entry member
      rw [Entries.lookup_map, Entries.lookup_of_mem sorted member, Option.map_some,
        Option.getD_some, ih entry member]
      rfl

/-- The decoders read every numeral the encoders write, but for the smallest `int`. -/
theorem dialect_covers : dialect.Covers symmetricLimits where
  int {n} held := by
    unfold symmetricLimits at held
    exact ⟨Decimal.signed_decimalInt n, by omega⟩
  len {n} held := ⟨.plain (Decimal.digits_decimal n), held⟩
  keyLen {n} held := ⟨.plain (Decimal.digits_decimal n), held⟩

/-- What the decoders return is free of the smallest `int`. -/
theorem dialect_respects : dialect.Respects symmetricLimits where
  int {word n} numeral := by
    unfold symmetricLimits
    have bounded := numeral.2
    omega
  len numeral := numeral.2
  keyLen numeral := numeral.2

/-- Decoding the encoding of `v` in front of `rest` gives `v` back and stops at
the start of `rest`. -/
def RoundTrips (v : BencodeValue) (rest : Bytes) : Prop :=
  Traced.run (decodeScannerBencodeValue (decodeFuel (encode v.val ++ rest)))
      (newScanner (encode v.val ++ rest)) =
    .ok (.ok v.val, Scanner.after (encode v.val) rest)

/-- What comes back from the decoder has no smallest `int` inside. -/
theorem RoundTrips.within {v : BencodeValue} {rest : Bytes} (returns : RoundTrips v rest)
    (fits : (encode v.val ++ rest).length < 2 ^ 63) : v.val.Within symmetricLimits := by
  obtain ⟨word, _, _, derives, _⟩ := (decodeBencodeValue_verdict _ fits).derived_of_ok returns
  exact derives.within dialect_respects

/-- A value survives encoding and decoding exactly when the smallest `int`
occurs nowhere inside it. -/
theorem roundTrips_iff_within (v : BencodeValue) (rest : Bytes)
    (fits : (encode v.val ++ rest).length < 2 ^ 63) :
    RoundTrips v rest ↔ v.val.Within symmetricLimits := by
  constructor
  · exact fun returns => returns.within fits
  · intro within
    have derives := derives_write dialect_covers v.val within
    rw [← encode_eq_write within] at derives
    have reads := reads_of_derives derives [] rest
      (by simp only [List.length_append, List.nil_append] at fits ⊢; omega)
    exact reads _ (by unfold decodeFuel; simp only [List.length_append]; omega)

/-- The list of the integer -7 in front of a digit. -/
theorem roundTrips_iff_within_list :
    RoundTrips ⟨.list [.int (-7)], .list (by simpa using .int (by decide))⟩ [49] := by
  apply (roundTrips_iff_within _ [49] (by decide)).mpr
  apply Value.Within.list
  simpa using Value.Within.int (by decide)

/-- The smallest `int` is encoded and does not decode. -/
theorem not_roundTrips_minInt : ¬ RoundTrips ⟨.int (-2 ^ 63), .int (by decide)⟩ [] := by
  intro returns
  cases returns.within (by decide) with
  | int held => exact absurd held.1 (by decide)

end MainlineDht.Go
