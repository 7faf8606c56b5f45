import MainlineDht.Bencode.Unambiguous
import MainlineDht.Go.BencodeLanguage
import MainlineDht.Interop.Codecs

/-!
# What both decoders return

The decoders differ in the numerals they admit.  Where both return from the same
text, they have read the same word and the same value, and the numerals of the
word are those that both admit.
-/

namespace MainlineDht.Interop

open Effect Ordered Text Bencode

theorem signed_of_sharedInt {word : Bytes} {n : Int}
    (numeral : Decimal.Signed word n ∧ n.natAbs < 2 ^ 63) : Decimal.Signed word n :=
  numeral.1

theorem signed_of_sharedLen {word : Bytes} {n : Nat}
    (numeral : Decimal.Digits word n ∧ n < 2 ^ 63) : Decimal.Signed word n :=
  .plain numeral.1

/-- The numerals that both decoders read: string lengths outside of keys have no
sign, integers stay clear of `-2 ^ 63`. -/
def sharedDialect : Dialect where
  int word n := Decimal.Signed word n ∧ n.natAbs < 2 ^ 63
  len word n := Decimal.Digits word n ∧ n < 2 ^ 63
  keyLen word n := Decimal.Signed word n ∧ n < 2 ^ 63
  int_signed := @signed_of_sharedInt
  len_signed := @signed_of_sharedLen
  keyLen_signed := @Rust.signed_of_keyLen

variable {phrase : Phrase} {word : Bytes}

theorem shared_of_inter (derives : Derives (Rust.dialect.inter Go.dialect) phrase word) :
    Derives sharedDialect phrase word := by
  apply derives.mono
  · exact fun _ _ both => both.2
  · exact fun _ _ both => both.1
  · exact fun _ _ both => both.2

theorem rust_of_shared (derives : Derives sharedDialect phrase word) :
    Derives Rust.dialect phrase word := by
  apply derives.mono
  · rintro word n ⟨signed, small⟩
    exact ⟨signed, by unfold Rust.InI64; omega⟩
  · exact fun _ _ numeral => numeral
  · exact fun _ _ numeral => numeral

theorem go_of_shared (derives : Derives sharedDialect phrase word) :
    Derives Go.dialect phrase word := by
  apply derives.mono
  · exact fun _ _ numeral => numeral
  · rintro word n ⟨digits, small⟩
    exact ⟨.plain digits, small⟩
  · exact fun _ _ numeral => numeral

/-- The Rust decoder returns the value after as many bytes. -/
def RustReturns (s : Bytes) (v : Value) (n : Nat) : Prop :=
  ∃ c, Rust.decode s = .ok (v, c) ∧ c.position = n

variable {s : Bytes} {v : Value} {n : Nat}

theorem RustReturns.derived (returns : RustReturns s v n) (fits : s.length < 2 ^ 63) :
    ∃ word rest, s = word ++ rest ∧ n = word.length ∧ Derives Rust.dialect (.value v) word := by
  rcases returns with ⟨c, decoded, rfl⟩
  rcases (Rust.decode_verdict s fits).derived_of_ok decoded with ⟨word, rest, text_eq, derives, rfl⟩
  exact ⟨word, rest, text_eq, rfl, derives⟩

theorem GoReturns.derived (returns : GoReturns s v n) (fits : s.length < 2 ^ 63) :
    ∃ word rest, s = word ++ rest ∧ n = word.length ∧ Derives Go.dialect (.value v) word := by
  rcases returns with ⟨c, decoded, position⟩
  rcases (Go.decodeBencodeValue_verdict s fits).derived_of_ok decoded with
    ⟨word, rest, text_eq, derives, rfl⟩
  exact ⟨word, rest, text_eq, (Int.ofNat.inj position).symm, derives⟩

/-- Two results of the decoders from one text are the same value after the same
bytes, and the bytes derive it with shared numerals; for all such bytes there
are these results. -/
theorem both_return_iff (s : Bytes) (fits : s.length < 2 ^ 63) (v v' : Value) (n n' : Nat) :
    RustReturns s v n ∧ GoReturns s v' n' ↔
      v = v' ∧ n = n' ∧ n ≤ s.length ∧ Derives sharedDialect (.value v) (s.take n) := by
  constructor
  · rintro ⟨rustReturns, goReturns⟩
    rcases rustReturns.derived fits with ⟨word, rest, rfl, rfl, derives⟩
    rcases goReturns.derived fits with ⟨word', rest', same, rfl, derives'⟩
    rcases derives.unique derives' same with ⟨rfl, rfl, both⟩
    rw [List.take_left, List.length_append]
    exact ⟨rfl, rfl, Nat.le_add_right _ _, shared_of_inter both⟩
  · rintro ⟨rfl, rfl, upTo, derives⟩
    have size : (s.take n).length = n := List.length_take_of_le upTo
    have small : (s.take n).length < 2 ^ 63 := by
      rw [size]
      exact Nat.lt_of_le_of_lt upTo fits
    have rustDecoded := Rust.decode_of_derives (rust_of_shared derives) (s.drop n)
    have goDecoded := Go.decodeBencodeValue_append (go_of_shared derives) small (s.drop n)
    rw [List.take_append_drop] at rustDecoded goDecoded
    exact ⟨⟨_, rustDecoded, size⟩, ⟨_, goDecoded, congrArg Int.ofNat size⟩⟩

/-- `d+1:ai-07ee` before a spare byte: the key has a signed length. -/
theorem both_return_iff_dict :
    RustReturns [100, 43, 49, 58, 97, 105, 45, 48, 55, 101, 101, 101] (.dict [([97], .int (-7))]) 11 ∧
      GoReturns [100, 43, 49, 58, 97, 105, 45, 48, 55, 101, 101, 101] (.dict [([97], .int (-7))])
        11 := by
  apply (both_return_iff _ (by decide +kernel) _ _ 11 11).mpr
  have keyLen : sharedDialect.keyLen [43, 49] 1 :=
    ⟨.plus ⟨by decide, List.all_eq_true.mp rfl, rfl⟩, by decide +kernel⟩
  have int : sharedDialect.int [45, 48, 55] (-7) :=
    ⟨.minus ⟨by decide, List.all_eq_true.mp rfl, rfl⟩, by decide +kernel⟩
  have binding := @Derives.entry sharedDialect _ [97] _ _ _ _ keyLen (.int int) .noEntries
  exact ⟨rfl, rfl, by decide, .dict binding⟩

end MainlineDht.Interop
