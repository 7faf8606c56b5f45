import MainlineDht.Go.BencodeVerdicts

/-!
# The language of the Go decoders

On derivable bytes the entry points return, and what they return is derived by
the bytes that they have consumed.  So their dialect is exactly their language,
whatever follows the word.
-/

namespace MainlineDht.Go

open Effect Ordered Text Bencode

variable {α : Type}

/-- A decoder that returns on derivable bytes, and else only what it has derived,
returns a result after consuming some bytes exactly if these derive the result. -/
theorem returns_iff_derived {decode : Bytes → Except Fault (Except DecodeError α × Scanner)}
    {derived : α → Bytes → Prop} {s : Bytes} {a : α} (fits : s.length < 2 ^ 63)
    (verdict : Verdict [] s derived False (decode s))
    (returns : ∀ word rest, derived a word → word.length < 2 ^ 63 →
      decode (word ++ rest) = .ok (.ok a, Scanner.after word rest)) (n : Nat) :
    (∃ c, decode s = .ok (.ok a, c) ∧ c.position = n) ↔
      n ≤ s.length ∧ derived a (s.take n) := by
  constructor
  · rintro ⟨c, decoded, position⟩
    rcases verdict.derived_of_ok decoded with ⟨word, rest, rfl, derives, rfl⟩
    cases Int.ofNat.inj position
    rw [List.nil_append, List.take_left, List.length_append]
    exact ⟨Nat.le_add_right _ _, derives⟩
  · rintro ⟨upTo, derives⟩
    have size : (s.take n).length = n := List.length_take_of_le upTo
    have decoded := returns (s.take n) (s.drop n) derives
      (by rw [size]; exact Nat.lt_of_le_of_lt upTo fits)
    rw [List.take_append_drop] at decoded
    exact ⟨_, decoded, congrArg Int.ofNat size⟩

theorem decodeBencodeValue_append {v : Value} {word : Bytes}
    (derives : Derives dialect (.value v) word) (fits : word.length < 2 ^ 63) (rest : Bytes) :
    decodeBencodeValue (word ++ rest) = .ok (.ok v, Scanner.after word rest) := by
  apply reads_of_derives derives [] rest fits
  unfold decodeFuel
  rw [List.length_append]
  omega

theorem decodeBencodeDict_append {d : List (Bytes × Value)} {word : Bytes}
    (derives : Derives dialect (.value (.dict d)) word) (fits : word.length < 2 ^ 63)
    (rest : Bytes) : decodeBencodeDict (word ++ rest) = .ok (.ok d, Scanner.after word rest) := by
  cases derives with
  | @dict word bindings derives =>
      simp only [List.length_cons, List.length_append, List.length_nil] at fits
      have looped := reads_of_derives derives [100] rest
        (by simp only [List.length_cons, List.length_append, List.length_nil]; omega)
        (3 * (100 :: (word ++ [101]) ++ rest).length + 2) []
        (by simp only [List.length_cons, List.length_append, List.length_nil]; omega)
      have entered := run_decodeDict_cons [] (word ++ 101 :: rest)
        (3 * (100 :: (word ++ [101]) ++ rest).length + 2)
      rw [List.nil_append, looped] at entered
      have text_eq : 100 :: (word ++ [101]) ++ rest = 100 :: (word ++ 101 :: rest) := by simp
      rw [text_eq] at entered ⊢
      exact entered

/-- `DecodeBencodeValue` returns a value after consuming some bytes exactly if
these bytes derive the value. -/
theorem decodeBencodeValue_iff_derives (s : Bytes) (fits : s.length < 2 ^ 63) (v : Value)
    (n : Nat) : (∃ c, decodeBencodeValue s = .ok (.ok v, c) ∧ c.position = n) ↔
      n ≤ s.length ∧ Derives dialect (.value v) (s.take n) :=
  returns_iff_derived fits (decodeBencodeValue_verdict s fits)
    (fun _ rest derives small => decodeBencodeValue_append derives small rest) n

/-- `l+1:xe` before another `e`: the length of the string has a sign. -/
theorem decodeBencodeValue_iff_derives_signed :
    ∃ c, decodeBencodeValue [108, 43, 49, 58, 120, 101, 101] = .ok (.ok (.list [.bytes [120]]), c) ∧
      c.position = 6 := by
  apply (decodeBencodeValue_iff_derives _ (by decide +kernel) _ 6).mpr
  have len : dialect.len [43, 49] 1 :=
    ⟨.plus ⟨by decide, List.all_eq_true.mp rfl, rfl⟩, by decide +kernel⟩
  have string := @Derives.bytes dialect _ [120] len
  exact ⟨by decide, .list (.item string .noItems)⟩

/-- So does `DecodeBencodeDict`, for dictionaries. -/
theorem decodeBencodeDict_iff_derives (s : Bytes) (fits : s.length < 2 ^ 63)
    (d : List (Bytes × Value)) (n : Nat) : (∃ c, decodeBencodeDict s = .ok (.ok d, c) ∧ c.position = n) ↔
      n ≤ s.length ∧ Derives dialect (.value (.dict d)) (s.take n) :=
  returns_iff_derived fits (decodeBencodeDict_verdict s fits)
    (fun _ rest derives small => decodeBencodeDict_append derives small rest) n

/-- It returns a dictionary exactly if the input begins with a word of it. -/
theorem decodeBencodeDict_returns_iff (s : Bytes) (fits : s.length < 2 ^ 63)
    (d : List (Bytes × Value)) : (∃ c, decodeBencodeDict s = .ok (.ok d, c)) ↔
      ∃ n, n ≤ s.length ∧ Derives dialect (.value (.dict d)) (s.take n) := by
  constructor
  · rintro ⟨c, decoded⟩
    rcases (decodeBencodeDict_verdict s fits).derived_of_ok decoded with ⟨word, rest, _, _, rfl⟩
    exact ⟨word.length, (decodeBencodeDict_iff_derives s fits d word.length).mp ⟨_, decoded, rfl⟩⟩
  · rintro ⟨n, begins⟩
    rcases (decodeBencodeDict_iff_derives s fits d n).mpr begins with ⟨c, decoded, _⟩
    exact ⟨c, decoded⟩

end MainlineDht.Go
