import MainlineDht.Bencode.Literals
import MainlineDht.Go.RoundTrip
import MainlineDht.Rust.RoundTrip

/-!
# The two codecs against each other

Both encoders write canonical notation.  The Rust decoder's language is that of
the Go decoders with unsigned string lengths and with one integer more: the Go
decoders read the digits of `-2 ^ 63` apart from the sign and refuse them.
-/

namespace MainlineDht.Interop

open Effect Ordered Text Bencode

/-- The one integer that only the Rust codec reads. -/
def IsMinInt (n : Int) : Prop :=
  n = -2 ^ 63

/-- The Rust dialect without that integer is part of the Go dialect. -/
theorem go_derives_of_avoiding {phrase : Phrase} {word : Bytes}
    (derives : Derives (Rust.dialect.avoiding IsMinInt) phrase word) :
    Derives Go.dialect phrase word := by
  apply derives.mono
  · rintro word n ⟨⟨signed, fits⟩, notMin⟩
    unfold Rust.InI64 at fits
    unfold IsMinInt at notMin
    exact ⟨signed, by omega⟩
  · rintro word n ⟨digits, small⟩
    exact ⟨.plain digits, small⟩
  · rintro word n ⟨signed, small⟩
    exact ⟨signed, small⟩

/-! ## What the Go decoders make of the other words -/

/-- The Go decoders return an error on a phrase between `front` and `rest`. -/
def Refuses (front word rest : Bytes) : Phrase → Prop
  | .value _ => ∀ fuel, 3 * word.length + 1 ≤ fuel →
      ∃ err final, Traced.run (Go.decodeScannerBencodeValue fuel)
        (Go.Scanner.after front (word ++ rest)) = .ok (.error err, final)
  | .items _ => ∀ fuel result, 3 * word.length + 2 ≤ fuel →
      ∃ err final, Traced.run (Go.decodeListLoop fuel result)
        (Go.Scanner.after front (word ++ 101 :: rest)) = .ok (.error err, final)
  | .entries _ => ∀ fuel result, 3 * word.length + 2 ≤ fuel →
      ∃ err final, Traced.run (Go.decodeDictLoop fuel result)
        (Go.Scanner.after front (word ++ 101 :: rest)) = .ok (.error err, final)

/-- The digits of the smallest integer exceed an `int`. -/
theorem run_decodeInteger_min {word : Bytes} (signed : Decimal.Signed word (-2 ^ 63))
    (front rest : Bytes) :
    ∃ err final, Traced.run Go.decodeInteger
      (Go.Scanner.after front (105 :: (word ++ 101 :: rest))) = .ok (.error err, final) := by
  obtain ⟨sign, digits, rfl, nonempty, value_eq, split⟩ := signed.split
    (show ∀ b ∈ (101 :: rest).head?, Decimal.isDigit b = false by
      intro b member
      cases member
      decide)
  have large : ¬ Decimal.value digits < 2 ^ 63 := by
    unfold Decimal.applySign at value_eq
    split at value_eq <;> omega
  have parsed := Go.run_parseInteger split (front ++ [105])
  rw [Go.integerOf, if_neg nonempty, if_neg large] at parsed
  refine ⟨.valueOutOfRange digits,
    Go.Scanner.after (front ++ [105] ++ (sign ++ digits) ++ [101]) rest, ?_⟩
  rw [Go.decodeInteger, Traced.run_bind_ok (Go.Scanner.run_called _),
    Traced.run_bind_ok (Go.Scanner.run_acceptSingle_of_mem front _ (by decide)),
    Traced.run_bind_ok parsed,
    Traced.run_bind_ok (Go.Scanner.run_acceptSingle_of_mem _ rest (by decide))]
  rfl

/-- Once the smallest integer is met, every enclosing decoder returns an error. -/
theorem refuses_of_hits {phrase : Phrase} {word : Bytes}
    (hits : Hits Rust.dialect IsMinInt phrase word) :
    ∀ front rest : Bytes, (front ++ word).length < 2 ^ 63 → Refuses front word rest phrase := by
  induction hits with
  | @int word n numeral isMin =>
      intro front rest _ fuel enough
      obtain ⟨fuel, rfl⟩ : ∃ n, fuel = n + 1 := ⟨fuel - 1, by omega⟩
      have signed := numeral.1
      rw [show n = -2 ^ 63 from isMin] at signed
      obtain ⟨err, final, run⟩ := run_decodeInteger_min signed front rest
      refine ⟨err, final, ?_⟩
      rw [List.cons_append, Go.run_decodeValue_int, List.append_assoc, List.singleton_append,
        Traced.run_bind_ok run]
      rfl
  | @list word l _ ih =>
      intro front rest small fuel enough
      simp only [List.length_append, List.length_cons, List.length_nil] at small enough
      obtain ⟨fuel, rfl⟩ : ∃ n, fuel = n + 2 := ⟨fuel - 2, by omega⟩
      obtain ⟨err, final, looped⟩ := ih (front ++ [108]) rest (by simp; omega) fuel [] (by omega)
      refine ⟨err, final, ?_⟩
      rw [List.cons_append, List.append_assoc, List.singleton_append,
        Go.run_decodeValue_openList, Traced.run_bind_ok looped]
      rfl
  | @dict word bindings _ ih =>
      intro front rest small fuel enough
      simp only [List.length_append, List.length_cons, List.length_nil] at small enough
      obtain ⟨fuel, rfl⟩ : ∃ n, fuel = n + 2 := ⟨fuel - 2, by omega⟩
      obtain ⟨err, final, looped⟩ := ih (front ++ [100]) rest (by simp; omega) fuel [] (by omega)
      refine ⟨err, final, ?_⟩
      rw [List.cons_append, List.append_assoc, List.singleton_append,
        Go.run_decodeValue_openDict, Traced.run_bind_ok looped]
      rfl
  | @firstItem first others v l valueHits _ ih =>
      intro front rest small fuel result enough
      have nonempty := valueHits.length_pos
      simp only [List.length_append] at small enough
      obtain ⟨fuel, rfl⟩ : ∃ n, fuel = n + 1 := ⟨fuel - 1, by omega⟩
      obtain ⟨err, final, run⟩ := ih front (others ++ 101 :: rest) (by simp; omega) fuel
        (by omega)
      refine ⟨.listItem err, final, ?_⟩
      rw [List.append_assoc,
        Go.run_decodeListLoop_item front fuel result (notEnd_append valueHits.head _),
        Traced.run_bind_ok run]
      rfl
  | @laterItem first others v l valueDerives _ ih =>
      intro front rest small fuel result enough
      have nonempty := valueDerives.length_pos
      simp only [List.length_append] at small enough
      obtain ⟨fuel, rfl⟩ : ∃ n, fuel = n + 1 := ⟨fuel - 1, by omega⟩
      have valueRun := Go.reads_of_derives (go_derives_of_avoiding valueDerives) front
        (others ++ 101 :: rest) (by simp; omega) fuel (by omega)
      obtain ⟨err, final, run⟩ := ih (front ++ first) rest (by simp; omega) fuel (result ++ [v])
        (by omega)
      refine ⟨err, final, ?_⟩
      rw [List.append_assoc,
        Go.run_decodeListLoop_value (notEnd_append valueDerives.head _) valueRun]
      exact run
  | @firstEntry len key first others v d numeral valueHits _ ih =>
      intro front rest small fuel result enough
      simp only [List.length_append, List.length_cons] at small enough
      obtain ⟨fuel, rfl⟩ : ∃ n, fuel = n + 1 := ⟨fuel - 1, by omega⟩
      obtain ⟨err, final, run⟩ := ih (front ++ (len ++ 58 :: key)) (others ++ 101 :: rest)
        (by simp; omega) fuel (by omega)
      refine ⟨.dictValue err, final, ?_⟩
      rw [entry_append, Go.run_decodeDictLoop_key numeral (by simp; omega), Go.decodeBinding,
        Traced.run_bind_ok run]
      rfl
  | @laterEntry len key first others v d numeral valueDerives _ ih =>
      intro front rest small fuel result enough
      simp only [List.length_append, List.length_cons] at small enough
      obtain ⟨fuel, rfl⟩ : ∃ n, fuel = n + 1 := ⟨fuel - 1, by omega⟩
      have valueRun := Go.reads_of_derives (go_derives_of_avoiding valueDerives)
        (front ++ (len ++ 58 :: key)) (others ++ 101 :: rest) (by simp; omega) fuel (by omega)
      obtain ⟨err, final, run⟩ := ih (front ++ (len ++ 58 :: key) ++ first) rest (by simp; omega)
        fuel (Entries.insert key v result) (by omega)
      refine ⟨err, final, ?_⟩
      rw [entry_append, Go.run_decodeDictLoop_key numeral (by simp; omega),
        Go.run_decodeBinding_value valueRun]
      exact run

/-! ## The codecs agree -/

/-- The two encoders write the same bytes. -/
theorem encode_eq {v : Value} (within : v.Within Rust.limits) : Go.encode v = Rust.encode v :=
  (Go.encode_eq_write within).trans (Rust.encode_eq_write v).symm

/-- Some integer literal among the bytes of a value is `-2 ^ 63`. -/
def HasMinInt (v : Value) (word : Bytes) : Prop :=
  Hits Rust.dialect IsMinInt (.value v) word

/-- The Go decoder returns the value after as many bytes. -/
def GoReturns (s : Bytes) (v : Value) (n : Nat) : Prop :=
  ∃ c, Go.decodeBencodeValue s = .ok (.ok v, c) ∧ c.position = n

/-- The Go decoder returns an error. -/
def GoRefuses (s : Bytes) : Prop :=
  ∃ err c, Go.decodeBencodeValue s = .ok (.error err, c)

/-- What the Rust decoder accepts the Go decoder accepts alike, but for the
smallest integer. -/
theorem go_of_rust {s : Bytes} (fits : s.length < 2 ^ 63) {v : Value} {c : Rust.Cursor}
    (decoded : Rust.decode s = .ok (v, c)) :
    (HasMinInt v (s.take c.position) → GoRefuses s) ∧
      (¬ HasMinInt v (s.take c.position) → GoReturns s v c.position) := by
  obtain ⟨word, rest, rfl, derives, rfl⟩ := (Rust.decode_verdict s fits).derived_of_ok decoded
  have consumed : (word ++ rest).take (Rust.Cursor.after ([] ++ word) rest).position = word :=
    List.take_left
  have enough : 3 * word.length + 1 ≤ Go.decodeFuel (word ++ rest) := by
    unfold Go.decodeFuel
    simp only [List.length_append]
    omega
  have small : ([] ++ word).length < 2 ^ 63 := by
    simp only [List.length_append, List.nil_append] at fits ⊢
    omega
  rw [consumed]
  constructor
  · intro hits
    exact refuses_of_hits hits [] rest small _ enough
  · intro clean
    have avoids := (derives.avoids_or_hits IsMinInt).resolve_right clean
    have reads := Go.reads_of_derives (go_derives_of_avoiding avoids) [] rest small _ enough
    exact ⟨_, reads, rfl⟩

/-- The codecs interoperate: they encode alike, and what the Rust decoder accepts
the Go decoder reads alike, except that it refuses `-2 ^ 63`. -/
theorem codecs_interoperate :
    (∀ v : Rust.Bencode, Go.encode v.val = Rust.encode v.val) ∧
    ∀ (s : Bytes) (v : Value) (c : Rust.Cursor), s.length < 2 ^ 63 →
      Rust.decode s = .ok (v, c) →
      (HasMinInt v (s.take c.position) → GoRefuses s) ∧
        (¬ HasMinInt v (s.take c.position) → GoReturns s v c.position) :=
  ⟨fun v => encode_eq v.property, fun _ _ _ fits decoded => go_of_rust fits decoded⟩

/-- `li-9223372036854775808ei5ee` has the smallest integer; in the string
`22:i-9223372036854775808e` the same bytes are none. -/
theorem codecs_interoperate_minInt :
    GoRefuses [108, 105, 45, 57, 50, 50, 51, 51, 55, 50, 48, 51, 54, 56, 53, 52, 55, 55, 53, 56, 48,
      56, 101, 105, 53, 101, 101] ∧
    GoReturns [50, 50, 58, 105, 45, 57, 50, 50, 51, 51, 55, 50, 48, 51, 54, 56, 53, 52, 55, 55, 53,
      56, 48, 56, 101] (.bytes [105, 45, 57, 50, 50, 51, 51, 55, 50, 48, 51, 54, 56, 53, 52, 55, 55,
      53, 56, 48, 56, 101]) 25 := by
  have minInt : Rust.dialect.int [45, 57, 50, 50, 51, 51, 55, 50, 48, 51, 54, 56, 53, 52, 55, 55,
      53, 56, 48, 56] (-2 ^ 63) :=
    ⟨.minus ⟨by decide, List.all_eq_true.mp rfl, rfl⟩, by decide +kernel⟩
  have five : Rust.dialect.int [53] 5 :=
    ⟨.plain ⟨by decide, List.all_eq_true.mp rfl, rfl⟩, by decide +kernel⟩
  have len : Rust.dialect.len [50, 50] 22 :=
    ⟨⟨by decide, List.all_eq_true.mp rfl, rfl⟩, by decide +kernel⟩
  constructor
  · have others : Derives Rust.dialect (.items [.int 5]) _ := .item (.int five) .noItems
    have hits : Hits Rust.dialect IsMinInt _ _ := .list (.firstItem (.int minInt rfl) others)
    have decoded := Rust.decode_of_derives (.list (.item (.int minInt) others)) []
    exact (codecs_interoperate.2 _ _ _ (by decide +kernel) decoded).1 hits
  · have string : Derives Rust.dialect (.value (.bytes [105, 45, 57, 50, 50, 51, 51, 55, 50, 48, 51,
        54, 56, 53, 52, 55, 55, 53, 56, 48, 56, 101])) _ := .bytes len
    have decoded := Rust.decode_of_derives string []
    apply (codecs_interoperate.2 _ _ _ (by decide +kernel) decoded).2
    rintro ⟨⟩

end MainlineDht.Interop
