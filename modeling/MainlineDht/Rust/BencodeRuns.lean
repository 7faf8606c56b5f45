import MainlineDht.Bencode.Grammar
import MainlineDht.Rust.Bencode

/-!
# Runs of the Rust decoders

The language of the Rust decoders as a grammar dialect, and what each decoder
does at a cursor that has read `front` and has a text before it.  On a derivable
word with anything behind it, the decoders return the derived value and stop
right after the word.
-/

namespace MainlineDht.Rust

open Effect Ordered Text Bencode

theorem signed_of_keyLen {word : Bytes} {n : Nat}
    (numeral : Decimal.Signed word n ∧ n < 2 ^ 63) : Decimal.Signed word n :=
  numeral.1

/-- The numerals of the Rust decoders.  The first byte of a value tells a string
by a digit, so only the lengths of keys may have a sign. -/
def dialect : Dialect where
  int word n := Decimal.Signed word n ∧ InI64 n
  len word n := Decimal.Digits word n ∧ n < 2 ^ 63
  keyLen word n := Decimal.Signed word n ∧ n < 2 ^ 63
  int_signed numeral := numeral.1
  len_signed numeral := .plain numeral.1
  keyLen_signed := @signed_of_keyLen

/-! ## The cursor -/

namespace Cursor

/-- The cursor that has read `front` and has `rest` before it. -/
def after (front rest : Bytes) : Cursor where
  data := front ++ rest
  position := front.length
  inside := by simp

@[simp]
theorem remaining_after (front rest : Bytes) : (after front rest).remaining = rest.length := by
  simp [remaining, after]

@[simp]
theorem getSlice_after (front rest : Bytes) : (after front rest).getSlice = rest := by
  simp [getSlice, after]

theorem advance_after (front taken rest : Bytes) :
    (after front (taken ++ rest)).advance taken.length = after (front ++ taken) rest := by
  ext1
  · simp [advance, after]
  · simp [advance, after, remaining]

theorem peekByte_after_nil (front : Bytes) :
    (after front []).peekByte = .error (.err .endOfStream) := by
  rw [peekByte, dif_pos (by simp)]

theorem peekByte_after_cons (front rest : Bytes) (byte : UInt8) :
    (after front (byte :: rest)).peekByte = .ok byte := by
  rw [peekByte, dif_neg (by simp)]
  simp [after]

end Cursor

namespace Decoder

open Cursor

theorem run_peekByte_nil (front : Bytes) :
    Traced.run peekByte (after front []) = .error (.err .endOfStream) := by
  rw [peekByte, Traced.run_bind_ok (Traced.run_read _), peekByte_after_nil]
  rfl

theorem run_peekByte_cons (front rest : Bytes) (byte : UInt8) :
    Traced.run peekByte (after front (byte :: rest)) = .ok (byte, after front (byte :: rest)) := by
  rw [peekByte, Traced.run_bind_ok (Traced.run_read _), peekByte_after_cons]
  rfl

theorem run_advance (front taken rest : Bytes) :
    Traced.run (advance taken.length) (after front (taken ++ rest)) =
      .ok (⟨⟩, after (front ++ taken) rest) := by
  rw [advance, Traced.run_bind_ok (Traced.run_read _), advance_after]
  rfl

theorem run_advance_one (front rest : Bytes) (byte : UInt8) :
    Traced.run (advance 1) (after front (byte :: rest)) =
      .ok (⟨⟩, after (front ++ [byte]) rest) :=
  run_advance front [byte] rest

theorem run_takeByte_nil (front : Bytes) :
    Traced.run takeByte (after front []) = .error (.err .endOfStream) := by
  rw [takeByte, Traced.run_bind_error (run_peekByte_nil front)]

theorem run_takeByte_cons (front rest : Bytes) (byte : UInt8) :
    Traced.run takeByte (after front (byte :: rest)) =
      .ok (byte, after (front ++ [byte]) rest) := by
  rw [takeByte, Traced.run_bind_ok (run_peekByte_cons front rest byte),
    Traced.run_bind_ok (run_advance_one front rest byte)]
  rfl

/-! ## Integers -/

/-- A magnitude under a sign. -/
def signed (isNegative : Bool) (n : Nat) : Int :=
  if isNegative then -n else n

/-- A magnitude with more digits behind it. -/
def extend (n : Nat) (digits : Bytes) : Nat :=
  digits.foldl (fun read byte => 10 * read + Decimal.digitValue byte) n

theorem le_extend (n : Nat) (digits : Bytes) : n ≤ extend n digits := by
  induction digits generalizing n with
  | nil => exact Nat.le_refl n
  | cons digit digits ih =>
      have further : 10 * n + Decimal.digitValue digit ≤
        extend (10 * n + Decimal.digitValue digit) digits := ih _
      change n ≤ extend (10 * n + Decimal.digitValue digit) digits
      omega

/-- Smaller magnitudes fit as well. -/
theorem inI64_signed_mono {isNegative : Bool} {m n : Nat} (upTo : m ≤ n)
    (fits : InI64 (signed isNegative n)) : InI64 (signed isNegative m) := by
  unfold signed InI64 at *
  split at fits <;> simp_all <;> omega

theorem run_checked (z : Int) (c : Cursor) :
    Traced.run (checked z) c =
      if InI64 z then .ok (z, c) else .error (.err .oversizedInteger) := by
  unfold checked
  split <;> rfl

theorem run_digitOf {digit : UInt8} (isDigit : Decimal.isDigit digit = true) (c : Cursor) :
    Traced.run (digitOf digit) c = .ok (Decimal.digitValue digit, c) := by
  rw [Decimal.isDigit, Bool.and_eq_true, decide_eq_true_eq] at isDigit
  rw [digitOf, if_pos isDigit.1]
  rfl

/-- A digit is added unless the magnitude gets too large; then multiplying has
failed already or adding does. -/
theorem run_parseDigit (isNegative : Bool) (n : Nat) {digit : UInt8}
    (isDigit : Decimal.isDigit digit = true) (front rest : Bytes) :
    Traced.run (parseDigit isNegative (signed isNegative n)) (after front (digit :: rest)) =
      if InI64 (signed isNegative (10 * n + Decimal.digitValue digit)) then
        .ok (signed isNegative (10 * n + Decimal.digitValue digit), after (front ++ [digit]) rest)
      else .error (.err .oversizedInteger) := by
  have product : signed isNegative n * 10 = signed isNegative (10 * n) := by
    unfold signed
    split <;> omega
  have sum : (if isNegative then checked (signed isNegative (10 * n) - Decimal.digitValue digit)
      else checked (signed isNegative (10 * n) + Decimal.digitValue digit)) =
      checked (signed isNegative (10 * n + Decimal.digitValue digit)) := by
    unfold signed
    cases isNegative with
    | true =>
        rw [if_pos rfl]
        congr 1
        simp
        omega
    | false =>
        rw [if_neg (by decide)]
        congr 1
  rw [parseDigit, Traced.run_bind_ok (run_takeByte_cons front rest digit),
    Traced.run_bind_ok (run_digitOf isDigit _), product]
  by_cases fits : InI64 (signed isNegative (10 * n + Decimal.digitValue digit))
  · have smaller : InI64 (signed isNegative (10 * n)) :=
      inI64_signed_mono (Nat.le_add_right _ _) fits
    have multiplied := run_checked (signed isNegative (10 * n)) (after (front ++ [digit]) rest)
    rw [if_pos smaller] at multiplied
    rw [Traced.run_bind_ok multiplied, sum, run_checked]
  · rw [if_neg fits]
    by_cases smaller : InI64 (signed isNegative (10 * n))
    · have multiplied := run_checked (signed isNegative (10 * n)) (after (front ++ [digit]) rest)
      rw [if_pos smaller] at multiplied
      rw [Traced.run_bind_ok multiplied, sum, run_checked, if_neg fits]
    · have multiplied := run_checked (signed isNegative (10 * n)) (after (front ++ [digit]) rest)
      rw [if_neg smaller] at multiplied
      rw [Traced.run_bind_error multiplied]

/-- The loop reads all digits; it fails exactly if the final magnitude is too large. -/
theorem run_parseIntLoop {isNegative : Bool} {digits rest : Bytes}
    (all : ∀ byte ∈ digits, Decimal.isDigit byte = true)
    (stops : ∀ byte ∈ rest.head?, Decimal.isDigit byte = false) :
    ∀ (n : Nat) (front : Bytes) (fuel : Nat), digits.length < fuel →
      InI64 (signed isNegative n) →
      Traced.run (parseIntLoop isNegative fuel (signed isNegative n))
          (after front (digits ++ rest)) =
        if InI64 (signed isNegative (extend n digits)) then
          .ok (signed isNegative (extend n digits), after (front ++ digits) rest)
        else .error (.err .oversizedInteger) := by
  induction digits with
  | nil =>
      intro n front fuel enough fits
      obtain ⟨fuel, rfl⟩ : ∃ m, fuel = m + 1 := ⟨fuel - 1, by omega⟩
      have done : extend n [] = n := rfl
      rw [done, if_pos fits, List.append_nil, List.nil_append, parseIntLoop,
        Traced.run_bind_ok (Traced.run_read _)]
      cases rest with
      | nil =>
          rw [if_neg (by simp)]
          rfl
      | cons byte rest =>
          have notDigit := stops byte rfl
          rw [if_pos (by simp), Traced.run_bind_ok (run_peekByte_cons front rest byte), notDigit]
          rfl
  | cons digit digits ih =>
      intro n front fuel enough fits
      obtain ⟨fuel, rfl⟩ : ∃ m, fuel = m + 1 := ⟨fuel - 1, by omega⟩
      rw [List.length_cons] at enough
      have isDigit := all digit List.mem_cons_self
      have extended : extend n (digit :: digits) =
          extend (10 * n + Decimal.digitValue digit) digits := rfl
      have round := run_parseDigit isNegative n isDigit front (digits ++ rest)
      rw [extended, parseIntLoop, Traced.run_bind_ok (Traced.run_read _), if_pos (by simp),
        List.cons_append, Traced.run_bind_ok (run_peekByte_cons front _ digit), if_pos isDigit]
      by_cases next : InI64 (signed isNegative (10 * n + Decimal.digitValue digit))
      · rw [if_pos next] at round
        have others := ih (fun byte member => all byte (List.mem_cons_of_mem _ member))
          (10 * n + Decimal.digitValue digit) (front ++ [digit]) fuel (by omega) next
        rw [Traced.run_bind_ok round, others, List.append_assoc, List.singleton_append]
      · rw [if_neg next] at round
        rw [Traced.run_bind_error round, if_neg]
        exact mt (inI64_signed_mono (le_extend _ digits)) next

/-- The sign of a text that goes on with a digit. -/
theorem run_parseSign {text sign digits rest : Bytes} (split : Decimal.Split text sign digits rest)
    (nonempty : text ≠ []) (front : Bytes) :
    ∃ isNegative, Traced.run parseSign (after front text) =
        .ok (isNegative, after (front ++ sign) (digits ++ rest)) ∧
      ∀ n, signed isNegative n = Decimal.applySign sign n := by
  obtain ⟨text_eq, sign_eq, unsigned, _, _⟩ := split
  subst text_eq
  rcases sign_eq with rfl | rfl | rfl
  · obtain ⟨byte, others, text_eq⟩ := List.exists_cons_of_ne_nil nonempty
    rw [List.nil_append] at text_eq
    obtain ⟨notPlus, notMinus⟩ := unsigned rfl byte (by rw [text_eq]; rfl)
    refine ⟨false, ?_, fun n => rfl⟩
    rw [List.nil_append, List.append_nil, text_eq, parseSign,
      Traced.run_bind_ok (run_peekByte_cons front others byte), if_neg notMinus, if_neg notPlus]
    rfl
  · refine ⟨false, ?_, fun n => rfl⟩
    rw [parseSign, List.singleton_append, Traced.run_bind_ok (run_peekByte_cons front _ 43),
      if_neg (by decide), if_pos rfl, Traced.run_bind_ok (run_advance_one front _ 43)]
    rfl
  · refine ⟨true, ?_, fun n => rfl⟩
    rw [parseSign, List.singleton_append, Traced.run_bind_ok (run_peekByte_cons front _ 45),
      if_pos rfl, Traced.run_bind_ok (run_advance_one front _ 45)]
    rfl

/-- `parseInt` on a text that starts with a numeral. -/
theorem run_parseInt {text sign digits rest : Bytes} (split : Decimal.Split text sign digits rest)
    (nonempty : digits ≠ []) (front : Bytes) :
    Traced.run parseInt (after front text) =
      if InI64 (Decimal.applySign sign (Decimal.value digits)) then
        .ok (Decimal.applySign sign (Decimal.value digits), after (front ++ (sign ++ digits)) rest)
      else .error (.err .oversizedInteger) := by
  obtain ⟨digit, others, digits_eq⟩ := List.exists_cons_of_ne_nil nonempty
  have isDigit := split.all digit (by rw [digits_eq]; exact List.mem_cons_self)
  have text_nonempty : text ≠ [] := by
    rw [split.text_eq, digits_eq]
    simp
  obtain ⟨isNegative, signRun, sign_eq⟩ := run_parseSign split text_nonempty front
  have zero : signed isNegative 0 = 0 := by
    cases isNegative <;> rfl
  have looped := run_parseIntLoop split.all split.stops 0 (front ++ sign)
    ((digits ++ rest).length + 1) (by rw [List.length_append]; omega)
    (show InI64 (signed isNegative 0) by rw [zero]; decide)
  rw [zero, sign_eq] at looped
  have next : Traced.run peekByte (after (front ++ sign) (digits ++ rest)) =
      .ok (digit, after (front ++ sign) (digits ++ rest)) := by
    rw [digits_eq]
    exact run_peekByte_cons _ _ digit
  rw [parseInt, Traced.run_bind_ok signRun, Traced.run_bind_ok next, if_pos isDigit,
    Traced.run_bind_ok (Traced.run_read _), remaining_after, looped, List.append_assoc]
  rfl

/-- `parseInt` on any other text fails. -/
theorem run_parseInt_of_no_digits {text sign rest : Bytes}
    (split : Decimal.Split text sign [] rest) (front : Bytes) :
    ∃ error, Traced.run parseInt (after front text) = .error (.err error) := by
  rw [parseInt]
  cases text with
  | nil =>
      refine ⟨.endOfStream, ?_⟩
      rw [Traced.run_bind_error]
      rw [parseSign, Traced.run_bind_error (run_peekByte_nil front)]
  | cons first others =>
      obtain ⟨isNegative, signRun, _⟩ := run_parseSign split (by simp) front
      rw [Traced.run_bind_ok signRun, List.nil_append]
      have stops := split.stops
      cases rest with
      | nil =>
          refine ⟨.endOfStream, ?_⟩
          rw [Traced.run_bind_error (run_peekByte_nil _)]
      | cons byte rest =>
          refine ⟨.expectedInteger, ?_⟩
          rw [Traced.run_bind_ok (run_peekByte_cons _ rest byte), stops byte rfl]
          rfl

/-- `parseInt` reads every numeral of an `i64`. -/
theorem run_parseInt_of_signed {word rest : Bytes} {z : Int} (signed : Decimal.Signed word z)
    (fits : InI64 z) (stops : ∀ byte ∈ rest.head?, Decimal.isDigit byte = false)
    (front : Bytes) :
    Traced.run parseInt (after front (word ++ rest)) = .ok (z, after (front ++ word) rest) := by
  obtain ⟨sign, digits, rfl, nonempty, rfl, split⟩ := signed.split stops
  rw [run_parseInt split nonempty front, if_pos fits]

/-- What `parseInt` returns is denoted by what it has consumed. -/
theorem parseInt_cases (front text : Bytes) :
    (∃ word rest z, text = word ++ rest ∧ Decimal.Signed word z ∧ InI64 z ∧
        Traced.run parseInt (after front text) = .ok (z, after (front ++ word) rest)) ∨
      ∃ error, Traced.run parseInt (after front text) = .error (.err error) := by
  obtain ⟨sign, digits, rest, split⟩ := Decimal.exists_split text
  by_cases empty : digits = []
  · subst empty
    exact Or.inr (run_parseInt_of_no_digits split front)
  · have parsed := run_parseInt split empty front
    by_cases fits : InI64 (Decimal.applySign sign (Decimal.value digits))
    · rw [if_pos fits] at parsed
      exact Or.inl ⟨sign ++ digits, rest, _, by rw [split.text_eq, List.append_assoc],
        split.signed empty, fits, parsed⟩
    · rw [if_neg fits] at parsed
      exact Or.inr ⟨_, parsed⟩

/-! ## Derivable words -/

theorem run_decodeInt {word : Bytes} {n : Int} (numeral : dialect.int word n)
    (front rest : Bytes) :
    Traced.run decodeInt (after front (105 :: (word ++ 101 :: rest))) =
      .ok (.int n, after (front ++ 105 :: (word ++ [101])) rest) := by
  rw [decodeInt, Traced.run_bind_ok (run_takeByte_cons front _ 105), if_neg (by decide),
    Traced.run_bind_ok (run_parseInt_of_signed numeral.1 numeral.2
      (by intro b member; cases member; decide) (front ++ [105])),
    Traced.run_bind_ok (run_takeByte_cons _ rest 101), if_neg (by decide)]
  simp

theorem asUsize_natCast {n : Nat} (small : n < 2 ^ 63) : asUsize n = n := by
  unfold asUsize
  omega

theorem run_sliceTo {bytes : Bytes} {count : Nat} (inside : count ≤ bytes.length) (c : Cursor) :
    Traced.run (sliceTo bytes count) c = .ok (bytes.take count, c) := by
  rw [sliceTo, if_pos inside]
  rfl

/-- `decodeBytestring` on a length and as many bytes as it says. -/
theorem run_decodeBytestring {len content : Bytes}
    (numeral : dialect.keyLen len content.length) (front rest : Bytes) :
    Traced.run decodeBytestring (after front (len ++ 58 :: (content ++ rest))) =
      .ok (.bytes content, after (front ++ (len ++ 58 :: content)) rest) := by
  have fits : InI64 (content.length : Int) := by
    have small := numeral.2
    unfold InI64
    omega
  have size := asUsize_natCast numeral.2
  rw [decodeBytestring, Traced.run_bind_ok (run_parseInt_of_signed numeral.1 fits
      (by intro b member; cases member; decide) front),
    Traced.run_bind_ok (run_takeByte_cons _ _ 58), if_neg (by decide),
    Traced.run_bind_ok (Traced.run_read _), size, if_neg (by simp), getSlice_after,
    Traced.run_bind_ok (run_sliceTo (by simp) _), List.take_left,
    Traced.run_bind_ok (run_advance _ content rest)]
  simp

/-- What a decoder makes of a phrase between `front` and `rest`, given enough
fuel: it returns what was derived and stops where the word ends.  The loops
also take the closing `e` and add to what they have read before. -/
def Reads (front word rest : Bytes) : Phrase → Prop
  | .value v => ∀ fuel, 3 * word.length + 1 ≤ fuel →
      Traced.run (decodeValue fuel) (after front (word ++ rest)) =
        .ok (v, after (front ++ word) rest)
  | .items l => ∀ fuel result, 3 * word.length + 2 ≤ fuel →
      Traced.run (decodeListLoop fuel result) (after front (word ++ 101 :: rest)) =
        .ok (result ++ l, after (front ++ (word ++ [101])) rest)
  | .entries d => ∀ fuel result, 3 * word.length + 2 ≤ fuel →
      Traced.run (decodeDictLoop fuel result) (after front (word ++ 101 :: rest)) =
        .ok (Entries.insertAll d result, after (front ++ (word ++ [101])) rest)

theorem run_decodeValue_int (front tail : Bytes) (fuel : Nat) :
    Traced.run (decodeValue (fuel + 1)) (after front (105 :: tail)) =
      Traced.run decodeInt (after front (105 :: tail)) := by
  rw [decodeValue, Traced.run_bind_ok (run_peekByte_cons front tail 105), if_pos rfl]

theorem run_decodeValue_string {byte : UInt8} (isDigit : Decimal.isDigit byte = true)
    (front tail : Bytes) (fuel : Nat) :
    Traced.run (decodeValue (fuel + 1)) (after front (byte :: tail)) =
      Traced.run decodeBytestring (after front (byte :: tail)) := by
  have notInt : byte ≠ 105 := by
    rintro rfl
    exact absurd isDigit (by decide)
  rw [decodeValue, Traced.run_bind_ok (run_peekByte_cons front tail byte), if_neg notInt,
    if_pos isDigit]

theorem run_decodeValue_list (front tail : Bytes) (fuel : Nat) :
    Traced.run (decodeValue (fuel + 1)) (after front (108 :: tail)) =
      Traced.run (decodeList fuel) (after front (108 :: tail)) := by
  rw [decodeValue, Traced.run_bind_ok (run_peekByte_cons front tail 108), if_neg (by decide),
    if_neg (by decide), if_pos rfl]

theorem run_decodeValue_dict (front tail : Bytes) (fuel : Nat) :
    Traced.run (decodeValue (fuel + 1)) (after front (100 :: tail)) =
      Traced.run (decodeDict fuel) (after front (100 :: tail)) := by
  rw [decodeValue, Traced.run_bind_ok (run_peekByte_cons front tail 100), if_neg (by decide),
    if_neg (by decide), if_neg (by decide), if_pos rfl]

theorem run_decodeList_cons (front tail : Bytes) (fuel : Nat) :
    Traced.run (decodeList (fuel + 1)) (after front (108 :: tail)) =
      Traced.run (do return .list (← decodeListLoop fuel [])) (after (front ++ [108]) tail) := by
  rw [decodeList, Traced.run_bind_ok (run_takeByte_cons front tail 108), if_neg (by decide)]

theorem run_decodeDict_cons (front tail : Bytes) (fuel : Nat) :
    Traced.run (decodeDict (fuel + 1)) (after front (100 :: tail)) =
      Traced.run (do return .dict (← decodeDictLoop fuel [])) (after (front ++ [100]) tail) := by
  rw [decodeDict, Traced.run_bind_ok (run_takeByte_cons front tail 100), if_neg (by decide)]

/-- The loops end at `e`. -/
theorem run_decodeListLoop_end (front tail : Bytes) (fuel : Nat) (result : List Value) :
    Traced.run (decodeListLoop (fuel + 1) result) (after front (101 :: tail)) =
      .ok (result, after (front ++ [101]) tail) := by
  rw [decodeListLoop, Traced.run_bind_ok (run_peekByte_cons front tail 101), if_pos rfl,
    Traced.run_bind_ok (run_takeByte_cons front tail 101)]
  rfl

theorem run_decodeDictLoop_end (front tail : Bytes) (fuel : Nat)
    (result : List (Bytes × Value)) :
    Traced.run (decodeDictLoop (fuel + 1) result) (after front (101 :: tail)) =
      .ok (result, after (front ++ [101]) tail) := by
  rw [decodeDictLoop, Traced.run_bind_ok (run_peekByte_cons front tail 101), if_pos rfl,
    Traced.run_bind_ok (run_takeByte_cons front tail 101)]
  rfl

/-- One round of the list loop that does not end it. -/
theorem run_decodeListLoop_item {byte : UInt8} (notEnd : byte ≠ 101) (front tail : Bytes)
    (fuel : Nat) (result : List Value) :
    Traced.run (decodeListLoop (fuel + 1) result) (after front (byte :: tail)) =
      Traced.run (do
        let value ← decodeValue fuel
        decodeListLoop fuel (result ++ [value])) (after front (byte :: tail)) := by
  rw [decodeListLoop, Traced.run_bind_ok (run_peekByte_cons front tail byte), if_neg notEnd]

/-- The part of a round of the dictionary loop that follows the key. -/
def decodeBinding (fuel : Nat) (result : List (Bytes × Value)) (key : Bytes) :
    Decode (List (Bytes × Value)) := do
  let value ← decodeValue fuel
  decodeDictLoop fuel (Entries.insert key value result)

/-- One round of the dictionary loop that does not end it and reads its key. -/
theorem run_decodeDictLoop_entry {byte : UInt8} (notEnd : byte ≠ 101) {front tail key : Bytes}
    {c : Cursor} (keyRun : Traced.run decodeBytestring (after front (byte :: tail)) =
      .ok (.bytes key, c)) (fuel : Nat) (result : List (Bytes × Value)) :
    Traced.run (decodeDictLoop (fuel + 1) result) (after front (byte :: tail)) =
      Traced.run (decodeBinding fuel result key) c := by
  rw [decodeDictLoop, Traced.run_bind_ok (run_peekByte_cons front tail byte), if_neg notEnd,
    Traced.run_bind_ok keyRun]
  rfl

/-- The decoders return what a derivation says, whatever follows the word. -/
theorem reads_of_derives {phrase : Phrase} {word : Bytes}
    (derives : Derives dialect phrase word) :
    ∀ front rest : Bytes, Reads front word rest phrase := by
  induction derives with
  | @int word n numeral =>
      intro front rest fuel enough
      obtain ⟨fuel, rfl⟩ : ∃ n, fuel = n + 1 := ⟨fuel - 1, by omega⟩
      rw [List.cons_append, run_decodeValue_int, List.append_assoc, List.singleton_append,
        run_decodeInt numeral front rest]
  | @bytes len content numeral =>
      intro front rest fuel enough
      obtain ⟨fuel, rfl⟩ : ∃ n, fuel = n + 1 := ⟨fuel - 1, by omega⟩
      obtain ⟨digit, others, len_eq⟩ := List.exists_cons_of_ne_nil numeral.1.nonempty
      have isDigit := numeral.1.all digit (by rw [len_eq]; exact List.mem_cons_self)
      have keyNumeral : dialect.keyLen len content.length := ⟨.plain numeral.1, numeral.2⟩
      have stringRun := run_decodeBytestring keyNumeral front rest
      rw [List.append_assoc, List.cons_append]
      rw [← stringRun, len_eq]
      exact run_decodeValue_string isDigit front _ fuel
  | @list word l _ ih =>
      intro front rest fuel enough
      simp only [List.length_append, List.length_cons, List.length_nil] at enough
      obtain ⟨fuel, rfl⟩ : ∃ n, fuel = n + 2 := ⟨fuel - 2, by omega⟩
      have looped := ih (front ++ [108]) rest fuel [] (by omega)
      rw [List.cons_append, List.append_assoc, List.singleton_append, run_decodeValue_list,
        run_decodeList_cons, Traced.run_bind_ok looped]
      simp
  | @dict word bindings _ ih =>
      intro front rest fuel enough
      simp only [List.length_append, List.length_cons, List.length_nil] at enough
      obtain ⟨fuel, rfl⟩ : ∃ n, fuel = n + 2 := ⟨fuel - 2, by omega⟩
      have looped := ih (front ++ [100]) rest fuel [] (by omega)
      rw [List.cons_append, List.append_assoc, List.singleton_append, run_decodeValue_dict,
        run_decodeDict_cons, Traced.run_bind_ok looped]
      simp [Entries.ofList]
  | noItems =>
      intro front rest fuel result enough
      obtain ⟨fuel, rfl⟩ : ∃ n, fuel = n + 1 := ⟨fuel - 1, by omega⟩
      simpa using run_decodeListLoop_end front rest fuel result
  | @item first others v l valueDerives _ valueReads itemsRead =>
      intro front rest fuel result enough
      obtain ⟨b, tail, first_eq, notEnd⟩ := valueDerives.head
      have nonempty : 1 ≤ first.length := by simp [first_eq]
      simp only [List.length_append] at enough
      obtain ⟨fuel, rfl⟩ : ∃ n, fuel = n + 1 := ⟨fuel - 1, by omega⟩
      have valueRun := valueReads front (others ++ 101 :: rest) fuel (by omega)
      have restRun := itemsRead (front ++ first) rest fuel (result ++ [v]) (by omega)
      have round := run_decodeListLoop_item notEnd front (tail ++ (others ++ 101 :: rest)) fuel
        result
      rw [← List.cons_append, ← first_eq, Traced.run_bind_ok valueRun, restRun] at round
      rw [List.append_assoc, round]
      simp
  | noEntries =>
      intro front rest fuel result enough
      obtain ⟨fuel, rfl⟩ : ∃ n, fuel = n + 1 := ⟨fuel - 1, by omega⟩
      simpa using run_decodeDictLoop_end front rest fuel result
  | @entry len key first others v d numeral valueDerives _ valueReads entriesRead =>
      intro front rest fuel result enough
      obtain ⟨b, tail, len_eq, _, _, _, notEnd⟩ := Bencode.signed_head numeral.1
      simp only [List.length_append, List.length_cons] at enough
      obtain ⟨fuel, rfl⟩ : ∃ n, fuel = n + 1 := ⟨fuel - 1, by omega⟩
      have keyRun := run_decodeBytestring numeral front (first ++ (others ++ 101 :: rest))
      have valueRun := valueReads (front ++ (len ++ 58 :: key)) (others ++ 101 :: rest) fuel
        (by omega)
      have restRun := entriesRead (front ++ (len ++ 58 :: key) ++ first) rest fuel
        (Entries.insert key v result) (by omega)
      have round : Traced.run (decodeDictLoop (fuel + 1) result)
          (after front (len ++ 58 :: (key ++ (first ++ (others ++ 101 :: rest))))) =
          Traced.run (decodeBinding fuel result key)
            (after (front ++ (len ++ 58 :: key)) (first ++ (others ++ 101 :: rest))) := by
        rw [len_eq] at keyRun ⊢
        exact run_decodeDictLoop_entry notEnd keyRun fuel result
      rw [entry_append, round, decodeBinding, Traced.run_bind_ok valueRun, restRun]
      simp

end Decoder

end MainlineDht.Rust
