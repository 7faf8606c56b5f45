import MainlineDht.Bencode.Grammar
import MainlineDht.Go.Bencode
import MainlineDht.Go.ScannerRuns

/-!
# Runs of the Go decoders on derivable words

The language of the Go decoders as a grammar dialect, and its easy half: on a
derivable word with anything behind it, the decoders return the derived value
and stop right after the word, as long as positions fit an `int`.
-/

namespace MainlineDht.Go

open Effect Ordered Text Bencode

/-- The numerals of the Go decoders.  Integers and lengths are read alike: a
sign is allowed and the digits alone must fit an `int`. -/
def dialect : Dialect where
  int word n := Decimal.Signed word n ∧ n.natAbs < 2 ^ 63
  len word n := Decimal.Signed word n ∧ n < 2 ^ 63
  keyLen word n := Decimal.Signed word n ∧ n < 2 ^ 63
  int_signed numeral := numeral.1
  len_signed numeral := numeral.1
  keyLen_signed numeral := numeral.1

/-- The digits `parseInteger` accepts are the ASCII digits. -/
theorem mem_digits_iff (b : UInt8) :
    b ∈ ([48, 49, 50, 51, 52, 53, 54, 55, 56, 57] : Bytes) ↔ Decimal.isDigit b = true := by
  simp only [List.mem_cons, List.not_mem_nil, or_false, Decimal.isDigit, Bool.and_eq_true,
    decide_eq_true_eq, UInt8.le_iff_toNat_le, ← UInt8.toNat_inj, UInt8.reduceToNat]
  omega

/-- What `parseInteger` returns for a sign and digits. -/
def integerOf (sign digits : Bytes) : Except DecodeError Int :=
  if digits = [] then .error .zeroDigits
  else if Decimal.value digits < 2 ^ 63 then .ok (Decimal.applySign sign (Decimal.value digits))
  else .error (.valueOutOfRange digits)

/-- `atoi` under a sign. -/
theorem atoi_map_sign {sign digits : Bytes} (nonempty : digits ≠ []) {found : Option UInt8}
    (found_iff : found = some 45 ↔ sign = [45]) :
    (atoi digits).map (fun res => res * (if found = some 45 then -1 else 1)) =
      integerOf sign digits := by
  unfold integerOf atoi
  rw [if_neg nonempty]
  by_cases small : Decimal.value digits < 2 ^ 63
  · have fits : (Decimal.value digits : Int) ≤ maxInt := by
      unfold maxInt
      omega
    rw [if_pos small, if_pos fits]
    by_cases negative : sign = [45]
    · simp [Except.map, found_iff.mpr negative, Decimal.applySign, negative]
    · simp [Except.map, mt found_iff.mp negative, Decimal.applySign, negative]
  · have exceeds : ¬ (Decimal.value digits : Int) ≤ maxInt := by
      unfold maxInt
      omega
    rw [if_neg small, if_neg exceeds]
    rfl

/-- The sign of a numeral is what the first `acceptSingle` takes. -/
theorem run_acceptSign {text sign digits rest : Bytes}
    (split : Decimal.Split text sign digits rest) (front : Bytes) :
    ∃ found, Traced.run (Scanner.acceptSingle [45, 43]) (Scanner.after front text) =
        .ok (found, Scanner.after (front ++ sign) (digits ++ rest)) ∧
      (found = some 45 ↔ sign = [45]) := by
  rw [split.text_eq]
  rcases split.sign_eq with rfl | rfl | rfl
  · refine ⟨none, ?_, by simp⟩
    rw [List.append_nil]
    apply Scanner.run_acceptSingle_none
    intro b member
    obtain ⟨notPlus, notMinus⟩ := split.unsigned rfl b member
    simp [notPlus, notMinus]
  · exact ⟨some 43, Scanner.run_acceptSingle_of_mem front _ (by decide), by decide⟩
  · exact ⟨some 45, Scanner.run_acceptSingle_of_mem front _ (by decide), by decide⟩

/-- `parseInteger` consumes a sign and all digits and evaluates them. -/
theorem run_parseInteger {text sign digits rest : Bytes}
    (split : Decimal.Split text sign digits rest) (front : Bytes) :
    Traced.run parseInteger (Scanner.after front text) =
      .ok (integerOf sign digits, Scanner.after (front ++ (sign ++ digits)) rest) := by
  obtain ⟨found, signRun, found_iff⟩ := run_acceptSign split front
  have digitsRun := @Scanner.run_acceptMultiple [48, 49, 50, 51, 52, 53, 54, 55, 56, 57]
    (front ++ sign) digits rest
    (fun b member => (mem_digits_iff b).mpr (split.all b member))
    (fun b member isMember => by
      have isDigit := (mem_digits_iff b).mp isMember
      rw [split.stops b member] at isDigit
      cases isDigit)
  rw [parseInteger, Traced.run_bind_ok (Scanner.run_called _), Traced.run_bind_ok signRun,
    Traced.run_bind_ok digitsRun, List.append_assoc]
  by_cases empty : digits = []
  · subst empty
    rfl
  · rw [if_neg (by simpa using empty), atoi_map_sign empty found_iff]
    rfl

/-- `parseInteger` on an admitted numeral. -/
theorem run_parseInteger_of_signed {word rest : Bytes} {z : Int}
    (signed : Decimal.Signed word z) (small : z.natAbs < 2 ^ 63)
    (stops : ∀ b ∈ rest.head?, Decimal.isDigit b = false) (front : Bytes) :
    Traced.run parseInteger (Scanner.after front (word ++ rest)) =
      .ok (.ok z, Scanner.after (front ++ word) rest) := by
  obtain ⟨sign, digits, rfl, nonempty, rfl, split⟩ := signed.split stops
  rw [run_parseInteger split front, integerOf, if_neg nonempty, if_pos]
  unfold Decimal.applySign at small
  split at small <;> omega

theorem run_decodeInteger {word : Bytes} {n : Int} (numeral : dialect.int word n)
    (front rest : Bytes) :
    Traced.run decodeInteger (Scanner.after front (105 :: (word ++ 101 :: rest))) =
      .ok (.ok n, Scanner.after (front ++ 105 :: (word ++ [101])) rest) := by
  rw [decodeInteger, Traced.run_bind_ok (Scanner.run_called _),
    Traced.run_bind_ok (Scanner.run_acceptSingle_of_mem front _ (by decide)),
    Traced.run_bind_ok (run_parseInteger_of_signed numeral.1 numeral.2
      (by intro b member; cases member; decide) (front ++ [105])),
    Traced.run_bind_ok (Scanner.run_acceptSingle_of_mem _ rest (by decide))]
  simp

/-- `decodeString` on an admitted length and as many bytes as it says. -/
theorem run_decodeString {len content : Bytes} (numeral : dialect.len len content.length)
    (front rest : Bytes) (small : (front ++ (len ++ 58 :: content)).length < 2 ^ 63) :
    Traced.run decodeString (Scanner.after front (len ++ 58 :: (content ++ rest))) =
      .ok (.ok content, Scanner.after (front ++ (len ++ 58 :: content)) rest) := by
  have position : (front ++ len ++ [58]).length + content.length < 2 ^ 63 := by
    simp at small ⊢
    omega
  rw [decodeString, Traced.run_bind_ok (Scanner.run_called _),
    Traced.run_bind_ok (run_parseInteger_of_signed numeral.1 (by simpa using numeral.2)
      (by intro b member; cases member; decide) front)]
  simp only
  rw [if_neg (by omega),
    Traced.run_bind_ok (Scanner.run_acceptSingle_of_mem _ _ (by decide)),
    Traced.run_bind_ok (Scanner.run_acceptRun (front ++ len ++ [58]) content rest position)]
  simp

/-- What a decoder makes of a phrase between `front` and `rest`, given enough
fuel: it returns what was derived and stops where the word ends.  The loops
also take the closing `e` and add to what they have read before. -/
def Reads (front word rest : Bytes) : Phrase → Prop
  | .value v => ∀ fuel, 3 * word.length + 1 ≤ fuel →
      Traced.run (decodeScannerBencodeValue fuel) (Scanner.after front (word ++ rest)) =
        .ok (.ok v, Scanner.after (front ++ word) rest)
  | .items l => ∀ fuel result, 3 * word.length + 2 ≤ fuel →
      Traced.run (decodeListLoop fuel result) (Scanner.after front (word ++ 101 :: rest)) =
        .ok (.ok (result ++ l), Scanner.after (front ++ (word ++ [101])) rest)
  | .entries d => ∀ fuel result, 3 * word.length + 2 ≤ fuel →
      Traced.run (decodeDictLoop fuel result) (Scanner.after front (word ++ 101 :: rest)) =
        .ok (.ok (Entries.insertAll d result), Scanner.after (front ++ (word ++ [101])) rest)

/-- `decodeScannerBencodeValue` enters `decodeString` on a length. -/
theorem run_decodeValue_string {len tail : Bytes} {z : Int} (signed : Decimal.Signed len z)
    (front : Bytes) (fuel : Nat) :
    Traced.run (decodeScannerBencodeValue (fuel + 1)) (Scanner.after front (len ++ tail)) =
      Traced.run (do return (← decodeString).map Value.bytes)
        (Scanner.after front (len ++ tail)) := by
  obtain ⟨b, others, rfl, notInt, notList, notDict, _⟩ := Bencode.signed_head signed
  rw [decodeScannerBencodeValue, Traced.run_bind_ok (Scanner.run_called _), List.cons_append,
    Traced.run_bind_ok (Scanner.run_peek_cons front _ b)]
  simp only [if_neg notInt, if_neg notList, if_neg notDict]

theorem run_decodeValue_int (front tail : Bytes) (fuel : Nat) :
    Traced.run (decodeScannerBencodeValue (fuel + 1)) (Scanner.after front (105 :: tail)) =
      Traced.run (do return (← decodeInteger).map Value.int)
        (Scanner.after front (105 :: tail)) := by
  rw [decodeScannerBencodeValue, Traced.run_bind_ok (Scanner.run_called _),
    Traced.run_bind_ok (Scanner.run_peek_cons front tail 105)]
  rfl

theorem run_decodeValue_list (front tail : Bytes) (fuel : Nat) :
    Traced.run (decodeScannerBencodeValue (fuel + 1)) (Scanner.after front (108 :: tail)) =
      Traced.run (do return (← decodeList fuel).map Value.list)
        (Scanner.after front (108 :: tail)) := by
  rw [decodeScannerBencodeValue, Traced.run_bind_ok (Scanner.run_called _),
    Traced.run_bind_ok (Scanner.run_peek_cons front tail 108)]
  rfl

theorem run_decodeValue_dict (front tail : Bytes) (fuel : Nat) :
    Traced.run (decodeScannerBencodeValue (fuel + 1)) (Scanner.after front (100 :: tail)) =
      Traced.run (do return (← decodeDict fuel).map Value.dict)
        (Scanner.after front (100 :: tail)) := by
  rw [decodeScannerBencodeValue, Traced.run_bind_ok (Scanner.run_called _),
    Traced.run_bind_ok (Scanner.run_peek_cons front tail 100)]
  rfl

theorem run_decodeList_cons (front tail : Bytes) (fuel : Nat) :
    Traced.run (decodeList (fuel + 1)) (Scanner.after front (108 :: tail)) =
      Traced.run (decodeListLoop fuel []) (Scanner.after (front ++ [108]) tail) := by
  rw [decodeList, Traced.run_bind_ok (Scanner.run_called _),
    Traced.run_bind_ok (Scanner.run_acceptSingle_of_mem front tail (by decide))]

theorem run_decodeDict_cons (front tail : Bytes) (fuel : Nat) :
    Traced.run (decodeDict (fuel + 1)) (Scanner.after front (100 :: tail)) =
      Traced.run (decodeDictLoop fuel []) (Scanner.after (front ++ [100]) tail) := by
  rw [decodeDict, Traced.run_bind_ok (Scanner.run_called _),
    Traced.run_bind_ok (Scanner.run_acceptSingle_of_mem front tail (by decide))]

/-- Behind an opening letter the loops take over. -/
theorem run_decodeValue_openList (front tail : Bytes) (fuel : Nat) :
    Traced.run (decodeScannerBencodeValue (fuel + 2)) (Scanner.after front (108 :: tail)) =
      Traced.run (do return (← decodeListLoop fuel []).map Value.list)
        (Scanner.after (front ++ [108]) tail) := by
  rw [run_decodeValue_list, Traced.run_bind, Traced.run_bind, run_decodeList_cons]

theorem run_decodeValue_openDict (front tail : Bytes) (fuel : Nat) :
    Traced.run (decodeScannerBencodeValue (fuel + 2)) (Scanner.after front (100 :: tail)) =
      Traced.run (do return (← decodeDictLoop fuel []).map Value.dict)
        (Scanner.after (front ++ [100]) tail) := by
  rw [run_decodeValue_dict, Traced.run_bind, Traced.run_bind, run_decodeDict_cons]

/-- The loops end at `e`. -/
theorem run_decodeListLoop_end (front tail : Bytes) (fuel : Nat) (result : List Value) :
    Traced.run (decodeListLoop (fuel + 1) result) (Scanner.after front (101 :: tail)) =
      .ok (.ok result, Scanner.after (front ++ [101]) tail) := by
  rw [decodeListLoop,
    Traced.run_bind_ok (Scanner.run_acceptSingle_of_mem front tail (by decide))]
  rfl

theorem run_decodeDictLoop_end (front tail : Bytes) (fuel : Nat)
    (result : List (Bytes × Value)) :
    Traced.run (decodeDictLoop (fuel + 1) result) (Scanner.after front (101 :: tail)) =
      .ok (.ok result, Scanner.after (front ++ [101]) tail) := by
  rw [decodeDictLoop,
    Traced.run_bind_ok (Scanner.run_acceptSingle_of_mem front tail (by decide))]
  rfl

/-- One round of the list loop that does not end it. -/
theorem run_decodeListLoop_item {text : Bytes} (front : Bytes) (fuel : Nat)
    (result : List Value) (notEnd : ∀ b ∈ text.head?, b ≠ 101) :
    Traced.run (decodeListLoop (fuel + 1) result) (Scanner.after front text) =
      Traced.run (do
        match ← decodeScannerBencodeValue fuel with
        | .error err => return .error (.listItem err)
        | .ok value => decodeListLoop fuel (result ++ [value])) (Scanner.after front text) := by
  have refused := Scanner.run_acceptSingle_none front
    (show ∀ b ∈ text.head?, b ∉ [101] by intro b member; simpa using notEnd b member)
  rw [decodeListLoop]
  exact Traced.run_bind_ok refused _

/-- A round of the list loop that reads a value. -/
theorem run_decodeListLoop_value {front text : Bytes} {fuel : Nat} {v : Value} {final : Scanner}
    (notEnd : ∀ b ∈ text.head?, b ≠ 101)
    (valueRun : Traced.run (decodeScannerBencodeValue fuel) (Scanner.after front text) =
      .ok (.ok v, final)) (result : List Value) :
    Traced.run (decodeListLoop (fuel + 1) result) (Scanner.after front text) =
      Traced.run (decodeListLoop fuel (result ++ [v])) final := by
  rw [run_decodeListLoop_item front fuel result notEnd, Traced.run_bind_ok valueRun]

/-- The part of a round of the dictionary loop that follows the key. -/
def decodeBinding (fuel : Nat) (result : List (Bytes × Value)) (key : Bytes) :
    Scan (Except DecodeError (List (Bytes × Value))) := do
  match ← decodeScannerBencodeValue fuel with
  | .error err => return .error (.dictValue err)
  | .ok value => decodeDictLoop fuel (Entries.insert key value result)

/-- One round of the dictionary loop that does not end it. -/
theorem run_decodeDictLoop_entry {text : Bytes} (front : Bytes) (fuel : Nat)
    (result : List (Bytes × Value)) (notEnd : ∀ b ∈ text.head?, b ≠ 101) :
    Traced.run (decodeDictLoop (fuel + 1) result) (Scanner.after front text) =
      Traced.run (do
        match ← decodeString with
        | .error err => return .error (.dictKey err)
        | .ok key => decodeBinding fuel result key) (Scanner.after front text) := by
  have refused := Scanner.run_acceptSingle_none front
    (show ∀ b ∈ text.head?, b ∉ [101] by intro b member; simpa using notEnd b member)
  rw [decodeDictLoop]
  exact Traced.run_bind_ok refused _

/-- A round of the dictionary loop reads its key, then the value of the key. -/
theorem run_decodeDictLoop_key {len key : Bytes} (numeral : dialect.keyLen len key.length)
    {front : Bytes} (small : (front ++ (len ++ 58 :: key)).length < 2 ^ 63) (tail : Bytes)
    (fuel : Nat) (result : List (Bytes × Value)) :
    Traced.run (decodeDictLoop (fuel + 1) result)
        (Scanner.after front (len ++ 58 :: (key ++ tail))) =
      Traced.run (decodeBinding fuel result key)
        (Scanner.after (front ++ (len ++ 58 :: key)) tail) := by
  rw [run_decodeDictLoop_entry front fuel result (Bencode.signed_notEnd numeral.1 _),
    Traced.run_bind_ok (run_decodeString numeral front tail small)]

theorem run_decodeBinding_value {fuel : Nat} {v : Value} {c final : Scanner}
    (valueRun : Traced.run (decodeScannerBencodeValue fuel) c = .ok (.ok v, final))
    (result : List (Bytes × Value)) (key : Bytes) :
    Traced.run (decodeBinding fuel result key) c =
      Traced.run (decodeDictLoop fuel (Entries.insert key v result)) final := by
  rw [decodeBinding, Traced.run_bind_ok valueRun]

/-- The decoders return what a derivation says, whatever follows the word. -/
theorem reads_of_derives {phrase : Phrase} {word : Bytes}
    (derives : Derives dialect phrase word) :
    ∀ front rest : Bytes, (front ++ word).length < 2 ^ 63 → Reads front word rest phrase := by
  induction derives with
  | @int word n numeral =>
      intro front rest _ fuel enough
      obtain ⟨fuel, rfl⟩ : ∃ n, fuel = n + 1 := ⟨fuel - 1, by omega⟩
      rw [List.cons_append, run_decodeValue_int, List.append_assoc, List.singleton_append,
        Traced.run_bind_ok (run_decodeInteger numeral front rest)]
      rfl
  | @bytes len content numeral =>
      intro front rest small fuel enough
      obtain ⟨fuel, rfl⟩ : ∃ n, fuel = n + 1 := ⟨fuel - 1, by omega⟩
      rw [List.append_assoc, List.cons_append, run_decodeValue_string numeral.1,
        Traced.run_bind_ok (run_decodeString numeral front rest small)]
      rfl
  | @list word l _ ih =>
      intro front rest small fuel enough
      simp only [List.length_append, List.length_cons, List.length_nil] at small enough
      obtain ⟨fuel, rfl⟩ : ∃ n, fuel = n + 2 := ⟨fuel - 2, by omega⟩
      have looped := ih (front ++ [108]) rest (by simp; omega) fuel [] (by omega)
      rw [List.cons_append, List.append_assoc, List.singleton_append, run_decodeValue_openList,
        Traced.run_bind_ok looped]
      simp [Except.map]
  | @dict word bindings _ ih =>
      intro front rest small fuel enough
      simp only [List.length_append, List.length_cons, List.length_nil] at small enough
      obtain ⟨fuel, rfl⟩ : ∃ n, fuel = n + 2 := ⟨fuel - 2, by omega⟩
      have looped := ih (front ++ [100]) rest (by simp; omega) fuel [] (by omega)
      rw [List.cons_append, List.append_assoc, List.singleton_append, run_decodeValue_openDict,
        Traced.run_bind_ok looped]
      simp [Except.map, Entries.ofList]
  | noItems =>
      intro front rest small fuel result enough
      obtain ⟨fuel, rfl⟩ : ∃ n, fuel = n + 1 := ⟨fuel - 1, by omega⟩
      simpa using run_decodeListLoop_end front rest fuel result
  | @item first others v l valueDerives _ valueReads itemsRead =>
      intro front rest small fuel result enough
      have nonempty := valueDerives.length_pos
      simp only [List.length_append] at small enough
      obtain ⟨fuel, rfl⟩ : ∃ n, fuel = n + 1 := ⟨fuel - 1, by omega⟩
      have valueRun := valueReads front (others ++ 101 :: rest) (by simp; omega) fuel (by omega)
      have restRun := itemsRead (front ++ first) rest (by simp; omega) fuel (result ++ [v])
        (by omega)
      rw [List.append_assoc,
        run_decodeListLoop_value (notEnd_append valueDerives.head _) valueRun, restRun]
      simp
  | noEntries =>
      intro front rest small fuel result enough
      obtain ⟨fuel, rfl⟩ : ∃ n, fuel = n + 1 := ⟨fuel - 1, by omega⟩
      simpa using run_decodeDictLoop_end front rest fuel result
  | @entry len key first others v d numeral valueDerives _ valueReads entriesRead =>
      intro front rest small fuel result enough
      simp only [List.length_append, List.length_cons] at small enough
      obtain ⟨fuel, rfl⟩ : ∃ n, fuel = n + 1 := ⟨fuel - 1, by omega⟩
      have valueRun := valueReads (front ++ (len ++ 58 :: key)) (others ++ 101 :: rest)
        (by simp; omega) fuel (by omega)
      have restRun := entriesRead (front ++ (len ++ 58 :: key) ++ first) rest (by simp; omega)
        fuel (Entries.insert key v result) (by omega)
      rw [entry_append, run_decodeDictLoop_key numeral (by simp; omega),
        run_decodeBinding_value valueRun, restRun]
      simp

end MainlineDht.Go
