import MainlineDht.Rust.BencodeRuns

/-!
# The language of the Rust decoder

A run on arbitrary bytes either returns a value together with a derivation of
the bytes it has consumed, or refuses.  With the runs on derivable words this
makes the dialect exactly the language of the decoder.
-/

namespace MainlineDht.Rust

open Effect Ordered Text Bencode

open Cursor (after)

variable {α β : Type} {front text : Bytes}

/-- The ways a decoder may end that has read `front` and not yet `text`:
`derived` relates results to consumed words, `starved` says when the fuel may
run out. -/
inductive Verdict (front text : Bytes) (derived : α → Bytes → Prop) (starved : Prop) :
    Except Failure (α × Cursor) → Prop
  | returned {a : α} {word rest : Bytes} : text = word ++ rest → derived a word →
      Verdict front text derived starved (.ok (a, after (front ++ word) rest))
  | refused (error : DecoderError) : Verdict front text derived starved (.error (.err error))
  | outOfFuel : starved → Verdict front text derived starved (.error .outOfFuel)

namespace Verdict

variable {derived named : α → Bytes → Prop} {whole : β → Bytes → Prop} {starved weaker : Prop}

/-- Nothing more is read. -/
theorem done {a : α} (derives : derived a []) :
    Verdict front text derived starved (.ok (a, after front text)) := by
  have verdict : Verdict front text derived starved (.ok (a, after (front ++ []) text)) :=
    .returned (List.nil_append text).symm derives
  rwa [List.append_nil] at verdict

theorem imp {outcome : Except Failure (α × Cursor)}
    (verdict : Verdict front text derived starved outcome)
    (names : ∀ a word, derived a word → named a word) (weakens : starved → weaker) :
    Verdict front text named weaker outcome := by
  cases verdict with
  | returned text_eq derives => exact .returned text_eq (names _ _ derives)
  | refused error => exact .refused error
  | outOfFuel starves => exact .outOfFuel (weakens starves)

/-- Continue where the first computation has stopped. -/
theorem bind {first : Decode α} {next : α → Decode β}
    (verdict : Verdict front text derived starved (Traced.run first (after front text)))
    (continues : ∀ a word rest, text = word ++ rest → derived a word →
      Verdict (front ++ word) rest (fun b others => whole b (word ++ others)) weaker
        (Traced.run (next a) (after (front ++ word) rest)))
    (weakens : starved → weaker) :
    Verdict front text whole weaker (Traced.run (first >>= next) (after front text)) := by
  rw [Traced.run_bind]
  generalize Traced.run first (after front text) = outcome at verdict
  cases verdict with
  | @returned a word rest text_eq derives =>
      have verdict := continues a word rest text_eq derives
      dsimp only
      generalize Traced.run (next a) (after (front ++ word) rest) = outcome at verdict
      cases verdict with
      | @returned b others rest rest_eq derives =>
          rw [List.append_assoc]
          exact .returned (by rw [text_eq, rest_eq, List.append_assoc]) derives
      | refused error => exact .refused error
      | outOfFuel starves => exact .outOfFuel starves
  | refused error => exact .refused error
  | outOfFuel starves => exact .outOfFuel (weakens starves)

/-- A result comes with a derivation. -/
theorem derived_of_ok {outcome : Except Failure (α × Cursor)}
    (verdict : Verdict front text derived starved outcome) {a : α} {final : Cursor}
    (finished : outcome = .ok (a, final)) :
    ∃ word rest, text = word ++ rest ∧ derived a word ∧ final = after (front ++ word) rest := by
  cases verdict with
  | returned text_eq derives =>
      cases finished
      exact ⟨_, _, text_eq, derives, rfl⟩
  | refused _ => cases finished
  | outOfFuel _ => cases finished

end Verdict

namespace Decoder

theorem takeByte_verdict (front text : Bytes) :
    Verdict front text (fun byte word => word = [byte]) False
      (Traced.run takeByte (after front text)) := by
  cases text with
  | nil =>
      rw [run_takeByte_nil]
      exact .refused _
  | cons byte rest =>
      rw [run_takeByte_cons]
      exact .returned (List.singleton_append).symm rfl

theorem parseInt_verdict (front text : Bytes) :
    Verdict front text (fun z word => Decimal.Signed word z ∧ InI64 z) False
      (Traced.run parseInt (after front text)) := by
  rcases parseInt_cases front text with ⟨word, rest, z, text_eq, signed, fits, run⟩ | ⟨_, run⟩
  · rw [run]
    exact .returned text_eq ⟨signed, fits⟩
  · rw [run]
    exact .refused _

/-- What the consumed bytes of an integer are. -/
def IntWord (v : Value) (word : Bytes) : Prop :=
  ∃ n numeral, v = .int n ∧ word = 105 :: (numeral ++ [101]) ∧ dialect.int numeral n

/-- What the consumed bytes of a string are. -/
def StringWord (v : Value) (word : Bytes) : Prop :=
  ∃ content len, v = .bytes content ∧ word = len ++ 58 :: content ∧
    dialect.keyLen len content.length

theorem decodeInt_verdict (front text : Bytes) :
    Verdict front text IntWord False (Traced.run decodeInt (after front text)) := by
  apply (takeByte_verdict front text).bind _ False.elim
  rintro start _ text rfl rfl
  by_cases opens : start = 105
  · subst opens
    rw [if_neg (by decide)]
    apply (parseInt_verdict _ text).bind _ False.elim
    rintro z numeral text rfl isInt
    apply (takeByte_verdict _ text).bind _ False.elim
    rintro stop _ text rfl rfl
    by_cases closes : stop = 101
    · subst closes
      rw [if_neg (by decide)]
      exact .done ⟨z, numeral, rfl, by simp, isInt⟩
    · rw [if_pos closes]
      exact .refused _
  · rw [if_pos opens]
    exact .refused _

/-- A negative length is cast to more bytes than a slice can have. -/
theorem le_asUsize_of_neg {z : Int} (fits : InI64 z) (negative : z < 0) :
    2 ^ 63 ≤ asUsize z := by
  unfold InI64 at fits
  unfold asUsize
  omega

theorem decodeBytestring_verdict (small : (front ++ text).length < 2 ^ 63) :
    Verdict front text StringWord False (Traced.run decodeBytestring (after front text)) := by
  apply (parseInt_verdict front text).bind _ False.elim
  rintro z len text rfl ⟨signed, fits⟩
  apply (takeByte_verdict _ text).bind _ False.elim
  rintro start _ text rfl rfl
  by_cases opens : start = 58
  · subst opens
    rw [if_neg (by decide), Traced.run_bind_ok (Traced.run_read _), Cursor.remaining_after,
      Cursor.getSlice_after]
    simp only [List.length_append, List.length_cons] at small
    by_cases short : text.length < asUsize z
    · rw [if_pos short]
      exact .refused _
    · rw [if_neg short]
      have nonnegative : 0 ≤ z := by
        by_contra negative
        have large := le_asUsize_of_neg fits (not_le.mp negative)
        omega
      obtain ⟨n, rfl⟩ := Int.eq_ofNat_of_zero_le nonnegative
      have bounded : n < 2 ^ 63 := by
        unfold InI64 at fits
        omega
      have size : asUsize n = n := asUsize_natCast bounded
      rw [size] at short ⊢
      have taken : (text.take n).length = n := by
        rw [List.length_take]
        omega
      have advanced := run_advance (front ++ len ++ [58]) (text.take n) (text.drop n)
      rw [taken, List.take_append_drop] at advanced
      rw [Traced.run_bind_ok (run_sliceTo (not_lt.mp short) _), Traced.run_bind_ok advanced]
      refine .returned (List.take_append_drop n text).symm ⟨text.take n, len, rfl, by simp, ?_⟩
      rw [taken]
      exact ⟨signed, bounded⟩
  · rw [if_pos opens]
    exact .refused _

/-- A length that starts with a digit has no sign. -/
theorem digits_of_signed {digit : UInt8} {others : Bytes} {n : Nat}
    (isDigit : Decimal.isDigit digit = true) (signed : Decimal.Signed (digit :: others) n) :
    Decimal.Digits (digit :: others) n := by
  generalize word_eq : digit :: others = word at signed
  generalize value_eq : (n : Int) = z at signed
  cases signed with
  | plain digits =>
      rw [Int.ofNat_inj.mp value_eq]
      exact digits
  | plus _ =>
      cases word_eq
      exact absurd isDigit (by decide)
  | minus _ =>
      cases word_eq
      exact absurd isDigit (by decide)

/-- All five mutually recursive functions at one fuel. -/
structure Verdicts (fuel : Nat) : Prop where
  value {front text : Bytes} : (front ++ text).length < 2 ^ 63 →
    Verdict front text (fun v word => Derives dialect (.value v) word)
      (fuel < 3 * text.length + 2) (Traced.run (decodeValue fuel) (after front text))
  list {front text : Bytes} : (front ++ text).length < 2 ^ 63 →
    Verdict front text (fun v word => Derives dialect (.value v) word)
      (fuel < 3 * text.length + 1) (Traced.run (decodeList fuel) (after front text))
  listLoop {front text : Bytes} (result : List Value) : (front ++ text).length < 2 ^ 63 →
    Verdict front text
      (fun l word => ∃ items body, l = result ++ items ∧ word = body ++ [101] ∧
        Derives dialect (.items items) body)
      (fuel < 3 * text.length + 3) (Traced.run (decodeListLoop fuel result) (after front text))
  dict {front text : Bytes} : (front ++ text).length < 2 ^ 63 →
    Verdict front text (fun v word => Derives dialect (.value v) word)
      (fuel < 3 * text.length + 1) (Traced.run (decodeDict fuel) (after front text))
  dictLoop {front text : Bytes} (result : List (Bytes × Value)) :
    (front ++ text).length < 2 ^ 63 →
    Verdict front text
      (fun d word => ∃ bindings body, d = Entries.insertAll bindings result ∧
        word = body ++ [101] ∧ Derives dialect (.entries bindings) body)
      (fuel < 3 * text.length + 3) (Traced.run (decodeDictLoop fuel result) (after front text))

theorem Verdicts.zero : Verdicts 0 where
  value _ := .outOfFuel (by omega)
  list _ := .outOfFuel (by omega)
  listLoop _ _ := .outOfFuel (by omega)
  dict _ := .outOfFuel (by omega)
  dictLoop _ _ := .outOfFuel (by omega)

section Step

variable {fuel : Nat}

/-- A value: the first byte picks the decoder. -/
theorem Verdicts.value_succ (ih : Verdicts fuel) (small : (front ++ text).length < 2 ^ 63) :
    Verdict front text (fun v word => Derives dialect (.value v) word)
      (fuel + 1 < 3 * text.length + 2) (Traced.run (decodeValue (fuel + 1)) (after front text)) := by
  cases text with
  | nil =>
      rw [decodeValue, Traced.run_bind_error (run_peekByte_nil front)]
      exact .refused _
  | cons byte text =>
      rw [decodeValue, Traced.run_bind_ok (run_peekByte_cons front text byte)]
      split_ifs with isInt isDigit isList isDict
      · apply (decodeInt_verdict front (byte :: text)).imp _ False.elim
        rintro _ _ ⟨n, numeral, rfl, rfl, isNumeral⟩
        exact .int isNumeral
      · -- the length starts with the digit that was peeked at
        have verdict := decodeBytestring_verdict small
        generalize Traced.run decodeBytestring (after front (byte :: text)) = outcome at verdict
        cases verdict with
        | returned text_eq isString =>
            obtain ⟨content, len, rfl, rfl, signed, bounded⟩ := isString
            obtain ⟨first, others, rfl, _⟩ := Bencode.signed_head signed
            cases text_eq
            exact .returned rfl (.bytes ⟨digits_of_signed isDigit signed, bounded⟩)
        | refused error => exact .refused error
        | outOfFuel starved => exact starved.elim
      · exact (ih.list small).imp (fun _ _ derives => derives) (by omega)
      · exact (ih.dict small).imp (fun _ _ derives => derives) (by omega)
      · exact .refused _

theorem Verdicts.list_succ (ih : Verdicts fuel) (small : (front ++ text).length < 2 ^ 63) :
    Verdict front text (fun v word => Derives dialect (.value v) word)
      (fuel + 1 < 3 * text.length + 1) (Traced.run (decodeList (fuel + 1)) (after front text)) := by
  apply (takeByte_verdict front text).bind _ False.elim
  rintro start _ text rfl rfl
  by_cases opens : start = 108
  · subst opens
    rw [if_neg (by decide)]
    apply (ih.listLoop [] (by simpa using small)).bind
    · rintro l word rest rfl ⟨items, body, rfl, rfl, derives⟩
      exact .done (by simpa using Derives.list derives)
    · simp only [List.length_append, List.length_singleton]
      omega
  · rw [if_pos opens]
    exact .refused _

theorem Verdicts.dict_succ (ih : Verdicts fuel) (small : (front ++ text).length < 2 ^ 63) :
    Verdict front text (fun v word => Derives dialect (.value v) word)
      (fuel + 1 < 3 * text.length + 1) (Traced.run (decodeDict (fuel + 1)) (after front text)) := by
  apply (takeByte_verdict front text).bind _ False.elim
  rintro start _ text rfl rfl
  by_cases opens : start = 100
  · subst opens
    rw [if_neg (by decide)]
    apply (ih.dictLoop [] (by simpa using small)).bind
    · rintro d word rest rfl ⟨bindings, body, rfl, rfl, derives⟩
      exact .done (by simpa [Entries.ofList] using Derives.dict derives)
    · simp only [List.length_append, List.length_singleton]
      omega
  · rw [if_pos opens]
    exact .refused _

/-- A round of the list loop: the end, or an item and the rounds after it. -/
theorem Verdicts.listLoop_succ (ih : Verdicts fuel) (result : List Value)
    (small : (front ++ text).length < 2 ^ 63) :
    Verdict front text
      (fun l word => ∃ items body, l = result ++ items ∧ word = body ++ [101] ∧
        Derives dialect (.items items) body)
      (fuel + 1 < 3 * text.length + 3)
      (Traced.run (decodeListLoop (fuel + 1) result) (after front text)) := by
  cases text with
  | nil =>
      rw [decodeListLoop, Traced.run_bind_error (run_peekByte_nil front)]
      exact .refused _
  | cons byte text =>
      by_cases ends : byte = 101
      · subst ends
        rw [run_decodeListLoop_end]
        exact .returned (List.singleton_append).symm
          ⟨[], [], (List.append_nil result).symm, rfl, .noItems⟩
      · rw [run_decodeListLoop_item ends]
        apply (ih.value small).bind
        · intro v word rest text_eq valueDerives
          have consumed := valueDerives.length_pos
          rw [text_eq] at small ⊢
          apply (ih.listLoop (result ++ [v]) (by simpa using small)).imp
          · rintro l _ ⟨items, body, rfl, rfl, derives⟩
            exact ⟨v :: items, word ++ body, by simp, by simp, .item valueDerives derives⟩
          · simp only [List.length_append]
            omega
        · omega

/-- The value of a key and the rounds after it. -/
theorem Verdicts.binding (held : Verdicts fuel) (result : List (Bytes × Value)) (k : Bytes)
    (small : (front ++ text).length < 2 ^ 63) :
    Verdict front text
      (fun d word => ∃ v first bindings body, d = Entries.insertAll ((k, v) :: bindings) result ∧
        word = first ++ (body ++ [101]) ∧ Derives dialect (.value v) first ∧
          Derives dialect (.entries bindings) body)
      (fuel < 3 * text.length + 2)
      (Traced.run (decodeBinding fuel result k) (after front text)) := by
  apply (held.value small).bind
  · intro v word rest text_eq valueDerives
    have consumed := valueDerives.length_pos
    rw [text_eq] at small ⊢
    apply (held.dictLoop (Entries.insert k v result) (by simpa using small)).imp
    · rintro d _ ⟨bindings, body, rfl, rfl, derives⟩
      exact ⟨v, word, bindings, body, rfl, rfl, valueDerives, derives⟩
    · simp only [List.length_append]
      omega
  · exact fun starved => starved

/-- A round of the dictionary loop: the end, or a key with what follows it. -/
theorem Verdicts.dictLoop_succ (ih : Verdicts fuel) (result : List (Bytes × Value))
    (small : (front ++ text).length < 2 ^ 63) :
    Verdict front text
      (fun d word => ∃ bindings body, d = Entries.insertAll bindings result ∧
        word = body ++ [101] ∧ Derives dialect (.entries bindings) body)
      (fuel + 1 < 3 * text.length + 3)
      (Traced.run (decodeDictLoop (fuel + 1) result) (after front text)) := by
  cases text with
  | nil =>
      rw [decodeDictLoop, Traced.run_bind_error (run_peekByte_nil front)]
      exact .refused _
  | cons byte text =>
      by_cases ends : byte = 101
      · subst ends
        rw [run_decodeDictLoop_end]
        exact .returned (List.singleton_append).symm ⟨[], [], rfl, rfl, .noEntries⟩
      · rw [decodeDictLoop, Traced.run_bind_ok (run_peekByte_cons front text byte), if_neg ends]
        apply (decodeBytestring_verdict small).bind _ False.elim
        rintro _ _ rest text_eq ⟨k, len, rfl, rfl, numeral⟩
        rw [text_eq] at small ⊢
        apply (ih.binding result k (by simpa using small)).imp
        · rintro d _ ⟨v, first, bindings, body, rfl, rfl, valueDerives, derives⟩
          exact ⟨(k, v) :: bindings, len ++ 58 :: (k ++ (first ++ body)), rfl, by simp,
            .entry numeral valueDerives derives⟩
        · simp only [List.length_append, List.length_cons]
          omega

end Step

/-- Every run of a decoder ends in one of the verdicts. -/
theorem verdicts (fuel : Nat) : Verdicts fuel := by
  induction fuel with
  | zero => exact Verdicts.zero
  | succ fuel ih =>
      exact
        { value := ih.value_succ
          list := ih.list_succ
          listLoop := ih.listLoop_succ
          dict := ih.dict_succ
          dictLoop := ih.dictLoop_succ }

end Decoder

/-- `Bencode::decode` has fuel for every input that a slice can hold. -/
theorem decode_verdict (input : Bytes) (fits : input.length < 2 ^ 63) :
    Verdict [] input (fun v word => Derives dialect (.value v) word) False (decode input) := by
  have verdict := @(Decoder.verdicts (decodeFuel input)).value [] input fits
  apply Verdict.imp verdict (fun _ _ derives => derives)
  unfold decodeFuel
  omega

theorem decode_of_derives {v : Value} {word : Bytes} (derives : Derives dialect (.value v) word)
    (rest : Bytes) : decode (word ++ rest) = .ok (v, after word rest) := by
  have reads := Decoder.reads_of_derives derives [] rest
  apply reads
  unfold decodeFuel
  simp only [List.length_append]
  omega

/-- `Bencode::decode` returns a value after consuming some bytes exactly if
these bytes derive the value. -/
theorem decode_iff_derives (s : Bytes) (fits : s.length < 2 ^ 63) (v : Value) (n : Nat) :
    (∃ c, decode s = .ok (v, c) ∧ c.position = n) ↔
      n ≤ s.length ∧ Derives dialect (.value v) (s.take n) := by
  constructor
  · rintro ⟨c, decoded, rfl⟩
    obtain ⟨word, rest, rfl, derives, rfl⟩ := (decode_verdict s fits).derived_of_ok decoded
    constructor
    · rw [List.length_append]
      exact Nat.le_add_right _ _
    · have consumed : (word ++ rest).take (after ([] ++ word) rest).position = word :=
        List.take_left
      rwa [consumed]
  · rintro ⟨upTo, derives⟩
    have decoded := decode_of_derives derives (s.drop n)
    rw [List.take_append_drop] at decoded
    refine ⟨_, decoded, ?_⟩
    exact List.length_take_of_le upTo

/-- A key of signed length and a number with leading zeros, `d+1:ai-07ee`, with
one more byte behind them. -/
theorem decode_iff_derives_dict :
    ∃ c, decode [100, 43, 49, 58, 97, 105, 45, 48, 55, 101, 101, 101] =
      .ok (.dict [([97], .int (-7))], c) ∧ c.position = 11 := by
  apply (decode_iff_derives _ (by decide +kernel) _ 11).mpr
  have keyLen : dialect.keyLen [43, 49] 1 :=
    ⟨.plus ⟨by decide, List.all_eq_true.mp rfl, rfl⟩, by decide +kernel⟩
  have int : dialect.int [45, 48, 55] (-7) :=
    ⟨.minus ⟨by decide, List.all_eq_true.mp rfl, rfl⟩, by decide +kernel⟩
  have binding := @Derives.entry dialect _ [97] _ _ _ _ keyLen (.int int) .noEntries
  exact ⟨by decide, .dict binding⟩

end MainlineDht.Rust
