import MainlineDht.Go.BencodeRuns

/-!
# What any run of the Go decoders can end in

The other half of the language: a run on arbitrary bytes either returns a value
together with a derivation of the bytes it has consumed, or refuses, or panics
because a string length has overrun the 64-bit position, or was given too
little fuel.  Nothing else can happen.
-/

namespace MainlineDht.Go

open Effect Ordered Text Bencode

/-- Some string length of the input, standing where the decoders read one,
carries the position past the largest `int`. -/
def Overruns (input : Bytes) : Prop :=
  ∃ (slot : Slot) (front len rest : Bytes) (n : Nat),
    (slot = .value ∨ slot = .key) ∧ Reaches dialect slot front ∧
      input = front ++ (len ++ 58 :: rest) ∧ dialect.len len n ∧
      2 ^ 63 ≤ (front ++ (len ++ [58])).length + n

variable {α β : Type}

/-- The ways a decoder may end that has read `front` and not yet `text`:
`derived` relates results to consumed words, `starved` says when the fuel may
run out. -/
inductive Verdict (front text : Bytes) (derived : α → Bytes → Prop) (starved : Prop) :
    Except Fault (Except DecodeError α × Scanner) → Prop
  | returned {a : α} {word rest : Bytes} : text = word ++ rest → derived a word →
      Verdict front text derived starved (.ok (.ok a, Scanner.after (front ++ word) rest))
  | refused {err : DecodeError} {word rest : Bytes} : text = word ++ rest →
      Verdict front text derived starved
        (.ok (.error err, Scanner.after (front ++ word) rest))
  | panicked : Overruns (front ++ text) → Verdict front text derived starved (.error .panic)
  | outOfFuel : starved → Verdict front text derived starved (.error .outOfFuel)

/-- A verdict on a text that has not been read at all. -/
theorem Verdict.refused_here {front text : Bytes} {derived : α → Bytes → Prop} {starved : Prop}
    (err : DecodeError) :
    Verdict front text derived starved (.ok (.error err, Scanner.after front text)) := by
  have verdict : Verdict front text derived starved
      (.ok (.error err, Scanner.after (front ++ []) text)) :=
    .refused (List.nil_append text).symm
  rwa [List.append_nil] at verdict

/-- Rename a result. -/
theorem Verdict.map {front text : Bytes} {derived : α → Bytes → Prop} {starved weaker : Prop}
    {computation : Scan (Except DecodeError α)} {named : β → Bytes → Prop} (f : α → β)
    (verdict : Verdict front text derived starved
      (Traced.run computation (Scanner.after front text)))
    (names : ∀ a word, derived a word → named (f a) word) (weakens : starved → weaker) :
    Verdict front text named weaker
      (Traced.run (do return (← computation).map f) (Scanner.after front text)) := by
  rw [Traced.run_bind]
  generalize Traced.run computation (Scanner.after front text) = outcome at verdict ⊢
  cases verdict with
  | returned text_eq derives => exact .returned text_eq (names _ _ derives)
  | refused text_eq => exact .refused text_eq
  | panicked overruns => exact .panicked overruns
  | outOfFuel starves => exact .outOfFuel (weakens starves)

/-- Continue after a part of the text has been read. -/
theorem Verdict.advance {front first text : Bytes} {derived whole : α → Bytes → Prop}
    {starved weaker : Prop} {outcome : Except Fault (Except DecodeError α × Scanner)}
    (verdict : Verdict (front ++ first) text derived starved outcome)
    (lengthen : ∀ a word, derived a word → whole a (first ++ word)) (weakens : starved → weaker) :
    Verdict front (first ++ text) whole weaker outcome := by
  cases verdict with
  | @returned a word rest text_eq derives =>
      rw [List.append_assoc]
      exact .returned (by simp [text_eq]) (lengthen a word derives)
  | refused text_eq =>
      rw [List.append_assoc]
      exact .refused (by simp [text_eq])
  | panicked overruns => exact .panicked (by simpa using overruns)
  | outOfFuel starves => exact .outOfFuel (weakens starves)

/-- A result comes with a derivation. -/
theorem Verdict.derived_of_ok {front text : Bytes} {derived : α → Bytes → Prop} {starved : Prop}
    {outcome : Except Fault (Except DecodeError α × Scanner)}
    (verdict : Verdict front text derived starved outcome) {a : α} {final : Scanner}
    (finished : outcome = .ok (.ok a, final)) :
    ∃ word rest, text = word ++ rest ∧ derived a word ∧ final = Scanner.after (front ++ word) rest := by
  cases verdict with
  | returned text_eq derives =>
      cases finished
      exact ⟨_, _, text_eq, derives, rfl⟩
  | refused _ => cases finished
  | panicked _ => cases finished
  | outOfFuel _ => cases finished

/-- `parseInteger` never faults and reports a numeral of the language. -/
theorem parseInteger_cases (front text : Bytes) :
    ∃ word rest, text = word ++ rest ∧ ∃ result,
      Traced.run parseInteger (Scanner.after front text) =
        .ok (result, Scanner.after (front ++ word) rest) ∧
      ∀ z, result = .ok z → Decimal.Signed word z ∧ z.natAbs < 2 ^ 63 := by
  obtain ⟨sign, digits, rest, split⟩ := Decimal.exists_split text
  refine ⟨sign ++ digits, rest, by rw [split.text_eq, List.append_assoc], _,
    run_parseInteger split front, ?_⟩
  intro z integer
  unfold integerOf at integer
  by_cases empty : digits = []
  · rw [if_pos empty] at integer
    cases integer
  · rw [if_neg empty] at integer
    by_cases small : Decimal.value digits < 2 ^ 63
    · rw [if_pos small] at integer
      cases integer
      refine ⟨split.signed empty, ?_⟩
      unfold Decimal.applySign
      split_ifs <;> omega
    · rw [if_neg small] at integer
      cases integer

theorem acceptSingle_cases (b : UInt8) (front text : Bytes) :
    (∃ rest, text = b :: rest ∧ Traced.run (Scanner.acceptSingle [b]) (Scanner.after front text) =
        .ok (some b, Scanner.after (front ++ [b]) rest)) ∨
      (∀ c ∈ text.head?, c ≠ b) ∧
        Traced.run (Scanner.acceptSingle [b]) (Scanner.after front text) =
          .ok (none, Scanner.after front text) := by
  cases text with
  | nil => exact Or.inr ⟨by simp, Scanner.run_acceptSingle_nil [b] front⟩
  | cons c rest =>
      by_cases same : c = b
      · subst same
        exact Or.inl ⟨rest, rfl, Scanner.run_acceptSingle_of_mem front rest (by simp)⟩
      · exact Or.inr ⟨by simpa using same,
          Scanner.run_acceptSingle_of_not_mem front rest (by simpa using same)⟩

/-- What the consumed bytes of a string are. -/
def StringWord (s word : Bytes) : Prop :=
  ∃ len, word = len ++ 58 :: s ∧ dialect.len len s.length

theorem decodeInteger_verdict (front text : Bytes) :
    Verdict front text (fun n word => Derives dialect (.value (.int n)) word) False
      (Traced.run decodeInteger (Scanner.after front text)) := by
  rw [decodeInteger, Traced.run_bind_ok (Scanner.run_called _)]
  rcases acceptSingle_cases 105 front text with ⟨text, rfl, accepted⟩ | ⟨_, accepted⟩
  · rw [Traced.run_bind_ok accepted]
    obtain ⟨word, text, rfl, result, parsed, integer⟩ := parseInteger_cases (front ++ [105]) text
    simp only
    rw [Traced.run_bind_ok parsed]
    rcases acceptSingle_cases 101 (front ++ [105] ++ word) text with
      ⟨rest, rfl, accepted⟩ | ⟨_, accepted⟩
    · rw [Traced.run_bind_ok accepted]
      have front_eq : front ++ [105] ++ word ++ [101] = front ++ (105 :: (word ++ [101])) := by
        simp
      rw [front_eq]
      cases result with
      | ok n => exact .returned (by simp) (.int (integer n rfl))
      | error err => exact .refused (by simp)
    · rw [Traced.run_bind_ok accepted, List.append_assoc]
      exact .refused (by simp)
  · rw [Traced.run_bind_ok accepted]
    exact .refused_here _

/-- A string read at a place where the language has one. -/
theorem decodeString_verdict {slot : Slot} (isString : slot = .value ∨ slot = .key)
    {front text : Bytes} (reaches : Reaches dialect slot front)
    (small : (front ++ text).length < 2 ^ 63) :
    Verdict front text StringWord False (Traced.run decodeString (Scanner.after front text)) := by
  rw [decodeString, Traced.run_bind_ok (Scanner.run_called _)]
  obtain ⟨word, text, rfl, result, parsed, integer⟩ := parseInteger_cases front text
  rw [Traced.run_bind_ok parsed]
  cases result with
  | error err => exact .refused rfl
  | ok z =>
      obtain ⟨signed, bounded⟩ := integer z rfl
      by_cases negative : z < 0
      · simp only [if_pos negative]
        exact .refused rfl
      · obtain ⟨n, rfl⟩ := Int.eq_ofNat_of_zero_le (not_lt.mp negative)
        simp only [if_neg negative]
        rcases acceptSingle_cases 58 (front ++ word) text with
          ⟨rest, rfl, accepted⟩ | ⟨_, accepted⟩
        · rw [Traced.run_bind_ok accepted]
          have numeral : dialect.len word n := ⟨signed, by simpa using bounded⟩
          simp only [List.length_append, List.length_cons] at small
          by_cases wraps : 2 ^ 63 ≤ (front ++ word ++ [58]).length + n
          · have panics := @Scanner.run_acceptRun_wrap _ rest _ wraps (by
              simp only [List.length_append, List.length_cons, List.length_nil]
              omega)
            simp only
            rw [Traced.run_bind_error panics]
            exact .panicked ⟨slot, front, word, rest, n, isString, reaches, rfl, numeral,
              by simpa using wraps⟩
          · by_cases short : rest.length < n
            · have refuses := Scanner.run_acceptRun_short (not_le.mp wraps) short
              simp only
              rw [Traced.run_bind_ok refuses, List.append_assoc]
              exact .refused (by simp)
            · obtain ⟨content, rest, rfl, rfl⟩ :
                  ∃ content others, rest = content ++ others ∧ n = content.length :=
                ⟨rest.take n, rest.drop n, (List.take_append_drop n rest).symm, by simp; omega⟩
              have returns := Scanner.run_acceptRun (front ++ word ++ [58]) content rest
                (not_le.mp wraps)
              simp only
              rw [Traced.run_bind_ok returns,
                show front ++ word ++ [58] ++ content = front ++ (word ++ 58 :: content) by simp]
              exact .returned (by simp) ⟨word, rfl, numeral⟩
        · rw [Traced.run_bind_ok accepted]
          exact .refused rfl

/-- All five mutually recursive functions at one fuel. -/
structure Verdicts (fuel : Nat) : Prop where
  value {front text : Bytes} : (front ++ text).length < 2 ^ 63 → Reaches dialect .value front →
    Verdict front text (fun v word => Derives dialect (.value v) word)
      (fuel < 3 * text.length + 2)
      (Traced.run (decodeScannerBencodeValue fuel) (Scanner.after front text))
  list {front text : Bytes} : (front ++ text).length < 2 ^ 63 → Reaches dialect .value front →
    Verdict front text (fun l word => Derives dialect (.value (.list l)) word)
      (fuel < 3 * text.length + 1)
      (Traced.run (decodeList fuel) (Scanner.after front text))
  listLoop {front text : Bytes} (result : List Value) : (front ++ text).length < 2 ^ 63 →
    Reaches dialect .item front →
    Verdict front text
      (fun l word => ∃ items body, l = result ++ items ∧ word = body ++ [101] ∧
        Derives dialect (.items items) body)
      (fuel < 3 * text.length + 3)
      (Traced.run (decodeListLoop fuel result) (Scanner.after front text))
  dict {front text : Bytes} : (front ++ text).length < 2 ^ 63 → Reaches dialect .value front →
    Verdict front text (fun d word => Derives dialect (.value (.dict d)) word)
      (fuel < 3 * text.length + 1)
      (Traced.run (decodeDict fuel) (Scanner.after front text))
  dictLoop {front text : Bytes} (result : List (Bytes × Value)) :
    (front ++ text).length < 2 ^ 63 → Reaches dialect .key front →
    Verdict front text
      (fun d word => ∃ bindings body, d = Entries.insertAll bindings result ∧
        word = body ++ [101] ∧ Derives dialect (.entries bindings) body)
      (fuel < 3 * text.length + 3)
      (Traced.run (decodeDictLoop fuel result) (Scanner.after front text))

theorem Verdicts.zero : Verdicts 0 where
  value _ _ := .outOfFuel (by omega)
  list _ _ := .outOfFuel (by omega)
  listLoop _ _ _ := .outOfFuel (by omega)
  dict _ _ := .outOfFuel (by omega)
  dictLoop _ _ _ := .outOfFuel (by omega)

section Step

variable {fuel : Nat} {front text : Bytes}

/-- A value: the first byte picks the decoder. -/
theorem Verdicts.value_succ (ih : Verdicts fuel) (small : (front ++ text).length < 2 ^ 63)
    (reaches : Reaches dialect .value front) :
    Verdict front text (fun v word => Derives dialect (.value v) word)
      (fuel + 1 < 3 * text.length + 2)
      (Traced.run (decodeScannerBencodeValue (fuel + 1)) (Scanner.after front text)) := by
  rw [decodeScannerBencodeValue, Traced.run_bind_ok (Scanner.run_called _)]
  cases text with
  | nil =>
      rw [Traced.run_bind_ok (Scanner.run_peek_nil front)]
      exact .refused_here _
  | cons c text =>
      rw [Traced.run_bind_ok (Scanner.run_peek_cons front text c)]
      simp only
      split_ifs with isInt isList isDict
      · exact (decodeInteger_verdict front (c :: text)).map Value.int
          (fun _ _ derives => derives) False.elim
      · exact (ih.list small reaches).map Value.list (fun _ _ derives => derives) (by omega)
      · exact (ih.dict small reaches).map Value.dict (fun _ _ derives => derives) (by omega)
      · apply (decodeString_verdict (Or.inl rfl) reaches small).map Value.bytes _ False.elim
        rintro s word ⟨len, rfl, numeral⟩
        exact .bytes numeral

theorem Verdicts.list_succ (ih : Verdicts fuel) (small : (front ++ text).length < 2 ^ 63)
    (reaches : Reaches dialect .value front) :
    Verdict front text (fun l word => Derives dialect (.value (.list l)) word)
      (fuel + 1 < 3 * text.length + 1)
      (Traced.run (decodeList (fuel + 1)) (Scanner.after front text)) := by
  rw [decodeList, Traced.run_bind_ok (Scanner.run_called _)]
  rcases acceptSingle_cases 108 front text with ⟨text, rfl, accepted⟩ | ⟨_, accepted⟩
  · rw [Traced.run_bind_ok accepted]
    have looped := @ih.listLoop _ text [] (by simpa using small) reaches.openList
    apply @Verdict.advance _ front [108] text _ _ _ _ _ looped
    · rintro l word ⟨items, body, rfl, rfl, derives⟩
      exact .list derives
    · simp only [List.length_cons]
      omega
  · rw [Traced.run_bind_ok accepted]
    exact .refused_here _

theorem Verdicts.dict_succ (ih : Verdicts fuel) (small : (front ++ text).length < 2 ^ 63)
    (reaches : Reaches dialect .value front) :
    Verdict front text (fun d word => Derives dialect (.value (.dict d)) word)
      (fuel + 1 < 3 * text.length + 1)
      (Traced.run (decodeDict (fuel + 1)) (Scanner.after front text)) := by
  rw [decodeDict, Traced.run_bind_ok (Scanner.run_called _)]
  rcases acceptSingle_cases 100 front text with ⟨text, rfl, accepted⟩ | ⟨_, accepted⟩
  · rw [Traced.run_bind_ok accepted]
    have looped := @ih.dictLoop _ text [] (by simpa using small) reaches.openDict
    apply @Verdict.advance _ front [100] text _ _ _ _ _ looped
    · rintro d word ⟨bindings, body, rfl, rfl, derives⟩
      exact .dict derives
    · simp only [List.length_cons]
      omega
  · rw [Traced.run_bind_ok accepted]
    exact .refused_here _

/-- A round of the list loop: the end, or an item and the rounds after it. -/
theorem Verdicts.listLoop_succ (ih : Verdicts fuel) (result : List Value)
    (small : (front ++ text).length < 2 ^ 63) (reaches : Reaches dialect .item front) :
    Verdict front text
      (fun l word => ∃ items body, l = result ++ items ∧ word = body ++ [101] ∧
        Derives dialect (.items items) body)
      (fuel + 1 < 3 * text.length + 3)
      (Traced.run (decodeListLoop (fuel + 1) result) (Scanner.after front text)) := by
  rcases acceptSingle_cases 101 front text with ⟨text, rfl, _⟩ | ⟨notEnd, _⟩
  · rw [run_decodeListLoop_end]
    exact .returned (List.singleton_append).symm
      ⟨[], [], (List.append_nil result).symm, rfl, .noItems⟩
  · rw [run_decodeListLoop_item front fuel result notEnd, Traced.run_bind]
    have first := ih.value small reaches.ofItem
    generalize Traced.run (decodeScannerBencodeValue fuel) (Scanner.after front text) =
      outcome at first ⊢
    cases first with
    | @returned v word rest text_eq valueDerives =>
        subst text_eq
        have consumed := valueDerives.length_pos
        have looped := @ih.listLoop _ rest (result ++ [v]) (by simpa using small)
          (reaches.nextItem valueDerives)
        apply looped.advance
        · rintro l others ⟨items, body, rfl, rfl, derives⟩
          exact ⟨v :: items, word ++ body, by simp, by simp, .item valueDerives derives⟩
        · simp only [List.length_append]
          omega
    | refused text_eq => exact .refused text_eq
    | panicked overruns => exact .panicked overruns
    | outOfFuel starved => exact .outOfFuel (by omega)

/-- The value of a key and the rounds after it. -/
theorem Verdicts.binding (held : Verdicts fuel) (result : List (Bytes × Value)) (k : Bytes)
    (small : (front ++ text).length < 2 ^ 63) (reaches : Reaches dialect .binding front) :
    Verdict front text
      (fun d word => ∃ v first bindings body, d = Entries.insertAll ((k, v) :: bindings) result ∧
        word = first ++ (body ++ [101]) ∧ Derives dialect (.value v) first ∧
          Derives dialect (.entries bindings) body)
      (fuel < 3 * text.length + 2)
      (Traced.run (decodeBinding fuel result k) (Scanner.after front text)) := by
  rw [decodeBinding, Traced.run_bind]
  have first := held.value small reaches.ofBinding
  generalize Traced.run (decodeScannerBencodeValue fuel) (Scanner.after front text) =
    outcome at first ⊢
  cases first with
  | @returned v word rest text_eq valueDerives =>
      subst text_eq
      have consumed := valueDerives.length_pos
      have looped := @held.dictLoop _ rest (Entries.insert k v result) (by simpa using small)
        (reaches.nextKey valueDerives)
      apply looped.advance
      · rintro d others ⟨bindings, body, rfl, rfl, derives⟩
        exact ⟨v, word, bindings, body, rfl, rfl, valueDerives, derives⟩
      · simp only [List.length_append]
        omega
  | refused text_eq => exact .refused text_eq
  | panicked overruns => exact .panicked overruns
  | outOfFuel starved => exact .outOfFuel starved

/-- A round of the dictionary loop: the end, or a key with what follows it. -/
theorem Verdicts.dictLoop_succ (ih : Verdicts fuel) (result : List (Bytes × Value))
    (small : (front ++ text).length < 2 ^ 63) (reaches : Reaches dialect .key front) :
    Verdict front text
      (fun d word => ∃ bindings body, d = Entries.insertAll bindings result ∧
        word = body ++ [101] ∧ Derives dialect (.entries bindings) body)
      (fuel + 1 < 3 * text.length + 3)
      (Traced.run (decodeDictLoop (fuel + 1) result) (Scanner.after front text)) := by
  rcases acceptSingle_cases 101 front text with ⟨text, rfl, _⟩ | ⟨notEnd, _⟩
  · rw [run_decodeDictLoop_end]
    exact .returned (List.singleton_append).symm ⟨[], [], rfl, rfl, .noEntries⟩
  · rw [run_decodeDictLoop_entry front fuel result notEnd, Traced.run_bind]
    have keyRead := decodeString_verdict (Or.inr rfl) reaches small
    generalize Traced.run decodeString (Scanner.after front text) = outcome at keyRead ⊢
    cases keyRead with
    | @returned k word rest text_eq isString =>
        obtain ⟨len, rfl, numeral⟩ := isString
        subst text_eq
        have bound := @ih.binding _ _ rest result k (by simpa using small) (reaches.key numeral)
        apply bound.advance
        · rintro d others ⟨v, first, bindings, body, rfl, rfl, valueDerives, derives⟩
          exact ⟨(k, v) :: bindings, len ++ 58 :: (k ++ (first ++ body)), rfl, by simp,
            .entry numeral valueDerives derives⟩
        · simp only [List.length_append, List.length_cons]
          omega
    | refused text_eq => exact .refused text_eq
    | panicked overruns => exact .panicked overruns
    | outOfFuel starved => exact starved.elim

end Step

/-- Every run of a decoder ends in one of the verdicts. -/
theorem verdicts (fuel : Nat) : Verdicts fuel := by
  induction fuel with
  | zero => exact Verdicts.zero
  | succ fuel ih =>
      exact
        { value := ih.value_succ
          list := ih.list_succ
          listLoop := ih.listLoop_succ
          dict := ih.dict_succ
          dictLoop := ih.dictLoop_succ }

/-- The entry points have fuel for every input. -/
theorem decodeBencodeValue_verdict (input : Bytes) (fits : input.length < 2 ^ 63) :
    Verdict [] input (fun v word => Derives dialect (.value v) word) False
      (decodeBencodeValue input) := by
  have verdict := @(verdicts (decodeFuel input)).value [] input fits .start
  apply @Verdict.advance _ [] [] input _ _ _ _ _ verdict
  · exact fun _ _ derives => derives
  · unfold decodeFuel
    omega

theorem decodeBencodeDict_verdict (input : Bytes) (fits : input.length < 2 ^ 63) :
    Verdict [] input (fun d word => Derives dialect (.value (.dict d)) word) False
      (decodeBencodeDict input) := by
  have verdict := @(verdicts (decodeFuel input)).dict [] input fits .start
  apply @Verdict.advance _ [] [] input _ _ _ _ _ verdict
  · exact fun _ _ derives => derives
  · unfold decodeFuel
    omega

end MainlineDht.Go
