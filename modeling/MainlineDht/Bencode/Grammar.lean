import MainlineDht.Bencode.Value

/-!
# Bencode grammars

Readers of bencode differ in the numerals they admit, not in the shape of the
language.  A `Dialect` fixes the numerals of integers, of string lengths and of
key lengths; `Derives` is the language it generates.  Keys may come in any
order and the last binding of a key counts.

`Reaches` describes the proper prefixes of derivable words: the byte strings
after which a left-to-right reader expects a value, another list item or
another dictionary key.
-/

namespace MainlineDht.Bencode

open Ordered Text

/-- The numerals a reader admits.  Each is ordinary decimal notation with at
most one sign. -/
structure Dialect where
  int : Bytes → Int → Prop
  len : Bytes → Nat → Prop
  keyLen : Bytes → Nat → Prop
  int_signed {word : Bytes} {n : Int} : int word n → Decimal.Signed word n
  len_signed {word : Bytes} {n : Nat} : len word n → Decimal.Signed word n
  keyLen_signed {word : Bytes} {n : Nat} : keyLen word n → Decimal.Signed word n

/-- What a word may be derived as. -/
inductive Phrase
  | value (value : Value)
  | items (items : List Value)
  | entries (bindings : List (Bytes × Value))

/-- The words of a dialect.  The byte literals are `i` 105, `l` 108, `d` 100,
`e` 101 and `:` 58. -/
inductive Derives (dialect : Dialect) : Phrase → Bytes → Prop
  | int {word : Bytes} {n : Int} : dialect.int word n →
      Derives dialect (.value (.int n)) (105 :: (word ++ [101]))
  | bytes {len content : Bytes} : dialect.len len content.length →
      Derives dialect (.value (.bytes content)) (len ++ 58 :: content)
  | list {word : Bytes} {items : List Value} : Derives dialect (.items items) word →
      Derives dialect (.value (.list items)) (108 :: (word ++ [101]))
  | dict {word : Bytes} {bindings : List (Bytes × Value)} :
      Derives dialect (.entries bindings) word →
      Derives dialect (.value (.dict (Entries.ofList bindings))) (100 :: (word ++ [101]))
  | noItems : Derives dialect (.items []) []
  | item {first rest : Bytes} {value : Value} {items : List Value} :
      Derives dialect (.value value) first → Derives dialect (.items items) rest →
      Derives dialect (.items (value :: items)) (first ++ rest)
  | noEntries : Derives dialect (.entries []) []
  | entry {len key first rest : Bytes} {value : Value} {bindings : List (Bytes × Value)} :
      dialect.keyLen len key.length → Derives dialect (.value value) first →
      Derives dialect (.entries bindings) rest →
      Derives dialect (.entries ((key, value) :: bindings))
        (len ++ 58 :: (key ++ (first ++ rest)))

/-- Where a left-to-right reader stands between two words. -/
inductive Slot
  | value
  | item
  | key
  | binding

/-- `Reaches dialect slot front`: having read `front`, a reader that started at
a value stands at `slot`. -/
inductive Reaches (dialect : Dialect) : Slot → Bytes → Prop
  | start : Reaches dialect .value []
  | openList {front : Bytes} : Reaches dialect .value front →
      Reaches dialect .item (front ++ [108])
  | openDict {front : Bytes} : Reaches dialect .value front →
      Reaches dialect .key (front ++ [100])
  | ofItem {front : Bytes} : Reaches dialect .item front → Reaches dialect .value front
  | ofBinding {front : Bytes} : Reaches dialect .binding front → Reaches dialect .value front
  | nextItem {front word : Bytes} {value : Value} : Reaches dialect .item front →
      Derives dialect (.value value) word → Reaches dialect .item (front ++ word)
  | key {front len content : Bytes} : Reaches dialect .key front →
      dialect.keyLen len content.length → Reaches dialect .binding (front ++ (len ++ 58 :: content))
  | nextKey {front word : Bytes} {value : Value} : Reaches dialect .binding front →
      Derives dialect (.value value) word → Reaches dialect .key (front ++ word)

/-- The dialect holds only what fits the limits. -/
structure Dialect.Respects (dialect : Dialect) (limits : Limits) : Prop where
  int {word : Bytes} {n : Int} : dialect.int word n → limits.int n
  len {word : Bytes} {n : Nat} : dialect.len word n → limits.len n
  keyLen {word : Bytes} {n : Nat} : dialect.keyLen word n → limits.len n

/-- The dialect reads canonical notation of everything within the limits. -/
structure Dialect.Covers (dialect : Dialect) (limits : Limits) : Prop where
  int {n : Int} : limits.int n → dialect.int (Decimal.decimalInt n) n
  len {n : Nat} : limits.len n → dialect.len (Decimal.decimal n) n
  keyLen {n : Nat} : limits.len n → dialect.keyLen (Decimal.decimal n) n

variable {dialect : Dialect} {limits : Limits}

/-- A numeral does not start with the letter of a container or of its end. -/
theorem signed_head {word : Bytes} {z : Int} (signed : Decimal.Signed word z) :
    ∃ b others, word = b :: others ∧ b ≠ 105 ∧ b ≠ 108 ∧ b ≠ 100 ∧ b ≠ 101 := by
  obtain ⟨b, others, rfl, plus | minus | isDigit⟩ := signed.head
  · subst plus
    exact ⟨43, others, rfl, by decide⟩
  · subst minus
    exact ⟨45, others, rfl, by decide⟩
  · refine ⟨b, others, rfl, ?_, ?_, ?_, ?_⟩ <;> rintro rfl <;> exact absurd isDigit (by decide)

/-- A derived value does not start with `e`. -/
theorem Derives.head {v : Value} {word : Bytes} (derives : Derives dialect (.value v) word) :
    ∃ b others, word = b :: others ∧ b ≠ 101 := by
  cases derives with
  | int _ => exact ⟨105, _, rfl, by decide⟩
  | bytes numeral =>
      obtain ⟨b, others, rfl, _, _, _, notEnd⟩ := signed_head (dialect.len_signed numeral)
      exact ⟨b, _, rfl, notEnd⟩
  | list _ => exact ⟨108, _, rfl, by decide⟩
  | dict _ => exact ⟨100, _, rfl, by decide⟩

theorem Derives.length_pos {v : Value} {word : Bytes} (derives : Derives dialect (.value v) word) :
    1 ≤ word.length := by
  obtain ⟨b, others, rfl, _⟩ := derives.head
  exact Nat.le_add_left 1 others.length

/-- A text does not start with `e` if the word in front does not. -/
theorem notEnd_append {word : Bytes} (head : ∃ b others, word = b :: others ∧ b ≠ 101)
    (tail : Bytes) : ∀ b ∈ (word ++ tail).head?, b ≠ 101 := by
  obtain ⟨b, others, rfl, notEnd⟩ := head
  intro c member
  cases member
  exact notEnd

theorem signed_notEnd {word : Bytes} {z : Int} (signed : Decimal.Signed word z) (tail : Bytes) :
    ∀ b ∈ (word ++ tail).head?, b ≠ 101 := by
  obtain ⟨b, others, word_eq, _, _, _, notEnd⟩ := signed_head signed
  exact notEnd_append ⟨b, others, word_eq, notEnd⟩ tail

theorem entry_append (len key first others tail : Bytes) :
    len ++ 58 :: (key ++ (first ++ others)) ++ tail =
      len ++ 58 :: (key ++ (first ++ (others ++ tail))) := by
  simp

/-- What a phrase promises about its values: all within the limits. -/
def Phrase.Within (limits : Limits) : Phrase → Prop
  | .value whole => whole.Within limits
  | .items parts => ∀ item ∈ parts, item.Within limits
  | .entries bindings =>
      ∀ binding ∈ bindings, limits.len binding.1.length ∧ binding.2.Within limits

/-- A derived value is a well-formed value within the limits of its dialect. -/
theorem Derives.within {phrase : Phrase} {word : Bytes}
    (derives : Derives dialect phrase word) (respects : dialect.Respects limits) :
    phrase.Within limits := by
  induction derives with
  | int numeral => exact Value.Within.int (respects.int numeral)
  | bytes numeral => exact Value.Within.bytes (respects.len numeral)
  | list _ ih => exact Value.Within.list ih
  | dict _ ih => exact Value.Within.ofList ih
  | noItems => simp [Phrase.Within]
  | item _ _ first rest =>
      intro item member
      rcases List.mem_cons.mp member with rfl | member
      · exact first
      · exact rest item member
  | noEntries => simp [Phrase.Within]
  | entry numeral _ _ value rest =>
      intro binding member
      rcases List.mem_cons.mp member with rfl | member
      · exact ⟨respects.keyLen numeral, value⟩
      · exact rest binding member

theorem length_writeBytes_le {len content : Bytes}
    (signed : Decimal.Signed len content.length) :
    (writeBytes content).length ≤ (len ++ 58 :: content).length := by
  have shortest := signed.length_decimalInt_le
  rw [Decimal.decimalInt, if_neg (by omega), Int.natAbs_natCast] at shortest
  simp only [writeBytes, List.length_append]
  omega

/-- Binding a key writes no more than its entry. -/
theorem length_writeEntries_insert_le (key : Bytes) (value : Value)
    (entries : List (Bytes × Value)) :
    (writeEntries (Entries.insert key value entries)).length ≤
      (writeBytes key).length + (write value).length + (writeEntries entries).length := by
  induction entries with
  | nil => simp [Entries.insert, writeEntries]
  | cons head rest ih =>
      rcases head with ⟨other, held⟩
      rw [Entries.insert]
      split
      · simp only [writeEntries, List.length_append]
        omega
      · split
        · simp only [writeEntries, List.length_append] at ih ⊢
          omega
        · simp only [writeEntries, List.length_append]
          omega

theorem length_writeEntries_insertAll_le (bindings entries : List (Bytes × Value)) :
    (writeEntries (Entries.insertAll bindings entries)).length ≤
      (writeEntries bindings).length + (writeEntries entries).length := by
  induction bindings generalizing entries with
  | nil => simp [writeEntries]
  | cons binding rest ih =>
      rcases binding with ⟨key, value⟩
      have inserted := length_writeEntries_insert_le key value entries
      have others := ih (Entries.insert key value entries)
      simp only [Entries.insertAll_cons, writeEntries, List.length_append]
      omega

/-- Building a dictionary writes no more than its bindings. -/
theorem length_write_ofList_le (bindings : List (Bytes × Value)) :
    (write (.dict (Entries.ofList bindings))).length ≤ (writeEntries bindings).length + 2 := by
  have built := length_writeEntries_insertAll_le bindings []
  simp only [write, Entries.ofList, writeEntries, List.length_cons, List.length_append,
    List.length_nil] at built ⊢
  omega

/-- The canonical notation of a phrase. -/
def Phrase.write : Phrase → Bytes
  | .value whole => Bencode.write whole
  | .items parts => writeItems parts
  | .entries bindings => writeEntries bindings

/-- No word is shorter than the canonical notation of what it derives. -/
theorem Derives.length_write_le {phrase : Phrase} {word : Bytes}
    (derives : Derives dialect phrase word) : phrase.write.length ≤ word.length := by
  induction derives with
  | int numeral =>
      have shortest := (dialect.int_signed numeral).length_decimalInt_le
      simp only [Phrase.write, Bencode.write, List.length_cons, List.length_append]
      omega
  | bytes numeral => exact length_writeBytes_le (dialect.len_signed numeral)
  | list _ ih =>
      simp only [Phrase.write, Bencode.write, List.length_cons, List.length_append] at ih ⊢
      omega
  | @dict word bindings _ ih =>
      have built := length_write_ofList_le bindings
      simp only [Phrase.write, List.length_cons, List.length_append, List.length_nil] at ih ⊢
      omega
  | noItems => exact Nat.le_refl _
  | item _ _ first rest =>
      simp only [Phrase.write, writeItems, List.length_append] at first rest ⊢
      omega
  | noEntries => exact Nat.le_refl _
  | entry numeral _ _ first rest =>
      have shortest := length_writeBytes_le (dialect.keyLen_signed numeral)
      simp only [Phrase.write, writeEntries, List.length_append, List.length_cons]
        at first rest shortest ⊢
      omega

mutual

/-- Canonical notation is derivable in every dialect that covers the value. -/
theorem derives_write (covers : dialect.Covers limits) :
    ∀ value : Value, value.Within limits → Derives dialect (.value value) (write value)
  | .int n, .int held => .int (covers.int held)
  | .bytes content, .bytes held => .bytes (covers.len held)
  | .list items, .list held => .list (derives_writeItems covers items held)
  | .dict entries, .dict sorted keys held => by
      have derived := Derives.dict (derives_writeEntries covers entries keys held)
      rwa [Entries.ofList_eq_self sorted] at derived

theorem derives_writeItems (covers : dialect.Covers limits) :
    ∀ items : List Value, (∀ item ∈ items, item.Within limits) →
      Derives dialect (.items items) (writeItems items)
  | [], _ => .noItems
  | item :: items, held =>
      .item (derives_write covers item (held item List.mem_cons_self))
        (derives_writeItems covers items fun other member =>
          held other (List.mem_cons_of_mem _ member))

theorem derives_writeEntries (covers : dialect.Covers limits) :
    ∀ entries : List (Bytes × Value), (∀ entry ∈ entries, limits.len entry.1.length) →
      (∀ entry ∈ entries, entry.2.Within limits) →
      Derives dialect (.entries entries) (writeEntries entries)
  | [], _, _ => .noEntries
  | (key, value) :: entries, keys, held => by
      have first := derives_write covers value (held (key, value) List.mem_cons_self)
      have rest := derives_writeEntries covers entries
        (fun other member => keys other (List.mem_cons_of_mem _ member))
        (fun other member => held other (List.mem_cons_of_mem _ member))
      have numeral := covers.keyLen (keys (key, value) List.mem_cons_self)
      simpa [writeEntries, writeBytes] using Derives.entry numeral first rest

end

end MainlineDht.Bencode
