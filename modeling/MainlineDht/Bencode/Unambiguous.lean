import MainlineDht.Bencode.Grammar

/-!
# Words of two dialects

A text begins with at most one word, whatever the dialects in which it is read:
two readers that both find a word find the same one and read the same value in
it.  So what both read are the words whose numerals both admit.
-/

namespace MainlineDht.Bencode

open Ordered Text

/-- The numerals that both dialects admit. -/
def Dialect.inter (first second : Dialect) : Dialect where
  int word n := first.int word n ∧ second.int word n
  len word n := first.len word n ∧ second.len word n
  keyLen word n := first.keyLen word n ∧ second.keyLen word n
  int_signed numeral := first.int_signed numeral.1
  len_signed numeral := first.len_signed numeral.1
  keyLen_signed numeral := first.keyLen_signed numeral.1

variable {dialect other : Dialect}

/-! ## What the first byte of a word tells -/

theorem Derives.eq_int {value : Value} {word rest tail : Bytes}
    (derives : Derives dialect (.value value) word) (same : word ++ rest = 105 :: tail) :
    ∃ numeral n, word = 105 :: (numeral ++ [101]) ∧ value = .int n ∧ dialect.int numeral n := by
  cases derives with
  | @int numeral n held => exact ⟨numeral, n, rfl, rfl, held⟩
  | bytes held =>
      rcases signed_head (dialect.len_signed held) with ⟨_, _, rfl, notInt, _⟩
      exact absurd (List.cons.inj same).1 notInt
  | list _ => exact absurd (List.cons.inj same).1 (by decide)
  | dict _ => exact absurd (List.cons.inj same).1 (by decide)

theorem Derives.eq_list {value : Value} {word rest tail : Bytes}
    (derives : Derives dialect (.value value) word) (same : word ++ rest = 108 :: tail) :
    ∃ inner items, word = 108 :: (inner ++ [101]) ∧ value = .list items ∧
      Derives dialect (.items items) inner := by
  cases derives with
  | int _ => exact absurd (List.cons.inj same).1 (by decide)
  | bytes held =>
      rcases signed_head (dialect.len_signed held) with ⟨_, _, rfl, _, notList, _⟩
      exact absurd (List.cons.inj same).1 notList
  | @list inner items held => exact ⟨inner, items, rfl, rfl, held⟩
  | dict _ => exact absurd (List.cons.inj same).1 (by decide)

theorem Derives.eq_dict {value : Value} {word rest tail : Bytes}
    (derives : Derives dialect (.value value) word) (same : word ++ rest = 100 :: tail) :
    ∃ inner bindings, word = 100 :: (inner ++ [101]) ∧
      value = .dict (Entries.ofList bindings) ∧ Derives dialect (.entries bindings) inner := by
  cases derives with
  | int _ => exact absurd (List.cons.inj same).1 (by decide)
  | bytes held =>
      rcases signed_head (dialect.len_signed held) with ⟨_, _, rfl, _, _, notDict, _⟩
      exact absurd (List.cons.inj same).1 notDict
  | list _ => exact absurd (List.cons.inj same).1 (by decide)
  | @dict inner bindings held => exact ⟨inner, bindings, rfl, rfl, held⟩

theorem Derives.eq_bytes {value : Value} {word rest first tail : Bytes} {z : Int}
    (derives : Derives dialect (.value value) word) (signed : Decimal.Signed first z)
    (same : word ++ rest = first ++ tail) :
    ∃ len content, word = len ++ 58 :: content ∧ value = .bytes content ∧
      dialect.len len content.length := by
  rcases signed_head signed with ⟨_, _, rfl, notInt, notList, notDict, _⟩
  cases derives with
  | int _ => exact absurd (List.cons.inj same).1.symm notInt
  | @bytes len content held => exact ⟨len, content, rfl, rfl, held⟩
  | list _ => exact absurd (List.cons.inj same).1.symm notList
  | dict _ => exact absurd (List.cons.inj same).1.symm notDict

/-- A text begins with one string. -/
theorem string_unique {len content rest len' content' rest' : Bytes}
    (signed : Decimal.Signed len content.length) (signed' : Decimal.Signed len' content'.length)
    (same : len ++ 58 :: (content ++ rest) = len' ++ 58 :: (content' ++ rest')) :
    len = len' ∧ content = content' ∧ rest = rest' := by
  rcases signed.unique signed' (by decide) (by decide) same with ⟨sameLen, sameLength, others⟩
  rcases List.append_inj (List.cons.inj others).2 (Int.ofNat.inj sameLength) with
    ⟨sameContent, sameRest⟩
  exact ⟨sameLen, sameContent, sameRest⟩

/-! ## One word, one value -/

/-- A text that begins with this word of the phrase begins with no other word
of the same kind in the other dialect, and the numerals of the word are
admitted by both. -/
def Agrees (dialect other : Dialect) (word : Bytes) : Phrase → Prop
  | .value value => ∀ word' value' rest rest', Derives other (.value value') word' →
      word ++ rest = word' ++ rest' →
      word = word' ∧ value = value' ∧ Derives (dialect.inter other) (.value value) word
  | .items items => ∀ word' items' rest rest', Derives other (.items items') word' →
      word ++ 101 :: rest = word' ++ 101 :: rest' →
      word = word' ∧ items = items' ∧ Derives (dialect.inter other) (.items items) word
  | .entries bindings => ∀ word' bindings' rest rest', Derives other (.entries bindings') word' →
      word ++ 101 :: rest = word' ++ 101 :: rest' →
      word = word' ∧ bindings = bindings' ∧
        Derives (dialect.inter other) (.entries bindings) word

theorem enclosed_inj {byte : UInt8} {inner inner' rest rest' : Bytes}
    (same : byte :: (inner ++ [101]) ++ rest = byte :: (inner' ++ [101]) ++ rest') :
    inner ++ 101 :: rest = inner' ++ 101 :: rest' := by
  have others : inner ++ [101] ++ rest = inner' ++ [101] ++ rest' := (List.cons.inj same).2
  rwa [List.append_assoc, List.append_assoc] at others

theorem agrees {phrase : Phrase} {word : Bytes} (derives : Derives dialect phrase word) :
    Agrees dialect other word phrase := by
  induction derives with
  | @int numeral n held =>
      intro word' value' rest rest' derives' same
      rcases derives'.eq_int same.symm with ⟨numeral', n', rfl, rfl, held'⟩
      rcases (dialect.int_signed held).unique (other.int_signed held') (by decide) (by decide)
        (enclosed_inj same) with ⟨rfl, rfl, _⟩
      exact ⟨rfl, rfl, .int ⟨held, held'⟩⟩
  | @bytes len content held =>
      intro word' value' rest rest' derives' same
      have signed := dialect.len_signed held
      rcases derives'.eq_bytes signed
        (same.symm.trans (List.append_assoc len (58 :: content) rest)) with
        ⟨len', content', rfl, rfl, held'⟩
      rw [List.append_assoc, List.append_assoc] at same
      rcases string_unique signed (other.len_signed held') same with ⟨rfl, rfl, _⟩
      exact ⟨rfl, rfl, .bytes ⟨held, held'⟩⟩
  | @list inner items _ ih =>
      intro word' value' rest rest' derives' same
      rcases derives'.eq_list same.symm with ⟨inner', items', rfl, rfl, held'⟩
      rcases ih inner' items' rest rest' held' (enclosed_inj same) with ⟨rfl, rfl, both⟩
      exact ⟨rfl, rfl, .list both⟩
  | @dict inner bindings _ ih =>
      intro word' value' rest rest' derives' same
      rcases derives'.eq_dict same.symm with ⟨inner', bindings', rfl, rfl, held'⟩
      rcases ih inner' bindings' rest rest' held' (enclosed_inj same) with ⟨rfl, rfl, both⟩
      exact ⟨rfl, rfl, .dict both⟩
  | noItems =>
      intro word' items' rest rest' derives' same
      cases derives' with
      | noItems => exact ⟨rfl, rfl, .noItems⟩
      | item valueDerives _ =>
          rcases valueDerives.head with ⟨_, _, rfl, notEnd⟩
          exact absurd (List.cons.inj same).1.symm notEnd
  | @item first others value items valueDerives _ ihValue ih =>
      intro word' items' rest rest' derives' same
      cases derives' with
      | noItems =>
          rcases valueDerives.head with ⟨_, _, rfl, notEnd⟩
          exact absurd (List.cons.inj same).1 notEnd
      | @item first' others' value' items' valueDerives' itemsDerive' =>
          rw [List.append_assoc, List.append_assoc] at same
          rcases ihValue first' value' _ _ valueDerives' same with ⟨rfl, rfl, bothValue⟩
          rcases ih others' items' rest rest' itemsDerive' (List.append_cancel_left same) with
            ⟨rfl, rfl, both⟩
          exact ⟨rfl, rfl, .item bothValue both⟩
  | noEntries =>
      intro word' bindings' rest rest' derives' same
      cases derives' with
      | noEntries => exact ⟨rfl, rfl, .noEntries⟩
      | entry held' _ _ =>
          rcases signed_head (other.keyLen_signed held') with ⟨_, _, rfl, _, _, _, notEnd⟩
          exact absurd (List.cons.inj same).1.symm notEnd
  | @entry len key first others value bindings held valueDerives _ ihValue ih =>
      intro word' bindings' rest rest' derives' same
      have signed := dialect.keyLen_signed held
      cases derives' with
      | noEntries =>
          rcases signed_head signed with ⟨_, _, rfl, _, _, _, notEnd⟩
          exact absurd (List.cons.inj same).1 notEnd
      | @entry len' key' first' others' value' bindings' held' valueDerives' entriesDerive' =>
          rw [entry_append, entry_append] at same
          rcases string_unique signed (other.keyLen_signed held') same with ⟨rfl, rfl, sameTail⟩
          rcases ihValue first' value' _ _ valueDerives' sameTail with ⟨rfl, rfl, bothValue⟩
          rcases ih others' bindings' rest rest' entriesDerive'
            (List.append_cancel_left sameTail) with ⟨rfl, rfl, both⟩
          exact ⟨rfl, rfl, .entry ⟨held, held'⟩ bothValue both⟩

/-- Whatever word two readers find at the front of a text, it is the same one,
with the same value, and both admit its numerals. -/
theorem Derives.unique {value value' : Value} {word word' rest rest' : Bytes}
    (derives : Derives dialect (.value value) word)
    (derives' : Derives other (.value value') word') (same : word ++ rest = word' ++ rest') :
    word = word' ∧ value = value' ∧ Derives (dialect.inter other) (.value value) word :=
  agrees derives word' value' rest rest' derives' same

end MainlineDht.Bencode
