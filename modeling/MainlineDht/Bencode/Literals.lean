import MainlineDht.Bencode.Grammar

/-!
# Integer literals inside words

A dialect may be cut down to the words without certain integers.  A word of the
whole dialect either is a word of the smaller one or hits such an integer, with
nothing but words of the smaller one before it.
-/

namespace MainlineDht.Bencode

/-- The dialect without the integers of a set. -/
def Dialect.avoiding (dialect : Dialect) (target : Int → Prop) : Dialect where
  int word n := dialect.int word n ∧ ¬ target n
  len := dialect.len
  keyLen := dialect.keyLen
  int_signed numeral := dialect.int_signed numeral.1
  len_signed := dialect.len_signed
  keyLen_signed := dialect.keyLen_signed

/-- The word contains an integer literal of the set.  The first one is singled
out: what stands before it avoids the set. -/
inductive Hits (dialect : Dialect) (target : Int → Prop) : Phrase → Bytes → Prop
  | int {word : Bytes} {n : Int} : dialect.int word n → target n →
      Hits dialect target (.value (.int n)) (105 :: (word ++ [101]))
  | list {word : Bytes} {items : List Value} : Hits dialect target (.items items) word →
      Hits dialect target (.value (.list items)) (108 :: (word ++ [101]))
  | dict {word : Bytes} {bindings : List (Bytes × Value)} :
      Hits dialect target (.entries bindings) word →
      Hits dialect target (.value (.dict (Ordered.Entries.ofList bindings)))
        (100 :: (word ++ [101]))
  | firstItem {first rest : Bytes} {value : Value} {items : List Value} :
      Hits dialect target (.value value) first → Derives dialect (.items items) rest →
      Hits dialect target (.items (value :: items)) (first ++ rest)
  | laterItem {first rest : Bytes} {value : Value} {items : List Value} :
      Derives (dialect.avoiding target) (.value value) first →
      Hits dialect target (.items items) rest →
      Hits dialect target (.items (value :: items)) (first ++ rest)
  | firstEntry {len key first rest : Bytes} {value : Value} {bindings : List (Bytes × Value)} :
      dialect.keyLen len key.length → Hits dialect target (.value value) first →
      Derives dialect (.entries bindings) rest →
      Hits dialect target (.entries ((key, value) :: bindings))
        (len ++ 58 :: (key ++ (first ++ rest)))
  | laterEntry {len key first rest : Bytes} {value : Value} {bindings : List (Bytes × Value)} :
      dialect.keyLen len key.length → Derives (dialect.avoiding target) (.value value) first →
      Hits dialect target (.entries bindings) rest →
      Hits dialect target (.entries ((key, value) :: bindings))
        (len ++ 58 :: (key ++ (first ++ rest)))

variable {dialect : Dialect} {target : Int → Prop} {phrase : Phrase} {word : Bytes}

/-- A word that hits a literal does not start with `e`. -/
theorem Hits.head {v : Value} (hits : Hits dialect target (.value v) word) :
    ∃ b others, word = b :: others ∧ b ≠ 101 := by
  cases hits with
  | int _ _ => exact ⟨105, _, rfl, by decide⟩
  | list _ => exact ⟨108, _, rfl, by decide⟩
  | dict _ => exact ⟨100, _, rfl, by decide⟩

theorem Hits.length_pos {v : Value} (hits : Hits dialect target (.value v) word) :
    1 ≤ word.length := by
  obtain ⟨b, others, rfl, _⟩ := hits.head
  exact Nat.le_add_left 1 others.length

/-- Every word avoids the integers or hits one. -/
theorem Derives.avoids_or_hits (derives : Derives dialect phrase word) (target : Int → Prop) :
    Derives (dialect.avoiding target) phrase word ∨ Hits dialect target phrase word := by
  induction derives with
  | @int word n numeral =>
      by_cases isTarget : target n
      · exact Or.inr (.int numeral isTarget)
      · exact Or.inl (.int ⟨numeral, isTarget⟩)
  | bytes numeral => exact Or.inl (.bytes numeral)
  | list _ ih => exact ih.imp .list .list
  | dict _ ih => exact ih.imp .dict .dict
  | noItems => exact Or.inl .noItems
  | item _ restDerives first rest =>
      rcases first with avoids | hits
      · exact rest.imp (.item avoids) (.laterItem avoids)
      · exact Or.inr (.firstItem hits restDerives)
  | noEntries => exact Or.inl .noEntries
  | entry numeral _ restDerives first rest =>
      rcases first with avoids | hits
      · exact rest.imp (.entry numeral avoids) (.laterEntry numeral avoids)
      · exact Or.inr (.firstEntry numeral hits restDerives)

/-- A dialect with more numerals has the words of the other one. -/
theorem Derives.mono {larger : Dialect} (int : ∀ word n, dialect.int word n → larger.int word n)
    (len : ∀ word n, dialect.len word n → larger.len word n)
    (keyLen : ∀ word n, dialect.keyLen word n → larger.keyLen word n)
    (derives : Derives dialect phrase word) : Derives larger phrase word := by
  induction derives with
  | int numeral => exact .int (int _ _ numeral)
  | bytes numeral => exact .bytes (len _ _ numeral)
  | list _ ih => exact .list ih
  | dict _ ih => exact .dict ih
  | noItems => exact .noItems
  | item _ _ first rest => exact .item first rest
  | noEntries => exact .noEntries
  | entry numeral _ _ first rest => exact .entry (keyLen _ _ numeral) first rest

end MainlineDht.Bencode
