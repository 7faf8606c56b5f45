import MainlineDht.Bencode.Grammar
import MainlineDht.Text.Canonical

/-!
# Canonical bencode

A word is canonical if its numerals are and the keys of every dictionary in it
are strictly increasing.  This is said of words alone, without their values.
Among the words that derive a value, its canonical notation is the canonical one.
-/

namespace MainlineDht.Bencode

open Ordered Text

/-- What a canonical word stands for: a value, the items of a list, or the
entries of a dictionary with these keys. -/
inductive Shape
  | value
  | items
  | entries (keys : List Bytes)

/-- The canonical words. -/
inductive Canonical : Shape → Bytes → Prop
  | int {numeral : Bytes} : Decimal.CanonicalInt numeral →
      Canonical .value (105 :: (numeral ++ [101]))
  | bytes {len content : Bytes} : Decimal.CanonicalNat len →
      Decimal.value len = content.length → Canonical .value (len ++ 58 :: content)
  | list {word : Bytes} : Canonical .items word → Canonical .value (108 :: (word ++ [101]))
  | dict {word : Bytes} {keys : List Bytes} : Canonical (.entries keys) word →
      keys.Pairwise (· < ·) → Canonical .value (100 :: (word ++ [101]))
  | noItems : Canonical .items []
  | item {first rest : Bytes} : Canonical .value first → Canonical .items rest →
      Canonical .items (first ++ rest)
  | noEntries : Canonical (.entries []) []
  | entry {len key first rest : Bytes} {keys : List Bytes} : Decimal.CanonicalNat len →
      Decimal.value len = key.length → Canonical .value first →
      Canonical (.entries keys) rest →
      Canonical (.entries (key :: keys)) (len ++ 58 :: (key ++ (first ++ rest)))

/-! ## Canonical notation is canonical -/

mutual

theorem canonical_write {limits : Limits} :
    ∀ value : Value, value.Within limits → Canonical .value (write value)
  | .int n, _ => .int (Decimal.canonicalInt_decimalInt n)
  | .bytes _, _ =>
      .bytes (Decimal.canonicalNat_decimal _) (Decimal.digits_decimal _).value_eq
  | .list items, .list held => .list (canonical_writeItems items held)
  | .dict entries, .dict sorted _ held =>
      .dict (canonical_writeEntries entries held) (List.pairwise_map.mpr sorted)

theorem canonical_writeItems {limits : Limits} :
    ∀ items : List Value, (∀ item ∈ items, item.Within limits) →
      Canonical .items (writeItems items)
  | [], _ => .noItems
  | item :: items, held =>
      .item (canonical_write item (held item List.mem_cons_self))
        (canonical_writeItems items fun other member => held other (List.mem_cons_of_mem _ member))

theorem canonical_writeEntries {limits : Limits} :
    ∀ entries : List (Bytes × Value), (∀ entry ∈ entries, entry.2.Within limits) →
      Canonical (.entries (entries.map Prod.fst)) (writeEntries entries)
  | [], _ => .noEntries
  | (key, value) :: entries, held => by
      have first := canonical_write value (held (key, value) List.mem_cons_self)
      have rest := canonical_writeEntries entries fun other member =>
        held other (List.mem_cons_of_mem _ member)
      have numeral := Decimal.canonicalNat_decimal key.length
      simpa [writeEntries, writeBytes] using
        Canonical.entry numeral (Decimal.digits_decimal _).value_eq first rest

end

/-! ## A canonical word is the canonical notation -/

variable {dialect : Dialect}

/-- A string does not start with the letter of another kind of value. -/
theorem string_ne {len content text : Bytes} {z : Int} (signed : Decimal.Signed len z)
    {letter : UInt8} (isLetter : letter = 105 ∨ letter = 108 ∨ letter = 100) :
    len ++ 58 :: content ≠ letter :: text := by
  rcases signed_head signed with ⟨first, others, rfl, notInt, notList, notDict, _⟩
  intro same
  rcases isLetter with rfl | rfl | rfl
  · exact notInt (List.cons.inj same).1
  · exact notList (List.cons.inj same).1
  · exact notDict (List.cons.inj same).1

theorem canonicalString_ne {len content rest text : Bytes} (canonical : Decimal.CanonicalNat len)
    {letter : UInt8} (isLetter : letter = 105 ∨ letter = 108 ∨ letter = 100) :
    len ++ 58 :: content ++ rest ≠ letter :: text := by
  rcases (Decimal.CanonicalInt.natural canonical).signed with ⟨z, signed⟩
  rw [List.append_assoc, List.cons_append]
  exact string_ne signed isLetter

/-- Two texts agree up to the first stop. -/
theorem append_stop_inj {A : Type} {stop : A} {first second rest rest' : List A}
    (absent : stop ∉ first) (absent' : stop ∉ second)
    (same : first ++ stop :: rest = second ++ stop :: rest') : first = second ∧ rest = rest' := by
  induction first generalizing second with
  | nil =>
      cases second with
      | nil => exact ⟨rfl, (List.cons.inj same).2⟩
      | cons a second =>
          rw [← (List.cons.inj same).1] at absent'
          exact absurd List.mem_cons_self absent'
  | cons a first ih =>
      cases second with
      | nil =>
          rw [(List.cons.inj same).1] at absent
          exact absurd List.mem_cons_self absent
      | cons b second =>
          rcases List.cons.inj same with ⟨rfl, others⟩
          rcases ih (mt (List.mem_cons_of_mem _) absent) (mt (List.mem_cons_of_mem _) absent')
            others with ⟨rfl, rest_eq⟩
          exact ⟨rfl, rest_eq⟩

/-- Two texts that start with numerals up to the same stop have the same ones. -/
theorem numeral_aligned {first second rest rest' : Bytes} {z z' : Int}
    (signed : Decimal.Signed first z) (signed' : Decimal.Signed second z') {stop : UInt8}
    (isStop : stop = 58 ∨ stop = 101) (same : first ++ stop :: rest = second ++ stop :: rest') :
    first = second ∧ rest = rest' := by
  have noSign : stop ≠ 43 ∧ stop ≠ 45 := by
    rcases isStop with rfl | rfl <;> decide
  have noDigit : Decimal.isDigit stop = false := by
    rcases isStop with rfl | rfl <;> decide
  exact append_stop_inj (signed.not_mem noSign noDigit) (signed'.not_mem noSign noDigit) same

/-- A canonical string at the beginning of a text is the string there. -/
theorem string_aligned {len len' content content' rest rest' : Bytes}
    (canonical : Decimal.CanonicalNat len) (size : Decimal.value len = content.length)
    (signed : Decimal.Signed len' content'.length)
    (same : len ++ 58 :: (content ++ rest) = len' ++ 58 :: (content' ++ rest')) :
    len = len' ∧ content = content' ∧ rest = rest' ∧ writeBytes content' = len' ++ 58 :: content' := by
  rcases (Decimal.CanonicalInt.natural canonical).signed with ⟨z, signedLen⟩
  rcases numeral_aligned signedLen signed (Or.inl rfl) same with ⟨rfl, rest_eq⟩
  have written := canonical.decimal_eq signed
  have sizes : content.length = content'.length := by
    rw [← size, ← written, (Decimal.digits_decimal _).value_eq]
  rcases List.append_inj rest_eq sizes with ⟨rfl, rfl⟩
  exact ⟨rfl, rfl, rfl, by rw [writeBytes, written]⟩

/-- Where a canonical word begins like a word of the phrase, the two are one, and
the canonical notation of the phrase. -/
def Phrase.Canonizes : Phrase → Bytes → Prop
  | .value whole, word => ∀ other rest rest', Canonical .value other →
      other ++ rest = word ++ rest' → other = word ∧ Bencode.write whole = word
  | .items parts, word => ∀ other rest rest', Canonical .items other →
      other ++ 101 :: rest = word ++ 101 :: rest' → other = word ∧ writeItems parts = word
  | .entries bindings, word => ∀ keys other rest rest', Canonical (.entries keys) other →
      other ++ 101 :: rest = word ++ 101 :: rest' →
        other = word ∧ keys = bindings.map Prod.fst ∧ writeEntries bindings = word

section Cases

variable {other word rest rest' : Bytes}

theorem Derives.canonizes_int {n : Int} (numeral : dialect.int word n)
    (canonical : Canonical .value other) (same : other ++ rest = 105 :: (word ++ [101]) ++ rest') :
    other = 105 :: (word ++ [101]) ∧ write (.int n) = 105 :: (word ++ [101]) := by
  cases canonical with
  | @int digits canonical =>
      rcases canonical.signed with ⟨z, signed⟩
      have texts : digits ++ 101 :: rest = word ++ 101 :: rest' := by
        simpa using same
      rcases numeral_aligned signed (dialect.int_signed numeral) (Or.inr rfl) texts with ⟨rfl, _⟩
      exact ⟨rfl, by rw [write, canonical.decimalInt_eq (dialect.int_signed numeral)]⟩
  | bytes canonical _ => exact absurd same (canonicalString_ne canonical (Or.inl rfl))
  | list _ => exact absurd (List.cons.inj same).1 (by decide)
  | dict _ _ => exact absurd (List.cons.inj same).1 (by decide)

theorem Derives.canonizes_bytes {len content : Bytes} (numeral : dialect.len len content.length)
    (canonical : Canonical .value other) (same : other ++ rest = len ++ 58 :: content ++ rest') :
    other = len ++ 58 :: content ∧ write (.bytes content) = len ++ 58 :: content := by
  have signed := dialect.len_signed numeral
  rw [List.append_assoc, List.cons_append] at same
  cases canonical with
  | @bytes len' content' canonical size =>
      rw [List.append_assoc, List.cons_append] at same
      rcases string_aligned canonical size signed same with ⟨rfl, rfl, _, written⟩
      exact ⟨rfl, written⟩
  | int _ => exact absurd same.symm (string_ne signed (Or.inl rfl))
  | list _ => exact absurd same.symm (string_ne signed (Or.inr (Or.inl rfl)))
  | dict _ _ => exact absurd same.symm (string_ne signed (Or.inr (Or.inr rfl)))

theorem Phrase.Canonizes.list {items : List Value} (ih : (Phrase.items items).Canonizes word)
    (canonical : Canonical .value other) (same : other ++ rest = 108 :: (word ++ [101]) ++ rest') :
    other = 108 :: (word ++ [101]) ∧ Bencode.write (.list items) = 108 :: (word ++ [101]) := by
  cases canonical with
  | @list body canonical =>
      have texts : body ++ 101 :: rest = word ++ 101 :: rest' := by
        simpa using same
      rcases ih _ _ _ canonical texts with ⟨rfl, written⟩
      exact ⟨rfl, by rw [Bencode.write, written]⟩
  | bytes canonical _ => exact absurd same (canonicalString_ne canonical (Or.inr (Or.inl rfl)))
  | int _ => exact absurd (List.cons.inj same).1 (by decide)
  | dict _ _ => exact absurd (List.cons.inj same).1 (by decide)

theorem Phrase.Canonizes.dict {bindings : List (Bytes × Value)}
    (ih : (Phrase.entries bindings).Canonizes word) (canonical : Canonical .value other)
    (same : other ++ rest = 100 :: (word ++ [101]) ++ rest') :
    other = 100 :: (word ++ [101]) ∧
      Bencode.write (.dict (Entries.ofList bindings)) = 100 :: (word ++ [101]) := by
  cases canonical with
  | @dict body keys canonical ascending =>
      have texts : body ++ 101 :: rest = word ++ 101 :: rest' := by
        simpa using same
      rcases ih _ _ _ _ canonical texts with ⟨rfl, rfl, written⟩
      -- the bindings are in order, so they are the entries of the map
      have sorted : Entries.Sorted bindings := List.pairwise_map.mp ascending
      exact ⟨rfl, by rw [Bencode.write, Entries.ofList_eq_self sorted, written]⟩
  | bytes canonical _ => exact absurd same (canonicalString_ne canonical (Or.inr (Or.inr rfl)))
  | int _ => exact absurd (List.cons.inj same).1 (by decide)
  | list _ => exact absurd (List.cons.inj same).1 (by decide)

theorem Canonical.notEnd (canonical : Canonical .value word) (tail : Bytes) :
    ∀ byte ∈ (word ++ tail).head?, byte ≠ 101 := by
  cases canonical with
  | int _ => exact notEnd_append ⟨105, _, rfl, by decide⟩ tail
  | list _ => exact notEnd_append ⟨108, _, rfl, by decide⟩ tail
  | dict _ _ => exact notEnd_append ⟨100, _, rfl, by decide⟩ tail
  | bytes numeral _ =>
      rcases (Decimal.CanonicalInt.natural numeral).signed with ⟨z, signed⟩
      rw [List.append_assoc]
      exact signed_notEnd signed _

/-- The end of a container is not where another part starts. -/
theorem end_ne {text : Bytes} (notEnd : ∀ byte ∈ text.head?, byte ≠ 101) : 101 :: rest ≠ text := by
  rintro rfl
  exact notEnd 101 rfl rfl

theorem Phrase.canonizes_noItems : (Phrase.items []).Canonizes [] := by
  intro other rest rest' canonical same
  cases canonical with
  | noItems => exact ⟨rfl, rfl⟩
  | item first _ =>
      rw [List.append_assoc] at same
      exact absurd same.symm (end_ne (first.notEnd _))

theorem Phrase.Canonizes.item {first word : Bytes} {value : Value} {items : List Value}
    (notEnd : ∀ tail, ∀ byte ∈ (first ++ tail).head?, byte ≠ 101)
    (ihFirst : (Phrase.value value).Canonizes first) (ihRest : (Phrase.items items).Canonizes word) :
    (Phrase.items (value :: items)).Canonizes (first ++ word) := by
  intro other rest rest' canonical same
  rw [List.append_assoc] at same
  cases canonical with
  | noItems => exact absurd same (end_ne (notEnd _))
  | item canonicalFirst canonicalRest =>
      rw [List.append_assoc] at same
      rcases ihFirst _ _ _ canonicalFirst same with ⟨rfl, written⟩
      rcases ihRest _ _ _ canonicalRest (List.append_cancel_left same) with ⟨rfl, writtenRest⟩
      exact ⟨rfl, by rw [writeItems, written, writtenRest]⟩

theorem Phrase.canonizes_noEntries : (Phrase.entries []).Canonizes [] := by
  intro keys other rest rest' canonical same
  cases canonical with
  | noEntries => exact ⟨rfl, rfl, rfl⟩
  | entry numeral _ _ _ =>
      rcases (Decimal.CanonicalInt.natural numeral).signed with ⟨z, signed⟩
      rw [List.append_assoc] at same
      exact absurd same.symm (end_ne (signed_notEnd signed _))

theorem Phrase.Canonizes.entry {len key first word : Bytes} {value : Value}
    {bindings : List (Bytes × Value)} (signed : Decimal.Signed len key.length)
    (ihFirst : (Phrase.value value).Canonizes first)
    (ihRest : (Phrase.entries bindings).Canonizes word) :
    (Phrase.entries ((key, value) :: bindings)).Canonizes
      (len ++ 58 :: (key ++ (first ++ word))) := by
  intro keys other rest rest' canonical same
  rw [entry_append] at same
  cases canonical with
  | noEntries => exact absurd same (end_ne (signed_notEnd signed _))
  | entry numeral size canonicalFirst canonicalRest =>
      rw [entry_append] at same
      rcases string_aligned numeral size signed same with ⟨rfl, rfl, texts, writtenKey⟩
      rcases ihFirst _ _ _ canonicalFirst texts with ⟨rfl, written⟩
      rcases ihRest _ _ _ _ canonicalRest (List.append_cancel_left texts) with
        ⟨rfl, rfl, writtenRest⟩
      refine ⟨rfl, rfl, ?_⟩
      rw [writeEntries, writtenKey, written, writtenRest, List.append_assoc, List.cons_append]

end Cases

theorem Derives.canonizes {phrase : Phrase} {word : Bytes} (derives : Derives dialect phrase word) :
    phrase.Canonizes word := by
  induction derives with
  | int numeral => exact fun _ _ _ canonical same => canonizes_int numeral canonical same
  | bytes numeral => exact fun _ _ _ canonical same => canonizes_bytes numeral canonical same
  | list _ ih => exact fun _ _ _ canonical same => ih.list canonical same
  | dict _ ih => exact fun _ _ _ canonical same => ih.dict canonical same
  | noItems => exact Phrase.canonizes_noItems
  | item first _ ihFirst ihRest =>
      exact .item (fun tail => notEnd_append first.head tail) ihFirst ihRest
  | noEntries => exact Phrase.canonizes_noEntries
  | entry numeral _ _ ihFirst ihRest =>
      exact .entry (dialect.keyLen_signed numeral) ihFirst ihRest

/-- A word that derives a value is its canonical notation exactly if it is canonical. -/
theorem Derives.write_eq_iff {limits : Limits} {value : Value} {word : Bytes}
    (derives : Derives dialect (.value value) word) (respects : dialect.Respects limits) :
    write value = word ↔ Canonical .value word := by
  constructor
  · intro written
    rw [← written]
    exact canonical_write value (derives.within respects)
  · intro canonical
    exact (derives.canonizes word [] [] canonical rfl).2

end MainlineDht.Bencode
