import Mathlib.Data.List.Induction
import Mathlib.Data.List.TakeWhile
import Mathlib.Data.Nat.Basic
import Mathlib.Tactic.Linarith
import Mathlib.Tactic.IntervalCases

/-!
# Decimal numerals as byte strings

`decimal n` is the usual notation of `n` in ASCII digits, and `value` reads any
digit string, leading zeros included.  Signed notation puts at most one sign in
front of the digits.  The two relations `Digits` and `Signed` say which byte
strings a reader of decimal numerals may be given, without saying how it reads
them.
-/

namespace MainlineDht

/-- A byte string. -/
abbrev Bytes := List UInt8

namespace Text.Decimal

/-- The ASCII digits `0` to `9`. -/
def isDigit (byte : UInt8) : Bool :=
  48 ≤ byte && byte ≤ 57

/-- The number an ASCII digit stands for. -/
def digitValue (byte : UInt8) : Nat :=
  byte.toNat - 48

/-- The value of a digit string, most significant digit first. -/
def value (digits : Bytes) : Nat :=
  digits.foldl (fun read byte => 10 * read + digitValue byte) 0

/-- The ASCII byte of a digit character. -/
def charByte (char : Char) : UInt8 :=
  char.toNat.toUInt8

/-- Decimal notation without leading zeros. -/
def decimal (n : Nat) : Bytes :=
  (Nat.toDigits 10 n).map charByte

/-- Decimal notation of an integer: a minus sign in front of negative ones. -/
def decimalInt (z : Int) : Bytes :=
  if z < 0 then 45 :: decimal z.natAbs else decimal z.natAbs

/-- `word` is a non-empty string of digits with value `n`. -/
structure Digits (word : Bytes) (n : Nat) : Prop where
  nonempty : word ≠ []
  all : ∀ byte ∈ word, isDigit byte = true
  value_eq : value word = n

/-- `word` denotes `z`: digits after an optional `+` or `-`. -/
inductive Signed : Bytes → Int → Prop
  | plain {word : Bytes} {n : Nat} : Digits word n → Signed word n
  | plus {word : Bytes} {n : Nat} : Digits word n → Signed (43 :: word) n
  | minus {word : Bytes} {n : Nat} : Digits word n → Signed (45 :: word) (-n)

@[simp]
theorem value_nil : value [] = 0 :=
  rfl

theorem value_append_singleton (word : Bytes) (byte : UInt8) :
    value (word ++ [byte]) = 10 * value word + digitValue byte := by
  simp [value, List.foldl_append]

theorem isDigit_digitChar {n : Nat} (small : n < 10) :
    isDigit (charByte n.digitChar) = true := by
  interval_cases n <;> rfl

theorem digitValue_digitChar {n : Nat} (small : n < 10) :
    digitValue (charByte n.digitChar) = n := by
  interval_cases n <;> rfl

/-- The last digit comes off the end of decimal notation. -/
theorem decimal_eq (n : Nat) :
    decimal n =
      if n < 10 then [charByte n.digitChar]
      else decimal (n / 10) ++ [charByte (n % 10).digitChar] := by
  unfold decimal
  rw [Nat.toDigits_eq_if (by omega)]
  split <;> simp

/-- Decimal notation is a non-empty string of digits and denotes its number. -/
theorem digits_decimal (n : Nat) : Digits (decimal n) n := by
  induction n using Nat.strong_induction_on with
  | _ n ih =>
      rw [decimal_eq]
      split
      · rename_i small
        refine ⟨by simp, ?_, ?_⟩
        · simpa using isDigit_digitChar small
        · simpa [value] using digitValue_digitChar small
      · rename_i large
        have quotient := ih (n / 10) (by omega)
        have remainder : n % 10 < 10 := Nat.mod_lt _ (by omega)
        refine ⟨by simp, ?_, ?_⟩
        · intro byte member
          rcases List.mem_append.mp member with member | member
          · exact quotient.all byte member
          · rw [List.mem_singleton.mp member]
            exact isDigit_digitChar remainder
        · rw [value_append_singleton, quotient.value_eq, digitValue_digitChar remainder]
          omega

theorem digitValue_lt {byte : UInt8} (isDig : isDigit byte = true) : digitValue byte < 10 := by
  rw [isDigit, Bool.and_eq_true, decide_eq_true_eq, decide_eq_true_eq, UInt8.le_iff_toNat_le,
    UInt8.le_iff_toNat_le] at isDig
  have upTo : byte.toNat ≤ 57 := isDig.2
  unfold digitValue
  omega

/-- No notation of a number is shorter than decimal notation. -/
theorem Digits.length_decimal_le {word : Bytes} {n : Nat} (digits : Digits word n) :
    (decimal n).length ≤ word.length := by
  obtain ⟨nonempty, all, rfl⟩ := digits
  induction word using List.reverseRecOn with
  | nil => exact absurd rfl nonempty
  | append_singleton word byte ih =>
      rw [List.length_append, List.length_singleton, decimal_eq]
      split
      · simp
      · rename_i large
        have last := digitValue_lt (all byte (by simp))
        rw [value_append_singleton] at large ⊢
        have quotient : (10 * value word + digitValue byte) / 10 = value word := by omega
        have longer : word ≠ [] := by
          rintro rfl
          rw [value_nil] at large
          omega
        rw [quotient, List.length_append, List.length_singleton]
        apply Nat.succ_le_succ
        exact ih longer fun other member => all other (List.mem_append_left _ member)

theorem signed_decimalInt (z : Int) : Signed (decimalInt z) z := by
  rw [decimalInt]
  split
  · rename_i negative
    have minus := Signed.minus (digits_decimal z.natAbs)
    rwa [show -(z.natAbs : Int) = z by omega] at minus
  · rename_i nonnegative
    have plain := Signed.plain (digits_decimal z.natAbs)
    rwa [show (z.natAbs : Int) = z by omega] at plain

/-- No signed notation of a number is shorter than its decimal notation. -/
theorem Signed.length_decimalInt_le {word : Bytes} {z : Int} (signed : Signed word z) :
    (decimalInt z).length ≤ word.length := by
  cases signed with
  | @plain word n digits =>
      rw [decimalInt, if_neg (by omega), Int.natAbs_natCast]
      exact digits.length_decimal_le
  | @plus word n digits =>
      rw [decimalInt, if_neg (by omega), Int.natAbs_natCast]
      exact digits.length_decimal_le.trans (Nat.le_succ _)
  | @minus word n digits =>
      have shortest := digits.length_decimal_le
      rw [decimalInt, Int.natAbs_neg, Int.natAbs_natCast]
      split
      · exact Nat.succ_le_succ shortest
      · exact shortest.trans (Nat.le_succ _)

/-- The integer of a digit string under a sign. -/
def applySign (sign : Bytes) (n : Nat) : Int :=
  if sign = [45] then -n else n

/-- How a left-to-right reader of a numeral divides a text: an optional sign, as
many digits as there are, and what is left. -/
structure Split (text sign digits rest : Bytes) : Prop where
  text_eq : text = sign ++ (digits ++ rest)
  sign_eq : sign = [] ∨ sign = [43] ∨ sign = [45]
  unsigned : sign = [] → ∀ byte ∈ (digits ++ rest).head?, byte ≠ 43 ∧ byte ≠ 45
  all : ∀ byte ∈ digits, isDigit byte = true
  stops : ∀ byte ∈ rest.head?, isDigit byte = false

/-- Any text begins with digits, possibly none, up to the first other byte. -/
theorem exists_digits (text : Bytes) :
    ∃ digits rest, text = digits ++ rest ∧ (∀ byte ∈ digits, isDigit byte = true) ∧
      ∀ byte ∈ rest.head?, isDigit byte = false := by
  refine ⟨text.takeWhile isDigit, text.dropWhile isDigit,
    List.takeWhile_append_dropWhile.symm, fun _ member => List.mem_takeWhile_imp member, ?_⟩
  intro byte member
  have head := List.head?_dropWhile_not isDigit text
  rw [Option.mem_def.mp member] at head
  simpa using head

/-- Every text divides this way. -/
theorem exists_split (text : Bytes) : ∃ sign digits rest, Split text sign digits rest := by
  cases text with
  | nil => exact ⟨[], [], [], ⟨rfl, Or.inl rfl, by simp, by simp, by simp⟩⟩
  | cons first others =>
      by_cases signed : first = 43 ∨ first = 45
      · obtain ⟨digits, rest, others_eq, all, stops⟩ := exists_digits others
        refine ⟨[first], digits, rest, ⟨by simp [others_eq], ?_, by simp, all, stops⟩⟩
        rcases signed with rfl | rfl
        · exact Or.inr (Or.inl rfl)
        · exact Or.inr (Or.inr rfl)
      · obtain ⟨digits, rest, text_eq, all, stops⟩ := exists_digits (first :: others)
        refine ⟨[], digits, rest, ⟨text_eq, Or.inl rfl, ?_, all, stops⟩⟩
        intro _ byte member
        rw [← text_eq, List.head?_cons, Option.mem_some_iff] at member
        subst member
        exact not_or.mp signed

/-- A division with at least one digit starts with a numeral. -/
theorem Split.signed {text sign digits rest : Bytes} (split : Split text sign digits rest)
    (nonempty : digits ≠ []) : Signed (sign ++ digits) (applySign sign (value digits)) := by
  have numeral : Digits digits (value digits) := ⟨nonempty, split.all, rfl⟩
  rcases split.sign_eq with rfl | rfl | rfl
  · exact .plain numeral
  · exact .plus numeral
  · exact .minus numeral

theorem isDigit_ne_sign {byte : UInt8} (isDig : isDigit byte = true) :
    byte ≠ 43 ∧ byte ≠ 45 := by
  constructor
  · rintro rfl
    exact absurd isDig (by decide)
  · rintro rfl
    exact absurd isDig (by decide)

/-- A numeral before a byte that is no digit is what the reader takes. -/
theorem Signed.split {word : Bytes} {z : Int} (signed : Signed word z) {rest : Bytes}
    (stops : ∀ byte ∈ rest.head?, isDigit byte = false) :
    ∃ sign digits, word = sign ++ digits ∧ digits ≠ [] ∧ z = applySign sign (value digits) ∧
      Split (word ++ rest) sign digits rest := by
  cases signed with
  | plain digits =>
      refine ⟨[], word, rfl, digits.nonempty, by simp [applySign, digits.value_eq],
        ⟨rfl, Or.inl rfl, ?_, digits.all, stops⟩⟩
      intro _ byte member
      obtain ⟨first, others, rfl⟩ := List.exists_cons_of_ne_nil digits.nonempty
      rw [List.cons_append, List.head?_cons, Option.mem_some_iff] at member
      subst member
      exact isDigit_ne_sign (digits.all first List.mem_cons_self)
  | @plus word _ digits =>
      exact ⟨[43], word, rfl, digits.nonempty, by simp [applySign, digits.value_eq],
        ⟨rfl, Or.inr (Or.inl rfl), by simp, digits.all, stops⟩⟩
  | @minus word _ digits =>
      exact ⟨[45], word, rfl, digits.nonempty, by simp [applySign, digits.value_eq],
        ⟨rfl, Or.inr (Or.inr rfl), by simp, digits.all, stops⟩⟩

theorem takeWhile_digits {digits rest : Bytes} (all : ∀ byte ∈ digits, isDigit byte = true)
    (stops : ∀ byte ∈ rest.head?, isDigit byte = false) :
    (digits ++ rest).takeWhile isDigit = digits := by
  rw [List.takeWhile_append_of_pos all]
  cases rest with
  | nil => exact List.append_nil digits
  | cons byte rest =>
      rw [List.takeWhile_cons, stops byte rfl]
      exact List.append_nil digits

/-- There is one way to split a text. -/
theorem Split.unique {text sign digits rest sign' digits' rest' : Bytes}
    (split : Split text sign digits rest) (split' : Split text sign' digits' rest') :
    sign = sign' ∧ digits = digits' ∧ rest = rest' := by
  have same : sign ++ (digits ++ rest) = sign' ++ (digits' ++ rest') :=
    split.text_eq.symm.trans split'.text_eq
  have sameSign : sign = sign' := by
    rcases split.sign_eq with rfl | rfl | rfl <;> rcases split'.sign_eq with rfl | rfl | rfl
    · rfl
    · exact absurd rfl (split.unsigned rfl 43 (by rw [← List.nil_append (digits ++ rest), same]; rfl)).1
    · exact absurd rfl (split.unsigned rfl 45 (by rw [← List.nil_append (digits ++ rest), same]; rfl)).2
    · exact absurd rfl (split'.unsigned rfl 43 (by rw [← List.nil_append (digits' ++ rest'), ← same]; rfl)).1
    · rfl
    · cases same
    · exact absurd rfl (split'.unsigned rfl 45 (by rw [← List.nil_append (digits' ++ rest'), ← same]; rfl)).2
    · cases same
    · rfl
  subst sameSign
  have others := List.append_cancel_left same
  have sameDigits : digits = digits' := by
    rw [← takeWhile_digits split.all split.stops, others,
      takeWhile_digits split'.all split'.stops]
  subst sameDigits
  exact ⟨rfl, rfl, List.append_cancel_left others⟩

/-- A text goes on with one numeral up to a byte that is no digit. -/
theorem Signed.unique {word word' : Bytes} {z z' : Int} {byte byte' : UInt8} {rest rest' : Bytes}
    (signed : Signed word z) (signed' : Signed word' z') (stops : isDigit byte = false)
    (stops' : isDigit byte' = false) (same : word ++ byte :: rest = word' ++ byte' :: rest') :
    word = word' ∧ z = z' ∧ byte :: rest = byte' :: rest' := by
  rcases @Signed.split word z signed (byte :: rest) (by rintro _ ⟨⟩; exact stops) with
    ⟨sign, digits, rfl, _, rfl, split⟩
  rcases @Signed.split word' z' signed' (byte' :: rest') (by rintro _ ⟨⟩; exact stops') with
    ⟨sign', digits', rfl, _, rfl, split'⟩
  rw [← same] at split'
  rcases split.unique split' with ⟨rfl, rfl, sameRest⟩
  exact ⟨rfl, rfl, sameRest⟩

/-- A numeral is never empty and starts with a sign or a digit. -/
theorem Signed.head {word : Bytes} {z : Int} (signed : Signed word z) :
    ∃ first rest, word = first :: rest ∧
      (first = 43 ∨ first = 45 ∨ isDigit first = true) := by
  cases signed with
  | plain digits =>
      obtain ⟨first, rest, rfl⟩ := List.exists_cons_of_ne_nil digits.nonempty
      exact ⟨first, rest, rfl, Or.inr (Or.inr (digits.all _ List.mem_cons_self))⟩
  | @plus word => exact ⟨43, word, rfl, Or.inl rfl⟩
  | @minus word => exact ⟨45, word, rfl, Or.inr (Or.inl rfl)⟩

end Text.Decimal

end MainlineDht
