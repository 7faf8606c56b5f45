import MainlineDht.Text.Decimal
import Mathlib.Data.List.Basic

/-!
# Canonical numerals

A numeral is canonical if it has no plus sign, no sign in front of zero and no
zero in front of other digits.  Decimal notation is canonical, and a canonical
numeral is the decimal notation of the number it denotes.
-/

namespace MainlineDht.Text.Decimal

/-- Digits that do not start with `0`. -/
structure Unpadded (word : Bytes) : Prop where
  nonempty : word ≠ []
  all : ∀ byte ∈ word, isDigit byte = true
  head_ne : word.head? ≠ some 48

/-- `0`, or digits that do not start with `0`. -/
inductive CanonicalNat : Bytes → Prop
  | zero : CanonicalNat [48]
  | positive {word : Bytes} : Unpadded word → CanonicalNat word

/-- `0`, or digits that do not start with `0` after an optional `-`. -/
inductive CanonicalInt : Bytes → Prop
  | natural {word : Bytes} : CanonicalNat word → CanonicalInt word
  | negative {word : Bytes} : Unpadded word → CanonicalInt (45 :: word)

variable {word : Bytes} {byte : UInt8} {n : Nat} {z : Int}

/-! ## A digit and its value -/

theorem charByte_digitValue (isDig : isDigit byte = true) :
    charByte (digitValue byte).digitChar = byte := by
  have upTo := digitValue_lt isDig
  have denotes : byte.toNat = digitValue byte + 48 := by
    rw [isDigit, Bool.and_eq_true, decide_eq_true_eq, UInt8.le_iff_toNat_le] at isDig
    have atLeast : 48 ≤ byte.toNat := isDig.1
    unfold digitValue
    omega
  apply UInt8.toNat_inj.mp
  rw [denotes]
  generalize digitValue byte = d at upTo
  interval_cases d <;> rfl

theorem digitValue_pos (isDig : isDigit byte = true) (nonzero : byte ≠ 48) :
    0 < digitValue byte := by
  by_contra zero
  have denotes := charByte_digitValue isDig
  rw [Nat.eq_zero_of_not_pos zero] at denotes
  exact nonzero denotes.symm

/-! ## Digits without padding -/

/-- Without a last digit that is not the only one, there is still no padding. -/
theorem Unpadded.init (unpadded : Unpadded (word ++ [byte])) (longer : word ≠ []) :
    Unpadded word where
  nonempty := longer
  all other member := unpadded.all other (List.mem_append_left _ member)
  head_ne := by
    have head := unpadded.head_ne
    rwa [List.head?_append_of_ne_nil _ longer] at head

/-- Digits without padding denote a positive number, in decimal notation. -/
theorem Unpadded.decimal_value (unpadded : Unpadded word) :
    0 < value word ∧ decimal (value word) = word := by
  induction word using List.reverseRecOn with
  | nil => exact absurd rfl unpadded.nonempty
  | append_singleton word byte ih =>
      have isDig := unpadded.all byte (by simp)
      have small := digitValue_lt isDig
      have denotes := charByte_digitValue isDig
      rw [value_append_singleton]
      by_cases longer : word = []
      · subst longer
        have nonzero : byte ≠ 48 := by
          rintro rfl
          exact unpadded.head_ne rfl
        constructor
        · exact Nat.add_pos_right _ (digitValue_pos isDig nonzero)
        · rw [value_nil, Nat.mul_zero, Nat.zero_add, decimal_eq, if_pos small, denotes]
          rfl
      · rcases ih (unpadded.init longer) with ⟨positive, written⟩
        have large : ¬ 10 * value word + digitValue byte < 10 := by omega
        have quotient : (10 * value word + digitValue byte) / 10 = value word := by omega
        have remainder : (10 * value word + digitValue byte) % 10 = digitValue byte := by omega
        constructor
        · omega
        · rw [decimal_eq, if_neg large, quotient, remainder, written, denotes]

/-- The decimal notation of a positive number has no padding. -/
theorem unpadded_decimal (positive : 0 < n) : Unpadded (decimal n) where
  nonempty := (digits_decimal n).nonempty
  all := (digits_decimal n).all
  head_ne := by
    induction n using Nat.strong_induction_on with
    | _ n ih =>
        rw [decimal_eq]
        split
        · rename_i small
          interval_cases n <;> decide
        · rename_i large
          have quotient := digits_decimal (n / 10)
          rw [List.head?_append_of_ne_nil _ quotient.nonempty]
          exact ih (n / 10) (by omega) (by omega)

/-! ## Canonical numerals -/

/-- Decimal notation is canonical. -/
theorem canonicalNat_decimal (n : Nat) : CanonicalNat (decimal n) := by
  cases n with
  | zero => exact .zero
  | succ n => exact .positive (unpadded_decimal (Nat.succ_pos n))

theorem canonicalInt_decimalInt (z : Int) : CanonicalInt (decimalInt z) := by
  rw [decimalInt]
  split
  · rename_i negative
    exact .negative (unpadded_decimal (by omega))
  · exact .natural (canonicalNat_decimal _)

theorem CanonicalNat.all (canonical : CanonicalNat word) : ∀ byte ∈ word, isDigit byte = true := by
  cases canonical with
  | zero =>
      intro byte member
      rw [List.mem_singleton.mp member]
      rfl
  | positive unpadded => exact unpadded.all

/-- A canonical numeral is the decimal notation of its value. -/
theorem CanonicalNat.decimal_value (canonical : CanonicalNat word) :
    decimal (value word) = word := by
  cases canonical with
  | zero => rfl
  | positive unpadded => exact unpadded.decimal_value.2

/-- A canonical numeral is the decimal notation of whatever it denotes. -/
theorem CanonicalInt.decimalInt_eq (canonical : CanonicalInt word) (signed : Signed word z) :
    decimalInt z = word := by
  cases canonical with
  | natural digits =>
      cases signed with
      | @plain _ n denotes =>
          rw [decimalInt, if_neg (by omega), Int.natAbs_natCast, ← denotes.value_eq]
          exact digits.decimal_value
      | plus _ => exact absurd (digits.all 43 List.mem_cons_self) (by decide)
      | minus _ => exact absurd (digits.all 45 List.mem_cons_self) (by decide)
  | @negative rest unpadded =>
      cases signed with
      | plain denotes => exact absurd (denotes.all 45 List.mem_cons_self) (by decide)
      | @minus _ n denotes =>
          rcases unpadded.decimal_value with ⟨positive, written⟩
          rw [denotes.value_eq] at positive written
          rw [decimalInt, if_pos (by omega), Int.natAbs_neg, Int.natAbs_natCast, written]

/-- A canonical numeral denotes some number. -/
theorem CanonicalInt.signed (canonical : CanonicalInt word) : ∃ z, Signed word z := by
  cases canonical with
  | natural digits =>
      have nonempty : word ≠ [] := by
        rw [← digits.decimal_value]
        exact (digits_decimal _).nonempty
      exact ⟨_, .plain ⟨nonempty, digits.all, rfl⟩⟩
  | negative unpadded => exact ⟨_, .minus ⟨unpadded.nonempty, unpadded.all, rfl⟩⟩

/-- A numeral has no other bytes than signs and digits. -/
theorem Signed.not_mem (signed : Signed word z) (noSign : byte ≠ 43 ∧ byte ≠ 45)
    (noDigit : isDigit byte = false) : byte ∉ word := by
  have outside {digits : Bytes} {n : Nat} (denotes : Digits digits n) : byte ∉ digits := by
    intro member
    rw [denotes.all byte member] at noDigit
    cases noDigit
  cases signed with
  | plain denotes => exact outside denotes
  | plus denotes => exact List.not_mem_cons_of_ne_of_not_mem noSign.1 (outside denotes)
  | minus denotes => exact List.not_mem_cons_of_ne_of_not_mem noSign.2 (outside denotes)

theorem CanonicalNat.decimal_eq (canonical : CanonicalNat word) (signed : Signed word n) :
    decimal n = word := by
  have written := (CanonicalInt.natural canonical).decimalInt_eq signed
  rwa [decimalInt, if_neg (by omega), Int.natAbs_natCast] at written

end MainlineDht.Text.Decimal
