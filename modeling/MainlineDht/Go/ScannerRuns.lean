import MainlineDht.Go.Scanner
import Mathlib.Tactic.Push

/-!
# Runs of the scanner

A scanner whose position is in range is `Scanner.after front rest`: `front` is
what has been read and `rest` what has not.  Each lemma says what one scanner
function does there; the decoders' proofs use these equations and never unfold
the functions.
-/

namespace MainlineDht.Go

open Effect Text

namespace Scanner

/-- The scanner that has read `front` and has `rest` before it. -/
def after (front rest : Bytes) : Scanner where
  input := front ++ rest
  position := front.length

@[simp]
theorem after_input (front rest : Bytes) : (after front rest).input = front ++ rest :=
  rfl

@[simp]
theorem after_position (front rest : Bytes) : (after front rest).position = front.length :=
  rfl

@[simp]
theorem run_called (c : Scanner) : Traced.run called c = .ok (⟨⟩, c) :=
  rfl

theorem run_inputAt_cons (front rest : Bytes) (b : UInt8) :
    Traced.run (inputAt (Scanner.after front (b :: rest)).position) (Scanner.after front (b :: rest)) =
      .ok (b, Scanner.after front (b :: rest)) := by
  have found : (front ++ b :: rest)[(front.length : Int).toNat]? = some b := by
    simp
  rw [inputAt, Traced.run_bind_ok (Traced.run_read _), after_position, after_input,
    if_pos (Int.natCast_nonneg _), found]
  rfl

theorem run_peek_nil (front : Bytes) :
    Traced.run peek (Scanner.after front []) = .ok (none, Scanner.after front []) := by
  simp [peek, Scanner.after, Traced.run_bind]

theorem run_peek_cons (front rest : Bytes) (b : UInt8) :
    Traced.run peek (Scanner.after front (b :: rest)) =
      .ok (some b, Scanner.after front (b :: rest)) := by
  have inside : ¬ (Scanner.after front (b :: rest)).position ≥
      (Scanner.after front (b :: rest)).input.length := by
    simp [Scanner.after]
  rw [peek, Traced.run_bind_ok (run_called _), Traced.run_bind_ok (Traced.run_read _),
    if_neg inside, Traced.run_bind_ok (run_inputAt_cons front rest b)]
  rfl

theorem run_next_cons (front rest : Bytes) (b : UInt8) :
    Traced.run next (Scanner.after front (b :: rest)) =
      .ok (some b, Scanner.after (front ++ [b]) rest) := by
  have inside : ¬ (Scanner.after front (b :: rest)).position ≥
      (Scanner.after front (b :: rest)).input.length := by
    simp [Scanner.after]
  rw [next, Traced.run_bind_ok (run_called _), Traced.run_bind_ok (Traced.run_read _),
    if_neg inside, Traced.run_bind_ok (run_inputAt_cons front rest b),
    Traced.run_bind_ok (Traced.run_write _ _)]
  simp [Scanner.after]

theorem run_acceptSingle_nil (accepted front : Bytes) :
    Traced.run (acceptSingle accepted) (Scanner.after front []) =
      .ok (none, Scanner.after front []) := by
  rw [acceptSingle, Traced.run_bind_ok (run_called _), Traced.run_bind_ok (run_peek_nil front)]
  rfl

theorem run_acceptSingle_of_mem {accepted : Bytes} {b : UInt8} (front rest : Bytes)
    (member : b ∈ accepted) :
    Traced.run (acceptSingle accepted) (Scanner.after front (b :: rest)) =
      .ok (some b, Scanner.after (front ++ [b]) rest) := by
  rw [acceptSingle, Traced.run_bind_ok (run_called _),
    Traced.run_bind_ok (run_peek_cons front rest b)]
  simp only [List.contains_iff_mem, member, if_true]
  rw [Traced.run_bind_ok (run_next_cons front rest b)]
  rfl

theorem run_acceptSingle_of_not_mem {accepted : Bytes} {b : UInt8} (front rest : Bytes)
    (absent : b ∉ accepted) :
    Traced.run (acceptSingle accepted) (Scanner.after front (b :: rest)) =
      .ok (none, Scanner.after front (b :: rest)) := by
  rw [acceptSingle, Traced.run_bind_ok (run_called _),
    Traced.run_bind_ok (run_peek_cons front rest b)]
  simp only [List.contains_iff_mem, absent, if_false]
  rfl

/-- `acceptSingle` where the next byte, if any, is not accepted. -/
theorem run_acceptSingle_none {accepted rest : Bytes} (front : Bytes)
    (stops : ∀ b ∈ rest.head?, b ∉ accepted) :
    Traced.run (acceptSingle accepted) (Scanner.after front rest) =
      .ok (none, Scanner.after front rest) := by
  cases rest with
  | nil => exact run_acceptSingle_nil accepted front
  | cons b rest => exact run_acceptSingle_of_not_mem front rest (stops b rfl)

/-- The loop takes the accepted bytes before the first one that is not. -/
theorem run_acceptMultipleLoop {accepted : Bytes} (taken : Bytes) {rest : Bytes}
    (all : ∀ b ∈ taken, b ∈ accepted) (stops : ∀ b ∈ rest.head?, b ∉ accepted) :
    ∀ (front : Bytes) (fuel : Nat) (length : Int), taken.length < fuel →
      Traced.run (acceptMultipleLoop accepted fuel length) (Scanner.after front (taken ++ rest)) =
        .ok (length + taken.length, Scanner.after (front ++ taken) rest) := by
  induction taken with
  | nil =>
      intro front fuel length enough
      obtain ⟨fuel, rfl⟩ := Nat.exists_eq_succ_of_ne_zero (Nat.ne_of_gt enough)
      rw [acceptMultipleLoop, List.nil_append,
        Traced.run_bind_ok (run_acceptSingle_none front stops)]
      simp
  | cons b taken ih =>
      intro front fuel length enough
      obtain ⟨fuel, rfl⟩ := Nat.exists_eq_succ_of_ne_zero
        (Nat.ne_of_gt (Nat.lt_of_le_of_lt (Nat.zero_le _) enough))
      have tailEnough : taken.length < fuel := by simpa using enough
      rw [acceptMultipleLoop, List.cons_append, Traced.run_bind_ok
        (run_acceptSingle_of_mem front (taken ++ rest) (all b List.mem_cons_self))]
      simp only
      rw [ih (fun b member => all b (List.mem_cons_of_mem _ member)) (front ++ [b]) fuel
        (length + 1) tailEnough]
      have count : length + 1 + (taken.length : Int) = length + ((b :: taken).length : Int) := by
        simp [Int.add_comm, Int.add_left_comm]
      rw [count]
      simp

/-- A slice that takes a known part of the input. -/
theorem run_inputSlice {c : Scanner} {front taken rest : Bytes}
    (input_eq : c.input = front ++ (taken ++ rest)) :
    Traced.run (inputSlice front.length (front.length + taken.length)) c = .ok (taken, c) := by
  have bounds : 0 ≤ (front.length : Int) ∧
      (front.length : Int) ≤ front.length + taken.length ∧
      (front.length : Int) + taken.length ≤ c.input.length := by
    rw [input_eq]
    simp
  rw [inputSlice, Traced.run_bind_ok (Traced.run_log _ _),
    Traced.run_bind_ok (Traced.run_read _), if_pos bounds, input_eq]
  simp

theorem run_acceptMultiple {accepted : Bytes} (front : Bytes) {taken rest : Bytes}
    (all : ∀ b ∈ taken, b ∈ accepted) (stops : ∀ b ∈ rest.head?, b ∉ accepted) :
    Traced.run (acceptMultiple accepted) (Scanner.after front (taken ++ rest)) =
      .ok (taken, Scanner.after (front ++ taken) rest) := by
  have enough : taken.length < (Scanner.after front (taken ++ rest)).input.length + 1 := by
    simp [Scanner.after]
    omega
  have low : (Scanner.after (front ++ taken) rest).position - (0 + (taken.length : Int)) =
      front.length := by
    simp [Scanner.after]
  have high : (Scanner.after (front ++ taken) rest).position =
      (front.length : Int) + taken.length := by
    simp [Scanner.after]
  rw [acceptMultiple, Traced.run_bind_ok (run_called _), Traced.run_bind_ok (Traced.run_read _),
    Traced.run_bind_ok (run_acceptMultipleLoop taken all stops front _ 0 enough),
    Traced.run_bind_ok (Traced.run_read _), low, high]
  exact run_inputSlice (List.append_assoc front taken rest)

theorem wrap64_of_lt {n : Nat} (small : n < 2 ^ 63) : wrap64 n = n := by
  unfold wrap64
  rw [Int.bmod_eq_of_le] <;> omega

/-- Past the largest `int` a sum of two of them comes out negative. -/
theorem wrap64_of_ge {n : Nat} (large : 2 ^ 63 ≤ n) (bounded : n < 2 ^ 64) :
    wrap64 n = n - 2 ^ 64 := by
  unfold wrap64
  rw [Int.bmod_def]
  split <;> omega

/-- `acceptRun` where the bytes are there. -/
theorem run_acceptRun (front taken rest : Bytes)
    (small : front.length + taken.length < 2 ^ 63) :
    Traced.run (acceptRun taken.length) (Scanner.after front (taken ++ rest)) =
      .ok (some taken, Scanner.after (front ++ taken) rest) := by
  have sum : wrap64 ((front.length : Int) + taken.length) =
      (front.length : Int) + taken.length := by
    have wrapped := wrap64_of_lt small
    rwa [Nat.cast_add] at wrapped
  have within : ¬ (front.length : Int) + taken.length > (front ++ (taken ++ rest)).length := by
    simp
  have sliced : Traced.run (inputSlice front.length (front.length + taken.length))
      (Scanner.after front (taken ++ rest)) = .ok (taken, Scanner.after front (taken ++ rest)) :=
    run_inputSlice (after_input front (taken ++ rest))
  rw [acceptRun, Traced.run_bind_ok (run_called _), Traced.run_bind_ok (Traced.run_read _),
    after_position, after_input, sum, if_neg within, Traced.run_bind_ok sliced,
    Traced.run_bind_ok (Traced.run_write _ _)]
  simp [after]

/-- `acceptRun` past the end of the input, as long as the sum does not wrap. -/
theorem run_acceptRun_short {front rest : Bytes} {length : Nat}
    (small : front.length + length < 2 ^ 63) (short : rest.length < length) :
    Traced.run (acceptRun length) (Scanner.after front rest) =
      .ok (none, Scanner.after front rest) := by
  have sum : wrap64 ((front.length : Int) + length) = (front.length : Int) + length := by
    have wrapped := wrap64_of_lt small
    rwa [Nat.cast_add] at wrapped
  have beyond : (front.length : Int) + length > (front ++ rest).length := by
    simp
    omega
  rw [acceptRun, Traced.run_bind_ok (run_called _), Traced.run_bind_ok (Traced.run_read _),
    after_position, after_input, sum, if_pos beyond]
  rfl

/-- `acceptRun` panics where the sum wraps around: the check lets a negative
bound through to the slice. -/
theorem run_acceptRun_wrap {front rest : Bytes} {length : Nat}
    (large : 2 ^ 63 ≤ front.length + length) (bounded : front.length + length < 2 ^ 64) :
    Traced.run (acceptRun length) (Scanner.after front rest) = .error .panic := by
  have sum : wrap64 ((front.length : Int) + length) =
      ((front.length + length : Nat) : Int) - 2 ^ 64 := by
    have wrapped := wrap64_of_ge large bounded
    rwa [Nat.cast_add] at wrapped
  have passes : ¬ ((front.length + length : Nat) : Int) - 2 ^ 64 > (front ++ rest).length := by
    omega
  have outside : ¬ (0 ≤ (front.length : Int) ∧
      (front.length : Int) ≤ ((front.length + length : Nat) : Int) - 2 ^ 64 ∧
      ((front.length + length : Nat) : Int) - 2 ^ 64 ≤ (front ++ rest).length) := by
    omega
  rw [acceptRun, Traced.run_bind_ok (run_called _), Traced.run_bind_ok (Traced.run_read _),
    after_position, after_input, sum, if_neg passes]
  apply Traced.run_bind_error
  rw [inputSlice, Traced.run_bind_ok (Traced.run_log _ _),
    Traced.run_bind_ok (Traced.run_read _), after_input, if_neg outside]
  rfl

end Scanner

end MainlineDht.Go
