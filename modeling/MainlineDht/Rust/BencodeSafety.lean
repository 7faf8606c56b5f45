import MainlineDht.Rust.BencodeLanguage

/-!
# Safety of the Rust decoder

`Bencode::decode` returns a value or an error on every input.  No index or slice
leaves the data: the cursor carries its bound, and a length that the cast to
`usize` has changed is larger than any slice.  The loops end since each of their
iterations either returns or leaves the cursor further ahead.
-/

namespace MainlineDht.Rust

open Effect Ordered Text Bencode

open Cursor (after)

variable {α β : Type} {front text : Bytes}

/-- The outcome of a function of the source that neither panics nor runs on. -/
def Returns (outcome : Except Failure (α × Cursor)) : Prop :=
  (∃ result, outcome = .ok result) ∨ ∃ error, outcome = .error (.err error)

/-- The other cursor stands further ahead in the same data. -/
structure Cursor.Passes (c c' : Cursor) : Prop where
  data_eq : c'.data = c.data
  position_lt : c.position < c'.position

theorem Cursor.exists_after (c : Cursor) : ∃ front text, c = after front text := by
  refine ⟨c.data.take c.position, c.data.drop c.position, ?_⟩
  ext1
  · exact (List.take_append_drop _ _).symm
  · exact (List.length_take_of_le c.inside).symm

theorem Cursor.passes_after {word : Bytes} (nonempty : word ≠ []) (rest : Bytes) :
    (after front (word ++ rest)).Passes (after (front ++ word) rest) where
  data_eq := List.append_assoc front word rest
  position_lt := by
    have longer := List.length_pos_of_ne_nil nonempty
    change front.length < (front ++ word).length
    rw [List.length_append]
    omega

/-! ## Iterations of the loops -/

/-- How an iteration of a loop ends that reads a part and goes on with `again`:
it returns what there was so far, or the error of reading the part, or it goes
on from a cursor further ahead. -/
inductive Iteration (part : Decode α) (again : α → Decode β) (result : β) (c : Cursor) :
    Except Failure (β × Cursor) → Prop
  | ended {c' : Cursor} : c.Passes c' → Iteration part again result c (.ok (result, c'))
  | starved {failure : Failure} : Traced.run Decoder.peekByte c = .error failure →
      Iteration part again result c (.error failure)
  | failed {failure : Failure} : Traced.run part c = .error failure →
      Iteration part again result c (.error failure)
  | wentOn {a : α} {c' : Cursor} : Traced.run part c = .ok (a, c') → c.Passes c' →
      Iteration part again result c (Traced.run (again a) c')

/-- A verdict on non-empty words tells that the cursor has moved. -/
theorem Verdict.passes {derived : α → Bytes → Prop} {starved : Prop} {a : α} {c : Cursor}
    {outcome : Except Failure (α × Cursor)} (verdict : Verdict front text derived starved outcome)
    (finished : outcome = .ok (a, c)) (nonempty : ∀ word, derived a word → word ≠ []) :
    (after front text).Passes c := by
  rcases verdict.derived_of_ok finished with ⟨word, rest, rfl, derives, rfl⟩
  exact Cursor.passes_after (nonempty word derives) rest

namespace Decoder

theorem decodeValue_passes {fuel : Nat} {c c' : Cursor} {v : Value} (small : c.data.length < 2 ^ 63)
    (finished : Traced.run (decodeValue fuel) c = .ok (v, c')) : c.Passes c' := by
  rcases c.exists_after with ⟨front, text, rfl⟩
  apply ((verdicts fuel).value small).passes finished
  intro word derives
  exact List.ne_nil_of_length_pos derives.length_pos

theorem decodeBytestring_passes {c c' : Cursor} {v : Value} (small : c.data.length < 2 ^ 63)
    (finished : Traced.run decodeBytestring c = .ok (v, c')) : c.Passes c' := by
  rcases c.exists_after with ⟨front, text, rfl⟩
  apply (decodeBytestring_verdict small).passes finished
  rintro _ ⟨content, len, _, rfl, _⟩
  exact List.append_ne_nil_of_right_ne_nil _ (List.cons_ne_nil _ _)

/-- A value, as `decode_list` reads it, or the byte that ends the list. -/
theorem decodeListLoop_iteration {c : Cursor} (small : c.data.length < 2 ^ 63) (fuel : Nat)
    (result : List Value) :
    Iteration (decodeValue fuel) (fun v => decodeListLoop fuel (result ++ [v])) result c
      (Traced.run (decodeListLoop (fuel + 1) result) c) := by
  rcases c.exists_after with ⟨front, text, rfl⟩
  cases text with
  | nil =>
      rw [decodeListLoop, Traced.run_bind_error (run_peekByte_nil front)]
      exact .starved (run_peekByte_nil front)
  | cons byte text =>
      by_cases ends : byte = 101
      · subst ends
        rw [run_decodeListLoop_end]
        exact .ended (Cursor.passes_after (List.cons_ne_nil _ []) text)
      · rw [run_decodeListLoop_item ends]
        cases read : Traced.run (decodeValue fuel) (after front (byte :: text)) with
        | error failure =>
            rw [Traced.run_bind_error read]
            exact .failed read
        | ok outcome =>
            rw [Traced.run_bind_ok read]
            exact .wentOn read (decodeValue_passes small read)

/-- The part that an iteration of the loop of `decode_dict` reads. -/
def decodeEntry (fuel : Nat) : Decode (Bytes × Value) := do
  match ← decodeBytestring with
  | .bytes key =>
      let value ← decodeValue fuel
      return (key, value)
  -- `unreachable!`
  | _ => Traced.fail .panic

/-- `decodeBytestring` returns nothing but byte strings. -/
theorem exists_key {c c' : Cursor} {v : Value} (small : c.data.length < 2 ^ 63)
    (finished : Traced.run decodeBytestring c = .ok (v, c')) : ∃ key, v = .bytes key := by
  rcases c.exists_after with ⟨front, text, rfl⟩
  rcases (decodeBytestring_verdict small).derived_of_ok finished with
    ⟨_, _, _, ⟨key, _, isKey, _⟩, _⟩
  exact ⟨key, isKey⟩

/-- An entry, as `decode_dict` reads it, or the byte that ends the dictionary. -/
theorem decodeDictLoop_iteration {c : Cursor} (small : c.data.length < 2 ^ 63) (fuel : Nat)
    (result : List (Bytes × Value)) :
    Iteration (decodeEntry fuel)
      (fun entry => decodeDictLoop fuel (Entries.insert entry.1 entry.2 result)) result c
      (Traced.run (decodeDictLoop (fuel + 1) result) c) := by
  rcases c.exists_after with ⟨front, text, rfl⟩
  cases text with
  | nil =>
      rw [decodeDictLoop, Traced.run_bind_error (run_peekByte_nil front)]
      exact .starved (run_peekByte_nil front)
  | cons byte text =>
      by_cases ends : byte = 101
      · subst ends
        rw [run_decodeDictLoop_end]
        exact .ended (Cursor.passes_after (List.cons_ne_nil _ []) text)
      · cases keyRead : Traced.run decodeBytestring (after front (byte :: text)) with
        | error failure =>
            rw [decodeDictLoop, Traced.run_bind_ok (run_peekByte_cons front text byte),
              if_neg ends, Traced.run_bind_error keyRead]
            exact .failed (Traced.run_bind_error keyRead _)
        | ok outcome =>
            rcases outcome with ⟨v, middle⟩
            rcases exists_key small keyRead with ⟨key, rfl⟩
            have passes := decodeBytestring_passes small keyRead
            have smaller : middle.data.length < 2 ^ 63 := by
              rw [passes.data_eq]
              exact small
            rw [run_decodeDictLoop_entry ends keyRead, decodeBinding]
            cases valueRead : Traced.run (decodeValue fuel) middle with
            | error failure =>
                rw [Traced.run_bind_error valueRead]
                refine .failed ?_
                rw [decodeEntry, Traced.run_bind_ok keyRead]
                exact Traced.run_bind_error valueRead _
            | ok outcome =>
                rcases outcome with ⟨value, c'⟩
                have further := decodeValue_passes smaller valueRead
                have entryRead : Traced.run (decodeEntry fuel) (after front (byte :: text)) =
                    .ok ((key, value), c') := by
                  rw [decodeEntry, Traced.run_bind_ok keyRead]
                  exact Traced.run_bind_ok valueRead _
                rw [Traced.run_bind_ok valueRead]
                exact .wentOn entryRead
                  ⟨further.data_eq.trans passes.data_eq, passes.position_lt.trans further.position_lt⟩

/-! ## Lengths -/

/-- A length that passes the check of `decode_bytestring` is the number that was
read, and the slice has as many bytes. -/
theorem asUsize_le_remaining {c : Cursor} {size : Int} (small : c.data.length < 2 ^ 63)
    (fits : InI64 size) (passed : asUsize size ≤ c.remaining) :
    (asUsize size : Int) = size ∧ asUsize size ≤ c.getSlice.length := by
  have bounded : c.remaining ≤ c.data.length := Nat.sub_le _ _
  have nonnegative : 0 ≤ size := by
    by_contra negative
    have large := le_asUsize_of_neg fits (not_le.mp negative)
    omega
  constructor
  · rcases Int.eq_ofNat_of_zero_le nonnegative with ⟨n, rfl⟩
    rw [asUsize_natCast (by unfold InI64 at fits; omega)]
  · rwa [Cursor.getSlice, List.length_drop]

/-- A length that is negative or not below what remains is rejected with an error. -/
theorem decodeBytestring_rejects {c c' : Cursor} {size : Int} (small : c.data.length < 2 ^ 63)
    (parsed : Traced.run parseInt c = .ok (size, c')) (tooLarge : size < 0 ∨ c'.remaining ≤ size) :
    ∃ error, Traced.run decodeBytestring c = .error (.err error) := by
  rcases c.exists_after with ⟨front, text, rfl⟩
  rcases (parseInt_verdict front text).derived_of_ok parsed with
    ⟨word, rest, rfl, ⟨signed, fits⟩, rfl⟩
  rw [decodeBytestring, Traced.run_bind_ok parsed]
  cases rest with
  | nil =>
      rw [Traced.run_bind_error (run_takeByte_nil _)]
      exact ⟨_, rfl⟩
  | cons byte rest =>
      rw [Traced.run_bind_ok (run_takeByte_cons _ rest byte)]
      by_cases opens : byte = 58
      · have data_eq : (after (front ++ word ++ [byte]) rest).data.length < 2 ^ 63 := by
          simpa [after] using small
        have refused : (after (front ++ word ++ [byte]) rest).remaining < asUsize size := by
          by_contra passed
          have size_eq := (asUsize_le_remaining data_eq fits (not_lt.mp passed)).1
          rw [Cursor.remaining_after] at passed tooLarge
          rw [List.length_cons] at tooLarge
          omega
        rw [if_neg (not_not.mpr opens), Traced.run_bind_ok (Traced.run_read _), if_pos refused]
        exact ⟨_, rfl⟩
      · rw [if_pos opens]
        exact ⟨_, rfl⟩

end Decoder

/-! ## All inputs -/

/-- What holds at every cursor on the input, for the functions of the decoder. -/
structure SafeAt (c : Cursor) : Prop where
  inRange : c.position ≤ c.data.length ∧ c.position + c.remaining = c.data.length
  rejects (c' : Cursor) (size : Int) : Traced.run Decoder.parseInt c = .ok (size, c') →
    size < 0 ∨ c'.remaining ≤ size →
      ∃ error, Traced.run Decoder.decodeBytestring c = .error (.err error)
  listIterates (fuel : Nat) (result : List Value) :
    Iteration (Decoder.decodeValue fuel)
      (fun v => Decoder.decodeListLoop fuel (result ++ [v])) result c
      (Traced.run (Decoder.decodeListLoop (fuel + 1) result) c)
  dictIterates (fuel : Nat) (result : List (Bytes × Value)) :
    Iteration (Decoder.decodeEntry fuel)
      (fun entry => Decoder.decodeDictLoop fuel (Entries.insert entry.1 entry.2 result)) result c
      (Traced.run (Decoder.decodeDictLoop (fuel + 1) result) c)

theorem Cursor.safeAt {c : Cursor} (small : c.data.length < 2 ^ 63) : SafeAt c where
  inRange := ⟨c.inside, Nat.add_sub_cancel' c.inside⟩
  rejects _ _ parsed tooLarge := Decoder.decodeBytestring_rejects small parsed tooLarge
  listIterates := Decoder.decodeListLoop_iteration small
  dictIterates := Decoder.decodeDictLoop_iteration small

/-- `Bencode::decode` ends with a value or an error on every input, and is safe
at every cursor on it. -/
theorem decode_returns_and_safeAt (s : Bytes) (fits : s.length < 2 ^ 63) :
    Returns (decode s) ∧ ∀ c : Cursor, c.data = s → SafeAt c := by
  constructor
  · have verdict := decode_verdict s fits
    generalize decode s = outcome at verdict
    cases verdict with
    | returned _ _ => exact Or.inl ⟨_, rfl⟩
    | refused error => exact Or.inr ⟨error, rfl⟩
    | outOfFuel starved => exact starved.elim
  · rintro c rfl
    exact c.safeAt fits

/-- A dictionary whose key has the length -1, `d-1:`. -/
theorem decode_returns_and_safeAt_negative : Returns (decode [100, 45, 49, 58]) :=
  (decode_returns_and_safeAt [100, 45, 49, 58] (by decide +kernel)).1

end MainlineDht.Rust
