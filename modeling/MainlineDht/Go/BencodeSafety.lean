import MainlineDht.Go.BencodeVerdicts

/-!
# Remote safety of the Go decoder

A datagram reaches `decodeBencodeDict` unchecked, and a panic there ends the
process.  The decoders panic on exactly the inputs that `Overruns` describes;
on all others they return, every call finds the position inside the input and
every slice is taken within bounds.
-/

namespace MainlineDht.Go

open Effect Ordered Text Bencode

/-! ## Positions and slices of finishing runs -/

/-- The scanner reads `input` and stands inside it. -/
def Scanner.InRange (input : Bytes) (c : Scanner) : Prop :=
  c.input = input ∧ 0 ≤ c.position ∧ c.position ≤ input.length

/-- Finishing runs on `input` stay in range and access it within bounds. -/
abbrev StaysIn {α : Type} (input : Bytes) (computation : Scan α) : Prop :=
  Traced.Keeps (Scanner.InRange input) (Access.InBounds input.length) computation

variable {input : Bytes}

theorem called_staysIn : StaysIn input called := by
  intro c range value final finished
  cases finished
  constructor
  · exact range
  · intro access member
    rw [List.mem_singleton.mp member]
    exact range.2

theorem inputAt_staysIn (position : Int) : StaysIn input (inputAt position) := by
  intro c range
  apply Traced.KeepsAt.read_bind range
  split
  · split
    · exact .pure range _
    · exact .fail _ _
  · exact .fail _ _

/-- A slice that is taken has passed the bounds check. -/
theorem inputSlice_ok {low high : Int} {c final : Scanner} {result : Bytes}
    (finished : Traced.run (inputSlice low high) c = .ok (result, final)) :
    final = c ∧ 0 ≤ low ∧ low ≤ high ∧ high ≤ c.input.length := by
  rw [inputSlice, Traced.run_bind_ok (Traced.run_log _ _),
    Traced.run_bind_ok (Traced.run_read _)] at finished
  by_cases bounds : 0 ≤ low ∧ low ≤ high ∧ high ≤ c.input.length
  · rw [if_pos bounds] at finished
    cases finished
    exact ⟨rfl, bounds⟩
  · rw [if_neg bounds] at finished
    cases finished

theorem inputSlice_staysIn (low high : Int) : StaysIn input (inputSlice low high) := by
  intro c range result final finished
  obtain ⟨rfl, bounds⟩ := inputSlice_ok finished
  constructor
  · exact range
  · rw [range.1] at bounds
    have logged : Traced.events (inputSlice low high) final = [.slice low high] := by
      rw [inputSlice, Traced.events_bind (Traced.run_log _ _),
        Traced.events_bind (Traced.run_read _), range.1, if_pos bounds]
      rfl
    intro access member
    rw [logged, List.mem_singleton] at member
    subst member
    exact bounds

namespace Scanner

theorem peek_staysIn : StaysIn input peek := by
  refine called_staysIn.bind fun _ => fun c range => .read_bind range ?_
  split
  · exact .pure range _
  · exact (inputAt_staysIn _ c range).bind fun _ _ _ middleRange => .pure middleRange _

theorem next_staysIn : StaysIn input next := by
  refine called_staysIn.bind fun _ => fun c range => .read_bind range ?_
  split
  · exact .pure range _
  · rename_i inside
    refine (inputAt_staysIn _ c range).bind fun _ middle _ middleRange => ?_
    refine Traced.KeepsAt.bind ?_ fun _ _ _ finalRange => .pure finalRange _
    intro value final finished
    cases finished
    obtain ⟨input_eq, low, high⟩ := range
    rw [input_eq] at inside
    refine ⟨⟨input_eq, ?_, ?_⟩, by intro access member; cases member⟩
    · exact Int.add_nonneg low (by decide)
    · exact Int.add_one_le_of_lt (not_le.mp inside)

theorem acceptSingle_staysIn (accepted : Bytes) : StaysIn input (acceptSingle accepted) := by
  refine called_staysIn.bind fun _ => peek_staysIn.bind fun found => ?_
  cases found with
  | none => exact .pure _
  | some b =>
      simp only
      split
      · exact next_staysIn.bind fun _ => .pure _
      · exact .pure _

theorem acceptMultipleLoop_staysIn (accepted : Bytes) (fuel : Nat) :
    ∀ length, StaysIn input (acceptMultipleLoop accepted fuel length) := by
  induction fuel with
  | zero => exact fun _ => .fail _
  | succ fuel ih =>
      intro length
      refine (acceptSingle_staysIn accepted).bind fun found => ?_
      cases found with
      | none => exact .pure _
      | some _ => exact ih (length + 1)

theorem acceptMultiple_staysIn (accepted : Bytes) : StaysIn input (acceptMultiple accepted) := by
  refine called_staysIn.bind fun _ => fun c range => .read_bind range ?_
  refine (acceptMultipleLoop_staysIn accepted _ 0 c range).bind fun length d _ later => ?_
  exact .read_bind later (inputSlice_staysIn _ _ d later)

theorem acceptRun_staysIn (length : Int) : StaysIn input (acceptRun length) := by
  refine called_staysIn.bind fun _ => fun c range => .read_bind range ?_
  split
  · exact .pure range _
  · refine (inputSlice_staysIn _ _ c range).bind fun taken middle sliced _ => ?_
    refine Traced.KeepsAt.bind ?_ fun _ _ _ finalRange => .pure finalRange _
    intro value final finished
    cases finished
    obtain ⟨_, _, low, high⟩ := inputSlice_ok sliced
    obtain ⟨input_eq, nonneg, _⟩ := range
    rw [input_eq] at high
    exact ⟨⟨input_eq, le_trans nonneg low, high⟩, by intro access member; cases member⟩

end Scanner

theorem parseInteger_staysIn : StaysIn input parseInteger := by
  refine called_staysIn.bind fun _ => (Scanner.acceptSingle_staysIn _).bind fun _ =>
    (Scanner.acceptMultiple_staysIn _).bind fun chars => ?_
  split
  · exact .pure _
  · exact .pure _

theorem decodeInteger_staysIn : StaysIn input decodeInteger := by
  refine called_staysIn.bind fun _ => (Scanner.acceptSingle_staysIn _).bind fun start => ?_
  cases start with
  | none => exact .pure _
  | some _ =>
      refine parseInteger_staysIn.bind fun _ => (Scanner.acceptSingle_staysIn _).bind fun stop => ?_
      cases stop with
      | none => exact .pure _
      | some _ => exact .pure _

theorem decodeString_staysIn : StaysIn input decodeString := by
  refine called_staysIn.bind fun _ => parseInteger_staysIn.bind fun result => ?_
  cases result with
  | error err => exact .pure _
  | ok length =>
      by_cases negative : length < 0
      · simp only [if_pos negative]
        exact .pure _
      · simp only [if_neg negative]
        refine (Scanner.acceptSingle_staysIn _).bind fun start => ?_
        cases start with
        | none => exact .pure _
        | some _ =>
            refine (Scanner.acceptRun_staysIn length).bind fun taken => ?_
            cases taken with
            | none => exact .pure _
            | some _ => exact .pure _

/-- The five mutually recursive functions at one fuel. -/
structure AllStayIn (input : Bytes) (fuel : Nat) : Prop where
  value : StaysIn input (decodeScannerBencodeValue fuel)
  list : StaysIn input (decodeList fuel)
  listLoop (result : List Value) : StaysIn input (decodeListLoop fuel result)
  dict : StaysIn input (decodeDict fuel)
  dictLoop (result : List (Bytes × Value)) : StaysIn input (decodeDictLoop fuel result)

section Step

variable {fuel : Nat}

theorem AllStayIn.zero : AllStayIn input 0 where
  value := .fail _
  list := .fail _
  listLoop _ := .fail _
  dict := .fail _
  dictLoop _ := .fail _

theorem AllStayIn.value_succ (ih : AllStayIn input fuel) :
    StaysIn input (decodeScannerBencodeValue (fuel + 1)) := by
  refine called_staysIn.bind fun _ => Scanner.peek_staysIn.bind fun found => ?_
  cases found with
  | none => exact .pure _
  | some c =>
      simp only
      split_ifs
      · exact decodeInteger_staysIn.bind fun _ => .pure _
      · exact ih.list.bind fun _ => .pure _
      · exact ih.dict.bind fun _ => .pure _
      · exact decodeString_staysIn.bind fun _ => .pure _

theorem AllStayIn.list_succ (ih : AllStayIn input fuel) :
    StaysIn input (decodeList (fuel + 1)) := by
  refine called_staysIn.bind fun _ => (Scanner.acceptSingle_staysIn _).bind fun start => ?_
  cases start with
  | none => exact .pure _
  | some _ => exact ih.listLoop []

theorem AllStayIn.listLoop_succ (ih : AllStayIn input fuel) (result : List Value) :
    StaysIn input (decodeListLoop (fuel + 1) result) := by
  refine (Scanner.acceptSingle_staysIn _).bind fun stop => ?_
  cases stop with
  | some _ => exact .pure _
  | none =>
      refine ih.value.bind fun item => ?_
      cases item with
      | error err => exact .pure _
      | ok value => exact ih.listLoop _

theorem AllStayIn.dict_succ (ih : AllStayIn input fuel) :
    StaysIn input (decodeDict (fuel + 1)) := by
  refine called_staysIn.bind fun _ => (Scanner.acceptSingle_staysIn _).bind fun start => ?_
  cases start with
  | none => exact .pure _
  | some _ => exact ih.dictLoop []

theorem AllStayIn.dictLoop_succ (ih : AllStayIn input fuel) (result : List (Bytes × Value)) :
    StaysIn input (decodeDictLoop (fuel + 1) result) := by
  refine (Scanner.acceptSingle_staysIn _).bind fun stop => ?_
  cases stop with
  | some _ => exact .pure _
  | none =>
      refine decodeString_staysIn.bind fun key => ?_
      cases key with
      | error err => exact .pure _
      | ok key =>
          refine ih.value.bind fun found => ?_
          cases found with
          | error err => exact .pure _
          | ok value => exact ih.dictLoop _

end Step

theorem allStayIn (fuel : Nat) : AllStayIn input fuel := by
  induction fuel with
  | zero => exact .zero
  | succ fuel ih =>
      exact
        { value := ih.value_succ
          list := ih.list_succ
          listLoop := ih.listLoop_succ
          dict := ih.dict_succ
          dictLoop := ih.dictLoop_succ }

theorem newScanner_inRange (input : Bytes) : (newScanner input).InRange input :=
  ⟨rfl, le_refl 0, Int.natCast_nonneg _⟩

/-! ## Overrunning lengths panic -/

/-- The decoder that stands at a slot panics on what follows.  The loops do so
whatever they have collected. -/
def Blows (front text : Bytes) : Slot → Prop
  | .value => (∀ b ∈ text.head?, b ≠ 101) ∧ ∀ fuel, 3 * text.length + 2 ≤ fuel →
      Traced.run (decodeScannerBencodeValue fuel) (Scanner.after front text) = .error .panic
  | .item => ∀ fuel result, 3 * text.length + 3 ≤ fuel →
      Traced.run (decodeListLoop fuel result) (Scanner.after front text) = .error .panic
  | .key => ∀ fuel result, 3 * text.length + 3 ≤ fuel →
      Traced.run (decodeDictLoop fuel result) (Scanner.after front text) = .error .panic
  | .binding => ∀ fuel result key, 3 * text.length + 2 ≤ fuel →
      Traced.run (decodeBinding fuel result key) (Scanner.after front text) = .error .panic

/-- `decodeString` panics on a length that overruns. -/
theorem run_decodeString_overrun {len : Bytes} {n : Nat} (numeral : dialect.len len n)
    (front rest : Bytes) (small : (front ++ (len ++ 58 :: rest)).length < 2 ^ 63)
    (overruns : 2 ^ 63 ≤ (front ++ (len ++ [58])).length + n) :
    Traced.run decodeString (Scanner.after front (len ++ 58 :: rest)) = .error .panic := by
  have bounded : n < 2 ^ 63 := numeral.2
  simp only [List.length_append, List.length_cons, List.length_nil] at small overruns
  rw [decodeString, Traced.run_bind_ok (Scanner.run_called _),
    Traced.run_bind_ok (run_parseInteger_of_signed numeral.1 (by simpa using numeral.2)
      (by intro b member; cases member; decide) front)]
  simp only
  rw [if_neg (by omega),
    Traced.run_bind_ok (Scanner.run_acceptSingle_of_mem _ _ (by decide))]
  exact Traced.run_bind_error (Scanner.run_acceptRun_wrap
    (by simp only [List.length_append, List.length_cons, List.length_nil]; omega)
    (by simp only [List.length_append, List.length_cons, List.length_nil]; omega)) _

/-- A panic further on is a panic of the decoder that was to read up to there. -/
theorem Blows.outward {slot : Slot} {front : Bytes} (reaches : Reaches dialect slot front) :
    ∀ text, (front ++ text).length < 2 ^ 63 → Blows front text slot →
      Blows [] (front ++ text) .value := by
  induction reaches with
  | start => exact fun text _ blows => blows
  | @openList front _ ih =>
      intro text small blows
      rw [List.append_assoc] at small ⊢
      refine ih _ small ⟨by intro b member; cases member; decide, ?_⟩
      intro fuel enough
      rw [List.singleton_append] at enough ⊢
      simp only [List.length_cons] at enough
      obtain ⟨fuel, rfl⟩ : ∃ n, fuel = n + 2 := ⟨fuel - 2, by omega⟩
      rw [run_decodeValue_openList]
      exact Traced.run_bind_error (blows fuel [] (by omega)) _
  | @openDict front _ ih =>
      intro text small blows
      rw [List.append_assoc] at small ⊢
      refine ih _ small ⟨by intro b member; cases member; decide, ?_⟩
      intro fuel enough
      rw [List.singleton_append] at enough ⊢
      simp only [List.length_cons] at enough
      obtain ⟨fuel, rfl⟩ : ∃ n, fuel = n + 2 := ⟨fuel - 2, by omega⟩
      rw [run_decodeValue_openDict]
      exact Traced.run_bind_error (blows fuel [] (by omega)) _
  | @ofItem front _ ih =>
      intro text small blows
      refine ih text small ?_
      intro fuel result enough
      obtain ⟨fuel, rfl⟩ : ∃ n, fuel = n + 1 := ⟨fuel - 1, by omega⟩
      rw [run_decodeListLoop_item front fuel result blows.1]
      exact Traced.run_bind_error (blows.2 fuel (by omega)) _
  | @ofBinding front _ ih =>
      intro text small blows
      refine ih text small ?_
      intro fuel result key enough
      exact Traced.run_bind_error (blows.2 fuel enough) _
  | @nextItem front word v _ derives ih =>
      intro text small blows
      rw [List.append_assoc] at small ⊢
      refine ih _ small ?_
      intro fuel result enough
      have consumed := derives.length_pos
      simp only [List.length_append] at enough small
      obtain ⟨fuel, rfl⟩ : ∃ n, fuel = n + 1 := ⟨fuel - 1, by omega⟩
      have valueRun := reads_of_derives derives front text (by simp; omega) fuel (by omega)
      rw [run_decodeListLoop_value (notEnd_append derives.head text) valueRun]
      exact blows fuel (result ++ [v]) (by omega)
  | @key front len content _ numeral ih =>
      intro text small blows
      rw [List.append_assoc] at small ⊢
      refine ih _ small ?_
      intro fuel result enough
      simp only [List.length_append, List.length_cons] at enough small
      obtain ⟨fuel, rfl⟩ : ∃ n, fuel = n + 1 := ⟨fuel - 1, by omega⟩
      rw [List.append_assoc, List.cons_append,
        run_decodeDictLoop_key numeral (by simp; omega)]
      exact blows fuel result content (by omega)
  | @nextKey front word v _ derives ih =>
      intro text small blows
      rw [List.append_assoc] at small ⊢
      refine ih _ small ?_
      intro fuel result key enough
      have consumed := derives.length_pos
      simp only [List.length_append] at enough small
      have valueRun := reads_of_derives derives front text (by simp; omega) fuel (by omega)
      rw [run_decodeBinding_value valueRun]
      exact blows fuel _ (by omega)

/-- A length that overruns makes the decoder panic. -/
theorem Overruns.panics {input : Bytes} (overruns : Overruns input)
    (fits : input.length < 2 ^ 63) : decodeBencodeValue input = .error .panic := by
  obtain ⟨slot, front, len, rest, n, isString, reaches, rfl, numeral, large⟩ := overruns
  have panics := run_decodeString_overrun numeral front rest fits large
  have starts := Bencode.signed_notEnd numeral.1 (58 :: rest)
  have blows : Blows front (len ++ 58 :: rest) slot := by
    rcases isString with rfl | rfl
    · constructor
      · exact starts
      · intro fuel enough
        obtain ⟨fuel, rfl⟩ : ∃ n, fuel = n + 1 := ⟨fuel - 1, by omega⟩
        rw [run_decodeValue_string numeral.1]
        exact Traced.run_bind_error panics _
    · intro fuel result enough
      obtain ⟨fuel, rfl⟩ : ∃ n, fuel = n + 1 := ⟨fuel - 1, by omega⟩
      rw [run_decodeDictLoop_entry front fuel result starts]
      exact Traced.run_bind_error panics _
  exact (blows.outward reaches _ fits).2 _ (by unfold decodeFuel; omega)

/-! ## The exact condition -/

/-- The decoder returns, and on the way it has stayed inside the input. -/
def Returns {α : Type} (input : Bytes) (decoder : Scan (Except DecodeError α)) : Prop :=
  (∃ outcome final, Traced.run decoder (newScanner input) = .ok (outcome, final)) ∧
    ∀ access ∈ Traced.events decoder (newScanner input), access.InBounds input.length

/-- Both entry points return a value or an error, with every position and every
slice inside the input. -/
def Survives (input : Bytes) : Prop :=
  Returns input (decodeDict (decodeFuel input)) ∧
    Returns input (decodeScannerBencodeValue (decodeFuel input))

theorem StaysIn.returns {α : Type} {decoder : Scan (Except DecodeError α)}
    (stays : StaysIn input decoder) {outcome : Except DecodeError α} {final : Scanner}
    (finished : Traced.run decoder (newScanner input) = .ok (outcome, final)) :
    Returns input decoder :=
  ⟨⟨outcome, final, finished⟩,
    (stays _ (newScanner_inRange input) outcome final finished).2⟩

/-- A verdict that rules out overruns and has its fuel is a return. -/
theorem Verdict.finishes {α : Type} {derived : α → Bytes → Prop}
    {outcome : Except Fault (Except DecodeError α × Scanner)}
    (verdict : Verdict [] input derived False outcome) (noOverrun : ¬ Overruns input) :
    ∃ result final, outcome = .ok (result, final) := by
  cases verdict with
  | returned _ _ => exact ⟨_, _, rfl⟩
  | refused _ => exact ⟨_, _, rfl⟩
  | panicked overruns => exact absurd overruns noOverrun
  | outOfFuel starved => exact starved.elim

theorem Verdict.not_outOfFuel {α : Type} {derived : α → Bytes → Prop}
    {outcome : Except Fault (Except DecodeError α × Scanner)}
    (verdict : Verdict [] input derived False outcome) : outcome ≠ .error .outOfFuel := by
  rintro rfl
  cases verdict with
  | outOfFuel starved => exact starved

/-- Recursion ends on every input: the fuel of the entry points always suffices. -/
theorem decode_terminates (input : Bytes) (fits : input.length < 2 ^ 63) :
    decodeBencodeDict input ≠ .error .outOfFuel ∧
      decodeBencodeValue input ≠ .error .outOfFuel :=
  ⟨(decodeBencodeDict_verdict input fits).not_outOfFuel,
    (decodeBencodeValue_verdict input fits).not_outOfFuel⟩

/-- The decoders survive exactly the inputs on which no string length overruns. -/
theorem survives_iff_not_overruns (input : Bytes) (fits : input.length < 2 ^ 63) :
    Survives input ↔ ¬ Overruns input := by
  constructor
  · rintro ⟨_, ⟨⟨outcome, final, finished⟩, _⟩⟩ overruns
    have panics := overruns.panics fits
    rw [decodeBencodeValue, finished] at panics
    cases panics
  · intro noOverrun
    constructor
    · obtain ⟨result, final, finished⟩ :=
        (decodeBencodeDict_verdict input fits).finishes noOverrun
      exact (allStayIn _).dict.returns finished
    · obtain ⟨result, final, finished⟩ :=
        (decodeBencodeValue_verdict input fits).finishes noOverrun
      exact (allStayIn _).value.returns finished

/-- A decoder whose run ends in a result returns. -/
theorem StaysIn.returns_of_isOk {α : Type} {decoder : Scan (Except DecodeError α)}
    (stays : StaysIn input decoder)
    (finished : (Traced.run decoder (newScanner input)).isOk = true) : Returns input decoder := by
  cases ended : Traced.run decoder (newScanner input) with
  | error fault =>
      rw [ended] at finished
      cases finished
  | ok result => exact stays.returns ended

/-- The datagram `d9223372036854775786:` announces a key that would end at `maxInt`. -/
def edgeDatagram : Bytes :=
  [100, 57, 50, 50, 51, 51, 55, 50, 48, 51, 54, 56, 53, 52, 55, 55, 53, 55, 56, 54, 58]

/-- It is refused, so no length in it overruns. -/
theorem survives_iff_not_overruns_edge : Survives edgeDatagram ∧ ¬ Overruns edgeDatagram := by
  have survives : Survives edgeDatagram := by
    constructor
    · apply (allStayIn _).dict.returns_of_isOk
      decide +kernel
    · apply (allStayIn _).value.returns_of_isOk
      decide +kernel
  exact ⟨survives, (survives_iff_not_overruns edgeDatagram (by decide)).mp survives⟩

/-- The datagram `d9223372036854775807:` announces a key of `maxInt` bytes. -/
def overrunDatagram : Bytes :=
  [100, 57, 50, 50, 51, 51, 55, 50, 48, 51, 54, 56, 53, 52, 55, 55, 53, 56, 48, 55, 58]

theorem overrunDatagram_panics :
    decodeBencodeDict overrunDatagram = .error .panic ∧ ¬ Survives overrunDatagram := by
  have panics : decodeBencodeDict overrunDatagram = .error .panic := by
    have numeral : dialect.len
        [57, 50, 50, 51, 51, 55, 50, 48, 51, 54, 56, 53, 52, 55, 55, 53, 56, 48, 55]
        (2 ^ 63 - 1) :=
      ⟨.plain ⟨by decide, by decide +kernel, by decide⟩, by decide⟩
    have keyPanics := run_decodeString_overrun numeral [100] [] (by decide) (by decide)
    change Traced.run (decodeDict (65 + 1)) (Scanner.after [] (100 :: _)) = _
    rw [run_decodeDict_cons, run_decodeDictLoop_entry _ _ _ (by decide +kernel)]
    exact Traced.run_bind_error keyPanics _
  constructor
  · exact panics
  · rintro ⟨⟨⟨outcome, final, finished⟩, _⟩, _⟩
    rw [decodeBencodeDict, finished] at panics
    cases panics

end MainlineDht.Go
