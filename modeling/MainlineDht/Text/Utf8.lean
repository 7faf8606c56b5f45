import MainlineDht.Text.Decimal

/-!
# Reading bytes as UTF-8 with replacements

A byte string becomes well-formed UTF-8 by putting U+FFFD for each part that is
not the encoding of a character.  Such a part is as much as fits the beginning
of an encoding, and one byte at least.
-/

namespace MainlineDht.Text.Utf8

/-- The ranges of the bytes that follow a first byte in the encoding of a
character; none if no encoding starts with the byte. -/
def tailRanges (byte : UInt8) : Option (List (UInt8 × UInt8)) :=
  if byte < 0x80 then some []
  else if byte < 0xC2 then none
  else if byte < 0xE0 then some [(0x80, 0xBF)]
  -- no overlong encodings, no surrogates and nothing above U+10FFFF
  else if byte = 0xE0 then some [(0xA0, 0xBF), (0x80, 0xBF)]
  else if byte = 0xED then some [(0x80, 0x9F), (0x80, 0xBF)]
  else if byte < 0xF0 then some [(0x80, 0xBF), (0x80, 0xBF)]
  else if byte = 0xF0 then some [(0x90, 0xBF), (0x80, 0xBF), (0x80, 0xBF)]
  else if byte < 0xF4 then some [(0x80, 0xBF), (0x80, 0xBF), (0x80, 0xBF)]
  else if byte = 0xF4 then some [(0x80, 0x8F), (0x80, 0xBF), (0x80, 0xBF)]
  else none

/-- How many bytes fit the ranges one after the other. -/
def fitting : List (UInt8 × UInt8) → Bytes → Nat
  | range :: ranges, byte :: bytes =>
      if range.1 ≤ byte ∧ byte ≤ range.2 then fitting ranges bytes + 1 else 0
  | _, _ => 0

/-- U+FFFD -/
def replacement : Bytes :=
  [0xEF, 0xBF, 0xBD]

/-- The text with replacements. -/
def lossy : Bytes → Bytes
  | [] => []
  | byte :: bytes =>
      match tailRanges byte with
      | none => replacement ++ lossy bytes
      | some ranges =>
          let taken := fitting ranges bytes
          let character := if taken = ranges.length then byte :: bytes.take taken else replacement
          character ++ lossy (bytes.drop taken)
termination_by text => text.length
decreasing_by
  · simp
  · simp only [List.length_cons, List.length_drop]
    omega

/-- A byte that starts nothing, and an encoding of which the last byte is missing. -/
example : lossy [104, 0xFF, 0xE2, 0x82, 105] =
    [104] ++ replacement ++ replacement ++ [105] := by
  decide +kernel

end MainlineDht.Text.Utf8
