import MainlineDht.Bencode.Value
import MainlineDht.Go.Scanner

/-!
# The Go bencode codec

The functions of `bencode.go` under their own names.  A Go `bencodeValue` is a
`Bencode.Value` that an `int` and a Go string can hold; its dictionaries are
maps, so a value has one representation.

The decoders are mutually recursive and loop.  They count their calls and
iterations down from a fuel argument; `decodeFuel` is enough for every input.
-/

namespace MainlineDht.Go

open Effect Ordered Text Bencode

/-- What an `int` and the length of a string can be. -/
abbrev limits : Limits where
  int n := -2 ^ 63 ≤ n ∧ n < 2 ^ 63
  len n := n < 2 ^ 63

/-- `bencodeValue` -/
abbrev BencodeValue : Type := { value : Value // value.Within limits }

/-- `fmt.Sprintf("%d:%s", len(s), s)` -/
def encodeString (s : Bytes) : Bytes :=
  Decimal.decimal s.length ++ 58 :: s

mutual

/-- The `encode` methods of the four kinds of values. -/
def encode : Value → Bytes
  | .int i => 105 :: (Decimal.decimalInt i ++ [101])
  | .bytes s => encodeString s
  | .list l => 108 :: (encodeItems l ++ [101])
  | .dict d =>
      -- the keys are collected in map order, sorted, and looked up one by one
      let keys := (d.map Prod.fst).mergeSort
      100 :: (keys.flatMap (fun k =>
        encodeString k ++ ((Entries.lookup k (encodeEntries d)).getD [])) ++ [101])

/-- The encodings of list items, one after the other. -/
def encodeItems : List Value → Bytes
  | [] => []
  | v :: l => encode v ++ encodeItems l

/-- `d[k].encode()` for every key of the map. -/
def encodeEntries : List (Bytes × Value) → List (Bytes × Bytes)
  | [] => []
  | (k, v) :: d => (k, encode v) :: encodeEntries d

end

/-- The errors of the decoders. -/
inductive DecodeError
  | zeroDigits
  | valueOutOfRange (chars : Bytes)
  | integerStart
  | integerEnd
  | negativeLength
  | stringStart
  | endOfInput
  | listStart
  | dictStart
  | listItem (err : DecodeError)
  | dictKey (err : DecodeError)
  | dictValue (err : DecodeError)

/-- The texts of the errors.  The byte in "got %c instead" is the zero byte that
`acceptSingle` returns along with `false`. -/
def DecodeError.message : DecodeError → String
  | zeroDigits => "unexpected integer with zero digits"
  | valueOutOfRange chars =>
      "strconv.Atoi: parsing \"" ++ String.ofList (chars.map fun b => Char.ofNat b.toNat) ++
        "\": value out of range"
  | integerStart => "expected integer to start with \"i\", got \x00 instead"
  | integerEnd => "unexpected end of integer: \x00"
  | negativeLength => "unexpected negative string length"
  | stringStart => "expected string to start with \":\", got \x00 instead"
  | endOfInput => "unexpected end of input"
  | listStart => "expected list to start with \"l\", got \x00 instead"
  | dictStart => "expected dict to start with \"d\", got \x00 instead"
  | listItem err => "decoding bencode list: " ++ err.message
  | dictKey err => "decoding bencode dict key: " ++ err.message
  | dictValue err => "decoding bencode dict value: " ++ err.message

/-- `strconv.Atoi` on a non-empty digit string. -/
def atoi (chars : Bytes) : Except DecodeError Int :=
  if (Decimal.value chars : Int) ≤ maxInt then .ok (Decimal.value chars)
  else .error (.valueOutOfRange chars)

/-- An optional sign and decimal digits, read for integers and string lengths
alike. -/
def parseInteger : Scan (Except DecodeError Int) := do
  called
  let sign ← Scanner.acceptSingle [45, 43]
  let chars ← Scanner.acceptMultiple [48, 49, 50, 51, 52, 53, 54, 55, 56, 57]
  if chars.length = 0 then
    return .error .zeroDigits
  else
    return (atoi chars).map fun res => res * (if sign = some 45 then -1 else 1)

/-- An integer between `i` and `e`.  A missing `e` is reported even if the number
before it was already an error. -/
def decodeInteger : Scan (Except DecodeError Int) := do
  called
  match ← Scanner.acceptSingle [105] with
  | none => return .error .integerStart
  | some _ =>
      let result ← parseInteger
      match ← Scanner.acceptSingle [101] with
      | none => return .error .integerEnd
      | some _ => return result

/-- A length, a colon and that many bytes. -/
def decodeString : Scan (Except DecodeError Bytes) := do
  called
  match ← parseInteger with
  | .error err => return .error err
  | .ok length =>
      if length < 0 then
        return .error .negativeLength
      else
        match ← Scanner.acceptSingle [58] with
        | none => return .error .stringStart
        | some _ =>
            match ← Scanner.acceptRun length with
            | none => return .error .endOfInput
            | some result => return .ok result

mutual

/-- A list between `l` and `e`. -/
def decodeList : Nat → Scan (Except DecodeError (List Value))
  | 0 => Traced.fail .outOfFuel
  | fuel + 1 => do
      called
      match ← Scanner.acceptSingle [108] with
      | none => return .error .listStart
      | some _ => decodeListLoop fuel []

/-- The loop of `decodeList`. -/
def decodeListLoop : Nat → List Value → Scan (Except DecodeError (List Value))
  | 0, _ => Traced.fail .outOfFuel
  | fuel + 1, result => do
      match ← Scanner.acceptSingle [101] with
      | some _ => return .ok result
      | none =>
          match ← decodeScannerBencodeValue fuel with
          | .error err => return .error (.listItem err)
          | .ok value => decodeListLoop fuel (result ++ [value])

/-- A dictionary between `d` and `e`. -/
def decodeDict : Nat → Scan (Except DecodeError (List (Bytes × Value)))
  | 0 => Traced.fail .outOfFuel
  | fuel + 1 => do
      called
      match ← Scanner.acceptSingle [100] with
      | none => return .error .dictStart
      | some _ => decodeDictLoop fuel []

/-- The loop of `decodeDict`. -/
def decodeDictLoop : Nat → List (Bytes × Value) → Scan (Except DecodeError (List (Bytes × Value)))
  | 0, _ => Traced.fail .outOfFuel
  | fuel + 1, result => do
      match ← Scanner.acceptSingle [101] with
      | some _ => return .ok result
      | none =>
          match ← decodeString with
          | .error err => return .error (.dictKey err)
          | .ok key =>
              match ← decodeScannerBencodeValue fuel with
              | .error err => return .error (.dictValue err)
              | .ok value => decodeDictLoop fuel (Entries.insert key value result)

/-- Any value; its first byte tells the kind, and a string is tried where no other
kind begins. -/
def decodeScannerBencodeValue : Nat → Scan (Except DecodeError Value)
  | 0 => Traced.fail .outOfFuel
  | fuel + 1 => do
      called
      match ← Scanner.peek with
      | none => return .error .endOfInput
      | some c =>
          if c = 105 then
            return (← decodeInteger).map Value.int
          else if c = 108 then
            return (← decodeList fuel).map Value.list
          else if c = 100 then
            return (← decodeDict fuel).map Value.dict
          else
            return (← decodeString).map Value.bytes

end

/-- Fuel for an input: three steps for each byte and a few to begin with. -/
def decodeFuel (input : Bytes) : Nat :=
  3 * input.length + 3

/-- A scanner at the start of its input. -/
def newScanner (input : Bytes) : Scanner where
  input := input
  position := 0

/-- A dictionary at the front of a text, from a new scanner. -/
def decodeBencodeDict (input : Bytes) :
    Except Fault (Except DecodeError (List (Bytes × Value)) × Scanner) :=
  Traced.run (decodeDict (decodeFuel input)) (newScanner input)

/-- Any value at the front of a text, from a new scanner. -/
def decodeBencodeValue (input : Bytes) :
    Except Fault (Except DecodeError Value × Scanner) :=
  Traced.run (decodeScannerBencodeValue (decodeFuel input)) (newScanner input)

end MainlineDht.Go
