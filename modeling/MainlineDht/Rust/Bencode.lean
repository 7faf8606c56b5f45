import MainlineDht.Bencode.Value
import MainlineDht.Effect.Traced

/-!
# The Rust bencode codec

The cursor, the decoder and the encoder of `bencode.rs` under their own names.
A Rust `Bencode` is a `Bencode.Value` that an `i64` and a `Vec` can hold; its
dictionaries are `BTreeMap`s.  An error ends a decoder as `?` does.

The decoders are mutually recursive and loop.  They count their calls and
iterations down from a fuel argument; `decodeFuel` is enough for every input.
-/

namespace MainlineDht.Rust

open Effect Ordered Text Bencode

/-- The integers of an `i64`. -/
abbrev InI64 (z : Int) : Prop :=
  -2 ^ 63 ≤ z ∧ z < 2 ^ 63

/-- What an `i64` and the length of a `Vec` can be. -/
abbrev limits : Limits where
  int := InI64
  len n := n < 2 ^ 63

/-- The errors of the decoder. -/
inductive DecoderError
  | endOfStream
  | oversizedInteger
  | expectedInteger
  | expectedIntegerStart
  | expectedIntegerEnd
  | expectedStringStart
  | expectedListStart
  | expectedDictStart
  | expectedStringKey
  | invalidStringSize
  | unexpectedStartOfValue
  deriving DecidableEq

/-- Ways a decoder may end without a value.  `outOfFuel` is not a behaviour of
the program: it marks a run that was given too few steps. -/
inductive Failure
  | err (error : DecoderError)
  | panic
  | outOfFuel
  deriving DecidableEq

/-- The position never leaves the data, so reading at it cannot panic while
anything remains. -/
@[ext]
structure Cursor where
  data : Bytes
  position : Nat
  inside : position ≤ data.length

namespace Cursor

/-- A cursor at the front of the data. -/
def new (data : Bytes) : Cursor where
  data := data
  position := 0
  inside := Nat.zero_le _

/-- The number of bytes from the position on. -/
def remaining (c : Cursor) : Nat :=
  c.data.length - c.position

/-- The byte at the position, which stays. -/
def peekByte (c : Cursor) : Except Failure UInt8 :=
  if more : c.remaining = 0 then .error (.err .endOfStream)
  else .ok (c.data.get ⟨c.position, by unfold remaining at more; omega⟩)

/-- Go on by some bytes. -/
def advance (c : Cursor) (count : Nat) : Cursor where
  data := c.data
  position := c.position + min count c.remaining
  inside := by
    have held := c.inside
    unfold remaining
    omega

/-- All bytes from the position on. -/
def getSlice (c : Cursor) : Bytes :=
  c.data.drop c.position

end Cursor

/-- A computation of the decoder.  It logs nothing. -/
abbrev Decode := Traced Cursor Failure Empty

/-- `return Err(error)` -/
def throw {α : Type} (error : DecoderError) : Decode α :=
  Traced.fail (.err error)

namespace Decoder

/-- Look at the next byte of the cursor. -/
def peekByte : Decode UInt8 := do
  let c ← Traced.read
  match c.peekByte with
  | .ok byte => return byte
  | .error failure => Traced.fail failure

/-- Move the cursor. -/
def advance (count : Nat) : Decode PUnit := do
  let c ← Traced.read
  Traced.write (c.advance count)

/-- Look at the next byte and go past it. -/
def takeByte : Decode UInt8 := do
  let result ← peekByte
  advance 1
  return result

/-- The sign in front of an integer: whether it is negative. -/
def parseSign : Decode Bool := do
  let byte ← peekByte
  if byte = 45 then
    advance 1
    return true
  else if byte = 43 then
    advance 1
    return false
  else
    return false

/-- `checked_mul`, `checked_sub` and `checked_add` on `i64`, with the exact result. -/
def checked (z : Int) : Decode Int :=
  if InI64 z then pure z else throw .oversizedInteger

/-- `byte - b'0'` on `u8`, which panics below zero. -/
def digitOf (byte : UInt8) : Decode Nat :=
  if 48 ≤ byte then pure (Decimal.digitValue byte) else Traced.fail .panic

/-- One round of the loop of `parse_int`. -/
def parseDigit (isNegative : Bool) (result : Int) : Decode Int := do
  let byte ← takeByte
  let currentDigit ← digitOf byte
  let result ← checked (result * 10)
  if isNegative then checked (result - currentDigit) else checked (result + currentDigit)

/-- The loop of `parse_int`. -/
def parseIntLoop (isNegative : Bool) : Nat → Int → Decode Int
  | 0, _ => Traced.fail .outOfFuel
  | fuel + 1, result => do
      let c ← Traced.read
      if 0 < c.remaining then
        let byte ← peekByte
        if Decimal.isDigit byte then
          let result ← parseDigit isNegative result
          parseIntLoop isNegative fuel result
        else
          return result
      else
        return result

/-- An optional minus sign and decimal digits, with every step checked for
overflow. -/
def parseInt : Decode Int := do
  let isNegative ← parseSign
  let byte ← peekByte
  if Decimal.isDigit byte then
    let c ← Traced.read
    -- a round takes a byte, so this many suffice
    parseIntLoop isNegative (c.remaining + 1) 0
  else
    throw .expectedInteger

/-- `z as usize` -/
def asUsize (z : Int) : Nat :=
  (z % 2 ^ 64).toNat

/-- An integer between `i` and `e`. -/
def decodeInt : Decode Value := do
  let start ← takeByte
  if start ≠ 105 then throw .expectedIntegerStart
  else
    let integer ← parseInt
    let stop ← takeByte
    if stop ≠ 101 then throw .expectedIntegerEnd
    else return .int integer

/-- `bytes[..count]`, which panics past the end. -/
def sliceTo (bytes : Bytes) (count : Nat) : Decode Bytes :=
  if count ≤ bytes.length then pure (bytes.take count) else Traced.fail .panic

/-- A length, a colon and that many bytes. -/
def decodeBytestring : Decode Value := do
  let size ← parseInt
  let stringSize := asUsize size
  let start ← takeByte
  if start ≠ 58 then throw .expectedStringStart
  else
    let c ← Traced.read
    if c.remaining < stringSize then throw .invalidStringSize
    else
      let bytes ← sliceTo c.getSlice stringSize
      advance stringSize
      return .bytes bytes

mutual

/-- Any value; its first byte tells the kind, a digit that of a byte string. -/
def decodeValue : Nat → Decode Value
  | 0 => Traced.fail .outOfFuel
  | fuel + 1 => do
      let byte ← peekByte
      if byte = 105 then decodeInt
      else if Decimal.isDigit byte then decodeBytestring
      else if byte = 108 then decodeList fuel
      else if byte = 100 then decodeDict fuel
      else throw .unexpectedStartOfValue

/-- A list between `l` and `e`. -/
def decodeList : Nat → Decode Value
  | 0 => Traced.fail .outOfFuel
  | fuel + 1 => do
      let start ← takeByte
      if start ≠ 108 then throw .expectedListStart
      else return .list (← decodeListLoop fuel [])

/-- The loop of `decode_list`. -/
def decodeListLoop : Nat → List Value → Decode (List Value)
  | 0, _ => Traced.fail .outOfFuel
  | fuel + 1, result => do
      let nextByte ← peekByte
      if nextByte = 101 then
        let _ ← takeByte
        return result
      else
        let value ← decodeValue fuel
        decodeListLoop fuel (result ++ [value])

/-- A dictionary between `d` and `e`. -/
def decodeDict : Nat → Decode Value
  | 0 => Traced.fail .outOfFuel
  | fuel + 1 => do
      let start ← takeByte
      if start ≠ 100 then throw .expectedDictStart
      else return .dict (← decodeDictLoop fuel [])

/-- The loop of `decode_dict`. -/
def decodeDictLoop : Nat → List (Bytes × Value) → Decode (List (Bytes × Value))
  | 0, _ => Traced.fail .outOfFuel
  | fuel + 1, result => do
      let nextByte ← peekByte
      if nextByte = 101 then
        let _ ← takeByte
        return result
      else
        match ← decodeBytestring with
        | .bytes key =>
            let value ← decodeValue fuel
            decodeDictLoop fuel (Entries.insert key value result)
        -- `unreachable!`
        | _ => Traced.fail .panic

end

end Decoder

/-- Fuel for an input: three steps for each byte and a few to begin with. -/
def decodeFuel (input : Bytes) : Nat :=
  3 * input.length + 3

/-- `Bencode::decode`, with the cursor it drops at the end. -/
def decode (input : Bytes) : Except Failure (Value × Cursor) :=
  Traced.run (Decoder.decodeValue (decodeFuel input)) (Cursor.new input)

/-- `Bencode::Bytes(v).encode()` -/
def encodeBytes (v : Bytes) : Bytes :=
  Decimal.decimal v.length ++ [58] ++ v

mutual

/-- `Bencode::encode` -/
def encode : Value → Bytes
  | .bytes v => encodeBytes v
  | .int v => [105] ++ Decimal.decimalInt v ++ [101]
  | .list values => [108] ++ encodeItems values ++ [101]
  | .dict map => [100] ++ encodeEntries map ++ [101]

/-- The encodings of list items, one after the other. -/
def encodeItems : List Value → Bytes
  | [] => []
  | v :: values => encode v ++ encodeItems values

/-- The encodings of keys and values, in the order of the map. -/
def encodeEntries : List (Bytes × Value) → Bytes
  | [] => []
  | (k, v) :: map => encodeBytes k ++ encode v ++ encodeEntries map

end

end MainlineDht.Rust
