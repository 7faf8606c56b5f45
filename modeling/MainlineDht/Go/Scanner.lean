import MainlineDht.Effect.Traced
import MainlineDht.Text.Decimal

/-!
# The scanner of the Go decoder

Each function keeps the name it has in `bencode.go`.  A scanner is its input
and a position of Go type `int`.  Indexing and slicing panic outside the bounds
of the input, as they do in Go.

Every function logs the position it was called at and every slice its bounds,
so that a statement about all calls of a run is a statement about the log.
-/

namespace MainlineDht.Go

open Effect

/-- The state of a `*scanner`. -/
structure Scanner where
  input : Bytes
  position : Int
  deriving DecidableEq

/-- Ways a call may end without returning.  `outOfFuel` is not a behaviour of
the program: it marks a run that was given too few steps. -/
inductive Fault
  | panic
  | outOfFuel
  deriving DecidableEq

/-- What a run does to the scanner: enter a function at a position, or take a
slice of the input. -/
inductive Access
  | call (position : Int)
  | slice (low high : Int)
  deriving DecidableEq

/-- The access stays inside an input of the given length. -/
def Access.InBounds (length : Nat) : Access → Prop
  | .call position => 0 ≤ position ∧ position ≤ length
  | .slice low high => 0 ≤ low ∧ low ≤ high ∧ high ≤ length

instance (length : Nat) : DecidablePred (Access.InBounds length)
  | .call position => inferInstanceAs (Decidable (0 ≤ position ∧ position ≤ length))
  | .slice low high => inferInstanceAs (Decidable (0 ≤ low ∧ low ≤ high ∧ high ≤ length))

/-- A computation on a scanner. -/
abbrev Scan := Traced Scanner Fault Access

/-- Two's complement wrap-around of a 64-bit `int`. -/
def wrap64 (z : Int) : Int :=
  Int.bmod z (2 ^ 64)

/-- The largest `int`. -/
def maxInt : Int := 2 ^ 63 - 1

/-- Function entry. -/
def called : Scan PUnit := do
  let c ← Traced.read
  Traced.log (.call c.position)

/-- `c.input[position]` -/
def inputAt (position : Int) : Scan UInt8 := do
  let c ← Traced.read
  if 0 ≤ position then
    match c.input[position.toNat]? with
    | some b => return b
    | none => Traced.fail .panic
  else
    Traced.fail .panic

/-- `c.input[low:high]` -/
def inputSlice (low high : Int) : Scan Bytes := do
  Traced.log (.slice low high)
  let c ← Traced.read
  if 0 ≤ low ∧ low ≤ high ∧ high ≤ c.input.length then
    return (c.input.drop low.toNat).take (high - low).toNat
  else
    Traced.fail .panic

namespace Scanner

/-- The result `none` is the pair `0, true` of the source.  The increment
cannot overflow: the position is below the length of a string. -/
def next : Scan (Option UInt8) := do
  called
  let c ← Traced.read
  if c.position ≥ c.input.length then
    return none
  else
    let result ← inputAt c.position
    Traced.write { c with position := c.position + 1 }
    return some result

/-- The next byte, or `none` at the end of the input; the position stays. -/
def peek : Scan (Option UInt8) := do
  called
  let c ← Traced.read
  if c.position ≥ c.input.length then
    return none
  else
    let result ← inputAt c.position
    return some result

/-- The result `none` is the pair `0, false` of the source. -/
def acceptSingle (accepted : Bytes) : Scan (Option UInt8) := do
  called
  match ← peek with
  | none => return none
  | some b =>
      if accepted.contains b then
        let _ ← next
        return some b
      else
        return none

/-- The loop of `acceptMultiple`, counting accepted bytes. -/
def acceptMultipleLoop (accepted : Bytes) : Nat → Int → Scan Int
  | 0, _ => Traced.fail .outOfFuel
  | fuel + 1, length => do
      match ← acceptSingle accepted with
      | none => return length
      | some _ => acceptMultipleLoop accepted fuel (length + 1)

/-- The longest run of accepted bytes, which may be empty. -/
def acceptMultiple (accepted : Bytes) : Scan Bytes := do
  called
  let c ← Traced.read
  -- each accepted byte is one byte of the input, so this many rounds suffice
  let length ← acceptMultipleLoop accepted (c.input.length + 1) 0
  let c ← Traced.read
  inputSlice (c.position - length) c.position

/-- The result `none` is the error "unexpected end of input".  The sum is
computed in 64-bit arithmetic, in the check as in the slice. -/
def acceptRun (length : Int) : Scan (Option Bytes) := do
  called
  let c ← Traced.read
  if wrap64 (c.position + length) > c.input.length then
    return none
  else
    let result ← inputSlice c.position (wrap64 (c.position + length))
    Traced.write { c with position := wrap64 (c.position + length) }
    return some result

end Scanner

end MainlineDht.Go
