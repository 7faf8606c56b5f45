import MainlineDht.Go.NodeInfo
import MainlineDht.Text.Hex

/-!
# Node ids as hexadecimal text

The helpers of `node_info.go` that print ids and read them from the command
line.  An id is read from its print and from that with letters in upper case,
and from no other text.
-/

namespace MainlineDht.Go

open NodeId Sequence Text

/-- An error of `errors.New`, or one of `strconv.ParseUint` on a text. -/
inductive HexError
  | new (text : String)
  | parsing (num : Bytes) (err : String)

/-- The loop of `strconv.ParseUint(num, 16, 8)`: `n` is what has been read. -/
def parseUintLoop (num : Bytes) : Bytes → Nat → Except HexError Nat
  | [], n => .ok n
  | c :: rest, n =>
      match Hex.digitValue c with
      | none => .error (.parsing num "invalid syntax")
      | some d =>
          if 16 * n + d < 256 then parseUintLoop num rest (16 * n + d)
          else .error (.parsing num "value out of range")

/-- `strconv.ParseUint(num, 16, 8)` -/
def parseUint (num : Bytes) : Except HexError Nat :=
  if num = [] then .error (.parsing num "invalid syntax")
  else parseUintLoop num num 0

/-- Two lower-case digits for each byte, `%02x`. -/
def bytesToHexString (b : Bytes) : Bytes :=
  Hex.hex b

/-- The byte that the loop of `hexStringToBytes` puts at an index. -/
def hexByteAt (s : Bytes) (i : Nat) : Except HexError UInt8 := do
  let b ← parseUint (chunkAt 2 s i)
  return UInt8.ofNat b

/-- The bytes that the pairs of digits stand for, or the first error. -/
def hexStringToBytes (s : Bytes) : Except HexError Bytes :=
  if s.length % 2 ≠ 0 then .error (.new "hex string must have an even length")
  else (List.range (s.length / 2)).mapM (hexByteAt s)

/-- `none` is the panic of the conversion of less than twenty bytes. -/
def hexStringToNodeId (s : Bytes) : Option (Except HexError NodeId) :=
  if s.length ≠ 40 then some (.error (.new "invalid hex string length"))
  else
    match hexStringToBytes s with
    | .error err => some (.error err)
    | .ok idBytes =>
        if enough : 20 ≤ idBytes.length then
          some (.ok ⟨idBytes.take 20, List.length_take_of_le enough⟩)
        else none

/-- `String` of a node id. -/
def nodeIdString (n : NodeId) : Bytes :=
  bytesToHexString n.val

/-! ## What is read -/

/-- Two bytes are parsed as a number exactly if they are digits, and it is theirs. -/
theorem parseUint_pair {first second : UInt8} {n : Nat} :
    parseUint [first, second] = .ok n ↔
      ∃ high low, Hex.digitValue first = some high ∧ Hex.digitValue second = some low ∧
        n = 16 * high + low := by
  rw [parseUint, if_neg (List.cons_ne_nil _ _)]
  cases isHigh : Hex.digitValue first with
  | none => simp [parseUintLoop, isHigh]
  | some high =>
      have smallHigh := (Hex.digitValue_eq_some_iff.mp isHigh).1
      cases isLow : Hex.digitValue second with
      | none => simp [parseUintLoop, isHigh, isLow, show high < 256 by omega]
      | some low =>
          have smallLow := (Hex.digitValue_eq_some_iff.mp isLow).1
          simp [parseUintLoop, isHigh, isLow, show high < 256 by omega,
            show 16 * high + low < 256 by omega, eq_comm]

theorem hexByteAt_iff {s : Bytes} {i : Nat} (whole : (chunkAt 2 s i).length = 2) {byte : UInt8} :
    hexByteAt s i = .ok byte ↔ (chunkAt 2 s i).map Hex.lower = Hex.pair byte := by
  rcases List.length_eq_two.mp whole with ⟨first, second, chunk_eq⟩
  rw [hexByteAt, chunk_eq, Hex.map_lower_eq_pair_iff]
  constructor
  · intro parsed
    cases isNumber : parseUint [first, second] with
    | error err =>
        rw [isNumber] at parsed
        cases parsed
    | ok n =>
        rw [isNumber] at parsed
        cases parsed
        rcases parseUint_pair.mp isNumber with ⟨high, low, isHigh, isLow, rfl⟩
        have smallHigh := (Hex.digitValue_eq_some_iff.mp isHigh).1
        have smallLow := (Hex.digitValue_eq_some_iff.mp isLow).1
        exact ⟨high, low, isHigh, isLow, UInt8.toNat_ofNat_of_lt' (show 16 * high + low < 256 by omega)⟩
  · rintro ⟨high, low, isHigh, isLow, byte_eq⟩
    rw [parseUint_pair.mpr ⟨high, low, isHigh, isLow, byte_eq⟩]
    exact congrArg Except.ok (UInt8.ofNat_toNat)

/-- The bytes at some indices, if the pairs there are theirs. -/
theorem mapM_hexByteAt_iff {s : Bytes} {indices : List Nat}
    (whole : ∀ i ∈ indices, (chunkAt 2 s i).length = 2) {bytes : Bytes} :
    indices.mapM (hexByteAt s) = .ok bytes ↔
      indices.map (fun i => (chunkAt 2 s i).map Hex.lower) = bytes.map Hex.pair := by
  induction indices generalizing bytes with
  | nil =>
      rw [List.mapM_nil, List.map_nil, @eq_comm _ [], List.map_eq_nil_iff]
      constructor
      · rintro ⟨⟩
        rfl
      · rintro rfl
        rfl
  | cons i indices ih =>
      rcases List.forall_mem_cons.mp whole with ⟨wholeFirst, wholeOthers⟩
      rw [List.mapM_cons, List.map_cons]
      constructor
      · intro read
        cases isByte : hexByteAt s i with
        | error err =>
            rw [isByte] at read
            cases read
        | ok byte =>
            cases areBytes : indices.mapM (hexByteAt s) with
            | error err =>
                rw [isByte, areBytes] at read
                cases read
            | ok others =>
                rw [isByte, areBytes] at read
                cases read
                rw [List.map_cons, (hexByteAt_iff wholeFirst).mp isByte,
                  (ih wholeOthers).mp areBytes]
      · intro same
        cases bytes with
        | nil => cases same
        | cons byte others =>
            rcases List.cons.inj same with ⟨sameFirst, sameOthers⟩
            rw [(hexByteAt_iff wholeFirst).mpr sameFirst, (ih wholeOthers).mpr sameOthers]
            rfl

/-- A text is read as the bytes of which it is the notation in some case. -/
theorem hexStringToBytes_iff {s bytes : Bytes} :
    hexStringToBytes s = .ok bytes ↔ s.map Hex.lower = bytesToHexString bytes := by
  by_cases even : s.length % 2 = 0
  · have whole : ∀ i ∈ List.range (s.length / 2), (chunkAt 2 s i).length = 2 :=
      fun i member => length_of_mem_chunksExact (List.mem_map_of_mem member)
    rw [hexStringToBytes, if_neg (not_not.mpr even), mapM_hexByteAt_iff whole, bytesToHexString,
      Hex.map_lower_eq_hex_iff (Nat.dvd_of_mod_eq_zero even), chunksExact, List.map_map]
    rfl
  · rw [hexStringToBytes, if_pos even]
    constructor
    · rintro ⟨⟩
    · intro same
      have sameLength := congrArg List.length same
      rw [List.length_map, bytesToHexString, Hex.length_hex] at sameLength
      omega

theorem length_of_hexStringToBytes {s bytes : Bytes} (read : hexStringToBytes s = .ok bytes) :
    s.length = 2 * bytes.length := by
  have sameLength := congrArg List.length (hexStringToBytes_iff.mp read)
  rwa [List.length_map, bytesToHexString, Hex.length_hex] at sameLength

/-- Forty digits are twenty bytes, so the conversion has enough of them. -/
theorem hexStringToNodeId_of_read {s idBytes : Bytes} (read : hexStringToBytes s = .ok idBytes)
    (twenty : idBytes.length = 20) : hexStringToNodeId s = some (.ok ⟨idBytes, twenty⟩) := by
  have long : s.length = 40 := by rw [length_of_hexStringToBytes read, twenty]
  rw [hexStringToNodeId, if_neg (not_not.mpr long), read]
  simp only [dif_pos twenty.ge, List.take_of_length_le twenty.le]

theorem hexStringToNodeId_cases (s : Bytes) :
    (∃ err, hexStringToNodeId s = some (.error err) ∧ ∀ id : NodeId, hexStringToBytes s ≠ .ok id.val) ∨
      ∃ id : NodeId, hexStringToNodeId s = some (.ok id) ∧ hexStringToBytes s = .ok id.val := by
  cases read : hexStringToBytes s with
  | error err =>
      left
      rw [hexStringToNodeId, read]
      split
      · exact ⟨_, rfl, fun _ => by rintro ⟨⟩⟩
      · exact ⟨_, rfl, fun _ => by rintro ⟨⟩⟩
  | ok idBytes =>
      by_cases twenty : idBytes.length = 20
      · exact Or.inr ⟨⟨idBytes, twenty⟩, hexStringToNodeId_of_read read twenty, rfl⟩
      · left
        have short : s.length ≠ 40 := by
          rw [length_of_hexStringToBytes read]
          omega
        rw [hexStringToNodeId, if_pos short]
        refine ⟨_, rfl, fun id same => twenty ?_⟩
        rw [Except.ok.inj same]
        exact id.property

/-- Reading never panics; it returns an id exactly from the print of this id,
in whichever case the letters are. -/
theorem hexStringToNodeId_iff (s : Bytes) :
    hexStringToNodeId s ≠ none ∧
      ∀ id, hexStringToNodeId s = some (.ok id) ↔ s.map Hex.lower = nodeIdString id := by
  rcases hexStringToNodeId_cases s with ⟨err, refused, unread⟩ | ⟨id, returned, read⟩
  · rw [refused]
    refine ⟨Option.some_ne_none _, fun id => ⟨by rintro ⟨⟩, fun same => ?_⟩⟩
    exact absurd (hexStringToBytes_iff.mpr same) (unread id)
  · rw [returned]
    refine ⟨Option.some_ne_none _, fun other => ?_⟩
    rw [nodeIdString, ← hexStringToBytes_iff, read]
    simp [Subtype.ext_iff]

end MainlineDht.Go
