import MainlineDht.Go.NodeInfo
import MainlineDht.Sequence.Words

/-!
# The compact form as a codec

The compact form holds an id, an IPv4 address and a port, in three fields one
after the other.  The values of these fields correspond one to one to the words
of 26 bytes.  `decodeCompactNodeInfo` and `compactNodeInfo` are the two
directions of this correspondence, with the address in one of its two forms.
-/

namespace MainlineDht.Go

open Sequence

/-- The ports of a UDP address. -/
abbrev Port : Type := { port : Int // 0 ≤ port ∧ port < 65536 }

/-- What the compact form holds of a node. -/
structure Contact where
  nodeId : NodeId
  address : Word UInt8 4
  port : Port

/-- An address that consists of these four bytes, in the short form or in IPv6
form. -/
def IsIPv4 (ip : Bytes) (address : Word UInt8 4) : Prop :=
  ip = address.val ∨ ip = ipv4 address.val

/-- A node with this id, this port and this address in one of its forms. -/
structure Describes (n : NodeInfo) (contact : Contact) : Prop where
  nodeId : n.nodeId = contact.nodeId
  address : IsIPv4 n.address.ip contact.address
  port : n.address.port = contact.port

/-- Two nodes with one id, one IPv4 address and one port. -/
structure SameContact (n other : NodeInfo) : Prop where
  nodeId : n.nodeId = other.nodeId
  address : ∃ address, IsIPv4 n.address.ip address ∧ IsIPv4 other.address.ip address
  port : n.address.port = other.address.port

/-- A node whose address has a compact form. -/
structure Compactable (n : NodeInfo) : Prop where
  ipv4 : (to4 n.address.ip).isSome
  port : 0 ≤ n.address.port ∧ n.address.port < 65536

/-! ## Addresses and ports -/

theorem length_of_to4 {ip bytes : Bytes} (four : to4 ip = some bytes) : bytes.length = 4 := by
  unfold to4 at four
  split at four
  · cases four
    assumption
  · split at four
    · rename_i mapped
      cases four
      rw [List.length_drop, mapped.1]
    · cases four

theorem to4_ipv4 {bytes : Bytes} (length : bytes.length = 4) : to4 (ipv4 bytes) = some bytes := by
  have mapped : (ipv4 bytes).length = 16 := by
    rw [ipv4, List.length_append, length]
    rfl
  rw [to4, if_neg (by rw [mapped]; decide), if_pos ⟨mapped, rfl⟩]
  rfl

/-- The two forms are those that `To4` shortens. -/
theorem to4_eq_some_iff (ip : Bytes) (address : Word UInt8 4) :
    to4 ip = some address.val ↔ IsIPv4 ip address := by
  constructor
  · intro four
    unfold to4 at four
    split at four
    · exact Or.inl (Option.some.inj four)
    · split at four
      · rename_i mapped
        right
        rw [ipv4, ← Option.some.inj four, ← mapped.2, List.take_append_drop]
      · cases four
  · rintro (rfl | rfl)
    · rw [to4, if_pos address.property]
    · exact to4_ipv4 address.property

theorem isSome_to4_iff (ip : Bytes) : (to4 ip).isSome ↔ ∃ address, IsIPv4 ip address := by
  rw [Option.isSome_iff_exists]
  constructor
  · rintro ⟨bytes, four⟩
    exact ⟨⟨bytes, length_of_to4 four⟩, (to4_eq_some_iff ip _).mp four⟩
  · rintro ⟨address, isIPv4⟩
    exact ⟨address.val, (to4_eq_some_iff ip address).mpr isIPv4⟩

/-- Two bytes are read and written the same way. -/
theorem appendUint16_uint16 {bytes : Bytes} (length : bytes.length = 2) :
    appendUint16 (uint16 bytes) = bytes := by
  rcases List.length_eq_two.mp length with ⟨high, low, rfl⟩
  have highBound := high.toNat_lt
  have lowBound := low.toNat_lt
  have value_eq : (uint16 [high, low] % 2 ^ 16).toNat = 256 * high.toNat + low.toNat := by
    simp only [uint16, List.foldl_cons, List.foldl_nil]
    omega
  have high_eq : (256 * high.toNat + low.toNat) / 256 = high.toNat := by omega
  have low_eq : (256 * high.toNat + low.toNat) % 256 = low.toNat := by omega
  simp only [appendUint16, value_eq, high_eq, low_eq, UInt8.ofNat_toNat]

/-- A port is read as it is written. -/
theorem uint16_appendUint16 {port : Int} (low : 0 ≤ port) (high : port < 65536) :
    uint16 (appendUint16 port) = port := by
  have first : (port % 2 ^ 16).toNat / 256 < 256 := by omega
  have second : (port % 2 ^ 16).toNat % 256 < 256 := by omega
  simp only [uint16, appendUint16, List.foldl_cons, List.foldl_nil,
    UInt8.toNat_ofNat_of_lt' first, UInt8.toNat_ofNat_of_lt' second]
  omega

theorem uint16_bounds (word : Word UInt8 2) : 0 ≤ uint16 word.val ∧ uint16 word.val < 65536 := by
  rcases List.length_eq_two.mp word.property with ⟨high, low, word_eq⟩
  have highBound := high.toNat_lt
  have lowBound := low.toNat_lt
  simp only [word_eq, uint16, List.foldl_cons, List.foldl_nil]
  omega

theorem length_appendUint16 (port : Int) : (appendUint16 port).length = 2 :=
  rfl

/-- The ports and the words of two bytes. -/
def portWord : Port ≃ Word UInt8 2 where
  toFun port := ⟨appendUint16 port.val, length_appendUint16 port.val⟩
  invFun word := ⟨uint16 word.val, uint16_bounds word⟩
  left_inv port := Subtype.ext (uint16_appendUint16 port.property.1 port.property.2)
  right_inv word := Subtype.ext (appendUint16_uint16 word.property)

/-! ## The correspondence -/

namespace Contact

/-- A contact as its three fields. -/
def fields : Contact ≃ NodeId × Word UInt8 4 × Port where
  toFun contact := (contact.nodeId, contact.address, contact.port)
  invFun parts := ⟨parts.1, parts.2.1, parts.2.2⟩
  left_inv _ := rfl
  right_inv _ := rfl

/-- The contacts and the words of 26 bytes. -/
def compact : Contact ≃ Word UInt8 26 :=
  fields.trans (Word.followedBy (Equiv.refl NodeId)
    (Word.followedBy (Equiv.refl (Word UInt8 4)) portWord))

/-- The node that is decoded for a contact. -/
def info (contact : Contact) : NodeInfo where
  nodeId := contact.nodeId
  address := { ip := ipv4 contact.address.val, port := contact.port.val, zone := [] }

theorem describes_info (contact : Contact) : Describes contact.info contact where
  nodeId := rfl
  address := Or.inr rfl
  port := rfl

theorem compact_val (contact : Contact) :
    (compact contact).val =
      contact.nodeId.val ++ (contact.address.val ++ appendUint16 contact.port.val) := by
  rw [compact, Equiv.trans_apply, Word.followedBy_val, Word.followedBy_val]
  rfl

end Contact

namespace Describes

variable {n other : NodeInfo} {contact : Contact}

theorem compactNodeInfo_eq (describes : Describes n contact) :
    compactNodeInfo n = (Contact.compact contact).val := by
  rw [compactNodeInfo, describes.nodeId, describes.port,
    (to4_eq_some_iff _ _).mpr describes.address, Option.getD_some, Contact.compact_val,
    List.append_assoc]

theorem same (describes : Describes n contact) (others : Describes other contact) :
    SameContact n other where
  nodeId := describes.nodeId.trans others.nodeId.symm
  address := ⟨contact.address, describes.address, others.address⟩
  port := describes.port.trans others.port.symm

end Describes

theorem Contact.compactNodeInfo_info (contact : Contact) :
    compactNodeInfo contact.info = (compact contact).val :=
  contact.describes_info.compactNodeInfo_eq

theorem Contact.compactable_info (contact : Contact) : Compactable contact.info where
  ipv4 := (isSome_to4_iff _).mpr ⟨_, contact.describes_info.address⟩
  port := contact.port.property

/-- A node with an IPv4 address and a port of its own describes a contact. -/
theorem exists_describes {n : NodeInfo} {address : Word UInt8 4}
    (isIPv4 : IsIPv4 n.address.ip address) (low : 0 ≤ n.address.port)
    (high : n.address.port < 65536) : ∃ contact, Describes n contact :=
  ⟨⟨n.nodeId, address, ⟨n.address.port, low, high⟩⟩, ⟨rfl, isIPv4, rfl⟩⟩

/-- The bytes of a contact are decoded to it. -/
theorem decodeCompactNodeInfo_eq {data : Bytes} (length : data.length = 26) :
    decodeCompactNodeInfo data = .ok (Contact.compact.symm ⟨data, length⟩).info := by
  have ports : data.drop 24 = (data.drop 20).drop 4 := by
    rw [List.drop_drop]
  rw [decodeCompactNodeInfo, dif_pos length]
  simp only [ports]
  rfl

theorem decodeCompactNodeInfo_compact (contact : Contact) :
    decodeCompactNodeInfo (Contact.compact contact).val = .ok contact.info := by
  rw [decodeCompactNodeInfo_eq (Contact.compact contact).property, Subtype.coe_eta,
    Equiv.symm_apply_apply]

theorem exists_decoded_iff (data : Bytes) :
    (∃ n, decodeCompactNodeInfo data = .ok n) ↔ data.length = 26 := by
  constructor
  · rintro ⟨n, decoded⟩
    by_contra other
    rw [decodeCompactNodeInfo, dif_neg other] at decoded
    cases decoded
  · intro length
    exact ⟨_, decodeCompactNodeInfo_eq length⟩

/-- What is decoded describes the contact whose bytes were read. -/
theorem describes_of_decoded {data : Bytes} {n : NodeInfo}
    (decoded : decodeCompactNodeInfo data = .ok n) :
    ∃ contact, Describes n contact ∧ (Contact.compact contact).val = data := by
  have length := (exists_decoded_iff data).mp ⟨n, decoded⟩
  cases (decodeCompactNodeInfo_eq length).symm.trans decoded
  exact ⟨_, Contact.describes_info _, by rw [Equiv.apply_symm_apply]⟩

/-- The length tells the nodes with an IPv4 address from the others. -/
theorem length_compactNodeInfo_iff (n : NodeInfo) :
    (compactNodeInfo n).length = 26 ↔ ∃ address, IsIPv4 n.address.ip address := by
  rw [← isSome_to4_iff, compactNodeInfo, List.length_append, List.length_append,
    n.nodeId.property]
  cases four : to4 n.address.ip with
  | none =>
      rw [Option.getD_none, length_appendUint16]
      exact iff_of_false (by decide) (by decide)
  | some bytes =>
      rw [Option.getD_some, length_appendUint16, length_of_to4 four]
      exact iff_of_true rfl rfl

theorem Compactable.length {n : NodeInfo} (compactable : Compactable n) :
    (compactNodeInfo n).length = 26 :=
  (length_compactNodeInfo_iff n).mpr ((isSome_to4_iff _).mp compactable.ipv4)

/-- The compact form starts with the id. -/
theorem take_compactNodeInfo (n : NodeInfo) : (compactNodeInfo n).take 20 = n.nodeId.val := by
  rw [compactNodeInfo, List.append_assoc, List.take_left' n.nodeId.property]

/-! ## The codec -/

/-- `decodeCompactNodeInfo` reads exactly the strings of 26 bytes, of which
`compactNodeInfo` gives back the bytes, and of the nodes exactly those with an
IPv4 address are read back. -/
theorem compactNodeInfo_twoWay :
    (∀ data : Bytes,
      ((∃ n, decodeCompactNodeInfo data = .ok n) ↔ data.length = 26) ∧
        ∀ n, decodeCompactNodeInfo data = .ok n → compactNodeInfo n = data) ∧
      ∀ n : NodeInfo, 0 ≤ n.address.port → n.address.port < 65536 →
        ((∃ decoded, decodeCompactNodeInfo (compactNodeInfo n) = .ok decoded) ↔
            ∃ address, IsIPv4 n.address.ip address) ∧
          ∀ decoded, decodeCompactNodeInfo (compactNodeInfo n) = .ok decoded →
            SameContact decoded n := by
  refine ⟨fun data => ⟨exists_decoded_iff data, ?_⟩, fun n low high => ⟨?_, ?_⟩⟩
  · intro n decoded
    rcases describes_of_decoded decoded with ⟨contact, describes, data_eq⟩
    rw [describes.compactNodeInfo_eq, data_eq]
  · rw [exists_decoded_iff, length_compactNodeInfo_iff]
  · intro decoded read
    have length := (exists_decoded_iff _).mp ⟨decoded, read⟩
    rcases (length_compactNodeInfo_iff n).mp length with ⟨address, isIPv4⟩
    rcases exists_describes isIPv4 low high with ⟨contact, describes⟩
    rw [describes.compactNodeInfo_eq, decodeCompactNodeInfo_compact] at read
    cases read
    exact contact.describes_info.same describes

/-- A node at 12.34.56.78, with the address in IPv6 form. -/
def sampleNode : NodeInfo where
  nodeId := ⟨[0, 1, 0, 2, 0, 3, 0, 4, 0, 5, 0, 6, 0, 7, 0, 8, 0, 9, 0, 10], rfl⟩
  address := { ip := ipv4 [12, 34, 56, 78], port := 0x9876, zone := [] }

theorem compactNodeInfo_twoWay_sample :
    ∃ decoded, decodeCompactNodeInfo (compactNodeInfo sampleNode) = .ok decoded ∧
      SameContact decoded sampleNode := by
  rcases compactNodeInfo_twoWay.2 sampleNode (by decide) (by decide) with ⟨succeeds, same⟩
  rcases succeeds.mpr ⟨⟨[12, 34, 56, 78], rfl⟩, Or.inr rfl⟩ with ⟨decoded, read⟩
  exact ⟨decoded, read, same decoded read⟩

end MainlineDht.Go
