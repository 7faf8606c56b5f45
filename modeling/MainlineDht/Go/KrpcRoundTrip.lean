import MainlineDht.Go.BencodeLanguage
import MainlineDht.Go.KrpcMessage
import MainlineDht.Go.RoundTrip

/-!
# The Go KRPC message round trip

A message is read from a dictionary exactly if the dictionary agrees with that
of the message on the keys of its kind.  Both directions of the round trip
follow: the dictionary of a message agrees with itself, and one that agrees
with it holds no more under those keys.
-/

namespace MainlineDht.Go

open Effect Ordered Bencode

/-- The keys that a message of the kind uses. -/
def KrpcMessage.keys : KrpcMessage → List Bytes
  | .query _ => [keyT, keyY, keyQ, keyA]
  | .response _ => [keyT, keyY, keyR]
  | .error _ => [keyT, keyY, keyE]

/-- The bindings of some keys. -/
def Dict.restrict (keys : List Bytes) (d : Dict) : Dict :=
  d.filter fun entry => keys.contains entry.1

/-! ## Type assertions -/

section Lookups

variable {data : Dict} {key s : Bytes} {d : Dict} {l : List Value}

theorem stringAt_eq_some : stringAt data key = some s ↔ Entries.lookup key data = some (.bytes s) := by
  unfold stringAt
  split
  · rename_i found
    simp [found]
  · rename_i missing
    simpa using missing s

theorem dictAt_eq_some : dictAt data key = some d ↔ Entries.lookup key data = some (.dict d) := by
  unfold dictAt
  split
  · rename_i found
    simp [found]
  · rename_i missing
    simpa using missing d

theorem listAt_eq_some : listAt data key = some l ↔ Entries.lookup key data = some (.list l) := by
  unfold listAt
  split
  · rename_i found
    simp [found]
  · rename_i missing
    simpa using missing l

end Lookups

/-! ## What a message is read from -/

namespace KrpcMessage

variable {data : Dict} {m : KrpcMessage}

/-- The fields of a dictionary that the message is read from. -/
def ReadFrom (data : Dict) : KrpcMessage → Prop
  | query qry => stringAt data keyT = some qry.transactionId ∧
      stringAt data keyY = some krpcTypeQuery ∧ stringAt data keyQ = some qry.methodName ∧
        dictAt data keyA = some qry.arguments
  | response res => stringAt data keyT = some res.transactionId ∧
      stringAt data keyY = some krpcTypeReply ∧ dictAt data keyR = some res.returnValues
  | error err => stringAt data keyT = some err.transactionId ∧
      stringAt data keyY = some krpcTypeError ∧
        listAt data keyE = some [.int err.code, .bytes err.message]

theorem readFrom_of_decode (decoded : decodeKrpcMessage data = .ok m) : m.ReadFrom data := by
  unfold decodeKrpcMessage at decoded
  split at decoded
  · rename_i t y hasId hasType
    split_ifs at decoded with isQuery isReply isError
    · split at decoded
      · rename_i q a hasMethod hasArguments
        cases decoded
        exact ⟨hasId, isQuery ▸ hasType, hasMethod, hasArguments⟩
      · cases decoded
    · split at decoded
      · rename_i r hasValues
        cases decoded
        exact ⟨hasId, isReply ▸ hasType, hasValues⟩
      · cases decoded
    · split at decoded
      · rename_i code message hasList
        split at decoded
        · cases decoded
          exact ⟨hasId, isError ▸ hasType, hasList⟩
        · cases decoded
      · cases decoded
  · cases decoded

theorem decode_of_readFrom (readFrom : m.ReadFrom data) : decodeKrpcMessage data = .ok m := by
  cases m with
  | query qry =>
      obtain ⟨hasId, hasType, hasMethod, hasArguments⟩ := readFrom
      simp [decodeKrpcMessage, hasId, hasType, hasMethod, hasArguments]
  | response res =>
      obtain ⟨hasId, hasType, hasValues⟩ := readFrom
      have notQuery : krpcTypeReply ≠ krpcTypeQuery := by decide
      simp [decodeKrpcMessage, hasId, hasType, hasValues, notQuery]
  | error err =>
      obtain ⟨hasId, hasType, hasList⟩ := readFrom
      have notQuery : krpcTypeError ≠ krpcTypeQuery := by decide
      have notReply : krpcTypeError ≠ krpcTypeReply := by decide
      simp [decodeKrpcMessage, hasId, hasType, hasList, notQuery, notReply]

/-- The dictionary binds the keys of the message as the message's own does. -/
def Agrees (data : Dict) (m : KrpcMessage) : Prop :=
  ∀ key ∈ m.keys, Entries.lookup key data = Entries.lookup key m.toDict

theorem readFrom_iff_agrees : m.ReadFrom data ↔ m.Agrees data := by
  cases m <;>
    simp [ReadFrom, Agrees, keys, toDict, Entries.ofList, Entries.lookup_insert, stringAt_eq_some,
      dictAt_eq_some, listAt_eq_some, keyT, keyY, keyQ, keyA, keyR, keyE]

/-- A message is read exactly from the dictionaries that agree with its own. -/
theorem decode_iff_agrees : decodeKrpcMessage data = .ok m ↔ m.Agrees data :=
  ⟨fun decoded => readFrom_iff_agrees.mp (readFrom_of_decode decoded),
    fun agrees => decode_of_readFrom (readFrom_iff_agrees.mpr agrees)⟩

/-- The dictionary of a message binds nothing but the keys of its kind. -/
theorem lookup_toDict_of_not_mem {key : Bytes} (other : key ∉ m.keys) :
    Entries.lookup key m.toDict = none := by
  cases m <;>
    simp only [keys, List.mem_cons, List.not_mem_nil, or_false, not_or] at other <;>
    simp [toDict, Entries.ofList, Entries.lookup_insert, Entries.lookup, other]

theorem toDict_sorted (m : KrpcMessage) : Entries.Sorted m.toDict := by
  cases m <;> exact Entries.ofList_sorted _

/-- What agrees with a message holds its dictionary under the keys of its kind. -/
theorem restrict_eq_toDict (sorted : Entries.Sorted data) (agrees : m.Agrees data) :
    data.restrict m.keys = m.toDict := by
  apply Entries.ext_lookup (sorted.sublist List.filter_sublist) m.toDict_sorted
  intro key
  rw [Entries.lookup_filter]
  by_cases own : key ∈ m.keys
  · rw [if_pos (by simpa using own), agrees key own]
  · rw [if_neg (by simpa using own), lookup_toDict_of_not_mem own]

/-- The parts of a message are within the limits. -/
def Within (limits : Limits) : KrpcMessage → Prop
  | query qry => limits.len qry.transactionId.length ∧ limits.len qry.methodName.length ∧
      (Value.dict qry.arguments).Within limits
  | response res => limits.len res.transactionId.length ∧
      (Value.dict res.returnValues).Within limits
  | error err => limits.len err.transactionId.length ∧ limits.int err.code ∧
      limits.len err.message.length

/-- So is then its dictionary. -/
theorem Within.toDict (within : m.Within symmetricLimits) :
    (Value.dict m.toDict).Within symmetricLimits := by
  have short : symmetricLimits.len 1 := by decide
  cases m with
  | query qry =>
      obtain ⟨idFits, methodFits, argumentsFit⟩ := within
      apply Value.Within.ofList
      simp only [List.forall_mem_cons]
      exact ⟨⟨short, .bytes idFits⟩, ⟨short, .bytes short⟩, ⟨short, .bytes methodFits⟩,
        ⟨short, argumentsFit⟩, List.forall_mem_nil _⟩
  | response res =>
      obtain ⟨idFits, valuesFit⟩ := within
      apply Value.Within.ofList
      simp only [List.forall_mem_cons]
      exact ⟨⟨short, .bytes idFits⟩, ⟨short, .bytes short⟩, ⟨short, valuesFit⟩,
        List.forall_mem_nil _⟩
  | error err =>
      obtain ⟨idFits, codeFits, messageFits⟩ := within
      have parts : (Value.list [.int err.code, .bytes err.message]).Within symmetricLimits := by
        apply Value.Within.list
        simp only [List.forall_mem_cons]
        exact ⟨.int codeFits, .bytes messageFits, List.forall_mem_nil _⟩
      apply Value.Within.ofList
      simp only [List.forall_mem_cons]
      exact ⟨⟨short, .bytes idFits⟩, ⟨short, .bytes short⟩, ⟨short, parts⟩, List.forall_mem_nil _⟩

end KrpcMessage

/-! ## The round trip -/

/-- `decodeBencodeDict` on a derivable dictionary. -/
theorem decodeBencodeDict_of_derives {d : Dict} {word : Bytes}
    (derives : Derives dialect (.value (.dict d)) word) (fits : word.length < 2 ^ 63) :
    decodeBencodeDict word = .ok (.ok d, Scanner.after word []) := by
  have decoded := decodeBencodeDict_append derives fits []
  rwa [List.append_nil] at decoded

/-- A dictionary within the limits survives encoding and decoding. -/
theorem decodeBencodeDict_encode {d : Dict} (within : (Value.dict d).Within symmetricLimits)
    (fits : (encode (.dict d)).length < 2 ^ 63) :
    decodeBencodeDict (encode (.dict d)) = .ok (.ok d, Scanner.after (encode (.dict d)) []) := by
  have derives := derives_write dialect_covers _ within
  rw [← encode_eq_write within] at derives
  exact decodeBencodeDict_of_derives derives fits

/-- The message comes back from its encoding. -/
def KrpcMessage.RoundTrips (m : KrpcMessage) : Prop :=
  ∃ dict final, decodeBencodeDict m.encode = .ok (.ok dict, final) ∧
    decodeKrpcMessage dict = .ok m

/-- What the encoding of the message decodes to is the dictionary under the keys
of the message's kind. -/
def KrpcMessage.Restricts (m : KrpcMessage) (dict : Dict) : Prop :=
  ∃ final, decodeBencodeDict m.encode = .ok (.ok (dict.restrict m.keys), final)

/-- A message without the smallest `int` survives encoding and decoding. -/
theorem KrpcMessage.roundTrips {m : KrpcMessage} (within : m.Within symmetricLimits)
    (fits : m.encode.length < 2 ^ 63) : m.RoundTrips :=
  ⟨m.toDict, _, decodeBencodeDict_encode within.toDict fits,
    KrpcMessage.decode_iff_agrees.mpr fun _ _ => rfl⟩

/-- What a received message is encoded as keeps what it was read from. -/
theorem KrpcMessage.restricts {m : KrpcMessage} {datagram : Bytes} {dict : Dict} {final : Scanner}
    (fits : datagram.length < 2 ^ 63)
    (received : decodeBencodeDict datagram = .ok (.ok dict, final))
    (decoded : decodeKrpcMessage dict = .ok m) : m.Restricts dict := by
  obtain ⟨word, rest, datagram_eq, derives, _⟩ :=
    (decodeBencodeDict_verdict datagram fits).derived_of_ok received
  have within : (Value.dict dict).Within symmetricLimits := derives.within dialect_respects
  cases within with
  | dict sorted keysFit valuesFit =>
      have same := KrpcMessage.restrict_eq_toDict sorted (KrpcMessage.decode_iff_agrees.mp decoded)
      have part : m.toDict ⊆ dict := by
        rw [← same]
        exact List.filter_sublist.subset
      have withinPart : (Value.dict m.toDict).Within symmetricLimits :=
        .dict m.toDict_sorted (fun entry member => keysFit entry (part member))
          fun entry member => valuesFit entry (part member)
      have shorter : m.encode.length ≤ datagram.length :=
        calc m.encode.length = (write (.dict m.toDict)).length := by
              rw [KrpcMessage.encode, encode_eq_write withinPart]
          _ ≤ (write (.dict dict)).length := by
              rw [← same]
              exact length_write_filter_le _ dict
          _ ≤ word.length := derives.length_write_le
          _ ≤ datagram.length := by
              rw [datagram_eq, List.length_append]
              exact Nat.le_add_right _ _
      have decodes := decodeBencodeDict_encode withinPart (Nat.lt_of_le_of_lt shorter fits)
      rw [← same] at decodes
      exact ⟨_, by rwa [KrpcMessage.encode, ← same]⟩

/-- Messages survive encoding and decoding, and what is decoded from a datagram
keeps the datagram's bindings under the keys of its kind. -/
theorem roundTrips_and_restricts :
    (∀ m : KrpcMessage, m.Within symmetricLimits → m.encode.length < 2 ^ 63 → m.RoundTrips) ∧
      ∀ (datagram : Bytes) (dict : Dict) (final : Scanner) (m : KrpcMessage),
        datagram.length < 2 ^ 63 → decodeBencodeDict datagram = .ok (.ok dict, final) →
        decodeKrpcMessage dict = .ok m → m.Restricts dict :=
  ⟨fun _ within fits => KrpcMessage.roundTrips within fits,
    fun _ _ _ _ fits received decoded => KrpcMessage.restricts fits received decoded⟩

/-- An error with the transaction id `aa` and the message `Oops`. -/
def genericError : KrpcMessage :=
  .error { transactionId := [97, 97], code := krpcErrorGeneric, message := [79, 111, 112, 115] }

/-- The error comes back, and so does what it was read from. -/
theorem roundTrips_and_restricts_genericError :
    genericError.RoundTrips ∧ ∃ dict, genericError.Restricts dict := by
  have within : genericError.Within symmetricLimits := ⟨by decide, by decide, by decide⟩
  have fits : genericError.encode.length < 2 ^ 63 := by
    rw [KrpcMessage.encode, encode_eq_write within.toDict]
    decide +kernel
  have returns := roundTrips_and_restricts.1 genericError within fits
  obtain ⟨dict, final, received, decoded⟩ := returns
  exact ⟨⟨dict, final, received, decoded⟩, dict,
    roundTrips_and_restricts.2 _ dict final genericError fits received decoded⟩

end MainlineDht.Go
