import MainlineDht.Go.Host
import MainlineDht.Interop.Codecs
import MainlineDht.Rust.NetLoop

/-!
# Requests and replies between the two nodes

What the Go node receives of a request that the Rust node has encoded, and what
the Rust node decodes and handles of a message that the Go node has encoded.
-/

namespace MainlineDht.Interop

open Effect Ordered Bencode

variable {method version : Bytes} {args : Rust.Dict} {myInfo : Rust.MyInfo} {first second : UInt8}

/-! ## Requests of the Rust node -/

/-- The bindings of a request, in the order in which they are inserted. -/
def requestBindings (method : Bytes) (args : Rust.Dict) (myInfo : Rust.MyInfo)
    (first second : UInt8) : List (Bytes × Value) :=
  [(Rust.keyT, .bytes [first, second]), (Rust.keyY, .bytes Rust.keyQ), (Rust.keyQ, .bytes method),
    (Rust.keyA, .dict args)] ++
    myInfo.clientVersion.toList.map fun version => (Rust.keyV, .bytes version)

theorem krpcRequest_eq_ofList :
    Rust.krpcRequest method args myInfo first second =
      .dict (Entries.ofList (requestBindings method args myInfo first second)) := by
  rw [Rust.krpcRequest, requestBindings]
  cases myInfo.clientVersion <;> rfl

/-- The parts of a request are within the limits. -/
structure RequestWithin (limits : Limits) (method : Bytes) (args : Rust.Dict)
    (myInfo : Rust.MyInfo) : Prop where
  method : limits.len method.length
  args : (Value.dict args).Within limits
  version : ∀ version ∈ myInfo.clientVersion, limits.len version.length

/-- So is then the request. -/
theorem RequestWithin.krpcRequest (within : RequestWithin Go.symmetricLimits method args myInfo) :
    (Rust.krpcRequest method args myInfo first second).Within Go.symmetricLimits := by
  have short {n : Nat} (small : n ≤ 2) : Go.symmetricLimits.len n :=
    Nat.lt_of_le_of_lt small (by decide)
  rw [krpcRequest_eq_ofList]
  apply Value.Within.ofList
  simp only [requestBindings, List.forall_mem_append, List.forall_mem_cons]
  refine ⟨⟨⟨short (by decide), .bytes (short (Nat.le_refl _))⟩,
    ⟨short (by decide), .bytes (short (by decide))⟩, ⟨short (by decide), .bytes within.method⟩,
    ⟨short (by decide), within.args⟩, List.forall_mem_nil _⟩, ?_⟩
  rintro binding member
  rcases List.mem_map.mp member with ⟨version, isVersion, rfl⟩
  have keyShort : Rust.keyV.length ≤ 2 := by decide
  exact ⟨short keyShort, .bytes (within.version version (Option.mem_toList.mp isVersion))⟩

/-- The Rust node itself handles no requests. -/
theorem krpcHandle_krpcRequest : Rust.krpcHandle (Rust.krpcRequest method args myInfo first second) =
    .error "Unhandled KRPC message type" := by
  rw [krpcRequest_eq_ofList, requestBindings]
  cases myInfo.clientVersion <;>
    simp [Rust.krpcHandle, Entries.ofList, Entries.lookup_insert, Rust.keyT, Rust.keyY, Rust.keyQ,
      Rust.keyA, Rust.keyV, Rust.keyR, Rust.keyE]

/-- What the Go node makes of the request. -/
def queryOf (method : Bytes) (args : Rust.Dict) (first second : UInt8) : Go.KrpcQuery where
  transactionId := [first, second]
  methodName := method
  arguments := args

/-- The dictionary of a request reads as the query; the client version is not asked for. -/
theorem readFrom_requestBindings :
    (Go.KrpcMessage.query (queryOf method args first second)).ReadFrom
      (Entries.ofList (requestBindings method args myInfo first second)) := by
  rw [requestBindings]
  cases myInfo.clientVersion <;>
    simp [queryOf, Go.KrpcMessage.ReadFrom, Go.stringAt_eq_some, Go.dictAt_eq_some,
      Entries.ofList, Entries.lookup_insert, Go.keyT, Go.keyY, Go.keyQ, Go.keyA, Rust.keyT,
      Rust.keyY, Rust.keyQ, Rust.keyA, Rust.keyV, Go.krpcTypeQuery]

/-- The Go node receives every request as the query that it is. -/
theorem received_krpcRequest (within : RequestWithin Go.symmetricLimits method args myInfo)
    (fits : (Rust.encode (Rust.krpcRequest method args myInfo first second)).length < 2 ^ 63) :
    Go.received (Rust.encode (Rust.krpcRequest method args myInfo first second)) =
      some (some (.query (queryOf method args first second))) := by
  have requestWithin := @RequestWithin.krpcRequest _ _ _ first second within
  rw [krpcRequest_eq_ofList] at requestWithin fits ⊢
  have same : Rust.encode (.dict (Entries.ofList (requestBindings method args myInfo first second))) =
      Go.encode (.dict (Entries.ofList (requestBindings method args myInfo first second))) := by
    rw [Rust.encode_eq_write, Go.encode_eq_write requestWithin]
  rw [same] at fits ⊢
  apply Go.received_eq_some.mpr
  exact ⟨_, _, Go.decodeBencodeDict_encode requestWithin fits,
    Go.KrpcMessage.decode_of_readFrom readFrom_requestBindings⟩

/-! ## Messages of the Go node -/

variable {m : Go.KrpcMessage}

/-- The Rust node decodes every message of the Go node as its dictionary, and
nothing is left over. -/
theorem decode_encode_message (within : m.Within Go.symmetricLimits) :
    Rust.decode m.encode = .ok (.dict m.toDict, Rust.Cursor.after m.encode []) := by
  have wider : (Value.dict m.toDict).Within Rust.limits :=
    within.toDict.mono (fun _ held => ⟨Int.le_of_lt held.1, held.2⟩) fun _ held => held
  have decoded := Rust.decode_encode ⟨_, wider⟩ []
  rw [List.append_nil] at decoded
  rwa [← encode_eq wider] at decoded

/-- What the Rust node does with a message. -/
def handledAs (m : Go.KrpcMessage) : Except String Rust.Printed :=
  match m with
  | .query _ => .error "Unhandled KRPC message type"
  | .response _ => .ok ("Received response: ", .dict m.toDict)
  | .error _ => .ok ("Received error response: ", .dict m.toDict)

theorem krpcHandle_toDict (m : Go.KrpcMessage) : Rust.krpcHandle (.dict m.toDict) = handledAs m := by
  cases m <;>
    simp [Rust.krpcHandle, handledAs, Go.KrpcMessage.toDict, Entries.ofList, Entries.lookup_insert,
      Rust.krpcOnReturn, Rust.krpcOnError, Go.keyT, Go.keyY, Go.keyQ, Go.keyA, Go.keyR, Go.keyE,
      Go.krpcTypeQuery, Go.krpcTypeReply, Go.krpcTypeError, Rust.keyY, Rust.keyR, Rust.keyE]

end MainlineDht.Interop
