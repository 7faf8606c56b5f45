import MainlineDht.Interop.Traffic

/-!
# Calls of the Rust node at a Go node

The way of a request there and back: `krpc_request`, the encoder, the receive
loop, `handleQuery`, the other encoder, the decoder and `krpc_handle`.
-/

namespace MainlineDht.Interop

open Effect Ordered Text Bencode

variable {client : Go.DhtClient} {msg : Go.KrpcQuery} {reply : Go.KrpcMessage} {id : Bytes}

/-- A reply is within the limits if what it echoes has come in a datagram. -/
theorem handled_within (handled : Go.DhtClient.Handled client msg reply)
    (idFits : id.length ≤ Go.receiveBufferSize)
    (nameFits : msg.methodName.length ≤ Go.receiveBufferSize) :
    (reply.setTransactionId id).Within Go.symmetricLimits := by
  have short {n : Nat} (small : n ≤ Go.receiveBufferSize + 17) : Go.symmetricLimits.len n :=
    Nat.lt_of_le_of_lt small (by decide)
  have codeFits {code : Int} (isCode : code = Go.krpcErrorProtocol ∨
      code = Go.krpcErrorUnknownMethod) : Go.symmetricLimits.int code := by
    rcases isCode with rfl | rfl <;> decide
  have idShort : Go.symmetricLimits.len id.length := short (by omega)
  cases handled with
  | pong _ _ => exact ⟨idShort, client.ownId_within⟩
  | protocolError text _ _ textShort =>
      refine ⟨idShort, codeFits (Or.inl rfl), short ?_⟩
      rw [Go.ascii, List.length_map]
      exact Nat.le_trans textShort (by decide)
  | unknownMethod _ =>
      refine ⟨idShort, codeFits (Or.inr rfl), short ?_⟩
      rw [Go.DhtClient.length_unknownMethod]
      omega

variable {method : Bytes} {args : Rust.Dict} {myInfo : Rust.MyInfo} {first second : UInt8}
  {srcAddr : Go.UDPAddr}

/-- A request takes some bytes besides the name of its method. -/
theorem length_encode_krpcRequest_ge : (writeBytes method).length + 23 ≤
    (Rust.encode (Rust.krpcRequest method args myInfo first second)).length := by
  have sorted : ∃ version, Entries.ofList (requestBindings method args myInfo first second) =
      [(Rust.keyA, .dict args), (Rust.keyQ, .bytes method), (Rust.keyT, .bytes [first, second])] ++
        version ++ [(Rust.keyY, .bytes Rust.keyQ)] := by
    rw [requestBindings]
    cases myInfo.clientVersion with
    | none => exact ⟨[], rfl⟩
    | some version => exact ⟨[(Rust.keyV, .bytes version)], rfl⟩
  rcases sorted with ⟨version, sorted⟩
  have idWritten : (writeBytes [first, second]).length = 4 := by
    have digits : (Decimal.decimal 2).length = 1 := by decide +kernel
    exact (List.length_append ..).trans (congrArg (· + 3) digits)
  have letters : (writeBytes Rust.keyT).length = 3 ∧ (writeBytes Rust.keyY).length = 3 ∧
      (writeBytes Rust.keyQ).length = 3 ∧ (writeBytes Rust.keyA).length = 3 := by decide +kernel
  rw [krpcRequest_eq_ofList, Rust.encode_eq_write, sorted]
  simp only [write, writeEntries_eq_flatMap, List.flatMap_append, List.flatMap_cons,
    List.flatMap_nil, List.length_append, List.length_cons, List.length_nil]
  omega

/-- A reply is little longer than its request. -/
theorem length_reply_le (within : (reply.setTransactionId [first, second]).Within Go.symmetricLimits)
    (handled : Go.DhtClient.Handled client (queryOf method args first second) reply) :
    (reply.setTransactionId [first, second]).encode.length ≤
      (Rust.encode (Rust.krpcRequest method args myInfo first second)).length + 20 := by
  have request := @length_encode_krpcRequest_ge method args myInfo first second
  have idWritten : (writeBytes [first, second]).length ≤ 4 := length_writeBytes_id rfl
  have letters := length_letters
  have name : method = Go.methodPing → (writeBytes method).length = 6 := by
    rintro rfl
    decide +kernel
  cases handled with
  | pong isPing _ =>
      apply length_encode_le within rfl
      have ownWritten := length_writeBytes_nodeId client.thisNodeInfo.nodeId
      have written := name isPing
      simp only [writeEntries, write, Go.DhtClient.ownId, Go.krpcTypeReply,
        List.length_append, List.length_cons, List.length_nil]
      omega
  | protocolError text isPing _ short =>
      apply length_encode_le within rfl
      have codeWritten : (write (.int Go.krpcErrorProtocol)).length = 5 := by decide +kernel
      have textLength : (Go.ascii text).length ≤ 21 := by
        rw [Go.ascii, List.length_map]
        exact short
      have textWritten := length_writeBytes_le_of_lt (by decide : 0 < 2)
        (Nat.lt_of_le_of_lt textLength (by decide))
      have written := name isPing
      simp only [writeEntries, write, writeItems, Go.krpcTypeError, List.length_append,
        List.length_cons, List.length_nil] at codeWritten ⊢
      omega
  | unknownMethod _ =>
      apply length_encode_le within rfl
      have codeWritten : (write (.int Go.krpcErrorUnknownMethod)).length = 5 := by decide +kernel
      have messageWritten := length_writeBytes_le_of_longer
        (Go.DhtClient.length_unknownMethod method) (by decide)
      simp only [writeEntries, write, writeItems, Go.krpcTypeError, queryOf, List.length_append,
        List.length_cons, List.length_nil] at codeWritten ⊢
      omega

/-- What a request comes back as: the dictionary that the reply decodes to, and
what `krpc_handle` makes of it. -/
structure ComesBack (client : Go.DhtClient) (method : Bytes) (args : Rust.Dict)
    (first second : UInt8) (dict : Rust.Dict) : Prop where
  transactionId : Entries.lookup Rust.keyT dict = some (.bytes [first, second])
  response : method = Go.methodPing → Go.HasNodeId args →
    Rust.krpcHandle (.dict dict) = .ok ("Received response: ", .dict dict) ∧
      Entries.lookup Rust.keyR dict = some (.dict client.ownId)
  protocolError : method = Go.methodPing → ¬ Go.HasNodeId args →
    Rust.krpcHandle (.dict dict) = .ok ("Received error response: ", .dict dict) ∧
      ∃ text, Entries.lookup Rust.keyE dict = some (.list [.int 203, .bytes text])
  unknownMethod : method ≠ Go.methodPing →
    Rust.krpcHandle (.dict dict) = .ok ("Received error response: ", .dict dict) ∧
      Entries.lookup Rust.keyE dict = some (.list [.int 204, .bytes (Go.unknownMethod method)])

theorem readFrom_toDict (m : Go.KrpcMessage) : m.ReadFrom m.toDict :=
  Go.KrpcMessage.readFrom_iff_agrees.mpr fun _ _ => rfl

/-- The Rust node sees in a reply what the Go node has made of the query. -/
theorem comesBack_of_handled
    (handled : Go.DhtClient.Handled client (queryOf method args first second) reply) :
    ComesBack client method args first second (reply.setTransactionId [first, second]).toDict := by
  have handles := krpcHandle_toDict (reply.setTransactionId [first, second])
  cases handled with
  | pong isPing hasId =>
      rcases readFrom_toDict (.response ⟨[first, second], client.ownId⟩) with ⟨isId, _, isValues⟩
      exact
        { transactionId := Go.stringAt_eq_some.mp isId
          response := fun _ _ => ⟨handles, Go.dictAt_eq_some.mp isValues⟩
          protocolError := fun _ noId => absurd hasId noId
          unknownMethod := fun other => absurd isPing other }
  | protocolError text isPing noId _ =>
      rcases readFrom_toDict (.error ⟨[first, second], Go.krpcErrorProtocol, Go.ascii text⟩) with
        ⟨isId, _, isList⟩
      exact
        { transactionId := Go.stringAt_eq_some.mp isId
          response := fun _ hasId => absurd hasId noId
          protocolError := fun _ _ => ⟨handles, Go.ascii text, Go.listAt_eq_some.mp isList⟩
          unknownMethod := fun other => absurd isPing other }
  | unknownMethod other =>
      rcases readFrom_toDict (.error ⟨[first, second], Go.krpcErrorUnknownMethod,
        Go.unknownMethod method⟩) with ⟨isId, _, isList⟩
      exact
        { transactionId := Go.stringAt_eq_some.mp isId
          response := fun isPing _ => absurd isPing other
          protocolError := fun isPing _ => absurd isPing other
          unknownMethod := fun _ => ⟨handles, Go.listAt_eq_some.mp isList⟩ }

/-- For every request that fits the Go node's buffer exactly one reply is written,
which is hardly longer.  The Rust node decodes it to the end: a response with the
node's id to a `ping` with an id, an error to anything else, and always under the
transaction id that was drawn. -/
theorem request_comes_back (client : Go.DhtClient) (srcAddr : Go.UDPAddr)
    (within : RequestWithin Go.symmetricLimits method args myInfo)
    (fits : (Rust.encode (Rust.krpcRequest method args myInfo first second)).length ≤
      Go.receiveBufferSize) :
    ∃ bytes dict, client.replies srcAddr
        (Rust.encode (Rust.krpcRequest method args myInfo first second)) = [(srcAddr, bytes)] ∧
      bytes.length ≤ (Rust.encode (Rust.krpcRequest method args myInfo first second)).length + 20 ∧
      Rust.decode bytes = .ok (.dict dict, Rust.Cursor.after bytes []) ∧
      ComesBack client method args first second dict := by
  have small := Nat.lt_of_le_of_lt fits (by decide : Go.receiveBufferSize < 2 ^ 63)
  have arrived := received_krpcRequest within small
  rcases Go.length_le_of_received small arrived with ⟨idLength, nameLength⟩
  rcases Go.DhtClient.handleQuery_handled client (queryOf method args first second) with
    ⟨reply, isReply, handled⟩
  have replyWithin := handled_within handled (Nat.le_trans idLength fits)
    (Nat.le_trans nameLength fits)
  refine ⟨_, _, ?_, length_reply_le replyWithin handled, decode_encode_message replyWithin,
    comesBack_of_handled handled⟩
  rw [Go.DhtClient.replies, arrived]
  simp only [isReply]
  rfl

/-- A `ping` of the Rust node. -/
theorem request_comes_back_ping :
    ∃ bytes dict, Go.DhtClient.localClient.replies ⟨[127, 0, 0, 1], 12345, []⟩
        (Rust.encode (Rust.krpcRequest Go.methodPing
          [(Rust.keyId, .bytes (List.replicate 20 7))] ⟨none, ⟨List.replicate 20 7, rfl⟩⟩ 1 2)) =
          [(⟨[127, 0, 0, 1], 12345, []⟩, bytes)] ∧
      Rust.decode bytes = .ok (.dict dict, Rust.Cursor.after bytes []) ∧
      Rust.krpcHandle (.dict dict) = .ok ("Received response: ", .dict dict) := by
  have args : (Value.dict [(Rust.keyId, .bytes (List.replicate 20 7))]).Within
      Go.symmetricLimits := by
    show (Value.dict (Entries.ofList [(Rust.keyId, .bytes (List.replicate 20 7))])).Within _
    apply Value.Within.ofList
    simp only [List.forall_mem_singleton]
    exact ⟨by decide, .bytes (by decide)⟩
  have within : RequestWithin Go.symmetricLimits Go.methodPing
      [(Rust.keyId, .bytes (List.replicate 20 7))] ⟨none, ⟨List.replicate 20 7, rfl⟩⟩ :=
    { method := by decide, args := args, version := by rintro version ⟨⟩ }
  rcases @request_comes_back _ _ _ 1 2 Go.DhtClient.localClient ⟨[127, 0, 0, 1], 12345, []⟩ within
    (by rw [Rust.encode_eq_write]; decide +kernel) with ⟨bytes, dict, replied, _, decoded, comes⟩
  exact ⟨bytes, dict, replied, decoded, (comes.response rfl ⟨_, rfl, rfl⟩).1⟩

end MainlineDht.Interop
