import MainlineDht.Go.DhtClient
import MainlineDht.Go.KrpcRoundTrip

/-!
# How the Go DHT client replies to queries

The receive loop hands a query to `handleQuery`, puts the query's transaction id
into the reply and writes its encoding to where the query came from.  Nothing is
written for another message, nor for what is not a message.
-/

namespace MainlineDht.Go

open Effect Ordered Text Bencode

/-- The bytes of an ASCII text. -/
def ascii (text : String) : Bytes :=
  text.toList.map Decimal.charByte

/-- `fmt.Sprintf("Unknown method '%s'", methodName)` -/
def unknownMethod (methodName : Bytes) : Bytes :=
  ascii "Unknown method '" ++ methodName ++ ascii "'"

/-- An error of `handlePing`; the transaction id is set later. -/
def protocolError (text : String) : KrpcMessage :=
  .error { transactionId := [], code := krpcErrorProtocol, message := ascii text }

/-- The size of the buffer that `receiveMessages` reads datagrams into. -/
def receiveBufferSize : Nat := 65535

namespace DhtClient

/-- The return values that consist of the client's own id. -/
def ownId (client : DhtClient) : Dict :=
  [(keyId, .bytes client.thisNodeInfo.nodeId.val)]

/-- The reply to a `ping`: the own id, or an error if the query has no id of
twenty bytes. -/
def handlePing (client : DhtClient) (args : Dict) : Option KrpcMessage :=
  match Entries.lookup keyId args with
  | none => some (protocolError "Missing 'id' argument")
  | some (.bytes nodeId) =>
      if nodeId.length = 20 then
        some (.response { transactionId := [], returnValues := client.ownId })
      else some (protocolError "Invalid 'id' argument")
  | some _ => some (protocolError "Invalid 'id' argument")

/-- The handlers of the methods. -/
def handlerFunctions : List (Bytes × (DhtClient → Dict → Option KrpcMessage)) :=
  [(methodPing, handlePing)]

/-- `none` is a nil message. -/
def handleQuery (client : DhtClient) (message : KrpcQuery) : Option KrpcMessage :=
  match Entries.lookup message.methodName handlerFunctions with
  | none => some (.error
      { transactionId := []
        code := krpcErrorUnknownMethod
        message := unknownMethod message.methodName })
  | some handler => handler client message.arguments

/-- What `receiveMessages` hands to `WriteToUDP` after a datagram: to which
address, and which bytes. -/
def replies (client : DhtClient) (srcAddr : UDPAddr) (datagram : Bytes) :
    List (UDPAddr × Bytes) :=
  match received datagram with
  | some (some (.query msg)) =>
      match client.handleQuery msg with
      | some response => [(srcAddr, (response.setTransactionId msg.transactionId).encode)]
      | none => []
  | _ => []

end DhtClient

/-! ## What arrives -/

variable {datagram : Bytes}

/-- A message is received if the two decoders accept the datagram one after the other. -/
theorem received_eq_some {m : KrpcMessage} : received datagram = some (some m) ↔
    ∃ dict final, decodeBencodeDict datagram = .ok (.ok dict, final) ∧
      decodeKrpcMessage dict = .ok m := by
  unfold received
  constructor
  · intro arrived
    split at arrived
    · cases arrived
    · cases arrived
    · rename_i dict final readDict
      split at arrived
      · cases arrived
      · rename_i msg readMessage
        cases arrived
        exact ⟨dict, final, readDict, readMessage⟩
  · rintro ⟨dict, final, readDict, readMessage⟩
    simp only [readDict, readMessage]

/-- A byte string in the dictionary of a datagram is no longer than the datagram. -/
theorem length_le_of_stringAt {dict : Dict} {final : Scanner} {key s : Bytes}
    (fits : datagram.length < 2 ^ 63) (readDict : decodeBencodeDict datagram = .ok (.ok dict, final))
    (found : stringAt dict key = some s) : s.length ≤ datagram.length := by
  rcases (decodeBencodeDict_verdict datagram fits).derived_of_ok readDict with
    ⟨word, rest, datagram_eq, derives, -⟩
  have member := Entries.mem_of_lookup (stringAt_eq_some.mp found)
  calc s.length ≤ (write (.bytes s)).length := by
        simp only [write, writeBytes, List.length_append, List.length_cons]
        omega
    _ ≤ (write (.dict dict)).length := length_write_le_of_mem member
    _ ≤ word.length := derives.length_write_le
    _ ≤ datagram.length := by
        rw [datagram_eq, List.length_append]
        exact Nat.le_add_right _ _

/-- So are the strings that a query echoes. -/
theorem length_le_of_received {msg : KrpcQuery} (fits : datagram.length < 2 ^ 63)
    (arrived : received datagram = some (some (.query msg))) :
    msg.transactionId.length ≤ datagram.length ∧ msg.methodName.length ≤ datagram.length := by
  rcases received_eq_some.mp arrived with ⟨dict, final, readDict, readMessage⟩
  rcases KrpcMessage.readFrom_of_decode readMessage with ⟨hasId, -, hasMethod, -⟩
  constructor
  · exact length_le_of_stringAt fits readDict hasId
  · exact length_le_of_stringAt fits readDict hasMethod

/-! ## The reply -/

/-- The arguments have an `id` of twenty bytes. -/
def HasNodeId (args : Dict) : Prop :=
  ∃ id, Entries.lookup keyId args = some (.bytes id) ∧ id.length = 20

namespace DhtClient

variable {client : DhtClient} {msg : KrpcQuery} {reply : KrpcMessage}

/-- What `handleQuery` makes of a query, by the method and the argument `id`. -/
inductive Handled (client : DhtClient) (msg : KrpcQuery) : KrpcMessage → Prop
  | pong : msg.methodName = methodPing → HasNodeId msg.arguments →
      Handled client msg (.response { transactionId := [], returnValues := client.ownId })
  | protocolError (text : String) : msg.methodName = methodPing → ¬ HasNodeId msg.arguments →
      text.toList.length ≤ 21 → Handled client msg (Go.protocolError text)
  | unknownMethod : msg.methodName ≠ methodPing →
      Handled client msg (.error
        { transactionId := []
          code := krpcErrorUnknownMethod
          message := Go.unknownMethod msg.methodName })

theorem handlePing_handled (client : DhtClient) (isPing : msg.methodName = methodPing) :
    ∃ reply, client.handlePing msg.arguments = some reply ∧ Handled client msg reply := by
  unfold handlePing
  split
  · rename_i missing
    refine ⟨_, rfl, .protocolError _ isPing ?_ (by decide)⟩
    rintro ⟨id, found, -⟩
    cases missing.symm.trans found
  · rename_i nodeId found
    split_ifs with length
    · exact ⟨_, rfl, .pong isPing ⟨nodeId, found, length⟩⟩
    · refine ⟨_, rfl, .protocolError _ isPing ?_ (by decide)⟩
      rintro ⟨id, foundId, lengthId⟩
      cases found.symm.trans foundId
      exact length lengthId
  · rename_i value other found
    refine ⟨_, rfl, .protocolError _ isPing ?_ (by decide)⟩
    rintro ⟨id, foundId, -⟩
    cases found.symm.trans foundId
    exact other id rfl

theorem handleQuery_handled (client : DhtClient) (msg : KrpcQuery) :
    ∃ reply, client.handleQuery msg = some reply ∧ Handled client msg reply := by
  by_cases isPing : msg.methodName = methodPing
  · rcases handlePing_handled client isPing with ⟨reply, handled, cases⟩
    refine ⟨reply, ?_, cases⟩
    rw [handleQuery, isPing]
    exact handled
  · refine ⟨_, ?_, .unknownMethod isPing⟩
    have noHandler : Entries.lookup msg.methodName handlerFunctions = none := by
      simp [handlerFunctions, Entries.lookup, isPing]
    rw [handleQuery, noHandler]

theorem length_unknownMethod (methodName : Bytes) :
    (Go.unknownMethod methodName).length = methodName.length + 17 := by
  have quoted : (ascii "Unknown method '").length = 16 ∧ (ascii "'").length = 1 := by decide
  simp only [Go.unknownMethod, List.length_append]
  omega

/-- An error of a handler with a short text is written and read. -/
theorem error_roundTrips {id message : Bytes} {code : Int}
    (isCode : code = krpcErrorProtocol ∨ code = krpcErrorUnknownMethod) (idFits : id.length < 10 ^ 5)
    (messageFits : message.length < 10 ^ 5) :
    (KrpcMessage.error { transactionId := id, code := code, message := message }).RoundTrips := by
  have codeFits : symmetricLimits.int code := by
    rcases isCode with rfl | rfl <;> decide
  have codeWritten : (write (.int code)).length = 5 := by
    rcases isCode with rfl | rfl <;> decide +kernel
  have within : (KrpcMessage.error ⟨id, code, message⟩).Within symmetricLimits :=
    ⟨Nat.lt_trans idFits (by decide), codeFits, Nat.lt_trans messageFits (by decide)⟩
  apply KrpcMessage.roundTrips within
  have idWritten := length_writeBytes_le_of_lt (by decide) idFits
  have messageWritten := length_writeBytes_le_of_lt (by decide) messageFits
  have built := length_write_ofList_le
    [(keyT, .bytes id), (keyY, .bytes krpcTypeError), (keyE, .list [.int code, .bytes message])]
  have letters : (writeBytes keyT).length = 3 ∧ (writeBytes keyY).length = 3 ∧
      (writeBytes keyE).length = 3 ∧ (writeBytes krpcTypeError).length = 3 := by decide +kernel
  rw [KrpcMessage.encode, encode_eq_write within.toDict]
  apply Nat.lt_of_le_of_lt built
  simp only [writeEntries, write, writeItems, List.length_append, List.length_cons,
    List.length_nil] at codeWritten ⊢
  omega

theorem ownId_within (client : DhtClient) : (Value.dict client.ownId).Within symmetricLimits := by
  have own : client.thisNodeInfo.nodeId.val.length = 20 := client.thisNodeInfo.nodeId.property
  show (Value.dict (Entries.ofList client.ownId)).Within symmetricLimits
  apply Value.Within.ofList
  simp only [ownId, List.forall_mem_cons]
  exact ⟨⟨by decide, .bytes (by rw [own]; decide)⟩, List.forall_mem_nil _⟩

/-- The client's own id is written and read. -/
theorem ownId_roundTrips (client : DhtClient) {id : Bytes} (idFits : id.length < 10 ^ 5) :
    (KrpcMessage.response { transactionId := id, returnValues := client.ownId }).RoundTrips := by
  have own : client.thisNodeInfo.nodeId.val.length = 20 := client.thisNodeInfo.nodeId.property
  have within : (KrpcMessage.response ⟨id, client.ownId⟩).Within symmetricLimits :=
    ⟨Nat.lt_trans idFits (by decide), client.ownId_within⟩
  apply KrpcMessage.roundTrips within
  have idWritten := length_writeBytes_le_of_lt (by decide) idFits
  have ownWritten : (writeBytes client.thisNodeInfo.nodeId.val).length ≤ _ :=
    length_writeBytes_le_of_lt (by decide : 0 < 2) (by rw [own]; decide)
  have built := length_write_ofList_le
    [(keyT, .bytes id), (keyY, .bytes krpcTypeReply), (keyR, .dict client.ownId)]
  have letters : (writeBytes keyT).length = 3 ∧ (writeBytes keyY).length = 3 ∧
      (writeBytes keyR).length = 3 ∧ (writeBytes krpcTypeReply).length = 3 ∧
      (writeBytes keyId).length = 4 := by decide +kernel
  rw [KrpcMessage.encode, encode_eq_write within.toDict]
  apply Nat.lt_of_le_of_lt built
  simp only [ownId, writeEntries, write, List.length_append, List.length_cons, List.length_nil]
  omega

/-- Whatever a query of a datagram echoes, its reply is written and read. -/
theorem Handled.roundTrips {id : Bytes} (handled : Handled client msg reply)
    (idFits : id.length ≤ receiveBufferSize)
    (nameFits : msg.methodName.length ≤ receiveBufferSize) :
    (reply.setTransactionId id).RoundTrips := by
  unfold receiveBufferSize at idFits nameFits
  cases handled with
  | pong _ _ => exact ownId_roundTrips client (by omega)
  | protocolError text _ _ short =>
      apply error_roundTrips (Or.inl rfl) (by omega)
      rw [ascii, List.length_map]
      omega
  | unknownMethod _ =>
      apply error_roundTrips (Or.inr rfl) (by omega)
      rw [length_unknownMethod]
      omega

/-- What a reply to a query is: it has the query's transaction id, and method
and argument decide the rest. -/
structure Answers (client : DhtClient) (msg : KrpcQuery) (reply : KrpcMessage) : Prop where
  transactionId : reply.getTransactionId = msg.transactionId
  response : (∃ res, reply = .response res ∧ res.returnValues = client.ownId) ↔
    msg.methodName = methodPing ∧ HasNodeId msg.arguments
  protocolError : msg.methodName = methodPing → ¬ HasNodeId msg.arguments →
    ∃ err, reply = .error err ∧ err.code = krpcErrorProtocol
  unknownMethod : msg.methodName ≠ methodPing →
    ∃ err, reply = .error err ∧ err.code = krpcErrorUnknownMethod

theorem Handled.answers (handled : Handled client msg reply) :
    Answers client msg (reply.setTransactionId msg.transactionId) := by
  cases handled with
  | pong isPing hasId =>
      exact {
        transactionId := rfl
        response := ⟨fun _ => ⟨isPing, hasId⟩, fun _ => ⟨_, rfl, rfl⟩⟩
        protocolError := fun _ noId => absurd hasId noId
        unknownMethod := fun other => absurd isPing other }
  | protocolError text isPing noId _ =>
      exact {
        transactionId := rfl
        response := by
          constructor
          · rintro ⟨_, isResponse, _⟩
            cases isResponse
          · rintro ⟨_, hasId⟩
            exact absurd hasId noId
        protocolError := fun _ _ => ⟨_, rfl, rfl⟩
        unknownMethod := fun other => absurd isPing other }
  | unknownMethod other =>
      exact {
        transactionId := rfl
        response := by
          constructor
          · rintro ⟨_, isResponse, _⟩
            cases isResponse
          · rintro ⟨isPing, _⟩
            exact absurd isPing other
        protocolError := fun isPing _ => absurd isPing other
        unknownMethod := fun _ => ⟨_, rfl, rfl⟩ }

/-- What is read out of a datagram is handled, and what its reply decodes to answers it. -/
theorem exists_reply (client : DhtClient) {datagram : Bytes}
    (fits : datagram.length ≤ receiveBufferSize)
    (arrived : received datagram = some (some (.query msg))) :
    ∃ reply, client.handleQuery msg = some reply ∧
      received (reply.setTransactionId msg.transactionId).encode =
        some (some (reply.setTransactionId msg.transactionId)) ∧
      Answers client msg (reply.setTransactionId msg.transactionId) := by
  rcases length_le_of_received (Nat.lt_of_le_of_lt fits (by decide)) arrived with
    ⟨idLength, nameLength⟩
  rcases handleQuery_handled client msg with ⟨reply, isReply, handled⟩
  rcases handled.roundTrips (Nat.le_trans idLength fits) (Nat.le_trans nameLength fits) with
    ⟨dict, final, readDict, readMessage⟩
  exact ⟨reply, isReply, received_eq_some.mpr ⟨dict, final, readDict, readMessage⟩,
    handled.answers⟩

/-- After a query exactly one reply is written, to where the query came from, and
what it decodes to answers the query; after any other datagram there is none. -/
theorem replies_answers (client : DhtClient) (srcAddr : UDPAddr) (datagram : Bytes)
    (fits : datagram.length ≤ receiveBufferSize) :
    (∀ msg, received datagram = some (some (.query msg)) →
      ∃ bytes reply, client.replies srcAddr datagram = [(srcAddr, bytes)] ∧
        received bytes = some (some reply) ∧ Answers client msg reply) ∧
    ((∀ msg, received datagram ≠ some (some (.query msg))) →
      client.replies srcAddr datagram = []) := by
  constructor
  · intro msg arrived
    rcases client.exists_reply fits arrived with ⟨reply, isReply, read, answers⟩
    refine ⟨(reply.setTransactionId msg.transactionId).encode, _, ?_, read, answers⟩
    rw [replies, arrived]
    simp only [isReply]
  · intro noQuery
    unfold replies
    split
    · rename_i msg arrived
      exact absurd arrived (noQuery msg)
    · rfl

/-- A client with an id and an address. -/
def localClient : DhtClient :=
  let node : NodeInfo := ⟨⟨List.replicate 20 65, rfl⟩, ⟨[127, 0, 0, 1], 6881, []⟩⟩
  startDhtClient node (newRoutingTable 8 node)

/-- Its own ping fits into the buffer and is read as it was. -/
theorem localClient_ping :
    (KrpcMessage.query localClient.pingQuery).encode.length ≤ receiveBufferSize ∧
      received (KrpcMessage.query localClient.pingQuery).encode =
        some (some (.query localClient.pingQuery)) := by
  have within : (KrpcMessage.query localClient.pingQuery).Within symmetricLimits :=
    ⟨by decide, by decide, localClient.ownId_within⟩
  have short : (KrpcMessage.query localClient.pingQuery).encode.length ≤ receiveBufferSize := by
    rw [KrpcMessage.encode, encode_eq_write within.toDict]
    decide +kernel
  rcases KrpcMessage.roundTrips within (Nat.lt_of_le_of_lt short (by decide)) with
    ⟨dict, final, readDict, readMessage⟩
  exact ⟨short, received_eq_some.mpr ⟨dict, final, readDict, readMessage⟩⟩

/-- The client replies to its own ping with its id. -/
theorem replies_answers_ping :
    ∃ bytes reply,
      localClient.replies localClient.thisNodeInfo.address
          (KrpcMessage.query localClient.pingQuery).encode =
        [(localClient.thisNodeInfo.address, bytes)] ∧
      received bytes = some (some reply) ∧
        ∃ res, reply = .response res ∧ res.returnValues = localClient.ownId := by
  rcases localClient_ping with ⟨short, arrived⟩
  rcases (replies_answers localClient _ _ short).1 _ arrived with
    ⟨bytes, reply, replies_eq, readReply, answers⟩
  exact ⟨bytes, reply, replies_eq, readReply, answers.response.mpr ⟨rfl, _, rfl, rfl⟩⟩

end DhtClient

end MainlineDht.Go
