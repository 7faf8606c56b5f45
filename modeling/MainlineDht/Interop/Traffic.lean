import MainlineDht.Interop.Requests

/-!
# What the nodes write

A Go node writes pings, pongs and refusals of other methods, the Rust node
requests for `find_node`.  All of them are shorter than either buffer, and each
side reads them whole.
-/

namespace MainlineDht.Interop

open Effect Ordered Text Bencode

variable {info : Go.NodeInfo} {nodeId : NodeId} {id : Bytes} {first second : UInt8}

/-- The query of a `ping`. -/
def pingQuery (info : Go.NodeInfo) (id : Bytes) : Go.KrpcQuery :=
  { (Go.Host.start info).client.pingQuery with transactionId := id }

/-- The `ping` as a message. -/
def ping (info : Go.NodeInfo) (id : Bytes) : Go.KrpcMessage :=
  .query (pingQuery info id)

/-- The response to a `ping`. -/
def pong (info : Go.NodeInfo) (id : Bytes) : Go.KrpcMessage :=
  .response { transactionId := id, returnValues := (Go.Host.start info).client.ownId }

/-- The request of a bootstrap. -/
def findNode (nodeId : NodeId) (first second : UInt8) : Value :=
  (Rust.NetLoop.start nodeId).findNodeRequest first second

/-- Its arguments. -/
def findNodeArgs (nodeId : NodeId) : Rust.Dict :=
  [(Rust.keyId, .bytes nodeId.val), (Rust.keyTarget, .bytes nodeId.val)]

/-- The query that the Go node takes it for. -/
def findNodeQuery (nodeId : NodeId) (first second : UInt8) : Go.KrpcQuery :=
  queryOf Rust.methodFindNode (findNodeArgs nodeId) first second

/-- The error that the Go node replies with. -/
def refusal (first second : UInt8) : Go.KrpcMessage :=
  .error
    { transactionId := [first, second]
      code := Go.krpcErrorUnknownMethod
      message := Go.unknownMethod Rust.methodFindNode }

/-! ## Sizes -/

/-- The message is within the limits, and no longer than the smaller buffer. -/
structure Fits (m : Go.KrpcMessage) : Prop where
  within : m.Within Go.symmetricLimits
  short : m.encode.length ≤ Rust.NetLoop.bufSize

theorem Fits.received {m : Go.KrpcMessage} (fits : Fits m) :
    Go.received (m.encode.take Go.receiveBufferSize) = some (some m) := by
  have whole : m.encode.length ≤ Go.receiveBufferSize := Nat.le_trans fits.short (by decide)
  rw [List.take_of_length_le whole]
  rcases Go.KrpcMessage.roundTrips fits.within (Nat.lt_of_le_of_lt fits.short (by decide)) with
    ⟨dict, final, readDict, readMessage⟩
  exact Go.received_eq_some.mpr ⟨dict, final, readDict, readMessage⟩

theorem Fits.decode {m : Go.KrpcMessage} (fits : Fits m) :
    Rust.decode (m.encode.take Rust.NetLoop.bufSize) =
      .ok (.dict m.toDict, Rust.Cursor.after m.encode []) := by
  rw [List.take_of_length_le fits.short]
  exact decode_encode_message fits.within

theorem length_encode_le {m : Go.KrpcMessage} (within : m.Within Go.symmetricLimits)
    {bindings : List (Bytes × Value)} (dict_eq : m.toDict = Entries.ofList bindings) {bound : Nat}
    (short : (writeEntries bindings).length + 2 ≤ bound) : m.encode.length ≤ bound := by
  rw [Go.KrpcMessage.encode, Go.encode_eq_write within.toDict, dict_eq]
  exact Nat.le_trans (length_write_ofList_le bindings) short

/-- An id of two bytes and one of twenty, as they are written. -/
theorem length_writeBytes_id (length : id.length = 2) : (writeBytes id).length ≤ 4 := by
  have written := length_writeBytes_le_of_lt (by decide : 0 < 1) (by rw [length]; decide)
  rwa [length] at written

theorem length_writeBytes_nodeId (nodeId : NodeId) : (writeBytes nodeId.val).length ≤ 23 := by
  have written : (writeBytes nodeId.val).length ≤ _ :=
    length_writeBytes_le_of_lt (by decide : 0 < 2) (by rw [nodeId.property]; decide)
  rwa [nodeId.property] at written

theorem length_letters :
    (writeBytes Go.keyT).length = 3 ∧ (writeBytes Go.keyY).length = 3 ∧
      (writeBytes Go.keyQ).length = 3 ∧ (writeBytes Go.keyA).length = 3 ∧
      (writeBytes Go.keyR).length = 3 ∧ (writeBytes Go.keyE).length = 3 ∧
      (writeBytes Go.keyId).length = 4 := by decide +kernel

theorem ping_fits (info : Go.NodeInfo) (length : id.length = 2) : Fits (ping info id) := by
  have methodFits : Go.symmetricLimits.len Go.methodPing.length := by decide
  have within : (ping info id).Within Go.symmetricLimits :=
    ⟨Nat.lt_of_le_of_lt (Nat.le_of_eq length) (by decide), methodFits,
      (Go.Host.start info).client.ownId_within⟩
  refine ⟨within, length_encode_le within rfl ?_⟩
  have idWritten := length_writeBytes_id length
  have ownWritten := length_writeBytes_nodeId info.nodeId
  have letters := length_letters
  have method : (writeBytes Go.methodPing).length = 6 := by decide +kernel
  have start_eq : (Go.Host.start info).client.thisNodeInfo.nodeId = info.nodeId := rfl
  simp only [writeEntries, write, pingQuery, Go.DhtClient.pingQuery, start_eq, Go.krpcTypeQuery,
    List.length_append, List.length_cons, List.length_nil, Rust.NetLoop.bufSize]
  omega

theorem pong_fits (info : Go.NodeInfo) (length : id.length = 2) : Fits (pong info id) := by
  have within : (pong info id).Within Go.symmetricLimits :=
    ⟨Nat.lt_of_le_of_lt (Nat.le_of_eq length) (by decide), (Go.Host.start info).client.ownId_within⟩
  refine ⟨within, length_encode_le within rfl ?_⟩
  have idWritten := length_writeBytes_id length
  have ownWritten := length_writeBytes_nodeId info.nodeId
  have letters := length_letters
  have start_eq : (Go.Host.start info).client.thisNodeInfo.nodeId = info.nodeId := rfl
  simp only [writeEntries, write, Go.DhtClient.ownId, start_eq, Go.krpcTypeReply,
    List.length_append, List.length_cons, List.length_nil, Rust.NetLoop.bufSize]
  omega

theorem refusal_fits (first second : UInt8) : Fits (refusal first second) := by
  have idFits : Go.symmetricLimits.len 2 := by decide
  have codeFits : Go.symmetricLimits.int Go.krpcErrorUnknownMethod := by decide
  have messageFits : Go.symmetricLimits.len (Go.unknownMethod Rust.methodFindNode).length := by
    decide
  have within : (refusal first second).Within Go.symmetricLimits := ⟨idFits, codeFits, messageFits⟩
  refine ⟨within, length_encode_le within rfl ?_⟩
  have idWritten : (writeBytes [first, second]).length ≤ 4 := length_writeBytes_id rfl
  have letters := length_letters
  have codeWritten : (write (.int Go.krpcErrorUnknownMethod)).length = 5 := by decide +kernel
  have messageWritten : (writeBytes (Go.unknownMethod Rust.methodFindNode)).length = 29 := by
    decide +kernel
  simp only [writeEntries, write, writeItems, Go.krpcTypeError, List.length_append,
    List.length_cons, List.length_nil, Rust.NetLoop.bufSize] at codeWritten ⊢
  omega

/-! ## The request of a bootstrap -/

theorem findNode_eq (nodeId : NodeId) (first second : UInt8) :
    findNode nodeId first second =
      Rust.krpcRequest Rust.methodFindNode (findNodeArgs nodeId)
        (Rust.NetLoop.start nodeId).myInfo first second :=
  rfl

theorem findNode_requestWithin (nodeId : NodeId) :
    RequestWithin Go.symmetricLimits Rust.methodFindNode (findNodeArgs nodeId)
      (Rust.NetLoop.start nodeId).myInfo := by
  have args : (Value.dict (findNodeArgs nodeId)).Within Go.symmetricLimits := by
    show (Value.dict (Entries.ofList (findNodeArgs nodeId))).Within Go.symmetricLimits
    apply Value.Within.ofList
    have idFits : Go.symmetricLimits.len nodeId.val.length := by
      rw [nodeId.property]
      decide
    simp only [findNodeArgs, List.forall_mem_cons]
    exact ⟨⟨by decide, .bytes idFits⟩, ⟨by decide, .bytes idFits⟩, List.forall_mem_nil _⟩
  exact { method := by decide, args := args, version := by rintro version ⟨⟩ }

theorem length_encode_findNode (nodeId : NodeId) (first second : UInt8) :
    (Rust.encode (findNode nodeId first second)).length ≤ Rust.NetLoop.bufSize := by
  rw [findNode_eq, krpcRequest_eq_ofList, Rust.encode_eq_write]
  apply Nat.le_trans (length_write_ofList_le _)
  have idWritten : (writeBytes [first, second]).length ≤ 4 := length_writeBytes_id rfl
  have ownWritten := length_writeBytes_nodeId nodeId
  have letters : (writeBytes Rust.keyT).length = 3 ∧ (writeBytes Rust.keyY).length = 3 ∧
      (writeBytes Rust.keyQ).length = 3 ∧ (writeBytes Rust.keyA).length = 3 ∧
      (writeBytes Rust.keyId).length = 4 ∧ (writeBytes Rust.keyTarget).length = 8 ∧
      (writeBytes Rust.methodFindNode).length = 11 := by decide +kernel
  have version : (Rust.NetLoop.start nodeId).myInfo.clientVersion.toList = [] := rfl
  simp only [requestBindings, version, List.map_nil, List.append_nil, writeEntries, write,
    findNodeArgs, List.length_append, List.length_cons, List.length_nil, Rust.NetLoop.bufSize]
  omega

theorem received_findNode (nodeId : NodeId) (first second : UInt8) :
    Go.received ((Rust.encode (findNode nodeId first second)).take Go.receiveBufferSize) =
      some (some (.query (findNodeQuery nodeId first second))) := by
  have short := length_encode_findNode nodeId first second
  rw [List.take_of_length_le (Nat.le_trans short (by decide)), findNode_eq]
  exact received_krpcRequest (findNode_requestWithin nodeId) (Nat.lt_of_le_of_lt short (by decide))

theorem decode_findNode (nodeId : NodeId) (first second : UInt8) :
    ∃ c, Rust.decode ((Rust.encode (findNode nodeId first second)).take Rust.NetLoop.bufSize) =
      .ok (findNode nodeId first second, c) := by
  have within := @RequestWithin.krpcRequest _ _ _ first second (findNode_requestWithin nodeId)
  have wider : (findNode nodeId first second).Within Rust.limits :=
    within.mono (fun _ held => ⟨Int.le_of_lt held.1, held.2⟩) fun _ held => held
  have decoded := Rust.decode_encode ⟨_, wider⟩ []
  rw [List.append_nil] at decoded
  rw [List.take_of_length_le (length_encode_findNode nodeId first second)]
  exact ⟨_, decoded⟩

/-! ## Replies of the Go node -/

variable {client : Go.DhtClient} {srcAddr : Go.UDPAddr}

/-- A client replies to a ping with its own id. -/
theorem response_pingQuery (client_info : client.thisNodeInfo = info) (peer : Go.NodeInfo) :
    client.response ⟨pingQuery peer id, srcAddr⟩ = [(srcAddr, (pong info id).encode)] := by
  have length : peer.nodeId.val.length = 20 := peer.nodeId.property
  have handled : client.handleQuery (pingQuery peer id) =
      some (.response { transactionId := [], returnValues := client.ownId }) := by
    show client.handlePing [(Go.keyId, .bytes peer.nodeId.val)] = _
    simp [Go.DhtClient.handlePing, Entries.lookup, length]
  have own : client.ownId = (Go.Host.start info).client.ownId := by
    rw [Go.DhtClient.ownId, client_info]
    rfl
  rw [Go.DhtClient.response, handled, own]
  rfl

/-- A client refuses the request of a bootstrap. -/
theorem response_findNodeQuery :
    client.response ⟨findNodeQuery nodeId first second, srcAddr⟩ =
      [(srcAddr, (refusal first second).encode)] :=
  rfl

/-- A `ping` takes the id out of a pong. -/
theorem peerNodeId_pong (info : Go.NodeInfo) (id : Bytes) :
    Go.peerNodeId (pong info id) = .ok (some info.nodeId) := by
  have length : info.nodeId.val.length = 20 := info.nodeId.property
  exact dif_pos length

end MainlineDht.Interop
