import MainlineDht.Go.Host

/-!
# What a Go node can get done

A message at hand can always be passed on, so that the receive loop reads again.
A `ping` can be started at any time; once its reply is at hand, the node brings
it into the routing table without reading anything more.
-/

namespace MainlineDht.Go.Host

open Transition

/-- The node with another state of its runtime. -/
def withRuntime (host : Host) (k : KrpcRuntime) : Host :=
  { host with client := { host.client with krpcRuntime := k } }

@[simp]
theorem withRuntime_krpcRuntime (host : Host) (k : KrpcRuntime) :
    (host.withRuntime k).client.krpcRuntime = k :=
  rfl

@[simp]
theorem withRuntime_withRuntime (host : Host) (k k' : KrpcRuntime) :
    (host.withRuntime k).withRuntime k' = host.withRuntime k' :=
  rfl

variable {host : Host} {k : KrpcRuntime} {action : Action} {c : Nat} {dest : UDPAddr} {id : Bytes}

/-- A step of the runtime is a step of the node. -/
theorem step_runtime (performed : Go.step host.client.krpcRuntime action = some k)
    (noCall : DhtClient.makesCall action = false) (noRead : isRead (.runtime action) = false) :
    step host (.client (.runtime action)) = some (host.withRuntime k) := by
  have clientStep : DhtClient.step host.client (.runtime action) =
      some { host.client with krpcRuntime := k } := by
    rw [DhtClient.step, noCall, if_neg Bool.false_ne_true, performed]
    rfl
  rw [step, noRead, if_neg Bool.false_ne_true, clientStep]
  rfl

theorem inner_runtime (performed : Go.step host.client.krpcRuntime action = some k)
    (noCall : DhtClient.makesCall action = false) (noRead : isRead (.runtime action) = false) :
    endpoint.inner host (.client (.runtime action)) = some (host.withRuntime k) :=
  Endpoint.inner_eq_some.mpr ⟨rfl, step_runtime performed noCall noRead⟩

/-! ## Back to the socket -/

/-- The node reaches a state that differs in the runtime at most, in which the
receive loop reads; one that reads already has nothing to do. -/
structure Settles (host : Host) (k : KrpcRuntime) : Prop where
  reached : Reachable endpoint.inner host (host.withRuntime k)
  reading : k.receiver = .reading
  created : k.created = host.client.krpcRuntime.created
  idle : host.client.krpcRuntime.receiver = .reading → k = host.client.krpcRuntime

theorem settles_of_sending (inv : host.client.krpcRuntime.Consistent) {arrival : Nat}
    {ch : Channel} {msg : KrpcMessage}
    (sending : host.client.krpcRuntime.receiver = .sending arrival ch msg) :
    ∃ k, host.Settles k := by
  have sent := (StepCase.sent sending (inv.deliversOnce.never_blocks sending).1).step
  refine ⟨_, (Reachable.refl _ _).step (inner_runtime sent rfl rfl), rfl, rfl, ?_⟩
  intro reading
  cases reading.symm.trans sending

/-- Whatever is at hand can be passed on. -/
theorem exists_settles (inv : host.client.krpcRuntime.Consistent) : ∃ k, host.Settles k := by
  cases receiver : host.client.krpcRuntime.receiver with
  | reading => exact ⟨host.client.krpcRuntime, Reachable.refl _ _, receiver, rfl, fun _ => rfl⟩
  | sending arrival ch msg => exact settles_of_sending inv receiver
  | dispatching arrival msg =>
      have busy {k : KrpcRuntime} : host.client.krpcRuntime.receiver = .reading →
          k = host.client.krpcRuntime := by
        intro reading
        cases reading.symm.trans receiver
      cases stored : host.client.krpcRuntime.pendingRequests msg.getTransactionId with
      | none =>
          have passed := (StepCase.unsolicited receiver stored).step
          exact ⟨_, (Reachable.refl _ _).step (inner_runtime passed rfl rfl), rfl, rfl, busy⟩
      | some ch =>
          have taken := (StepCase.dequeued receiver stored).step
          have first := (Reachable.refl endpoint.inner host).step (inner_runtime taken rfl rfl)
          rcases @settles_of_sending (host.withRuntime _) (inv.step taken) _ _ _ rfl with
            ⟨k, settles⟩
          exact ⟨k, first.trans settles.reached, settles.reading, settles.created, busy⟩

/-! ## A `ping` that waits -/

/-- The call waits for a reply with the transaction id, at the address; nothing
stands in the way of the reply. -/
structure Waiting (host : Host) (c : Nat) (dest : UDPAddr) (id : Bytes) : Prop where
  call : ∃ call, host.client.krpcRuntime.call c = some call ∧ call.phase = .waiting ∧
    call.dest = dest ∧ call.responseChannel = c
  stored : host.client.krpcRuntime.pendingRequests id = some c
  reading : host.client.krpcRuntime.receiver = .reading
  empty : host.client.krpcRuntime.buffer c = none
  unfinished : host.client.pingResult c = none

/-- Nothing was sent to a channel before it was made. -/
theorem buffer_created (inv : k.Consistent) : k.buffer k.created = none := by
  cases full : k.buffer k.created with
  | none => rfl
  | some msg =>
      rcases inv.buffered full with ⟨delivery, member, same, _⟩
      rcases (inv.delivery_answers member).2.2 with ⟨call, found, _⟩
      exact absurd (inv.call_created found) (by rw [same]; exact Nat.lt_irrefl _)

/-- The runtime of a node that has just started a `ping`. -/
def pinging (host : Host) (dest : UDPAddr) (id : Bytes) : KrpcRuntime :=
  host.client.krpcRuntime.enqueuePendingRequest dest host.client.pingQuery id

/-- The call of that `ping`. -/
def pingCall (host : Host) (dest : UDPAddr) (id : Bytes) : RpcCall where
  dest := dest
  msg := { host.client.pingQuery with transactionId := id }
  responseChannel := host.client.krpcRuntime.created
  transactionId := id
  phase := .writing
  result := none

theorem pinging_call (host : Host) (dest : UDPAddr) (id : Bytes) :
    (host.pinging dest id).call host.client.krpcRuntime.created =
      some (host.pingCall dest id) :=
  Function.update_self _ _ _

/-- The runtime after the query has been written. -/
def pinged (host : Host) (dest : UDPAddr) (id : Bytes) : KrpcRuntime :=
  (host.pinging dest id).setCall host.client.krpcRuntime.created
    { host.pingCall dest id with phase := .waiting }

theorem step_ping (first second : Fin letterBytes.length) :
    step host (.client (.ping dest first second)) =
      some (host.withRuntime (host.pinging dest (generateTransactionId first second))) :=
  rfl

theorem step_writePing :
    step (host.withRuntime (host.pinging dest id))
        (.client (.runtime (.writeToUDP host.client.krpcRuntime.created true))) =
      some (host.withRuntime (host.pinged dest id)) :=
  @step_runtime (host.withRuntime (host.pinging dest id)) _ _
    (StepCase.wrote (host.pinging_call dest id) rfl).step rfl rfl

theorem writes_writePing :
    writes (host.withRuntime (host.pinging dest id))
        (.client (.runtime (.writeToUDP host.client.krpcRuntime.created true))) =
      [(dest, (KrpcMessage.query { host.client.pingQuery with transactionId := id }).encode)] := by
  simp only [writes, withRuntime_krpcRuntime, pinging_call]
  rfl

theorem waiting_pinged (inv : host.client.krpcRuntime.Consistent)
    (reading : host.client.krpcRuntime.receiver = .reading)
    (unfinished : host.client.pingResult host.client.krpcRuntime.created = none) :
    Waiting (host.withRuntime (host.pinged dest id)) host.client.krpcRuntime.created dest id where
  call := ⟨_, Function.update_self _ _ _, rfl, rfl, rfl⟩
  stored := Function.update_self _ _ _
  reading := reading
  empty := buffer_created inv
  unfinished := unfinished

/-! ## Reading -/

/-- What the receive loop reads may start a goroutine. -/
theorem step_read {srcAddr : UDPAddr} {datagram : Bytes}
    (performed : Go.step host.client.krpcRuntime
      (.readFromUDP srcAddr (datagram.take receiveBufferSize)) = some k) :
    step host (.readFromUDP srcAddr datagram) =
      some { host.withRuntime k with
        handlers := handlersOf srcAddr (datagram.take receiveBufferSize) ++ host.handlers } := by
  have noCall : DhtClient.makesCall
      (.readFromUDP srcAddr (datagram.take receiveBufferSize)) = false := rfl
  rw [step, DhtClient.step, noCall, if_neg Bool.false_ne_true, performed]
  rfl

/-- A query starts a goroutine. -/
def queried (host : Host) (msg : KrpcQuery) (srcAddr : UDPAddr) : Host :=
  { host.withRuntime
      { host.client.krpcRuntime with
        arrivals := host.client.krpcRuntime.arrivals + 1
        receiver := .reading } with
    handlers := ⟨msg, srcAddr⟩ :: host.handlers }

theorem step_readQuery {srcAddr : UDPAddr} {datagram : Bytes} {msg : KrpcQuery}
    (reading : host.client.krpcRuntime.receiver = .reading)
    (read : received (datagram.take receiveBufferSize) = some (some (.query msg))) :
    step host (.readFromUDP srcAddr datagram) = some (host.queried msg srcAddr) := by
  rw [step_read (StepCase.queried reading read rfl).step, handlersOf, read]
  rfl

/-- A goroutine writes the response to its query. -/
theorem step_writeReply (msg : KrpcQuery) (srcAddr : UDPAddr) :
    step (host.queried msg srcAddr) (.writeReply 0 true) =
      some { host.queried msg srcAddr with handlers := host.handlers } := by
  have inside : 0 < (host.queried msg srcAddr).handlers.length := Nat.succ_pos _
  rw [step, if_pos inside]
  rfl

theorem writes_writeReply (msg : KrpcQuery) (srcAddr : UDPAddr) :
    writes (host.queried msg srcAddr) (.writeReply 0 true) =
      (host.queried msg srcAddr).client.response ⟨msg, srcAddr⟩ :=
  rfl

/-- Neither stands in the way of a `ping` that waits. -/
theorem Waiting.queried (waiting : host.Waiting c dest id) (msg : KrpcQuery) (srcAddr : UDPAddr)
    (handlers : List Handler) :
    Waiting { host.queried msg srcAddr with handlers := handlers } c dest id where
  call := waiting.call
  stored := waiting.stored
  reading := rfl
  empty := waiting.empty
  unfinished := waiting.unfinished

/-! ## The reply -/

/-- The node with the reply at hand. -/
def replied (host : Host) (msg : KrpcMessage) : Host :=
  host.withRuntime
    { host.client.krpcRuntime with
      arrivals := host.client.krpcRuntime.arrivals + 1
      receiver := .dispatching host.client.krpcRuntime.arrivals msg }

theorem step_readReply {srcAddr : UDPAddr} {datagram : Bytes} {msg : KrpcMessage}
    (reading : host.client.krpcRuntime.receiver = .reading)
    (read : received (datagram.take receiveBufferSize) = some (some msg))
    (reply : msg.isQuery = false) :
    step host (.readFromUDP srcAddr datagram) = some (host.replied msg) := by
  have noHandler : handlersOf srcAddr (datagram.take receiveBufferSize) = [] := by
    rw [List.eq_nil_iff_forall_not_mem]
    intro handler member
    cases (mem_handlersOf.mp member).1.symm.trans read
    cases reply
  rw [step_read (StepCase.replied reading read reply).step, noHandler]
  rfl

/-- The call of the `ping` gets the reply. -/
theorem Waiting.returns (waiting : host.Waiting c dest id) {msg : KrpcMessage}
    (sameId : msg.getTransactionId = id) :
    ∃ k call, Reachable endpoint.inner (host.replied msg) (host.withRuntime k) ∧
      k.call c = some call ∧ call.dest = dest ∧ call.result = some (.ok msg) := by
  rcases waiting.call with ⟨call, found, isWaiting, isDest, ownChannel⟩
  have stored : (host.replied msg).client.krpcRuntime.pendingRequests msg.getTransactionId =
      some c := sameId ▸ waiting.stored
  have arrived : Function.update host.client.krpcRuntime.buffer c (some msg) call.responseChannel =
      some msg := by
    rw [ownChannel, Function.update_self]
  have taken := (Reachable.refl endpoint.inner (host.replied msg)).step
    (inner_runtime (StepCase.step (.dequeued rfl stored)) rfl rfl)
  have sent := taken.step (inner_runtime (StepCase.step (.sent rfl waiting.empty)) rfl rfl)
  have returned := sent.step
    (inner_runtime (StepCase.step (.selectedReply found isWaiting arrived)) rfl rfl)
  exact ⟨_, _, returned, Function.update_self _ _ _, isDest, rfl⟩

/-- A `ping` whose call has got the reply adds the id in it. -/
theorem inner_finishPing {call : RpcCall} {msg : KrpcMessage} {peerId : NodeId}
    {table : RoutingTable} (found : host.client.krpcRuntime.call c = some call)
    (result : call.result = some (.ok msg)) (unfinished : host.client.pingResult c = none)
    (isId : peerNodeId msg = .ok (some peerId))
    (added : host.client.routingTable.addEntry ⟨peerId, call.dest⟩ = some table) :
    endpoint.inner host (.client (.finishPing c)) = some
      { host with
        client := { host.client with routingTable := table }.returnPing c (.ok msg) } := by
  have clientStep : DhtClient.step host.client (.finishPing c) =
      some ({ host.client with routingTable := table }.returnPing c (.ok msg)) := by
    simp only [DhtClient.step, found, unfinished, result, Option.bind_some, DhtClient.finishPing,
      isId, added, Option.map_some]
  have noRead : isRead (.finishPing c) = false := rfl
  refine Endpoint.inner_eq_some.mpr ⟨rfl, ?_⟩
  show step host (.client (.finishPing c)) = _
  rw [step, noRead, if_neg Bool.false_ne_true, clientStep]
  rfl

/-- The node ends the `ping` with the reply, and the id in it is added with the
address of the `ping`. -/
theorem Waiting.finishes (waiting : host.Waiting c dest id) {msg : KrpcMessage} {peerId : NodeId}
    {table : RoutingTable} (sameId : msg.getTransactionId = id)
    (isId : peerNodeId msg = .ok (some peerId))
    (added : host.client.routingTable.addEntry ⟨peerId, dest⟩ = some table) :
    ∃ host' call, Reachable endpoint.inner (host.replied msg) host' ∧
      host'.client.krpcRuntime.call c = some call ∧ call.dest = dest ∧
      host'.client.pingResult c = some (.ok msg) ∧ host'.client.routingTable = table := by
  rcases waiting.returns sameId with ⟨k, call, returned, found, rfl, result⟩
  have finished := @inner_finishPing (host.withRuntime k) c call msg peerId table found result
    waiting.unfinished isId added
  exact ⟨_, call, returned.step finished, found, rfl, Function.update_self _ _ _, rfl⟩

end MainlineDht.Go.Host
