import MainlineDht.Go.QueryHandling
import MainlineDht.Go.RoutingTableInsertion
import MainlineDht.Transition.Network

/-!
# A Go node at its socket

The client of `main.go` together with the goroutines that `receiveMessages`
starts for queries.  A goroutine writes its reply whenever it gets to run.  The
node reads a source address and a datagram at a time, and writes a datagram to a
destination.
-/

namespace MainlineDht.Go

open Transition

/-- A goroutine that is to reply to a query. -/
structure Handler where
  msg : KrpcQuery
  srcAddr : UDPAddr

/-- A node: its client, and the goroutines that have a query to answer. -/
structure Host where
  client : DhtClient
  handlers : List Handler

/-- What may happen next: a step of the client other than a read, the read of a
datagram, or the write of the n-th goroutine. -/
inductive HostAction
  | client (action : ClientAction)
  | readFromUDP (srcAddr : UDPAddr) (datagram : Bytes)
  | writeReply (n : Nat) (ok : Bool)

/-- The goroutine that `receiveMessages` starts after a datagram, if any. -/
def handlersOf (srcAddr : UDPAddr) (datagram : Bytes) : List Handler :=
  match received datagram with
  | some (some (.query msg)) => [{ msg := msg, srcAddr := srcAddr }]
  | _ => []

/-- What the goroutine writes. -/
def DhtClient.response (client : DhtClient) (handler : Handler) : List (UDPAddr × Bytes) :=
  match client.handleQuery handler.msg with
  | some response =>
      [(handler.srcAddr, (response.setTransactionId handler.msg.transactionId).encode)]
  | none => []

namespace Host

/-- `ENTRIES` -/
def entries : Nat := 8

/-- The node that `main` starts. -/
def start (thisNodeInfo : NodeInfo) : Host where
  client := startDhtClient thisNodeInfo (newRoutingTable entries thisNodeInfo)
  handlers := []

/-- Datagrams are read by the receive loop alone. -/
def isRead : ClientAction → Bool
  | .runtime (.readFromUDP _ _) => true
  | _ => false

/-- A step of the node.  A datagram is cut off at the end of the buffer. -/
def step : Step Host HostAction
  | host, .client action =>
      if isRead action then none
      else (host.client.step action).map fun client => { host with client := client }
  | host, .readFromUDP srcAddr datagram =>
      let bytes := datagram.take receiveBufferSize
      (host.client.step (.runtime (.readFromUDP srcAddr bytes))).map fun client =>
        { client := client, handlers := handlersOf srcAddr bytes ++ host.handlers }
  | host, .writeReply n _ =>
      if n < host.handlers.length then
        some { host with handlers := host.handlers.eraseIdx n }
      else none

/-- The datagram of an action, and the address it is from. -/
def reads : HostAction → Option (UDPAddr × Bytes)
  | .readFromUDP srcAddr datagram => some (srcAddr, datagram)
  | _ => none

/-- A successful write of a call or of a goroutine. -/
def writes (host : Host) : HostAction → List (UDPAddr × Bytes)
  | .client (.runtime (.writeToUDP c true)) =>
      match host.client.krpcRuntime.call c with
      | some call => [(call.dest, (KrpcMessage.query call.msg).encode)]
      | none => []
  | .writeReply n true =>
      match host.handlers[n]? with
      | some handler => host.client.response handler
      | none => []
  | _ => []

/-- The node as a component of a network. -/
def endpoint : Endpoint Host HostAction UDPAddr Bytes where
  next := step
  reads := reads
  writes := writes

/-- The action panics: the decoder does, or `addEntry`. -/
def Panics (host : Host) : HostAction → Prop
  | .client (.finishPing c) =>
      ∃ entry, host.client.Adds c entry ∧ host.client.routingTable.addEntry entry = none
  | .readFromUDP _ datagram =>
      host.client.krpcRuntime.receiver = .reading ∧
        received (datagram.take receiveBufferSize) = none
  | _ => False

end Host

/-- The goroutines write what the receive loop replies with. -/
theorem replies_eq_responses (client : DhtClient) (srcAddr : UDPAddr) (datagram : Bytes) :
    client.replies srcAddr datagram = (handlersOf srcAddr datagram).flatMap client.response := by
  unfold DhtClient.replies
  split
  · rename_i msg arrived
    rw [handlersOf, arrived, List.flatMap_singleton]
    rfl
  · rename_i other
    unfold handlersOf
    split
    · rename_i msg arrived
      exact absurd arrived (other msg)
    · rfl

/-! ## What a step of the runtime changes -/

variable {k k' : KrpcRuntime} {action : Action} {msg : KrpcMessage} {c : Nat} {call : RpcCall}

/-- The message is a reply that the receive loop has at hand or has delivered. -/
def KrpcRuntime.Holds (k : KrpcRuntime) (msg : KrpcMessage) : Prop :=
  (∃ arrival, k.receiver = .dispatching arrival msg) ∨
    (∃ arrival ch, k.receiver = .sending arrival ch msg) ∨
      ∃ delivery ∈ k.deliveries, delivery.msg = msg

/-- Replies come in through the socket only. -/
theorem StepCase.holds (stepped : StepCase k action k') (held : k'.Holds msg) :
    k.Holds msg ∨ ∃ srcAddr datagram, action = .readFromUDP srcAddr datagram ∧
      received datagram = some (some msg) ∧ msg.isQuery = false := by
  unfold KrpcRuntime.Holds at held ⊢
  cases stepped with
  | enqueued | wrote | writeFailed | ignored | selectedReply | selectedTimeout | cancelled =>
      exact Or.inl held
  | queried _ _ _ =>
      rcases held with ⟨arrival, receiver⟩ | ⟨arrival, ch, receiver⟩ | delivered
      · cases receiver
      · cases receiver
      · exact Or.inl (Or.inr (Or.inr delivered))
  | replied _ arrived reply =>
      rcases held with ⟨arrival, receiver⟩ | ⟨arrival, ch, receiver⟩ | delivered
      · cases receiver
        exact Or.inr ⟨_, _, rfl, arrived, reply⟩
      · cases receiver
      · exact Or.inl (Or.inr (Or.inr delivered))
  | dequeued dispatching _ =>
      rcases held with ⟨arrival, receiver⟩ | ⟨arrival, ch, receiver⟩ | delivered
      · cases receiver
      · cases receiver
        exact Or.inl (Or.inl ⟨_, dispatching⟩)
      · exact Or.inl (Or.inr (Or.inr delivered))
  | unsolicited _ _ =>
      rcases held with ⟨arrival, receiver⟩ | ⟨arrival, ch, receiver⟩ | delivered
      · cases receiver
      · cases receiver
      · exact Or.inl (Or.inr (Or.inr delivered))
  | sent sending _ =>
      rcases held with ⟨arrival, receiver⟩ | ⟨arrival, ch, receiver⟩ | ⟨delivery, member, same⟩
      · cases receiver
      · cases receiver
      · rcases List.mem_cons.mp member with rfl | earlier
        · cases same
          exact Or.inl (Or.inr (Or.inl ⟨_, _, sending⟩))
        · exact Or.inl (Or.inr (Or.inr ⟨delivery, earlier, same⟩))

/-- What a call keeps in a step, and that its query goes out by a write. -/
structure Continues (action : Action) (c : Nat) (before call : RpcCall) : Prop where
  dest : call.dest = before.dest
  msg : call.msg = before.msg
  transactionId : call.transactionId = before.transactionId
  sent : call.HasSent → before.HasSent ∨ action = .writeToUDP c true

theorem Continues.refl (action : Action) (c : Nat) (call : RpcCall) : Continues action c call call where
  dest := rfl
  msg := rfl
  transactionId := rfl
  sent := Or.inl

/-- The call has just been made. -/
structure Begins (action : Action) (call : RpcCall) : Prop where
  enqueued : ∃ query first second,
    action = .enqueuePendingRequest call.dest query first second ∧
      call.transactionId = generateTransactionId first second ∧
      call.msg = { query with transactionId := call.transactionId }
  unsent : ¬ call.HasSent

theorem KrpcRuntime.exists_update {c' : Nat} {after : RpcCall} (found : k.call c = some call) :
    ∃ now, Function.update k.call c' (some after) c = some now := by
  by_cases here : c = c'
  · subst here
    exact ⟨after, Function.update_self _ _ _⟩
  · exact ⟨call, (Function.update_of_ne here _ _).trans found⟩

/-- A call was there before the step, or it has just been made. -/
theorem StepCase.call_cases (stepped : StepCase k action k') (found : k'.call c = some call) :
    (∃ before, k.call c = some before ∧ Continues action c before call) ∨ Begins action call := by
  have onward {c' : Nat} {before after : RpcCall} (found' : k.call c' = some before)
      (now : Function.update k.call c' (some after) c = some call)
      (kept : Continues action c' before after) :
      ∃ before, k.call c = some before ∧ Continues action c before call := by
    rcases KrpcRuntime.setCall_found now with ⟨rfl, rfl⟩ | earlier
    · exact ⟨before, found', kept⟩
    · exact ⟨call, earlier, .refl action c call⟩
  cases stepped with
  | enqueued dest query first second =>
      by_cases here : c = k.created
      · subst here
        rw [KrpcRuntime.enqueuePendingRequest_call_eq, Function.update_self, Option.some_inj] at found
        subst found
        refine Or.inr ⟨⟨query, first, second, rfl, rfl, rfl⟩, ?_⟩
        simp [RpcCall.HasSent]
      · rw [KrpcRuntime.enqueuePendingRequest_call_eq, Function.update_of_ne here] at found
        exact Or.inl ⟨call, found, .refl _ c call⟩
  | wrote found' _ => exact Or.inl (onward found' found ⟨rfl, rfl, rfl, fun _ => Or.inr rfl⟩)
  | writeFailed found' _ =>
      refine Or.inl (onward found' found ⟨rfl, rfl, rfl, fun sent => absurd sent ?_⟩)
      simp [RpcCall.HasSent]
  | ignored | queried | replied | dequeued | unsolicited | sent =>
      exact Or.inl ⟨call, found, .refl _ c call⟩
  | selectedReply found' waiting _ =>
      exact Or.inl (onward found' found ⟨rfl, rfl, rfl, fun _ => Or.inl (Or.inl waiting)⟩)
  | selectedTimeout found' waiting =>
      exact Or.inl (onward found' found ⟨rfl, rfl, rfl, fun _ => Or.inl (Or.inl waiting)⟩)
  | cancelled found' timedOut =>
      exact Or.inl
        (onward found' found ⟨rfl, rfl, rfl, fun _ => Or.inl (Or.inr (Or.inl timedOut))⟩)

/-- A call that was there goes on. -/
theorem StepCase.call_kept (inv : k.Consistent) (stepped : StepCase k action k')
    (found : k.call c = some call) :
    ∃ after, k'.call c = some after ∧ Continues action c call after := by
  have there : ∃ after, k'.call c = some after := by
    cases stepped with
    | enqueued dest query first second =>
        have older := Nat.ne_of_lt (inv.call_created found)
        exact ⟨call, (Function.update_of_ne older _ _).trans found⟩
    | ignored | queried | replied | dequeued | unsolicited | sent => exact ⟨call, found⟩
    | wrote | writeFailed | selectedReply | selectedTimeout | cancelled =>
        exact KrpcRuntime.exists_update found
  rcases there with ⟨after, isAfter⟩
  rcases stepped.call_cases isAfter with ⟨before, earlier, kept⟩ | begins
  · cases earlier.symm.trans found
    exact ⟨after, isAfter, kept⟩
  · rcases begins.enqueued with ⟨query, first, second, rfl, isId, isMsg⟩
    cases stepped
    have older := Nat.ne_of_lt (inv.call_created found)
    rw [KrpcRuntime.enqueuePendingRequest_call_eq, Function.update_of_ne older, found,
      Option.some_inj] at isAfter
    subst isAfter
    exact ⟨call, (Function.update_of_ne older _ _).trans found, .refl _ c call⟩

/-! ## What a step of the client changes -/

namespace DhtClient

variable {client client' : DhtClient} {action : ClientAction}

/-- What `ping` makes of the result of its call. -/
def pingOutcome (result : Except CallError KrpcMessage) : Except PingError KrpcMessage :=
  match result with
  | .error err => .error (.call err)
  | .ok response =>
      match peerNodeId response with
      | .error err => .error (.reply err)
      | .ok _ => .ok response

/-- At its end a `ping` returns what it makes of the result of its call; besides,
only the routing table changes. -/
theorem finishPing_cases {c : Nat} (stepped : DhtClient.step client (.finishPing c) = some client') :
    ∃ call got table, client.krpcRuntime.call c = some call ∧ call.result = some got ∧
      client' = { client with routingTable := table }.returnPing c (pingOutcome got) := by
  rw [DhtClient.step] at stepped
  split at stepped
  · rename_i call found _
    rcases Option.bind_eq_some_iff.mp stepped with ⟨got, isGot, finished⟩
    unfold finishPing at finished
    split at finished
    · cases finished
      exact ⟨call, _, client.routingTable, found, isGot, rfl⟩
    · split at finished
      · rename_i err isError
        cases finished
        refine ⟨call, _, client.routingTable, found, isGot, ?_⟩
        simp only [pingOutcome, isError]
      · rename_i isNone
        cases finished
        refine ⟨call, _, client.routingTable, found, isGot, ?_⟩
        simp only [pingOutcome, isNone]
      · rename_i id isId
        rcases Option.map_eq_some_iff.mp finished with ⟨table, _, rfl⟩
        refine ⟨call, _, table, found, isGot, ?_⟩
        simp only [pingOutcome, isId]
  · cases stepped

theorem thisNodeInfo_of_step (stepped : DhtClient.step client action = some client') :
    client'.thisNodeInfo = client.thisNodeInfo := by
  cases action with
  | ping dest first second =>
      rcases step_ping stepped with ⟨k, _, rfl⟩
      rfl
  | runtime action =>
      rcases step_runtime stepped with ⟨k, _, rfl⟩
      rfl
  | finishPing c =>
      rcases finishPing_cases stepped with ⟨_, _, table, _, _, rfl⟩
      rfl

/-- The runtime takes its own step, or rests; calls are made for pings only. -/
theorem krpcRuntime_of_step (stepped : DhtClient.step client action = some client') :
    client'.krpcRuntime = client.krpcRuntime ∨ ∃ b,
      Go.step client.krpcRuntime b = some client'.krpcRuntime ∧
        (action = .runtime b ∧ makesCall b = false ∨ ∃ dest first second,
          b = .enqueuePendingRequest dest client.pingQuery first second) := by
  cases action with
  | ping dest first second =>
      rcases step_ping stepped with ⟨k, performed, rfl⟩
      exact Or.inr ⟨_, performed, Or.inr ⟨dest, first, second, rfl⟩⟩
  | runtime action =>
      have noCall : makesCall action = false := by
        rw [DhtClient.step] at stepped
        split_ifs at stepped with makes
        simpa using makes
      rcases step_runtime stepped with ⟨k, performed, rfl⟩
      exact Or.inr ⟨action, performed, Or.inl ⟨rfl, noCall⟩⟩
  | finishPing c => exact Or.inl (step_finishPing stepped).1

/-- A `ping` returns at its end, with what it makes of the result of its call. -/
theorem pingResult_of_step (stepped : DhtClient.step client action = some client') {c : Nat}
    {result : Except PingError KrpcMessage} (returned : client'.pingResult c = some result) :
    client.pingResult c = some result ∨ ∃ call got, client.krpcRuntime.call c = some call ∧
      call.result = some got ∧ result = pingOutcome got := by
  cases action with
  | ping dest first second =>
      rcases step_ping stepped with ⟨k, _, rfl⟩
      exact Or.inl returned
  | runtime action =>
      rcases step_runtime stepped with ⟨k, _, rfl⟩
      exact Or.inl returned
  | finishPing c' =>
      rcases finishPing_cases stepped with ⟨call, got, table, found, isGot, rfl⟩
      have now : Function.update client.pingResult c' (some (pingOutcome got)) c = some result :=
        returned
      by_cases here : c = c'
      · subst here
        rw [Function.update_self, Option.some_inj] at now
        exact Or.inr ⟨call, got, found, isGot, now.symm⟩
      · rw [Function.update_of_ne here] at now
        exact Or.inl now

end DhtClient

/-! ## What a step of the node writes and leaves -/

namespace Host

variable {host host' : Host} {action : HostAction} {dest : UDPAddr} {bytes : Bytes}

/-- A write is the query of a call or the reply of a goroutine. -/
theorem mem_writes (written : (dest, bytes) ∈ writes host action) :
    (∃ c call, action = .client (.runtime (.writeToUDP c true)) ∧
      host.client.krpcRuntime.call c = some call ∧ dest = call.dest ∧
        bytes = (KrpcMessage.query call.msg).encode) ∨
      ∃ handler ∈ host.handlers, (dest, bytes) ∈ host.client.response handler := by
  unfold writes at written
  split at written
  · rename_i c
    split at written
    · rename_i call found
      rcases Prod.mk.inj (List.mem_singleton.mp written) with ⟨rfl, rfl⟩
      exact Or.inl ⟨c, call, rfl, found, rfl, rfl⟩
    · cases written
  · split at written
    · rename_i handler found
      exact Or.inr ⟨handler, List.mem_of_getElem? found, written⟩
    · cases written
  · cases written

/-- A step of the node is a step of its client, which may start a goroutine, or
the end of one. -/
theorem step_cases (stepped : step host action = some host') :
    (∃ a, action = .client a ∧ isRead a = false ∧ host.client.step a = some host'.client ∧
      host'.handlers = host.handlers) ∨
    (∃ srcAddr datagram, action = .readFromUDP srcAddr datagram ∧
      host.client.step (.runtime (.readFromUDP srcAddr (datagram.take receiveBufferSize))) =
        some host'.client ∧
      host'.handlers = handlersOf srcAddr (datagram.take receiveBufferSize) ++ host.handlers) ∨
    ∃ n ok, action = .writeReply n ok ∧ n < host.handlers.length ∧ host'.client = host.client ∧
      host'.handlers = host.handlers.eraseIdx n := by
  cases action with
  | client a =>
      rw [step] at stepped
      split_ifs at stepped with read
      rcases Option.map_eq_some_iff.mp stepped with ⟨client, performed, rfl⟩
      exact Or.inl ⟨a, rfl, by simpa using read, performed, rfl⟩
  | readFromUDP srcAddr datagram =>
      rcases Option.map_eq_some_iff.mp stepped with ⟨client, performed, rfl⟩
      exact Or.inr (Or.inl ⟨srcAddr, datagram, rfl, performed, rfl⟩)
  | writeReply n ok =>
      rw [step] at stepped
      split_ifs at stepped with inside
      cases stepped
      exact Or.inr (Or.inr ⟨n, ok, rfl, inside, rfl, rfl⟩)

theorem mem_handlersOf {handler : Handler} {srcAddr : UDPAddr} {datagram : Bytes} :
    handler ∈ handlersOf srcAddr datagram ↔
      received datagram = some (some (.query handler.msg)) ∧ handler.srcAddr = srcAddr := by
  unfold handlersOf
  split
  · rename_i msg arrived
    rw [List.mem_singleton, arrived]
    constructor
    · rintro rfl
      exact ⟨rfl, rfl⟩
    · rintro ⟨same, rfl⟩
      cases same
      rfl
  · rename_i other
    constructor
    · rintro ⟨⟩
    · rintro ⟨arrived, _⟩
      exact absurd arrived (other handler.msg)

/-! ## The client of the node -/

/-- What an action does to the client; a goroutine leaves it alone. -/
def clientAction : Host → HostAction → Option ClientAction
  | _, .client action => some action
  | _, .readFromUDP srcAddr datagram =>
      some (.runtime (.readFromUDP srcAddr (datagram.take receiveBufferSize)))
  | _, .writeReply _ _ => none

/-- A run of the node is a run of its client. -/
theorem clientRun {thisNodeInfo : NodeInfo} {history : List (Host × HostAction)}
    (run : Run step (start thisNodeInfo) history host) :
    Run DhtClient.step (startDhtClient thisNodeInfo (newRoutingTable entries thisNodeInfo))
      (component Host.client clientAction history) host.client := by
  have steps {before after : Host} {action : HostAction} {a : ClientAction}
      (stepped : step before action = some after) (visible : clientAction before action = some a) :
      DhtClient.step before.client a = some after.client := by
    rcases step_cases stepped with ⟨_, rfl, _, performed, _⟩ | ⟨_, _, rfl, performed, _⟩ |
      ⟨_, _, rfl, _⟩
    · cases visible
      exact performed
    · cases visible
      exact performed
    · cases visible
  have rests {before after : Host} {action : HostAction}
      (stepped : step before action = some after) (hidden : clientAction before action = none) :
      after.client = before.client := by
    rcases step_cases stepped with ⟨_, rfl, _⟩ | ⟨_, _, rfl, _⟩ | ⟨_, _, rfl, _, same, _⟩
    · cases hidden
    · cases hidden
    · exact same
  exact run.component steps rests

end Host

end MainlineDht.Go
