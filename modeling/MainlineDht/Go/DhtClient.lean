import MainlineDht.Go.KrpcProvenance
import MainlineDht.Go.RoutingTable

/-!
# The Go DHT client

Any number of `ping` invocations run on one KRPC runtime and share one routing
table.  The calls of the runtime are all made by `ping`, which goes on when its
`rpcCall` has returned.  What the user and the network do is up to the actions.
-/

namespace MainlineDht.Go

open Ordered Bencode Transition

/-- The name `id` of an argument and a return value. -/
def keyId : Bytes := [105, 100]

/-- The method name `ping`. -/
def methodPing : Bytes := [112, 105, 110, 103]

/-- What `ping` may find wrong with a response. -/
inductive PingReplyError
  | missingId
  | invalidId

/-- The texts of the errors. -/
def PingReplyError.message : PingReplyError → String
  | missingId => "missing 'id' field in response"
  | invalidId => "invalid 'id' field in response"

/-- The errors of `ping`. -/
inductive PingError
  | call (err : CallError)
  | reply (err : PingReplyError)

/-- The id that `ping` takes out of a response; none out of a message of another
kind. -/
def peerNodeId (response : KrpcMessage) : Except PingReplyError (Option NodeId) :=
  match response with
  | .response reply =>
      match Entries.lookup keyId reply.returnValues with
      | none => .error .missingId
      | some (.bytes id) =>
          if length : id.length = 20 then .ok (some ⟨id, length⟩) else .error .invalidId
      | some _ => .error .invalidId
  | _ => .ok none

/-- `pingResult` observes what the invocations have returned; an invocation has
the number of its call. -/
structure DhtClient where
  thisNodeInfo : NodeInfo
  routingTable : RoutingTable
  krpcRuntime : KrpcRuntime
  pingResult : Nat → Option (Except PingError KrpcMessage)

/-- A client with a new runtime, in which no `ping` has been made. -/
def startDhtClient (thisNodeInfo : NodeInfo) (routingTable : RoutingTable) : DhtClient where
  thisNodeInfo := thisNodeInfo
  routingTable := routingTable
  krpcRuntime := newKrpcRuntime
  pingResult _ := none

/-- What may happen next: a new `ping` up to its write, a step of a call or of
the receive loop, or the rest of a `ping` whose call has returned. -/
inductive ClientAction
  | ping (dest : UDPAddr) (first second : Fin letterBytes.length)
  | runtime (action : Action)
  | finishPing (c : Nat)

namespace DhtClient

/-- The query of a `ping`. -/
def pingQuery (client : DhtClient) : KrpcQuery where
  transactionId := []
  methodName := methodPing
  arguments := [(keyId, .bytes client.thisNodeInfo.nodeId.val)]

/-- The invocation returns. -/
def returnPing (client : DhtClient) (c : Nat) (result : Except PingError KrpcMessage) :
    DhtClient :=
  { client with pingResult := Function.update client.pingResult c (some result) }

/-- `ping` from the return of its `rpcCall` on. -/
def finishPing (client : DhtClient) (c : Nat) (dest : UDPAddr)
    (result : Except CallError KrpcMessage) : Option DhtClient :=
  match result with
  | .error err => some (client.returnPing c (.error (.call err)))
  | .ok response =>
      match peerNodeId response with
      | .error err => some (client.returnPing c (.error (.reply err)))
      | .ok none => some (client.returnPing c (.ok response))
      | .ok (some id) =>
          (client.routingTable.addEntry { nodeId := id, address := dest }).map fun table =>
            { client with routingTable := table }.returnPing c (.ok response)

/-- The action of the runtime in a step of the client.  All calls are made by `ping`. -/
def runtimeAction (client : DhtClient) : ClientAction → Option Action
  | .ping dest first second =>
      some (.enqueuePendingRequest dest client.pingQuery first second)
  | .runtime action => some action
  | .finishPing _ => none

/-- No call but those of `ping` is made. -/
def makesCall : Action → Bool
  | .enqueuePendingRequest _ _ _ _ => true
  | _ => false

/-- A step of the client, if its action is possible. -/
def step : Step DhtClient ClientAction
  | client, .ping dest first second =>
      (Go.step client.krpcRuntime
        (.enqueuePendingRequest dest client.pingQuery first second)).map fun k =>
          { client with krpcRuntime := k }
  | client, .runtime action =>
      if makesCall action then none
      else (Go.step client.krpcRuntime action).map fun k => { client with krpcRuntime := k }
  | client, .finishPing c =>
      match client.krpcRuntime.call c, client.pingResult c with
      | some call, none => call.result.bind (client.finishPing c call.dest)
      | _, _ => none

/-- The steps of the runtime in a run of the client. -/
def krpcHistory (history : List (DhtClient × ClientAction)) : KrpcHistory :=
  component krpcRuntime runtimeAction history

/-- The `ping` is about to hand the entry to `addEntry`. -/
def Adds (client : DhtClient) (c : Nat) (entry : NodeInfo) : Prop :=
  ∃ call response, client.krpcRuntime.call c = some call ∧ client.pingResult c = none ∧
    call.result = some (.ok response) ∧ peerNodeId response = .ok (some entry.nodeId) ∧
    entry.address = call.dest

/-! ## Steps -/

variable {client client' : DhtClient} {c : Nat}

theorem step_ping {dest : UDPAddr} {first second : Fin letterBytes.length}
    (stepped : step client (.ping dest first second) = some client') :
    ∃ k, Go.step client.krpcRuntime
        (.enqueuePendingRequest dest client.pingQuery first second) = some k ∧
      client' = { client with krpcRuntime := k } := by
  rw [step, Option.map_eq_some_iff] at stepped
  obtain ⟨k, performed, same⟩ := stepped
  exact ⟨k, performed, same.symm⟩

theorem step_runtime {action : Action} (stepped : step client (.runtime action) = some client') :
    ∃ k, Go.step client.krpcRuntime action = some k ∧
      client' = { client with krpcRuntime := k } := by
  rw [step] at stepped
  split at stepped
  · cases stepped
  · obtain ⟨k, performed, same⟩ := Option.map_eq_some_iff.mp stepped
    exact ⟨k, performed, same.symm⟩

/-- The end of a `ping` leaves the runtime alone, and the routing table, too,
unless it hands over an entry. -/
theorem step_finishPing (stepped : step client (.finishPing c) = some client') :
    client'.krpcRuntime = client.krpcRuntime ∧
      (client'.routingTable = client.routingTable ∨
        ∃ entry, client.Adds c entry ∧
          client.routingTable.addEntry entry = some client'.routingTable) := by
  rw [step] at stepped
  split at stepped
  · rename_i call found unfinished
    obtain ⟨result, isResult, finished⟩ := Option.bind_eq_some_iff.mp stepped
    unfold finishPing at finished
    split at finished
    · cases finished
      exact ⟨rfl, Or.inl rfl⟩
    · rename_i response
      split at finished
      · cases finished
        exact ⟨rfl, Or.inl rfl⟩
      · cases finished
        exact ⟨rfl, Or.inl rfl⟩
      · rename_i id isId
        obtain ⟨table, added, rfl⟩ := Option.map_eq_some_iff.mp finished
        exact ⟨rfl, Or.inr ⟨⟨id, call.dest⟩,
          ⟨call, response, found, unfinished, isResult, isId, rfl⟩, added⟩⟩
  · cases stepped

/-- Only the end of a `ping` touches the routing table, and only with `addEntry`. -/
theorem routingTable_of_step {action : ClientAction}
    (stepped : step client action = some client') :
    client'.routingTable = client.routingTable ∨
      ∃ c entry, action = .finishPing c ∧ client.Adds c entry ∧
        client.routingTable.addEntry entry = some client'.routingTable := by
  cases action with
  | ping dest first second =>
      obtain ⟨k, _, rfl⟩ := step_ping stepped
      exact Or.inl rfl
  | runtime action =>
      obtain ⟨k, _, rfl⟩ := step_runtime stepped
      exact Or.inl rfl
  | finishPing c =>
      apply (step_finishPing stepped).2.imp_right
      rintro ⟨entry, adds, added⟩
      exact ⟨c, entry, rfl, adds, added⟩

/-- A run of the client is a run of its runtime. -/
theorem krpcRun {thisNodeInfo : NodeInfo} {routingTable : RoutingTable}
    {history : List (DhtClient × ClientAction)}
    (run : Run step (startDhtClient thisNodeInfo routingTable) history client) :
    Run Go.step newKrpcRuntime (krpcHistory history) client.krpcRuntime := by
  have steps {before after : DhtClient} {action : ClientAction} {b : Action}
      (stepped : step before action = some after) (visible : runtimeAction before action = some b) :
      Go.step before.krpcRuntime b = some after.krpcRuntime := by
    cases action with
    | ping dest first second =>
        cases visible
        obtain ⟨k, performed, rfl⟩ := step_ping stepped
        exact performed
    | runtime action =>
        cases visible
        obtain ⟨k, performed, rfl⟩ := step_runtime stepped
        exact performed
    | finishPing c => cases visible
  have rests {before after : DhtClient} {action : ClientAction}
      (stepped : step before action = some after) (hidden : runtimeAction before action = none) :
      after.krpcRuntime = before.krpcRuntime := by
    cases action with
    | ping dest first second => cases hidden
    | runtime action => cases hidden
    | finishPing c => exact (step_finishPing stepped).1
  exact run.component steps rests

end DhtClient

end MainlineDht.Go
