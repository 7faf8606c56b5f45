import MainlineDht.Go.HostProgress
import Mathlib.Data.List.Perm.Basic

/-!
# Whole runs of a Go node

Whatever the node reads, and however its goroutines are interleaved: each query
that it reads has one goroutine, and each of its calls writes one `ping` at most.
It writes nothing but these pings and the replies of goroutines.
-/

namespace MainlineDht.Go

open Ordered Transition

variable {k k' : KrpcRuntime} {action : Action} {c : Nat} {call : RpcCall}

/-! ## The calls of the runtime -/

namespace KrpcRuntime

/-- The call has sent its query. -/
def HasSent (k : KrpcRuntime) (c : Nat) : Prop :=
  ∃ call, k.call c = some call ∧ call.HasSent

/-- A call has no result before it returns. -/
def ResultsLast (k : KrpcRuntime) : Prop :=
  ∀ c call, k.call c = some call → call.phase ≠ .returned → call.result = none

/-- The query of a call, and where it goes. -/
def query (k : KrpcRuntime) (c : Nat) : List (UDPAddr × KrpcQuery) :=
  (k.call c).toList.map fun call => (call.dest, call.msg)

/-- The calls whose query a step sends. -/
def called : KrpcRuntime × Action → List Nat
  | (_, .writeToUDP c true) => [c]
  | _ => []

/-- What the calls of a run have sent: each that has sent its query has done so once. -/
structure SentOnce (history : KrpcHistory) (k : KrpcRuntime) : Prop where
  calls (c : Nat) : c ∈ history.flatMap called ↔ k.HasSent c
  once : (history.flatMap called).Nodup
  queries : (history.flatMap fun taken => (called taken).flatMap taken.1.query) =
    (history.flatMap called).flatMap k.query

theorem ResultsLast.setCall (last : k.ResultsLast) {after : RpcCall}
    (returns : after.phase ≠ .returned → after.result = none) : (k.setCall c after).ResultsLast := by
  intro c' call' found unreturned
  rcases setCall_found found with ⟨rfl, rfl⟩ | before
  · exact returns unreturned
  · exact last c' call' before unreturned

theorem ResultsLast.none (last : k.ResultsLast) (found : k.call c = some call) {phase : Phase}
    (now : call.phase = phase) (unreturned : phase ≠ .returned) : call.result = none := by
  subst now
  exact last c call found unreturned

/-- A call that is about to write has not written. -/
theorem ResultsLast.unsent (last : k.ResultsLast) (found : k.call c = some call)
    (writing : call.phase = .writing) : ¬ call.HasSent := by
  have none := last.none found writing (by decide)
  unfold RpcCall.HasSent
  rw [writing, none]
  simp

end KrpcRuntime

theorem StepCase.resultsLast (last : k.ResultsLast) (stepped : StepCase k action k') :
    k'.ResultsLast := by
  cases stepped with
  | enqueued dest query first second =>
      intro c call found unreturned
      rcases KrpcRuntime.enqueuePendingRequest_call found with ⟨_, _, _, _, _, none⟩ | before
      · exact none
      · exact last c call before unreturned
  | wrote found phase =>
      have none := last.none found phase (by decide)
      exact last.setCall fun _ => none
  | selectedTimeout found phase =>
      have none := last.none found phase (by decide)
      exact last.setCall fun _ => none
  | writeFailed | selectedReply | cancelled =>
      exact KrpcRuntime.ResultsLast.setCall last fun unreturned => absurd rfl unreturned
  | ignored | queried | replied | dequeued | unsolicited | sent => exact last

/-- The query of a call goes out in the one step that writes it. -/
theorem StepCase.hasSent_iff (inv : k.Consistent) (last : k.ResultsLast)
    (stepped : StepCase k action k') :
    k'.HasSent c ↔ k.HasSent c ∨ action = .writeToUDP c true := by
  constructor
  · rintro ⟨call, found, sent⟩
    rcases stepped.call_cases found with ⟨before, earlier, kept⟩ | begins
    · exact (kept.sent sent).imp (fun already => ⟨before, earlier, already⟩) id
    · exact absurd sent begins.unsent
  · rintro (⟨call, found, sent⟩ | rfl)
    · -- the phases after the write, and the results that follow them, all count
      have onward {c' : Nat} {before after : RpcCall} (found' : k.call c' = some before)
          (counts : before.HasSent → after.HasSent) :
          ∃ now, Function.update k.call c' (some after) c = some now ∧ now.HasSent := by
        by_cases here : c = c'
        · subst here
          cases found.symm.trans found'
          exact ⟨after, Function.update_self _ _ _, counts sent⟩
        · exact ⟨call, (Function.update_of_ne here _ _).trans found, sent⟩
      cases stepped with
      | enqueued dest query first second =>
          have older := Nat.ne_of_lt (inv.call_created found)
          exact ⟨call, (Function.update_of_ne older _ _).trans found, sent⟩
      | ignored | queried | replied | dequeued | unsolicited | sent => exact ⟨call, found, sent⟩
      | wrote found' _ => exact onward found' fun _ => Or.inl rfl
      | writeFailed found' writing =>
          exact onward found' fun already => absurd already (last.unsent found' writing)
      | selectedReply found' _ _ => exact onward found' fun _ => Or.inr (Or.inr (Or.inl ⟨_, rfl⟩))
      | selectedTimeout found' _ => exact onward found' fun _ => Or.inr (Or.inl rfl)
      | cancelled found' _ => exact onward found' fun _ => Or.inr (Or.inr (Or.inr rfl))
    · cases stepped with
      | wrote found _ => exact ⟨_, Function.update_self _ _ _, Or.inl rfl⟩

/-- A call keeps its query. -/
theorem StepCase.query_eq (inv : k.Consistent) (stepped : StepCase k action k')
    (found : k.call c = some call) : k'.query c = k.query c := by
  rcases stepped.call_kept inv found with ⟨after, isAfter, kept⟩
  simp only [KrpcRuntime.query, found, isAfter, Option.toList_some, List.map_cons, kept.dest,
    kept.msg, List.map_nil]

namespace KrpcRuntime

theorem mem_called : c ∈ called (k, action) ↔ action = .writeToUDP c true := by
  cases action with
  | writeToUDP c' ok => cases ok <;> simp [called, eq_comm]
  | _ => simp [called]

theorem SentOnce.push {history : KrpcHistory} (sent : SentOnce history k) (inv : k.Consistent)
    (last : k.ResultsLast) (stepped : StepCase k action k') :
    SentOnce ((k, action) :: history) k' where
  calls c := by
    rw [List.flatMap_cons, List.mem_append, sent.calls, mem_called, stepped.hasSent_iff inv last,
      or_comm]
  once := by
    have new : ∀ c ∈ called (k, action), c ∉ history.flatMap called := by
      intro c isCalled earlier
      rw [mem_called.mp isCalled] at stepped
      rcases (sent.calls c).mp earlier with ⟨call, found, hasSent⟩
      cases stepped with
      | wrote found' writing =>
          cases found.symm.trans found'
          exact last.unsent found writing hasSent
    rw [List.flatMap_cons, List.nodup_append']
    refine ⟨?_, sent.once, new⟩
    cases action with
    | writeToUDP c ok => cases ok <;> simp [called]
    | _ => exact List.nodup_nil
  queries := by
    have kept : ∀ c ∈ called (k, action) ++ history.flatMap called, k.query c = k'.query c := by
      intro c isCalled
      rcases List.mem_append.mp isCalled with now | earlier
      · rw [mem_called.mp now] at stepped
        cases stepped with
        | wrote found _ => exact ((StepCase.wrote found ‹_›).query_eq inv found).symm
      · rcases (sent.calls c).mp earlier with ⟨call, found, _⟩
        exact (stepped.query_eq inv found).symm
    rw [List.flatMap_cons, sent.queries, ← List.flatMap_append, List.flatMap_congr kept,
      List.flatMap_cons]

theorem sentOnce_of_run {history : KrpcHistory} (run : Run step newKrpcRuntime history k) :
    SentOnce history k := by
  have both : SentOnce history k ∧ k.ResultsLast := by
    induction run with
    | initial =>
        refine ⟨⟨?_, List.nodup_nil, rfl⟩, by rintro _ _ ⟨⟩⟩
        intro c
        constructor
        · rintro ⟨⟩
        · rintro ⟨_, ⟨⟩, _⟩
    | push earlier stepped ih =>
        have cases := step_cases stepped
        exact ⟨ih.1.push (consistent_of_run earlier) ih.2 cases, cases.resultsLast ih.2⟩
  exact both.1

end KrpcRuntime

/-! ## The client -/

namespace DhtClient

variable {client client' : DhtClient} {info : NodeInfo}

/-- The client says the given node of itself, and all its calls are pings of that. -/
structure Pings (info : NodeInfo) (client : DhtClient) : Prop where
  info : client.thisNodeInfo = info
  calls {c : Nat} {call : RpcCall} : client.krpcRuntime.call c = some call →
    call.msg = { client.pingQuery with transactionId := call.transactionId }

theorem Pings.step (pings : client.Pings info) {action : ClientAction}
    (stepped : DhtClient.step client action = some client') : client'.Pings info := by
  have same := thisNodeInfo_of_step stepped
  refine ⟨same.trans pings.info, ?_⟩
  intro c call found
  rw [pingQuery, same]
  rcases krpcRuntime_of_step stepped with rests | ⟨b, performed, origin⟩
  · rw [rests] at found
    exact pings.calls found
  · rcases (Go.step_cases performed).call_cases found with ⟨before, earlier, kept⟩ | begins
    · rw [kept.msg, kept.transactionId]
      exact pings.calls earlier
    · rcases begins.enqueued with ⟨query, first, second, rfl, _, isMsg⟩
      rcases origin with ⟨_, noCall⟩ | ⟨dest, first', second', isPing⟩
      · cases noCall
      · cases isPing
        exact isMsg

theorem pings_of_run {table : RoutingTable} {history : List (DhtClient × ClientAction)}
    (run : Run DhtClient.step (startDhtClient info table) history client) : client.Pings info := by
  apply run.invariant
  · exact ⟨rfl, by rintro _ _ ⟨⟩⟩
  · exact fun pings stepped => pings.step stepped

/-- A query is handled by what the client says of itself. -/
theorem handleQuery_congr {other : DhtClient} (same : client.thisNodeInfo = other.thisNodeInfo)
    (msg : KrpcQuery) : client.handleQuery msg = other.handleQuery msg := by
  have own : client.ownId = other.ownId := by rw [ownId, ownId, same]
  by_cases isPing : msg.methodName = methodPing
  · rw [handleQuery, handleQuery, isPing]
    show client.handlePing msg.arguments = other.handlePing msg.arguments
    rw [handlePing, handlePing, own]
  · have noHandler : Entries.lookup msg.methodName handlerFunctions = none := by
      simp [handlerFunctions, Entries.lookup, isPing]
    rw [handleQuery, handleQuery, noHandler]

/-- What was read out of a datagram has one reply, which answers it. -/
theorem exists_response (client : DhtClient) {msg : KrpcQuery} {datagram : Bytes}
    (srcAddr : UDPAddr) (fits : datagram.length ≤ receiveBufferSize)
    (arrived : received datagram = some (some (.query msg))) :
    ∃ bytes reply, client.response ⟨msg, srcAddr⟩ = [(srcAddr, bytes)] ∧
      received bytes = some (some reply) ∧ client.Answers msg reply := by
  rcases client.exists_reply fits arrived with ⟨reply, isReply, read, answers⟩
  refine ⟨(reply.setTransactionId msg.transactionId).encode, _, ?_, read, answers⟩
  rw [response, isReply]

end DhtClient

/-! ## What a history says, newest first -/

/-- A goroutine that has ended, and whether it could write. -/
structure Ended where
  handler : Handler
  ok : Bool

/-- What it has written; of the node the reply tells the id alone. -/
def Ended.sends (info : NodeInfo) (one : Ended) : List (UDPAddr × Bytes) :=
  if one.ok then (Host.start info).client.response one.handler else []

namespace Host

/-- The goroutines that a step starts. -/
def started : Host × HostAction → List Handler
  | (_, .readFromUDP srcAddr datagram) => handlersOf srcAddr (datagram.take receiveBufferSize)
  | _ => []

/-- The goroutines that a step ends. -/
def ended : Host × HostAction → List Ended
  | (host, .writeReply n ok) => host.handlers[n]?.toList.map fun handler => ⟨handler, ok⟩
  | _ => []

/-- The calls whose query a step writes. -/
def called : Host × HostAction → List Nat
  | (_, .client (.runtime (.writeToUDP c true))) => [c]
  | _ => []

/-- What a step writes. -/
def written (taken : Host × HostAction) : List (UDPAddr × Bytes) :=
  writes taken.1 taken.2

/-- The `ping` of a call, as it is written. -/
def pingOf (info : NodeInfo) (host : Host) (c : Nat) : List (UDPAddr × Bytes) :=
  (host.client.krpcRuntime.call c).toList.map fun call =>
    (call.dest, (KrpcMessage.query
      { (start info).client.pingQuery with transactionId := call.transactionId }).encode)

/-- What a run of a node comes to.  Every query that was read has a goroutine,
which has ended or not; a goroutine has one reply, which answers its query.  Each
call that has sent its query has done so once, and nothing else was written. -/
structure Accounts (info : NodeInfo) (history : List (Host × HostAction)) (host : Host) : Prop where
  queries : (history.flatMap started).Perm
    ((history.flatMap ended).map Ended.handler ++ host.handlers)
  replies : ∀ one ∈ history.flatMap ended, ∃ bytes reply,
    (start info).client.response one.handler = [(one.handler.srcAddr, bytes)] ∧
      received bytes = some (some reply) ∧ (start info).client.Answers one.handler.msg reply
  calls (c : Nat) : c ∈ history.flatMap called ↔ host.client.krpcRuntime.HasSent c
  once : (history.flatMap called).Nodup
  all : (history.flatMap written).Perm
    ((history.flatMap called).flatMap (host.pingOf info) ++
      (history.flatMap ended).flatMap (Ended.sends info))

variable {info : NodeInfo} {host host' : Host} {action : HostAction} {handler : Handler}
  {history : List (Host × HostAction)}

/-! ## Goroutines -/

/-- A goroutine is started, goes on or ends. -/
theorem handlers_of_step (stepped : step host action = some host') :
    (started (host, action) ++ host.handlers).Perm
      ((ended (host, action)).map Ended.handler ++ host'.handlers) := by
  rcases step_cases stepped with ⟨a, rfl, _, _, same⟩ | ⟨srcAddr, datagram, rfl, _, same⟩ |
    ⟨n, ok, rfl, inside, _, same⟩
  · rw [same]
    exact List.Perm.refl _
  · rw [same]
    exact List.Perm.refl _
  · have there : host.handlers[n]? = some host.handlers[n] := List.getElem?_eq_getElem inside
    rw [same, ended, there]
    exact (List.getElem_cons_eraseIdx_perm inside).symm

/-- Every goroutine that was started has ended or not. -/
theorem handlers_of_run (run : Run step (start info) history host) :
    (history.flatMap started).Perm
      ((history.flatMap ended).map Ended.handler ++ host.handlers) := by
  induction run with
  | initial => exact List.Perm.refl _
  | @push history middle target action _ stepped ih =>
      rw [List.flatMap_cons, List.flatMap_cons, List.map_append]
      calc List.Perm (started (middle, action) ++ history.flatMap started)
            (started (middle, action) ++
              ((history.flatMap ended).map Ended.handler ++ middle.handlers)) :=
          ih.append_left _
        List.Perm _ ((history.flatMap ended).map Ended.handler ++
            (started (middle, action) ++ middle.handlers)) :=
          List.perm_append_comm_assoc _ _ _
        List.Perm _ ((history.flatMap ended).map Ended.handler ++
            ((ended (middle, action)).map Ended.handler ++ target.handlers)) :=
          (handlers_of_step stepped).append_left _
        List.Perm _ ((ended (middle, action)).map Ended.handler ++
            ((history.flatMap ended).map Ended.handler ++ target.handlers)) :=
          List.perm_append_comm_assoc _ _ _
        _ = _ := (List.append_assoc _ _ _).symm

/-! ## What is written -/

/-- The steps of the runtime send what the steps of the node do. -/
theorem called_eq (taken : Host × HostAction) :
    ((clientAction taken.1 taken.2).toList.flatMap fun a =>
      (DhtClient.runtimeAction taken.1.client a).toList.flatMap fun b =>
        KrpcRuntime.called (taken.1.client.krpcRuntime, b)) = called taken := by
  rcases taken with ⟨host, action⟩
  cases action with
  | client a =>
      cases a with
      | runtime b =>
          cases b with
          | writeToUDP c ok => cases ok <;> rfl
          | _ => rfl
      | ping | finishPing => rfl
  | readFromUDP | writeReply => rfl

theorem sent_of_run (run : Run step (start info) history host) :
    (∀ c, c ∈ history.flatMap called ↔ host.client.krpcRuntime.HasSent c) ∧
      (history.flatMap called).Nodup ∧
      (history.flatMap fun taken => (called taken).flatMap taken.1.client.krpcRuntime.query) =
        (history.flatMap called).flatMap host.client.krpcRuntime.query := by
  rcases KrpcRuntime.sentOnce_of_run (DhtClient.krpcRun (clientRun run)) with ⟨calls, once, queries⟩
  have all : (DhtClient.krpcHistory (component Host.client clientAction history)).flatMap
      KrpcRuntime.called = history.flatMap called := by
    rw [DhtClient.krpcHistory, flatMap_component, flatMap_component]
    exact List.flatMap_congr fun taken _ => called_eq taken
  have each : ((DhtClient.krpcHistory (component Host.client clientAction history)).flatMap
        fun taken => (KrpcRuntime.called taken).flatMap taken.1.query) =
      history.flatMap fun taken => (called taken).flatMap taken.1.client.krpcRuntime.query := by
    rw [DhtClient.krpcHistory, flatMap_component, flatMap_component]
    apply List.flatMap_congr
    intro taken _
    rw [← called_eq, List.flatMap_assoc]
    simp only [List.flatMap_assoc]
  rw [all] at calls once queries
  rw [each] at queries
  exact ⟨calls, once, queries⟩

/-- A query with its destination, as it is written. -/
def encodeQuery (query : UDPAddr × KrpcQuery) : UDPAddr × Bytes :=
  (query.1, (KrpcMessage.query query.2).encode)

theorem response_eq {client : DhtClient} (same : client.thisNodeInfo = info) (handler : Handler) :
    client.response handler = (start info).client.response handler := by
  have handled := @DhtClient.handleQuery_congr client (start info).client same handler.msg
  rw [DhtClient.response, DhtClient.response, handled]

/-- A step writes the query of a call, or the reply of a goroutine, or nothing. -/
theorem written_eq {taken : Host × HostAction} (same : taken.1.client.thisNodeInfo = info) :
    written taken =
      ((called taken).flatMap taken.1.client.krpcRuntime.query).map encodeQuery ++
        (ended taken).flatMap (Ended.sends info) := by
  rcases taken with ⟨host, action⟩
  cases action with
  | client a =>
      cases a with
      | runtime b =>
          cases b with
          | writeToUDP c ok =>
              cases ok with
              | false => rfl
              | true =>
                  cases found : host.client.krpcRuntime.call c <;>
                    simp [written, writes, called, ended, KrpcRuntime.query, encodeQuery, found]
          | _ => rfl
      | ping | finishPing => rfl
  | readFromUDP => rfl
  | writeReply n ok =>
      cases ok <;> cases found : host.handlers[n]? <;>
        simp [written, writes, called, ended, Ended.sends, response_eq same, found]

/-- The node says the same of itself throughout. -/
theorem info_of_run (run : Run step (start info) history host) :
    ∀ taken ∈ history, taken.1.client.thisNodeInfo = info := by
  induction run with
  | initial => exact List.forall_mem_nil _
  | push earlier _ ih =>
      exact List.forall_mem_cons.mpr ⟨(DhtClient.pings_of_run (clientRun earlier)).info, ih⟩

theorem written_of_run (run : Run step (start info) history host) :
    (history.flatMap written).Perm
      ((history.flatMap called).flatMap (host.pingOf info) ++
        (history.flatMap ended).flatMap (Ended.sends info)) := by
  have pings := DhtClient.pings_of_run (clientRun run)
  have isPing : (fun c => (host.client.krpcRuntime.query c).map encodeQuery) =
      host.pingOf info := by
    funext c
    rw [KrpcRuntime.query, pingOf, List.map_map]
    apply List.map_congr_left
    intro call found
    rw [Function.comp_apply, encodeQuery, pings.calls (Option.mem_toList.mp found),
      DhtClient.pingQuery, pings.info]
    rfl
  have sent : (history.flatMap fun taken =>
        ((called taken).flatMap taken.1.client.krpcRuntime.query).map encodeQuery) =
      (history.flatMap called).flatMap (host.pingOf info) := by
    rw [← List.map_flatMap, (sent_of_run run).2.2, List.map_flatMap, isPing]
  rw [List.flatMap_congr fun taken member => written_eq (info_of_run run taken member), ← sent,
    List.flatMap_assoc]
  exact (List.flatMap_append_perm _ _ _).symm

/-- In every run of a node, whatever it reads: every query has its goroutine, and
the node writes one reply for each that has ended with a write, one `ping` for
each call that has sent its query, and nothing else. -/
theorem accounts_of_run (run : Run step (start info) history host) :
    Accounts info history host where
  queries := handlers_of_run run
  replies one isEnded := by
    have isStarted : one.handler ∈ history.flatMap started :=
      (handlers_of_run run).mem_iff.mpr (List.mem_append_left _ (List.mem_map_of_mem isEnded))
    rcases List.mem_flatMap.mp isStarted with ⟨⟨before, action⟩, _, starts⟩
    cases action with
    | readFromUDP srcAddr datagram =>
        rcases mem_handlersOf.mp starts with ⟨arrived, _⟩
        exact (start info).client.exists_response one.handler.srcAddr (List.length_take_le _ _)
          arrived
    | client | writeReply => cases starts
  calls := (sent_of_run run).1
  once := (sent_of_run run).2.1
  all := written_of_run run

/-- A node that pings itself reads the `ping` twice, and one of the two goroutines
has replied. -/
theorem accounts_of_run_ping :
    ∃ history host, (history.flatMap started).length = 2 ∧ (history.flatMap ended).length = 1 ∧
      history.flatMap called = [0] ∧ (history.flatMap written).length = 2 ∧
      Accounts DhtClient.localClient.thisNodeInfo history host := by
  let host := start DhtClient.localClient.thisNodeInfo
  let dest := DhtClient.localClient.thisNodeInfo.address
  rcases DhtClient.localClient_ping with ⟨short, arrived⟩
  rw [← List.take_of_length_le short] at arrived
  have starts {before : Host} : started
      (before, .readFromUDP dest (KrpcMessage.query DhtClient.localClient.pingQuery).encode) =
        [⟨DhtClient.localClient.pingQuery, dest⟩] := by
    rw [started, handlersOf, arrived]
  have pings := @step_ping host dest ⟨0, by decide⟩ ⟨1, by decide⟩
  have sends := @step_writePing host dest (generateTransactionId ⟨0, by decide⟩ ⟨1, by decide⟩)
  have reads {before : Host} (reading : before.client.krpcRuntime.receiver = .reading) :=
    @step_readQuery before dest _ _ reading arrived
  have run := ((((Run.initial.push pings).push sends).push (reads rfl)).push (reads rfl)).push
    (step_writeReply DhtClient.localClient.pingQuery dest)
  refine ⟨_, _, ?_, rfl, rfl, ?_, accounts_of_run run⟩
  · simp only [List.flatMap_cons, starts]
    rfl
  · rfl

end Host

end MainlineDht.Go
