import MainlineDht.Go.DhtClient
import MainlineDht.Go.RoutingTableReference

/-!
# Whose entries the Go DHT client adds

An entry that `ping` adds pairs the id of a reply with the address that was
pinged.  The reply has the transaction id of the call; that it came from that
address, or after the query, nothing checks.
-/

namespace MainlineDht.Go

open Ordered Transition
open KrpcRuntime (peer)
open RoutingTable (contact)

/-- The response carries the transaction id and the return value `id`. -/
def IsAnswer (reply : KrpcResponse) (transactionId : Bytes) (id : NodeId) : Prop :=
  reply.transactionId = transactionId ∧
    Entries.lookup keyId reply.returnValues = some (.bytes id.val)

/-- After the call had sent its query, an answer with the id has been received
from its destination. -/
def DestAnswered (history : KrpcHistory) (c : Nat) (call : RpcCall) (id : NodeId) : Prop :=
  ∃ before k reply, Read history before k call.dest (.response reply) ∧
    IsAnswer reply call.transactionId id ∧ Sent before c

namespace DhtClient

variable {client : DhtClient} {c : Nat} {entry : NodeInfo}

/-- Only a response has an id to add. -/
theorem exists_reply_of_peerNodeId {response : KrpcMessage} {id : NodeId}
    (found : peerNodeId response = .ok (some id)) :
    ∃ reply, response = .response reply ∧
      Entries.lookup keyId reply.returnValues = some (.bytes id.val) := by
  unfold peerNodeId at found
  split at found
  · rename_i reply
    split at found
    · cases found
    · rename_i bytes isBytes
      split at found
      · cases found
        exact ⟨reply, rfl, isBytes⟩
      · cases found
    · cases found
  · cases found

/-- In every run: behind an entry that a `ping` adds there is a datagram with
the id and the transaction id of the call, which the receive loop has read and
then taken for the call.  If all replies are genuine, it came from the address
of the entry, after the call had sent its query. -/
theorem exists_answer_of_adds (thisNodeInfo : NodeInfo) (routingTable : RoutingTable)
    (history : List (DhtClient × ClientAction)) (client : DhtClient)
    (run : Run step (startDhtClient thisNodeInfo routingTable) history client) (c : Nat)
    (entry : NodeInfo) (adds : client.Adds c entry) :
    ∃ call before atRead source reply, client.krpcRuntime.call c = some call ∧
      entry.address = call.dest ∧ IsAnswer reply call.transactionId entry.nodeId ∧
      Taken (krpcHistory history) before atRead source (.response reply) c ∧
      (RepliesGenuine (krpcHistory history) → source = call.dest ∧ Sent before c) := by
  have krpc := krpcRun run
  have inv := KrpcRuntime.consistent_of_run krpc
  obtain ⟨call, response, found, _, result, isId, address⟩ := adds
  obtain ⟨reply, rfl, idFound⟩ := exists_reply_of_peerNodeId isId
  obtain ⟨before, atRead, source, taken⟩ := exists_taken_of_result krpc found result
  have sameId : reply.transactionId = call.transactionId :=
    (inv.deliversOnce.returns_reply found result).2.trans (inv.call_own found).2
  exact ⟨call, before, atRead, source, reply, found, address, ⟨sameId, idFound⟩, taken,
    fun genuine => sent_to_source krpc genuine taken found⟩

/-! ## Runs with one call -/

/-- `d1:rd2:id20:…e1:t2:ab1:y1:re`, with the id of a contact. -/
def contactReply : Bytes :=
  [100, 49, 58, 114, 100, 50, 58, 105, 100, 50, 48, 58] ++ (contact 255).nodeId.val ++
    [101, 49, 58, 116, 50, 58, 97, 98, 49, 58, 121, 49, 58, 114, 101]

/-- What was received is a response with the id of the contact. -/
def isContactReply : Option (Option KrpcMessage) → Bool
  | some (some (.response reply)) => reply.transactionId == [97, 98] &&
      match Entries.lookup keyId reply.returnValues with
      | some (.bytes id) => id == (contact 255).nodeId.val
      | _ => false
  | _ => false

theorem received_contactReply :
    ∃ values, received contactReply =
        some (some (.response { transactionId := [97, 98], returnValues := values })) ∧
      Entries.lookup keyId values = some (.bytes (contact 255).nodeId.val) := by
  have isReply : isContactReply (received contactReply) = true := by decide +kernel
  generalize received contactReply = result at isReply ⊢
  unfold isContactReply at isReply
  split at isReply
  · rename_i reply
    obtain ⟨sameId, isId⟩ := Bool.and_eq_true_iff.mp isReply
    split at isId
    · rename_i id found
      refine ⟨reply.returnValues, ?_, ?_⟩
      · rw [← beq_iff_eq.mp sameId]
      · rw [found, beq_iff_eq.mp isId]
    · cases isId
  · cases isReply

/-- A client whose runtime is in the given state. -/
def clientOf (k : KrpcRuntime) : DhtClient :=
  { startDhtClient (contact 18) (newRoutingTable 8 (contact 18)) with krpcRuntime := k }

theorem step_clientOf {k k' : KrpcRuntime} {action : Action} (performed : Go.step k action = some k')
    (noCall : makesCall action = false) :
    step (clientOf k) (.runtime action) = some (clientOf k') := by
  rw [step, noCall, if_neg Bool.false_ne_true]
  exact Option.map_eq_some_iff.mpr ⟨k', performed, rfl⟩

/-- A response is read, from whatever address. -/
theorem step_readFromUDP {k : KrpcRuntime} {values : Dict} (source : UDPAddr)
    (arrived : received contactReply =
      some (some (.response { transactionId := [97, 98], returnValues := values })))
    (reading : k.receiver = .reading) :
    step (clientOf k) (.runtime (.readFromUDP source contactReply)) = some (clientOf
      { k with
        arrivals := k.arrivals + 1
        receiver := .dispatching k.arrivals
          (.response { transactionId := [97, 98], returnValues := values }) }) :=
  step_clientOf (StepCase.replied reading arrived rfl).step rfl

/-- The runtime of the client in its first `ping`, about to write. -/
def pinging : KrpcRuntime :=
  newKrpcRuntime.enqueuePendingRequest peer (clientOf newKrpcRuntime).pingQuery [97, 98]

theorem run_pinging :
    Run step (startDhtClient (contact 18) (newRoutingTable 8 (contact 18)))
      [(clientOf newKrpcRuntime, .ping peer ⟨0, by decide⟩ ⟨1, by decide⟩)] (clientOf pinging) :=
  .push .initial rfl

/-- An address other than that of the peer. -/
def stranger : UDPAddr := { ip := [10, 0, 0, 1], port := 6881, zone := [] }

/-- The entry of the contact is new in the table, and can be added. -/
theorem contact_stored {k : KrpcRuntime} (adds : (clientOf k).Adds 0 (contact 255)) :
    ∃ client', step (clientOf k) (.finishPing 0) = some client' ∧
      contact 255 ∈ client'.routingTable.storedEntries ∧
      contact 255 ∉ (clientOf k).routingTable.storedEntries := by
  have added : ((newRoutingTable 8 (contact 18)).addEntry (contact 255)).any
      (fun t => contact 255 ∈ t.storedEntries) = true := by
    decide +kernel
  obtain ⟨table, isTable, stored⟩ := (Option.any_eq_true _ _).mp added
  obtain ⟨call, response, found, unfinished, result, isId, address⟩ := adds
  have entry_eq : ({ nodeId := (contact 255).nodeId, address := call.dest } : NodeInfo) =
      contact 255 := by
    rw [← address]
  refine ⟨{ clientOf k with routingTable := table }.returnPing 0 (.ok response), ?_,
    of_decide_eq_true stored, List.not_mem_nil⟩
  simp only [step, found, unfinished, result, Option.bind_some, finishPing, isId, entry_eq]
  exact Option.map_eq_some_iff.mpr ⟨table, isTable, rfl⟩

/-- The action reads a datagram. -/
def IsRead (action : Action) : Prop :=
  ∃ source datagram, action = .readFromUDP source datagram

/-- In a run that reads once, a message that has been read is from there. -/
theorem only_read {history before later earlier : KrpcHistory} {k k' : KrpcRuntime}
    {source source' : UDPAddr} {msg : KrpcMessage} {datagram : Bytes}
    (history_eq : history = later ++ (k', .readFromUDP source' datagram) :: earlier)
    (only : ∀ taken ∈ later ++ earlier, ¬ IsRead taken.2)
    (read : Read history before k source msg) : k = k' ∧ source = source' ∧ before = earlier := by
  obtain ⟨_, arrived, _⟩ := read
  obtain ⟨sameState, sameAction, earlier_eq⟩ := eq_of_only history_eq only arrived ⟨_, _, rfl⟩
  cases sameAction
  exact ⟨sameState, rfl, earlier_eq⟩

/-- The `ping` of the peer adds the contact, which the peer has not answered
after the query. -/
structure AddsUnanswered (history : List (DhtClient × ClientAction)) (client : DhtClient) :
    Prop where
  run : Run step (startDhtClient (contact 18) (newRoutingTable 8 (contact 18))) history client
  adds : client.Adds 0 (contact 255)
  stored : ∃ client', step client (.finishPing 0) = some client' ∧
    contact 255 ∈ client'.routingTable.storedEntries ∧
    contact 255 ∉ client.routingTable.storedEntries
  unanswered (call : RpcCall) : client.krpcRuntime.call 0 = some call →
    ¬ DestAnswered (krpcHistory history) 0 call (contact 255).nodeId

/-- A `ping` that has got the response is about to add the contact. -/
theorem adds_of_result {k : KrpcRuntime} {call : RpcCall} {reply : KrpcResponse}
    (found : k.call 0 = some call) (dest : call.dest = peer)
    (result : call.result = some (.ok (.response reply)))
    (isId : Entries.lookup keyId reply.returnValues = some (.bytes (contact 255).nodeId.val)) :
    (clientOf k).Adds 0 (contact 255) := by
  have peerId : peerNodeId (.response reply) = .ok (some (contact 255).nodeId) := by
    simp only [peerNodeId, isId]
    exact dif_pos (contact 255).nodeId.property
  exact ⟨call, .response reply, found, rfl, result, peerId, dest.symm⟩

theorem addsUnanswered_of_result {history : List (DhtClient × ClientAction)} {k : KrpcRuntime}
    {call : RpcCall} {reply : KrpcResponse}
    (run : Run step (startDhtClient (contact 18) (newRoutingTable 8 (contact 18))) history
      (clientOf k))
    (found : k.call 0 = some call) (dest : call.dest = peer)
    (result : call.result = some (.ok (.response reply)))
    (isId : Entries.lookup keyId reply.returnValues = some (.bytes (contact 255).nodeId.val))
    (reads : ∀ before k msg, Read (krpcHistory history) before k peer msg → ¬ Sent before 0) :
    AddsUnanswered history (clientOf k) := by
  have adds := adds_of_result found dest result isId
  refine ⟨run, adds, contact_stored adds, ?_⟩
  rintro other isCall ⟨before, atRead, answer, read, _, sent⟩
  rw [show (clientOf k).krpcRuntime.call 0 = some call from found, Option.some_inj] at isCall
  rw [← isCall, dest] at read
  exact reads before atRead _ read sent

/-- The runs in which the only datagram arrives from a source after the write. -/
theorem exists_run_of_source (source : UDPAddr) :
    ∃ history k call reply,
      Run step (startDhtClient (contact 18) (newRoutingTable 8 (contact 18))) history (clientOf k) ∧
      k.call 0 = some call ∧ (∀ c, c ≠ 0 → k.call c = none) ∧ call.dest = peer ∧
      call.result = some (.ok (.response reply)) ∧
      Entries.lookup keyId reply.returnValues = some (.bytes (contact 255).nodeId.val) ∧
      ∀ before atRead source' msg, Read (krpcHistory history) before atRead source' msg →
        source' = source ∧ Sent before 0 ∧
          ∃ waiting, atRead.call 0 = some waiting ∧ waiting.HasSent ∧ waiting.dest = peer := by
  obtain ⟨values, arrived, isId⟩ := received_contactReply
  have written := run_pinging.push
    (step_clientOf (rfl : Go.step _ (.writeToUDP 0 true) = some _) rfl)
  have read := written.push (step_readFromUDP source arrived rfl)
  have taken := read.push (step_clientOf (rfl : Go.step _ .dequeuePendingRequest = some _) rfl)
  have sent := taken.push (step_clientOf (rfl : Go.step _ .sendToChannel = some _) rfl)
  have returned := sent.push (step_clientOf (rfl : Go.step _ (.selectReply 0) = some _) rfl)
  refine ⟨_, _, _, _, returned, rfl, ?_, rfl, rfl, isId, ?_⟩
  · intro c other
    simp [pinging, newKrpcRuntime, other]
  · intro before atRead source' msg read
    obtain ⟨rfl, rfl, rfl⟩ :=
      @only_read _ _ [_, _, _] [_, _] _ _ _ source _ _ rfl (by simp [IsRead]) read
    exact ⟨rfl, ⟨_, List.mem_cons_self⟩, _, rfl, Or.inl rfl, rfl⟩

/-- The run in which it arrives from the peer before the write. -/
theorem exists_run_of_early :
    ∃ history k call reply,
      Run step (startDhtClient (contact 18) (newRoutingTable 8 (contact 18))) history (clientOf k) ∧
      k.call 0 = some call ∧ call.dest = peer ∧ call.result = some (.ok (.response reply)) ∧
      Entries.lookup keyId reply.returnValues = some (.bytes (contact 255).nodeId.val) ∧
      ∀ before atRead source msg, Read (krpcHistory history) before atRead source msg →
        source = peer ∧ ¬ Sent before 0 := by
  obtain ⟨values, arrived, isId⟩ := received_contactReply
  have read := run_pinging.push (step_readFromUDP peer arrived rfl)
  have taken := read.push (step_clientOf (rfl : Go.step _ .dequeuePendingRequest = some _) rfl)
  have sent := taken.push (step_clientOf (rfl : Go.step _ .sendToChannel = some _) rfl)
  have written := sent.push (step_clientOf (rfl : Go.step _ (.writeToUDP 0 true) = some _) rfl)
  have returned := written.push (step_clientOf (rfl : Go.step _ (.selectReply 0) = some _) rfl)
  refine ⟨_, _, _, _, returned, rfl, rfl, rfl, isId, ?_⟩
  intro before atRead source msg read
  obtain ⟨_, source_eq, rfl⟩ :=
    @only_read _ _ [_, _, _, _] [_] _ _ _ peer _ _ rfl (by simp [IsRead]) read
  refine ⟨source_eq, ?_⟩
  rintro ⟨k, member⟩
  cases (Prod.mk.inj (List.mem_singleton.mp member)).2

/-- The reply of a stranger counts, and one of the peer that was there before
the query. -/
theorem not_destAnswered :
    (∃ history client, AddsUnanswered history client ∧
      ∀ before k source msg, Read (krpcHistory history) before k source msg → Sent before 0) ∧
    ∃ history client, AddsUnanswered history client ∧
      ∀ before k source msg, Read (krpcHistory history) before k source msg → source = peer := by
  constructor
  · obtain ⟨history, k, call, reply, run, found, _, dest, result, isId, reads⟩ :=
      exists_run_of_source stranger
    refine ⟨history, clientOf k, addsUnanswered_of_result run found dest result isId ?_, ?_⟩
    · intro before atRead msg read
      exact absurd (reads before atRead peer msg read).1 (by decide)
    · intro before atRead source msg read
      exact (reads before atRead source msg read).2.1
  · obtain ⟨history, k, call, reply, run, found, dest, result, isId, reads⟩ := exists_run_of_early
    refine ⟨history, clientOf k, addsUnanswered_of_result run found dest result isId ?_, ?_⟩
    · intro before atRead msg read
      exact (reads before atRead peer msg read).2
    · intro before atRead source msg read
      exact (reads before atRead source msg read).1

/-- The reply of the peer itself. -/
theorem exists_answer_of_adds_peer :
    ∃ history client call before atRead reply,
      DhtClient.Adds client 0 (contact 255) ∧ client.krpcRuntime.call 0 = some call ∧
      IsAnswer reply call.transactionId (contact 255).nodeId ∧
      Taken (krpcHistory history) before atRead peer (.response reply) 0 ∧ Sent before 0 := by
  obtain ⟨history, k, call, reply, run, found, alone, dest, result, isId, reads⟩ :=
    exists_run_of_source peer
  have adds := adds_of_result found dest result isId
  have genuine : RepliesGenuine (krpcHistory history) := by
    rintro before atRead source msg ch ⟨later, k', dequeued, read, _, stored⟩
    obtain ⟨rfl, _, waiting, isWaiting, hasSent, toPeer⟩ :=
      reads before atRead source msg (read_mono read ((List.suffix_cons _ _).trans dequeued))
    -- the channel that is taken is the only one there is
    have krpc := krpcRun run
    obtain ⟨owner, isOwner, _⟩ :=
      (KrpcRuntime.consistent_of_run (krpc.of_suffix dequeued)).pending_owns stored
    obtain ⟨last, isLast, _⟩ :=
      keepsDests_of_run krpc _ (dequeued.subset List.mem_cons_self) ch owner isOwner
    have isZero : ch = 0 := by
      by_contra other
      rw [show (clientOf k).krpcRuntime.call ch = none from alone ch other] at isLast
      cases isLast
    rw [isZero]
    exact ⟨waiting, isWaiting, hasSent, toPeer⟩
  obtain ⟨call', before, atRead, source, answer, found', _, isAnswer, taken, checked⟩ :=
    exists_answer_of_adds (contact 18) (newRoutingTable 8 (contact 18)) history (clientOf k) run 0
      (contact 255) adds
  obtain ⟨rfl, sent⟩ := checked genuine
  rw [show (clientOf k).krpcRuntime.call 0 = some call from found, Option.some_inj] at found'
  subst found'
  rw [dest] at taken
  exact ⟨history, clientOf k, call, before, atRead, answer, adds, found, isAnswer, taken, sent⟩

end DhtClient

end MainlineDht.Go
