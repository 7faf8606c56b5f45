import MainlineDht.Interop.Network

/-!
# Every node of the network keeps what it should

Shown for one step of one node at a time: it relies on what its peers have
written, and what it writes is a query or replies to one.
-/

namespace MainlineDht.Interop

open Bencode Transition

variable {G R : Type}

/-! ## More in flight -/

section Mono

variable {s : Setup G R} {inFlight more : List (Datagram G R)} {g : G} {r : R} {id : Bytes}
  {addr : Go.UDPAddr}

theorem Pinged.mono (pinged : Pinged s inFlight g addr id) (grown : inFlight ⊆ more) :
    Pinged s more g addr id :=
  ⟨grown pinged.1, pinged.2⟩

theorem Genuine.mono {packet : Datagram G R} (genuine : Genuine s inFlight packet)
    (grown : inFlight ⊆ more) : Genuine s more packet := by
  cases genuine with
  | ping length => exact .ping length
  | pong home pinged here => exact .pong home (pinged.mono grown) here
  | findNode => exact .findNode
  | refusal home requested here => exact .refusal home (grown requested) here

theorem Ponged.mono {msg : Go.KrpcMessage} (ponged : Ponged s inFlight g msg)
    (grown : inFlight ⊆ more) : Ponged s more g msg := by
  rcases ponged with ⟨peer, addr, id, pinged, leads, rfl⟩
  exact ⟨peer, addr, id, pinged.mono grown, leads, rfl⟩

theorem Asked.mono {handler : Go.Handler} (asked : Asked s inFlight g handler)
    (grown : inFlight ⊆ more) : Asked s more g handler := by
  cases asked with
  | ping home pinged here => exact .ping home (pinged.mono grown) here
  | findNode home requested here => exact .findNode home (grown requested) here

theorem Confirmed.mono {entry : Go.NodeInfo} (confirmed : Confirmed s inFlight g entry)
    (grown : inFlight ⊆ more) : Confirmed s more g entry := by
  rcases confirmed with ⟨id, addr, peer, pinged, other, leads, isId⟩
  exact ⟨id, addr, peer, pinged.mono grown, other.mono grown, leads, isId⟩

theorem RuntimeSound.mono {k : Go.KrpcRuntime} (sound : RuntimeSound s inFlight g k)
    (grown : inFlight ⊆ more) : RuntimeSound s more g k where
  consistent := sound.consistent
  query := sound.query
  sent found hasSent := (sound.sent found hasSent).mono grown
  held holds := (sound.held holds).mono grown

theorem PingOutcome.mono {call : Go.RpcCall} {result : Except Go.PingError Go.KrpcMessage}
    (outcome : PingOutcome s inFlight g call result) (grown : inFlight ⊆ more) :
    PingOutcome s more g call result := by
  cases outcome with
  | failed err => exact .failed err
  | ponged pinged other leads => exact .ponged (pinged.mono grown) (other.mono grown) leads

/-- What counts is where the call goes and its transaction id. -/
theorem PingOutcome.continues {action : Go.Action} {c : Nat} {before call : Go.RpcCall}
    {result : Except Go.PingError Go.KrpcMessage} (outcome : PingOutcome s inFlight g before result)
    (kept : Go.Continues action c before call) : PingOutcome s inFlight g call result := by
  cases outcome with
  | failed err => exact .failed err
  | ponged pinged other leads =>
      rw [← kept.transactionId] at pinged other ⊢
      rw [← kept.dest] at pinged
      exact .ponged pinged other leads

theorem GoSound.mono {host : Go.Host} (sound : GoSound s inFlight g host)
    (grown : inFlight ⊆ more) : GoSound s more g host where
  info := sound.info
  runtime := sound.runtime.mono grown
  handlers handler member := (sound.handlers handler member).mono grown
  results returned := by
    rcases sound.results returned with ⟨call, found, outcome⟩
    exact ⟨call, found, outcome.mono grown⟩
  table := by
    rcases sound.table with ⟨offered, confirmed, run⟩
    exact ⟨offered, fun entry member => (confirmed entry member).mono grown, run⟩

theorem Heard.mono {value : Value} (heard : Heard s inFlight r value) (grown : inFlight ⊆ more) :
    Heard s more r value := by
  cases heard with
  | ping pinged here => exact .ping (pinged.mono grown) here
  | findNode requested here => exact .findNode (grown requested) here
  | refusal requested leads => exact .refusal (grown requested) leads

theorem RustSound.mono {loop : Rust.NetLoop} (sound : RustSound s inFlight r loop)
    (grown : inFlight ⊆ more) : RustSound s more r loop where
  myInfo := sound.myInfo
  heard shown := (sound.heard shown).mono grown

end Mono

/-! ## What arrives -/

section Arrivals

variable {s : Setup G R} {inFlight more : List (Datagram G R)} {g : G} {r : R}
  {srcAddr : Go.UDPAddr} {datagram : Bytes}

/-- A Go node is sent queries and pongs. -/
theorem arrives_go (genuine : ∀ packet ∈ inFlight, Genuine s inFlight packet)
    (arrives : Arrives s.route inFlight (.inl g) (some (srcAddr, datagram))) :
    ∃ msg, Go.received (datagram.take Go.receiveBufferSize) = some (some msg) ∧
      ((∃ query, msg = .query query ∧ Asked s inFlight g ⟨query, srcAddr⟩) ∨
        Ponged s inFlight g msg) := by
  rcases arrives with ⟨packet, member, home, here, rfl⟩
  cases genuine packet member with
  | @ping peer dest id length =>
      exact ⟨_, (ping_fits _ length).received, Or.inl ⟨_, rfl, .ping home ⟨member, length⟩ here⟩⟩
  | @pong peer g' dest addr id leads pinged back =>
      cases leads.symm.trans here
      exact ⟨_, (pong_fits _ pinged.2).received, Or.inr ⟨peer, addr, id, pinged, back, rfl⟩⟩
  | @findNode r dest first second =>
      exact ⟨_, received_findNode _ first second, Or.inl ⟨_, rfl, .findNode home member here⟩⟩
  | refusal leads _ _ => cases leads.symm.trans here

/-- A Rust node is sent queries and refusals. -/
theorem arrives_rust (genuine : ∀ packet ∈ inFlight, Genuine s inFlight packet)
    (arrives : Arrives s.route inFlight (.inr r) (some (srcAddr, datagram))) :
    ∃ result c, Rust.decode (datagram.take Rust.NetLoop.bufSize) = .ok (result, c) ∧
      Heard s inFlight r result := by
  rcases arrives with ⟨packet, member, home, here, rfl⟩
  cases genuine packet member with
  | @ping peer dest id length =>
      exact ⟨_, _, (ping_fits _ length).decode, .ping ⟨member, length⟩ here⟩
  | pong leads _ _ => cases leads.symm.trans here
  | @findNode peer dest first second =>
      rcases decode_findNode (s.rustId peer) first second with ⟨c, decoded⟩
      exact ⟨_, c, decoded, .findNode member here⟩
  | refusal leads requested back =>
      cases leads.symm.trans here
      exact ⟨_, _, (refusal_fits _ _).decode, .refusal requested back⟩

end Arrivals

/-! ## One step of a runtime -/

section Steps

variable {s : Setup G R} {inFlight more : List (Datagram G R)} {g : G} {r : R}
  {k k' : Go.KrpcRuntime} {action : Go.Action}

theorem RuntimeSound.step (sound : RuntimeSound s inFlight g k)
    (stepped : Go.step k action = some k') (grown : inFlight ⊆ more)
    (writes : ∀ c call, action = .writeToUDP c true → k.call c = some call →
      Pinged s more g call.dest call.transactionId)
    (enqueues : ∀ dest query first second, action = .enqueuePendingRequest dest query first second →
      query = (Go.Host.start (s.info g)).client.pingQuery)
    (reads : ∀ srcAddr datagram msg, action = .readFromUDP srcAddr datagram →
      Go.received datagram = some (some msg) → msg.isQuery = false → Ponged s more g msg) :
    RuntimeSound s more g k' where
  consistent := sound.consistent.step stepped
  query {c call} found := by
    rcases (Go.step_cases stepped).call_cases found with ⟨before, earlier, kept⟩ | begins
    · rw [kept.msg, kept.transactionId]
      exact sound.query earlier
    · rcases begins.enqueued with ⟨query, first, second, enqueued, isId, isMsg⟩
      rw [isMsg, enqueues _ _ _ _ enqueued]
      exact ⟨rfl, by rw [isId]; rfl⟩
  sent {c call} found hasSent := by
    rcases (Go.step_cases stepped).call_cases found with ⟨before, earlier, kept⟩ | begins
    · rw [kept.dest, kept.transactionId]
      rcases kept.sent hasSent with already | wrote
      · exact (sound.sent earlier already).mono grown
      · exact writes c before wrote earlier
    · exact absurd hasSent begins.unsent
  held {msg} holds := by
    rcases (Go.step_cases stepped).holds holds with before | ⟨srcAddr, datagram, isRead, read, reply⟩
    · exact (sound.held before).mono grown
    · exact reads srcAddr datagram msg isRead read reply

/-- What a call has got is a pong with its transaction id, for a query that the
node has sent; and it has sent one to the destination of the call. -/
theorem RuntimeSound.result (sound : RuntimeSound s inFlight g k) {c : Nat} {call : Go.RpcCall}
    {msg : Go.KrpcMessage} (found : k.call c = some call) (result : call.result = some (.ok msg)) :
    Pinged s inFlight g call.dest call.transactionId ∧
      ∃ addr peer, Pinged s inFlight g addr call.transactionId ∧
        s.route addr = some (.inl peer) ∧ msg = pong (s.info peer) call.transactionId := by
  have inv := sound.consistent
  constructor
  · exact sound.sent found (Or.inr (Or.inr (Or.inl ⟨msg, result⟩)))
  · rcases inv.returned found result with ⟨delivery, member, _, rfl⟩
    rcases sound.held (Or.inr (Or.inr ⟨delivery, member, rfl⟩)) with
      ⟨peer, addr, id, pinged, leads, isPong⟩
    have sameId : delivery.msg.getTransactionId = call.transactionId :=
      (inv.deliversOnce.returns_reply found result).2.trans (inv.call_own found).2
    rw [isPong] at sameId
    cases sameId
    exact ⟨addr, peer, pinged, leads, isPong⟩

/-- So is then what its `ping` returns. -/
theorem RuntimeSound.outcome (sound : RuntimeSound s inFlight g k) {c : Nat} {call : Go.RpcCall}
    {got : Except Go.CallError Go.KrpcMessage} (found : k.call c = some call)
    (result : call.result = some got) :
    PingOutcome s inFlight g call (Go.DhtClient.pingOutcome got) := by
  cases got with
  | error err => exact .failed err
  | ok msg =>
      rcases sound.result found result with ⟨pinged, addr, peer, other, leads, rfl⟩
      rw [Go.DhtClient.pingOutcome, peerNodeId_pong]
      exact .ponged pinged other leads

/-! ## One step of a Go node -/

variable {host host' : Go.Host} {client' : Go.DhtClient} {clientAction : Go.ClientAction}

theorem GoSound.pingQuery_eq (sound : GoSound s inFlight g host) :
    host.client.pingQuery = (Go.Host.start (s.info g)).client.pingQuery := by
  rw [Go.DhtClient.pingQuery, sound.info]
  rfl

/-- What a `ping` is about to add is confirmed. -/
theorem GoSound.confirmed (sound : GoSound s inFlight g host) {c : Nat} {entry : Go.NodeInfo}
    (adds : host.client.Adds c entry) : Confirmed s inFlight g entry := by
  rcases adds with ⟨call, response, found, _, result, isId, address⟩
  rcases sound.runtime.result found result with ⟨pinged, addr, peer, other, leads, rfl⟩
  rw [peerNodeId_pong, Except.ok.injEq, Option.some_inj] at isId
  exact ⟨call.transactionId, addr, peer, address ▸ pinged, other, leads, isId.symm⟩

/-- A step of the client keeps its runtime and its table sound. -/
theorem GoSound.client (sound : GoSound s inFlight g host)
    (stepped : Go.DhtClient.step host.client clientAction = some client') (grown : inFlight ⊆ more)
    (writes : ∀ c call, clientAction = .runtime (.writeToUDP c true) →
      host.client.krpcRuntime.call c = some call → Pinged s more g call.dest call.transactionId)
    (reads : ∀ srcAddr datagram msg, clientAction = .runtime (.readFromUDP srcAddr datagram) →
      Go.received datagram = some (some msg) → msg.isQuery = false → Ponged s more g msg) :
    GoSound s more g { host with client := client' } where
  info := (Go.DhtClient.thisNodeInfo_of_step stepped).trans sound.info
  runtime := by
    have own := sound.pingQuery_eq
    rcases Go.DhtClient.krpcRuntime_of_step stepped with
      rests | ⟨b, performed, ⟨rfl, noCall⟩ | ⟨dest, first, second, rfl⟩⟩
    · exact rests ▸ sound.runtime.mono grown
    · apply sound.runtime.step performed grown
      · rintro c call rfl found
        exact writes c call rfl found
      · rintro dest query first second rfl
        cases noCall
      · rintro srcAddr datagram msg rfl read reply
        exact reads srcAddr datagram msg rfl read reply
    · apply sound.runtime.step performed grown
      · rintro c call ⟨⟩
      · rintro _ query _ _ same
        cases same
        exact own
      · rintro srcAddr datagram msg ⟨⟩
  handlers handler member := (sound.handlers handler member).mono grown
  results {c result} returned := by
    have before : ∃ call, host.client.krpcRuntime.call c = some call ∧
        PingOutcome s more g call result := by
      rcases Go.DhtClient.pingResult_of_step stepped returned with
        earlier | ⟨call, got, found, isGot, rfl⟩
      · rcases sound.results earlier with ⟨call, found, outcome⟩
        exact ⟨call, found, outcome.mono grown⟩
      · exact ⟨call, found, (sound.runtime.outcome found isGot).mono grown⟩
    rcases before with ⟨call, found, outcome⟩
    rcases Go.DhtClient.krpcRuntime_of_step stepped with rests | ⟨b, performed, _⟩
    · exact ⟨call, rests ▸ found, outcome⟩
    · rcases (Go.step_cases performed).call_kept sound.runtime.consistent found with
        ⟨after, isAfter, kept⟩
      exact ⟨after, isAfter, outcome.continues kept⟩
  table := by
    rcases sound.table with ⟨offered, confirmed, run⟩
    have kept : ∀ entry ∈ offered, Confirmed s more g entry :=
      fun entry member => (confirmed entry member).mono grown
    rcases Go.DhtClient.routingTable_of_step stepped with same | ⟨c, entry, _, adds, added⟩
    · exact ⟨offered, kept, same ▸ run⟩
    · refine ⟨offered ++ [entry], ?_, ?_⟩
      · rw [List.forall_mem_append, List.forall_mem_singleton]
        exact ⟨kept, (sound.confirmed adds).mono grown⟩
      · rw [Go.RoutingTable.addEntries_concat _ _ _ run]
        exact added

/-- A Go node writes what it should. -/
theorem GoSound.guarantees (sound : GoSound s inFlight g host) {action : Go.HostAction}
    {packet : Datagram G R} (written : packet ∈ packets (.inl g) (Go.Host.writes host action)) :
    Genuine s inFlight packet := by
  rcases packet with ⟨sender, dest, bytes⟩
  rcases mem_packets.mp written with ⟨rfl, wrote⟩
  rcases Go.Host.mem_writes wrote with ⟨c, call, _, found, rfl, rfl⟩ | ⟨handler, member, response⟩
  · rw [(sound.runtime.query found).1]
    exact .ping (sound.runtime.query found).2
  · cases sound.handlers handler member with
    | ping home pinged here =>
        rw [response_pingQuery sound.info, List.mem_singleton] at response
        cases response
        exact .pong home pinged here
    | findNode home requested here =>
        rw [response_findNodeQuery, List.mem_singleton] at response
        cases response
        exact .refusal home requested here

/-- A Go node keeps what it should. -/
theorem GoSound.step (sound : GoSound s inFlight g host) {action : Go.HostAction}
    (genuine : ∀ packet ∈ inFlight, Genuine s inFlight packet)
    (arrives : Arrives s.route inFlight (.inl g) (Go.Host.reads action))
    (stepped : Go.Host.step host action = some host') :
    GoSound s (packets (.inl g) (Go.Host.writes host action) ++ inFlight) g host' := by
  have grown : inFlight ⊆ packets (.inl g) (Go.Host.writes host action) ++ inFlight :=
    List.subset_append_right _ _
  rcases host' with ⟨client', handlers'⟩
  rcases Go.Host.step_cases stepped with ⟨a, rfl, noRead, performed, same⟩ |
    ⟨srcAddr, datagram, rfl, performed, same⟩ | ⟨n, ok, rfl, _, sameClient, same⟩
  · rw [show handlers' = host.handlers from same]
    apply sound.client performed grown
    · rintro c call rfl found
      rcases sound.runtime.query found with ⟨isPing, length⟩
      constructor
      · apply List.mem_append_left
        apply mem_packets.mpr
        refine ⟨rfl, ?_⟩
        simp [Go.Host.writes, found, ping, isPing]
      · exact length
    · rintro srcAddr datagram msg rfl
      cases noRead
  · have arrived := arrives_go genuine arrives
    have kept : GoSound s
        (packets (.inl g) (Go.Host.writes host (.readFromUDP srcAddr datagram)) ++ inFlight) g
        { host with client := client' } := by
      apply sound.client performed grown
      · rintro c call ⟨⟩
      · rintro _ _ msg ⟨⟩ read reply
        rcases arrived with ⟨_, same, ⟨query, rfl, _⟩ | ponged⟩
        · cases same.symm.trans read
          cases reply
        · cases same.symm.trans read
          exact ponged.mono grown
    exact
      { kept with
        handlers := fun handler member => by
          rw [show handlers' = _ from same] at member
          rcases List.mem_append.mp member with new | earlier
          · rcases Go.Host.mem_handlersOf.mp new with ⟨query, source⟩
            rcases arrived with ⟨_, read, ⟨_, rfl, asked⟩ | ⟨_, _, _, _, _, rfl⟩⟩
            · cases read.symm.trans query
              exact source ▸ asked.mono grown
            · cases read.symm.trans query
          · exact kept.handlers handler earlier }
  · cases show client' = host.client from sameClient
    have mono := sound.mono grown
    exact
      { mono with
        handlers := fun handler member => by
          rw [show handlers' = host.handlers.eraseIdx n from same] at member
          exact mono.handlers handler (List.mem_of_mem_eraseIdx member) }

/-! ## One step of a Rust node -/

variable {loop loop' : Rust.NetLoop}

theorem RustSound.guarantees (sound : RustSound s inFlight r loop) {action : Rust.NetAction}
    {packet : Datagram G R} (written : packet ∈ packets (.inr r) (rustEndpoint.writes loop action)) :
    Genuine s inFlight packet := by
  rcases packet with ⟨sender, dest, bytes⟩
  rcases mem_packets.mp written with ⟨rfl, wrote⟩
  rcases List.mem_map.mp wrote with ⟨⟨addr, request⟩, isWrite, same⟩
  cases same
  rcases Rust.NetLoop.mem_writes isWrite with ⟨first, second, _, _, rfl⟩
  have request : loop.findNodeRequest first second = findNode (s.rustId r) first second := by
    rw [Rust.NetLoop.findNodeRequest, sound.myInfo]
    rfl
  rw [request]
  exact .findNode

theorem RustSound.step (sound : RustSound s inFlight r loop) {action : Rust.NetAction}
    (genuine : ∀ packet ∈ inFlight, Genuine s inFlight packet)
    (arrives : Arrives s.route inFlight (.inr r) (rustEndpoint.reads action))
    (stepped : Rust.NetLoop.step loop action = some loop') :
    RustSound s (packets (.inr r) (rustEndpoint.writes loop action) ++ inFlight) r loop' := by
  have mono := sound.mono
    (List.subset_append_right (packets (.inr r) (rustEndpoint.writes loop action)) inFlight)
  cases Rust.NetLoop.step_cases stepped with
  | sent | idled => exact { mono with }
  | took first second ok _ =>
      exact
        { mono with
          heard := fun shown => by
            rcases List.mem_append.mp shown with command | earlier
            · exact absurd command Rust.NetLoop.received_not_mem_showCommand
            · exact mono.heard earlier }
  | received _ decoded =>
      rcases arrives_rust genuine arrives with ⟨result, c, isResult, heard⟩
      cases decoded.symm.trans isResult
      exact
        { mono with
          heard := fun shown => by
            rcases List.mem_cons.mp shown with same | earlier
            · cases same
              exact heard.mono (List.subset_append_right _ _)
            · exact mono.heard earlier }

end Steps

/-! ## The whole network -/

theorem exchange (s : Setup G R) [DecidableEq G] [DecidableEq R] :
    Network.Exchange endpoint s.route (fun i inFlight => NodeSound s inFlight i) (Genuine s) where
  local_mono {i} _ _ _ grown sound := by
    cases i with
    | inl g => exact GoSound.mono sound grown
    | inr r => exact RustSound.mono sound grown
  valid_mono grown genuine := genuine.mono grown
  keeps {i} _ _ _ _ sound genuine arrives stepped := by
    cases i with
    | inl g => exact GoSound.step sound genuine arrives stepped
    | inr r => exact RustSound.step sound genuine arrives stepped
  guarantees {i} _ _ _ _ sound _ _ _ _ written := by
    cases i with
    | inl g => exact (GoSound.guarantees sound written).mono (List.subset_append_right _ _)
    | inr r => exact (RustSound.guarantees sound written).mono (List.subset_append_right _ _)

theorem goSound_start (s : Setup G R) (g : G) : GoSound s [] g (Go.Host.start (s.info g)) where
  info := rfl
  runtime :=
    { consistent := Go.KrpcRuntime.newKrpcRuntime_consistent
      query := by rintro _ _ ⟨⟩
      sent := by rintro _ _ ⟨⟩
      held := by rintro _ (⟨_, ⟨⟩⟩ | ⟨_, _, ⟨⟩⟩ | ⟨_, ⟨⟩, _⟩) }
  handlers := List.forall_mem_nil _
  results := by rintro _ _ ⟨⟩
  table := ⟨[], List.forall_mem_nil _, rfl⟩

theorem rustSound_start (s : Setup G R) (r : R) : RustSound s [] r (Rust.NetLoop.start (s.rustId r)) where
  myInfo := rfl
  heard := by rintro _ ⟨⟩

/-- In every run all nodes keep what they should. -/
theorem sound_of_run (s : Setup G R) [DecidableEq G] [DecidableEq R]
    {history : List (State G R × Action G R)} {net : State G R}
    (run : Run s.step s.start history net) :
    net.Sound (fun i inFlight => NodeSound s inFlight i) (Genuine s) := by
  apply (exchange s).sound_of_run _ rfl run
  rintro (g | r)
  · exact goSound_start s g
  · exact rustSound_start s r

end MainlineDht.Interop
