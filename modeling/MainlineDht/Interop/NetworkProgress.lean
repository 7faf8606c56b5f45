import MainlineDht.Go.HostProgress
import MainlineDht.Interop.NetworkSoundness

/-!
# What can still be done in the network

From every reachable state: no node is ever in the way of another.  A node
settles, reads and answers what it is sent, so that a `ping` gets its pong and a
bootstrap its refusal.
-/

namespace MainlineDht.Interop

open Bencode Transition
open Go.Host (Waiting)

variable {G R : Type}

/-- The state of a Go node. -/
def goNode (net : State G R) (g : G) : Go.Host :=
  net.node (.inl g)

/-- The state of a Rust node. -/
def rustNode (net : State G R) (r : R) : Rust.NetLoop :=
  net.node (.inr r)

variable [DecidableEq G] [DecidableEq R]

/-- Only the one node acts. -/
abbrev Acts (s : Setup G R) (i : G ⊕ R) (net net' : State G R) : Prop :=
  Network.Acts endpoint s.route i net net'

/-- The states of the network that some run ends in. -/
abbrev Setup.Reachable (s : Setup G R) (net : State G R) : Prop :=
  Transition.Reachable s.step s.start net

variable {s : Setup G R} {net net' : State G R} {g peer : G} {r : R} {c : Nat}
  {addr home dest : Go.UDPAddr} {id : Bytes}

theorem goSound_of_reachable (reachable : s.Reachable net) (g : G) :
    GoSound s net.inFlight g (goNode net g) := by
  rcases reachable with ⟨_, run⟩
  exact (sound_of_run s run).node (.inl g)

theorem rustSound_of_reachable (reachable : s.Reachable net) (r : R) :
    RustSound s net.inFlight r (rustNode net r) := by
  rcases reachable with ⟨_, run⟩
  exact (sound_of_run s run).node (.inr r)

theorem Setup.Reachable.acts {i : G ⊕ R} (reachable : s.Reachable net) (acts : Acts s i net net') :
    s.Reachable net' :=
  Transition.Reachable.trans reachable acts.reached

theorem acts_of_goStep (s : Setup G R) {action : Go.HostAction} {host : Go.Host}
    (performed : Go.Host.step (goNode net g) action = some host)
    (arrives : Arrives s.route net.inFlight (.inl g) (Go.Host.reads action)) :
    ∃ net', Acts s (.inl g) net net' ∧ goNode net' g = host ∧
      net'.inFlight = packets (.inl g) (Go.Host.writes (goNode net g) action) ++ net.inFlight :=
  @Network.acts_of_next _ _ _ _ _ _ _ endpoint s.route net (.inl g) action host arrives performed

theorem acts_of_rustStep (s : Setup G R) {action : Rust.NetAction} {loop : Rust.NetLoop}
    (performed : Rust.NetLoop.step (rustNode net r) action = some loop)
    (arrives : Arrives s.route net.inFlight (.inr r) (rustEndpoint.reads action)) :
    ∃ net', Acts s (.inr r) net net' ∧ rustNode net' r = loop ∧
      net'.inFlight = packets (.inr r) (rustEndpoint.writes (rustNode net r) action) ++ net.inFlight :=
  @Network.acts_of_next _ _ _ _ _ _ _ endpoint s.route net (.inr r) action loop arrives performed

omit [DecidableEq G] [DecidableEq R] in
/-- No Go node changes its routing table. -/
def SameTables (net net' : State G R) : Prop :=
  ∀ g, (goNode net' g).client.routingTable = (goNode net g).client.routingTable

theorem goNode_of_ne {other : G} (acts : Acts s (.inl g) net net') (ne : other ≠ g) :
    goNode net' other = goNode net other :=
  acts.others fun same => ne (Sum.inl.inj same)

theorem sameTables_of_acts (acts : Acts s (.inl g) net net')
    (same : (goNode net' g).client.routingTable = (goNode net g).client.routingTable) :
    SameTables net net' := by
  intro other
  by_cases here : other = g
  · subst here
    exact same
  · rw [goNode_of_ne acts here]

omit [DecidableEq G] [DecidableEq R] in
theorem SameTables.trans {net'' : State G R} (first : SameTables net net')
    (second : SameTables net' net'') : SameTables net net'' :=
  fun g => (second g).trans (first g)

/-- A node passes on what it has at hand; one that reads stays as it is. -/
theorem exists_settled (reachable : s.Reachable net) (g : G) :
    ∃ net' k, Acts s (.inl g) net net' ∧ (goNode net g).Settles k ∧
      goNode net' g = (goNode net g).withRuntime k := by
  rcases Go.Host.exists_settles (goSound_of_reachable reachable g).runtime.consistent with
    ⟨k, settles⟩
  rcases @Network.acts_of_inner _ _ _ _ _ _ _ endpoint s.route net (.inl g) _ settles.reached with
    ⟨net', acts, here⟩
  exact ⟨net', k, acts, settles, here⟩

/-! ## Asking -/

omit [DecidableEq G] [DecidableEq R] in
/-- No `ping` has returned under the number of the next call. -/
theorem GoSound.unfinished {inFlight : List (Datagram G R)} {host : Go.Host}
    (sound : GoSound s inFlight g host) :
    host.client.pingResult host.client.krpcRuntime.created = none := by
  cases returned : host.client.pingResult host.client.krpcRuntime.created with
  | none => rfl
  | some result =>
      rcases sound.results returned with ⟨call, found, _⟩
      exact absurd (sound.runtime.consistent.call_created found) (Nat.lt_irrefl _)

/-- A node starts a `ping` and writes its query. -/
theorem exists_asked (reachable : s.Reachable net) (g : G) (dest : Go.UDPAddr)
    (first second : Fin Go.letterBytes.length) :
    ∃ net', Acts s (.inl g) net net' ∧ SameTables net net' ∧
      Waiting (goNode net' g) (goNode net g).client.krpcRuntime.created dest
        (Go.generateTransactionId first second) ∧
      Pinged s net'.inFlight g dest (Go.generateTransactionId first second) := by
  rcases exists_settled reachable g with ⟨start, k, settled, settles, atStart⟩
  have sound := goSound_of_reachable (reachable.acts settled) g
  have reading : (goNode start g).client.krpcRuntime.receiver = .reading := by
    rw [atStart]
    exact settles.reading
  have created : (goNode start g).client.krpcRuntime.created =
      (goNode net g).client.krpcRuntime.created := by
    rw [atStart]
    exact settles.created
  rcases acts_of_goStep s (@Go.Host.step_ping (goNode start g) dest first second) trivial with
    ⟨middle, started, atMiddle, _⟩
  have wrote := @Go.Host.step_writePing (goNode start g) dest
    (Go.generateTransactionId first second)
  rw [← atMiddle] at wrote
  rcases acts_of_goStep s wrote trivial with ⟨net', sent, here, inFlight⟩
  rw [atMiddle, Go.Host.writes_writePing] at inFlight
  have waiting := @Go.Host.waiting_pinged (goNode start g) dest
    (Go.generateTransactionId first second) sound.runtime.consistent reading sound.unfinished
  rw [← here, created] at waiting
  have acts := (settled.trans started).trans sent
  refine ⟨net', acts, sameTables_of_acts acts ?_, waiting, ⟨?_, rfl⟩⟩
  · rw [here, atStart]
    rfl
  · rw [inFlight, sound.pingQuery_eq]
    exact List.mem_append_left _ (mem_packets.mpr ⟨rfl, List.mem_cons_self⟩)

/-! ## Answering -/

/-- A node that is sent a query that it answers writes the answer, and keeps
waiting for what it has asked itself. -/
theorem exists_answered (reachable : s.Reachable net) {sender : G ⊕ R} {query : Go.KrpcQuery}
    {answer bytes : Bytes} (inFlight : ⟨sender, addr, bytes⟩ ∈ net.inFlight)
    (read : Go.received (bytes.take Go.receiveBufferSize) = some (some (.query query)))
    (leads : s.route addr = some (.inl peer)) (back : s.route home = some sender)
    (answers : ∀ client : Go.DhtClient, client.thisNodeInfo = s.info peer →
      client.response ⟨query, home⟩ = [(home, answer)]) :
    ∃ net', Acts s (.inl peer) net net' ∧ SameTables net net' ∧
      ⟨.inl peer, home, answer⟩ ∈ net'.inFlight ∧
      ∀ g c dest id, Waiting (goNode net g) c dest id → Waiting (goNode net' g) c dest id := by
  rcases exists_settled reachable peer with ⟨first, k, settled, settles, atFirst⟩
  have reading : (goNode first peer).client.krpcRuntime.receiver = .reading := by
    rw [atFirst]
    exact settles.reading
  have received := @Go.Host.step_readQuery (goNode first peer) home _ _ reading read
  rcases acts_of_goStep s received ⟨_, settled.kept inFlight, back, leads, rfl⟩ with
    ⟨second, taken, atSecond, _⟩
  have wrote := @Go.Host.step_writeReply (goNode first peer) query home
  rw [← atSecond] at wrote
  rcases acts_of_goStep s wrote trivial with ⟨net', replied, here, written⟩
  have info : ((goNode first peer).queried query home).client.thisNodeInfo = s.info peer :=
    (goSound_of_reachable (reachable.acts settled) peer).info
  rw [atSecond, Go.Host.writes_writeReply, answers _ info] at written
  have acts := (settled.trans taken).trans replied
  refine ⟨net', acts, sameTables_of_acts acts ?_, ?_, ?_⟩
  · rw [here, atSecond, atFirst]
    rfl
  · rw [written]
    exact List.mem_append_left _ (mem_packets.mpr ⟨rfl, List.mem_cons_self⟩)
  · intro g c dest id waiting
    by_cases self : g = peer
    · subst self
      have idle : goNode first g = goNode net g := by
        rw [atFirst, settles.idle waiting.reading]
        rfl
      rw [here, atSecond, idle]
      exact waiting.queried _ _ _
    · rw [goNode_of_ne acts self]
      exact waiting

/-! ## Getting the answer -/

omit [DecidableEq G] [DecidableEq R] in
/-- There is always a table to go on with. -/
theorem GoSound.exists_addEntry {inFlight : List (Datagram G R)} {host : Go.Host}
    (sound : GoSound s inFlight g host) (entry : Go.NodeInfo) :
    ∃ table, host.client.routingTable.addEntry entry = some table := by
  rcases sound.table with ⟨offered, _, run⟩
  rcases Go.RoutingTable.exists_addEntries (by decide : 1 ≤ Go.Host.entries) (s.info g)
    (offered ++ [entry]) with ⟨table, added, _⟩
  rw [Go.RoutingTable.addEntries_concat _ _ _ run] at added
  exact ⟨table, added⟩

/-- What a `ping` of the node to the address has led to: it has returned the pong
of the peer, and the peer's id has been handed to `addEntry` with that address,
while the table of no other node has changed. -/
structure Learned (s : Setup G R) (g peer : G) (c : Nat) (dest : Go.UDPAddr) (id : Bytes)
    (net net' : State G R) : Prop where
  reached : Reachable s.step net net'
  call : ∃ call, (goNode net' g).client.krpcRuntime.call c = some call ∧ call.dest = dest
  result : (goNode net' g).client.pingResult c = some (.ok (pong (s.info peer) id))
  table : (goNode net g).client.routingTable.addEntry ⟨(s.info peer).nodeId, dest⟩ =
    some (goNode net' g).client.routingTable
  others {other : G} : other ≠ g →
    (goNode net' other).client.routingTable = (goNode net other).client.routingTable

theorem Learned.after {before : State G R} (reached : Reachable s.step before net)
    (same : SameTables before net) (learned : Learned s g peer c dest id net net') :
    Learned s g peer c dest id before net' where
  reached := reached.trans learned.reached
  call := learned.call
  result := learned.result
  table := same g ▸ learned.table
  others {other} ne := (learned.others ne).trans (same other)

/-- A node that waits reads the pong and adds what it says. -/
theorem exists_learned_of_pong (reachable : s.Reachable net)
    (waiting : Waiting (goNode net g) c dest id) (length : id.length = 2)
    (inFlight : ⟨.inl peer, home, (pong (s.info peer) id).encode⟩ ∈ net.inFlight)
    (leads : s.route addr = some (.inl peer)) (back : s.route home = some (.inl g)) :
    ∃ net', Learned s g peer c dest id net net' := by
  have read := @Go.Host.step_readReply (goNode net g) addr _ _ waiting.reading
    (pong_fits (s.info peer) length).received rfl
  rcases acts_of_goStep s read ⟨_, inFlight, leads, back, rfl⟩ with ⟨middle, received, atMiddle, _⟩
  rcases (goSound_of_reachable reachable g).exists_addEntry ⟨(s.info peer).nodeId, dest⟩ with
    ⟨table, added⟩
  rcases waiting.finishes rfl (peerNodeId_pong (s.info peer) id) added with
    ⟨host, call, finished, found, isDest, returned, isTable⟩
  rw [← atMiddle] at finished
  rcases @Network.acts_of_inner _ _ _ _ _ _ _ endpoint s.route middle (.inl g) _ finished with
    ⟨net', last, here⟩
  have node : goNode net' g = host := here
  have acts := received.trans last
  refine ⟨net', acts.reached, ⟨call, node ▸ found, isDest⟩, node ▸ returned, ?_, ?_⟩
  · rw [node, isTable, added]
  · intro other ne
    rw [goNode_of_ne acts ne]

/-- A node that waits under a transaction id learns the id of any node that it
has pinged under that id. -/
theorem exists_learned (reachable : s.Reachable net) (waiting : Waiting (goNode net g) c dest id)
    (pinged : Pinged s net.inFlight g addr id) (leads : s.route addr = some (.inl peer))
    (back : s.route home = some (.inl g)) : ∃ net', Learned s g peer c dest id net net' := by
  rcases exists_answered reachable pinged.1 (ping_fits (s.info g) pinged.2).received leads back
    (fun client info => response_pingQuery info (s.info g)) with
    ⟨middle, answered, same, inFlight, stillWaiting⟩
  rcases exists_learned_of_pong (reachable.acts answered) (stillWaiting _ _ _ _ waiting) pinged.2
    inFlight leads back with ⟨net', learned⟩
  exact ⟨net', learned.after answered.reached same⟩

/-- A `ping` to the address of a node can be completed. -/
theorem exists_learned_by_ping (reachable : s.Reachable net)
    (leads : s.route dest = some (.inl peer)) (back : s.route home = some (.inl g))
    (first second : Fin Go.letterBytes.length) :
    ∃ net', Learned s g peer (goNode net g).client.krpcRuntime.created dest
      (Go.generateTransactionId first second) net net' := by
  rcases exists_asked reachable g dest first second with ⟨asked, acts, same, waiting, pinged⟩
  rcases exists_learned (reachable.acts acts) waiting pinged leads back with ⟨net', learned⟩
  exact ⟨net', learned.after acts.reached same⟩

/-- What a `ping` to the address adds when the node there answers. -/
def Setup.contact (s : Setup G R) (addr : Go.UDPAddr) (peer : G) : Go.NodeInfo where
  nodeId := (s.info peer).nodeId
  address := addr

/-- An address on this machine. -/
def localhost (port : Nat) : Go.UDPAddr where
  ip := [127, 0, 0, 1]
  port := port
  zone := []

/-- Three nodes on one machine. -/
def trio : Setup Bool Unit where
  info g := Go.RoutingTable.contact (if g then 255 else 18)
  rustId _ := ⟨List.replicate 20 7, rfl⟩
  route addr :=
    if addr.port = 6881 then some (.inl false)
    else if addr.port = 6882 then some (.inl true)
    else if addr.port = 12345 then some (.inr ())
    else none

end MainlineDht.Interop
