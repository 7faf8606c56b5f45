import MainlineDht.Go.RoutingTableContents
import MainlineDht.Interop.NetworkProgress

/-!
# What never happens in the network

No node panics, no datagram is misunderstood, and what a Go node stores it has
learned from a node that answered one of its pings.  Whether that node is at the
address that is stored with its id depends on the transaction ids.
-/

namespace MainlineDht.Interop

open Bencode Transition

variable {G R : Type} [DecidableEq G] [DecidableEq R] {s : Setup G R} {net net' : State G R}
  {g : G} {r : R} {entry : Go.NodeInfo}

/-! ## Runs of two Go nodes and a Rust node -/

/-- A node has pinged the other. -/
theorem exists_learned_trio :
    ∃ net, Learned trio false true 0 (localhost 6882) [97, 98] trio.start net :=
  @exists_learned_by_ping _ _ _ _ trio trio.start false true (localhost 6881) (localhost 6882)
    (.refl _ _) rfl rfl ⟨0, by decide⟩ ⟨1, by decide⟩

theorem stored_of_learned_trio {net : State Bool Unit}
    (learned : Learned trio false true 0 (localhost 6882) [97, 98] trio.start net) :
    trio.contact (localhost 6882) true ∈ (goNode net false).client.routingTable.storedEntries := by
  have run : (Go.newRoutingTable Go.Host.entries (trio.info false)).addEntries [] =
      some (goNode trio.start false).client.routingTable := rfl
  exact Go.RoutingTable.mem_storedEntries_of_admits (by decide) run (by decide) learned.table

/-- A Go node has pinged the Rust node, which looks at its socket. -/
theorem exists_asked_trio :
    ∃ net, trio.Reachable net ∧ Pinged trio net.inFlight false (localhost 12345) [97, 98] ∧
      rustNode net () = ⟨(Rust.NetLoop.start (trio.rustId ())).myInfo, [], true, []⟩ := by
  rcases @exists_asked _ _ _ _ trio trio.start (.refl _ _) false (localhost 12345) ⟨0, by decide⟩
    ⟨1, by decide⟩ with ⟨asked, asks, _, _, pinged⟩
  have idle : rustNode asked () = rustNode trio.start () := asks.others Sum.inr_ne_inl
  have looks : Rust.NetLoop.step (rustNode asked ()) (.tryRecv 0 0 true) = some _ :=
    (congrArg (Rust.NetLoop.step · _) idle).trans rfl
  rcases acts_of_rustStep trio looks trivial with ⟨net, looked, here, _⟩
  exact ⟨net, asks.reached.trans looked.reached, pinged.mono looked.kept, here⟩

/-! ## The nodes one by one -/

/-- Every Go node of the network runs as its client does by itself, with whatever
the other nodes send as the datagrams that it reads. -/
theorem client_runs {history : List (State G R × Action G R)} (run : Run s.step s.start history net)
    (g : G) :
    Run Go.DhtClient.step
      (Go.startDhtClient (s.info g) (Go.newRoutingTable Go.Host.entries (s.info g)))
      (component Go.Host.client Go.Host.clientAction
        (component (fun net => goNode net g) (fun _ => Network.own (Sum.inl g)) history))
      (goNode net g).client :=
  Go.Host.clientRun (Network.run_node run (.inl g))

/-! ## The routing tables -/

/-- The entry stands for the node at its address. -/
def Truthful (s : Setup G R) (entry : Go.NodeInfo) : Prop :=
  ∃ peer, s.route entry.address = some (.inl peer) ∧ entry.nodeId = (s.info peer).nodeId

/-- The address of the entry was pinged under a transaction id under which
another node was pinged, too, or nobody. -/
def Ambiguous (s : Setup G R) (inFlight : List (Datagram G R)) (g : G) (entry : Go.NodeInfo) :
    Prop :=
  ∃ id addr, Pinged s inFlight g entry.address id ∧ Pinged s inFlight g addr id ∧
    s.route addr ≠ s.route entry.address

/-- Every entry has the id of a node that the owner of the table has pinged,
under a transaction id under which it has pinged the address of the entry.  Both
are one node unless transaction ids have been drawn twice. -/
theorem stored_confirmed (reachable : s.Reachable net)
    (stored : entry ∈ (goNode net g).client.routingTable.storedEntries) :
    Confirmed s net.inFlight g entry ∧ (Truthful s entry ∨ Ambiguous s net.inFlight g entry) := by
  rcases (goSound_of_reachable reachable g).table with ⟨offered, confirmed, run⟩
  have held := confirmed entry (Go.RoutingTable.storedEntries_subset (by decide) run stored)
  refine ⟨held, ?_⟩
  rcases held with ⟨id, addr, peer, pinged, other, leads, isId⟩
  by_cases same : s.route addr = s.route entry.address
  · exact Or.inl ⟨peer, same.symm.trans leads, isId⟩
  · exact Or.inr ⟨id, addr, pinged, other, same⟩

theorem stored_confirmed_trio :
    ∃ net : State Bool Unit, Confirmed trio net.inFlight false
      (trio.contact (localhost 6882) true) := by
  rcases exists_learned_trio with ⟨net, learned⟩
  exact ⟨net, (stored_confirmed learned.reached (stored_of_learned_trio learned)).1⟩

/-- A step of a node adds one entry to its table, or none. -/
theorem routingTable_of_step {host host' : Go.Host} {action : Go.HostAction}
    (stepped : Go.Host.step host action = some host') :
    host'.client.routingTable = host.client.routingTable ∨
      ∃ entry, host.client.routingTable.addEntry entry = some host'.client.routingTable := by
  have ofClient {a : Go.ClientAction}
      (performed : Go.DhtClient.step host.client a = some host'.client) :
      host'.client.routingTable = host.client.routingTable ∨
        ∃ entry, host.client.routingTable.addEntry entry = some host'.client.routingTable := by
    rcases Go.DhtClient.routingTable_of_step performed with same | ⟨c, entry, _, _, added⟩
    · exact Or.inl same
    · exact Or.inr ⟨entry, added⟩
  rcases Go.Host.step_cases stepped with ⟨a, _, _, performed, _⟩ | ⟨_, _, _, performed, _⟩ |
    ⟨_, _, _, _, same, _⟩
  · exact ofClient performed
  · exact ofClient performed
  · exact Or.inl (congrArg Go.DhtClient.routingTable same)

/-- Whatever the nodes do, a table goes on with entries that are added to it. -/
theorem addEntries_of_step {action : Action G R} (stepped : s.step net action = some net') :
    ∃ more, (goNode net g).client.routingTable.addEntries more =
      some (goNode net' g).client.routingTable := by
  rcases action with ⟨i, action⟩
  rcases Network.step_eq_some.mp stepped with ⟨_, after, performed, rfl⟩
  by_cases here : .inl g = i
  · subst here
    have now : goNode (net.act (.inl g) ((endpoint (.inl g)).writes (net.node (.inl g)) action)
        after) g = after := Network.act_node_self _ _ _ _
    rw [now]
    rcases routingTable_of_step performed with same | ⟨entry, added⟩
    · exact ⟨[], congrArg some same.symm⟩
    · refine ⟨[entry], ?_⟩
      rw [Go.RoutingTable.addEntries, List.foldlM_cons]
      exact (congrArg (Option.bind · _) added).trans rfl
  · refine ⟨[], ?_⟩
    rw [goNode, goNode, Network.act_node_of_ne _ _ _ _ here]
    rfl

theorem addEntries_of_reachable (later : Reachable s.step net net') :
    ∃ more, (goNode net g).client.routingTable.addEntries more =
      some (goNode net' g).client.routingTable := by
  rcases later with ⟨_, run⟩
  induction run with
  | initial => exact ⟨[], rfl⟩
  | push _ stepped ih =>
      rcases ih with ⟨earlier, before⟩
      rcases @addEntries_of_step _ _ _ _ _ _ _ g _ stepped with ⟨more, now⟩
      refine ⟨earlier ++ more, ?_⟩
      rw [Go.RoutingTable.addEntries, List.foldlM_append, ← Go.RoutingTable.addEntries, before]
      exact now

/-- Once an id is stored it keeps its address, right or wrong, whatever any node
does from then on. -/
theorem stored_stays (reachable : s.Reachable net) (later : Reachable s.step net net')
    (stored : entry ∈ (goNode net g).client.routingTable.storedEntries) :
    entry ∈ (goNode net' g).client.routingTable.storedEntries ∧
      ∀ other ∈ (goNode net' g).client.routingTable.storedEntries,
        other.nodeId = entry.nodeId → other = entry := by
  rcases (goSound_of_reachable reachable g).table with ⟨offered, _, run⟩
  rcases @addEntries_of_reachable _ _ _ _ _ _ _ g later with ⟨more, further⟩
  have run' := Go.RoutingTable.addEntries_append run further
  have still := Go.RoutingTable.storedEntries_mono (by decide) run run' stored
  refine ⟨still, ?_⟩
  intro other storedOther same
  exact Go.RoutingTable.eq_of_nodeId_eq (by decide) run' still storedOther same

/-- What has been learned from a `ping` stays when the other node is told to
ping itself. -/
theorem stored_stays_trio :
    ∃ net net' : State Bool Unit, trio.step net ⟨.inl true, .client (.ping (localhost 6882) ⟨0, by decide⟩
        ⟨0, by decide⟩)⟩ = some net' ∧
      trio.contact (localhost 6882) true ∈ (goNode net' false).client.routingTable.storedEntries := by
  rcases exists_learned_trio with ⟨net, learned⟩
  have pings : trio.step net ⟨.inl true, .client (.ping (localhost 6882) ⟨0, by decide⟩
      ⟨0, by decide⟩)⟩ = some _ := Network.step_eq_some.mpr ⟨trivial, _, rfl, rfl⟩
  have stays := stored_stays learned.reached ((Reachable.refl _ _).step pings)
    (stored_of_learned_trio learned)
  exact ⟨net, _, pings, stays.1⟩

/-- The action would panic in the state. -/
def Panics : ∀ i : G ⊕ R, NodeState G R i → NodeAction G R i → Prop
  | .inl _ => Go.Host.Panics
  | .inr _ => Rust.NetLoop.Panics

/-- Whatever a node does next, and whatever it reads of what is in flight, it
does not panic. -/
theorem never_panics (reachable : s.Reachable net) (i : G ⊕ R) (action : NodeAction G R i)
    (arrives : Arrives s.route net.inFlight i ((endpoint i).reads action)) :
    ¬ Panics i (net.node i) action := by
  have genuine : ∀ packet ∈ net.inFlight, Genuine s net.inFlight packet := by
    rcases reachable with ⟨_, run⟩
    exact (sound_of_run s run).packet
  rcases i with g | r
  · have sound := goSound_of_reachable reachable g
    cases action with
    | client a =>
        cases a with
        | finishPing c =>
            rintro ⟨entry, _, stuck⟩
            rcases sound.exists_addEntry entry with ⟨table, added⟩
            cases stuck.symm.trans added
        | ping | runtime => rintro ⟨⟩
    | readFromUDP srcAddr datagram =>
        rintro ⟨_, stuck⟩
        rcases arrives_go genuine arrives with ⟨msg, read, _⟩
        cases stuck.symm.trans read
    | writeReply => rintro ⟨⟩
  · cases action with
    | recv srcAddr datagram =>
        rintro ⟨_, failure, stuck⟩
        rcases arrives_rust genuine arrives with ⟨result, c, decoded, _⟩
        cases stuck.symm.trans decoded
    | send | tryRecv | wouldBlock => rintro ⟨⟩

/-- The Rust node reads the `ping`. -/
theorem never_panics_trio :
    ∃ net : State Bool Unit, (rustNode net ()).atSocket = true ∧
      ¬ Rust.NetLoop.Panics (rustNode net ())
        (.recv ⟨0x7f000001, 6881⟩ (ping (trio.info false) [97, 98]).encode) := by
  rcases exists_asked_trio with ⟨net, reachable, pinged, node⟩
  have arrives : Arrives trio.route net.inFlight (.inr ())
      (some (localhost 6881, (ping (trio.info false) [97, 98]).encode)) :=
    ⟨_, pinged.1, rfl, rfl, rfl⟩
  refine ⟨net, by rw [node], ?_⟩
  exact never_panics reachable (.inr ())
    (.recv ⟨0x7f000001, 6881⟩ (ping (trio.info false) [97, 98]).encode) arrives

/-! ## What the nodes get to see -/

/-- A `ping` returns the error of its call, or a pong with its transaction id
from a node that was pinged under that id; never another message and never an
error about one. -/
theorem ping_returns (reachable : s.Reachable net) {c : Nat}
    {result : Except Go.PingError Go.KrpcMessage}
    (returned : (goNode net g).client.pingResult c = some result) :
    ∃ call, (goNode net g).client.krpcRuntime.call c = some call ∧
      PingOutcome s net.inFlight g call result :=
  (goSound_of_reachable reachable g).results returned

theorem ping_returns_trio :
    ∃ (net : State Bool Unit) (call : Go.RpcCall),
      (goNode net false).client.krpcRuntime.call 0 = some call ∧
        PingOutcome trio net.inFlight false call (.ok (pong (trio.info true) [97, 98])) := by
  rcases exists_learned_trio with ⟨net, learned⟩
  exact ⟨net, ping_returns learned.reached learned.result⟩

/-- What a Rust node shows as received is a query that was sent to it, which
`krpc_handle` does not handle, or the refusal of one of its own requests: never
anything that `krpc_handle` takes for a response. -/
theorem heard_handled (reachable : s.Reachable net) {value : Value}
    (shown : .received value ∈ (rustNode net r).shown) :
    Heard s net.inFlight r value ∧
      (Rust.krpcHandle value = .error "Unhandled KRPC message type" ∨
        ∃ first second addr g, Requested s net.inFlight r addr first second ∧
          s.route addr = some (.inl g) ∧ value = .dict (refusal first second).toDict ∧
          Rust.krpcHandle value = .ok ("Received error response: ", value)) := by
  have heard := (rustSound_of_reachable reachable r).heard shown
  refine ⟨heard, ?_⟩
  cases heard with
  | ping => exact Or.inl (krpcHandle_toDict (ping _ _))
  | findNode =>
      rw [findNode_eq]
      exact Or.inl krpcHandle_krpcRequest
  | @refusal g addr first second requested leads =>
      exact Or.inr ⟨first, second, addr, g, requested, leads, rfl,
        krpcHandle_toDict (refusal first second)⟩

/-- The Rust node reads the `ping`. -/
theorem heard_handled_trio :
    ∃ net : State Bool Unit, Heard trio net.inFlight ()
      (.dict (ping (trio.info false) [97, 98]).toDict) := by
  rcases exists_asked_trio with ⟨asked, reachable, pinged, node⟩
  have hears : Rust.NetLoop.step (rustNode asked ())
      (.recv ⟨0x7f000001, 6881⟩ (ping (trio.info false) [97, 98]).encode) =
        some ⟨(Rust.NetLoop.start (trio.rustId ())).myInfo, [], false,
          [.received (.dict (ping (trio.info false) [97, 98]).toDict)]⟩ := by
    rw [node, Rust.NetLoop.step, if_pos rfl, (ping_fits (trio.info false) pinged.2).decode]
  rcases acts_of_rustStep trio hears ⟨_, pinged.1, rfl, rfl, rfl⟩ with ⟨net, heard, here, _⟩
  refine ⟨net, (heard_handled (reachable.acts heard) ?_).1⟩
  rw [here]
  exact List.mem_cons_self

end MainlineDht.Interop
