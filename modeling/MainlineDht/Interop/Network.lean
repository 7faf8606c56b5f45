import MainlineDht.Interop.Traffic

/-!
# A network of Go and Rust nodes

Any number of Go nodes and Rust nodes run what their `main` functions start, and
nothing else is connected to the network.  Datagrams may be lost, duplicated and
reordered, and steps may be taken in any order.  `route` tells whose socket has
an address; a node may have several.

Each node keeps that what it holds answers a query in flight, and relies on the
others for that.
-/

namespace MainlineDht.Interop

open Bencode Transition

variable {G R : Type}

/-- The nodes, and the addresses of their sockets. -/
structure Setup (G R : Type) where
  info : G → Go.NodeInfo
  rustId : R → NodeId
  route : Go.UDPAddr → Option (G ⊕ R)

/-- The state of a node, by its kind. -/
abbrev NodeState (G R : Type) : G ⊕ R → Type
  | .inl _ => Go.Host
  | .inr _ => Rust.NetLoop

/-- The actions of a node, by its kind. -/
abbrev NodeAction (G R : Type) : G ⊕ R → Type
  | .inl _ => Go.HostAction
  | .inr _ => Rust.NetAction

/-- A datagram: the node that wrote it, the address it was written to and its bytes. -/
abbrev Datagram (G R : Type) : Type := Packet (G ⊕ R) Go.UDPAddr Bytes

/-- The four bytes of an address, most significant first. -/
def ipBytes (ip : UInt32) : Bytes :=
  ([24, 16, 8, 0] : List UInt32).map fun shift => (ip >>> shift).toUInt8

/-- The address of a Rust node as a Go node writes it. -/
def udpAddr (addr : Rust.SocketAddrV4) : Go.UDPAddr where
  ip := ipBytes addr.ip
  port := addr.port.toNat
  zone := []

/-- The Rust node on the addresses of the network. -/
def rustEndpoint : Endpoint Rust.NetLoop Rust.NetAction Go.UDPAddr Bytes :=
  Rust.NetLoop.endpoint.mapAddress udpAddr

/-- Both kinds of nodes as components of one network. -/
def endpoint : ∀ i : G ⊕ R, Endpoint (NodeState G R i) (NodeAction G R i) Go.UDPAddr Bytes
  | .inl _ => Go.Host.endpoint
  | .inr _ => rustEndpoint

/-- The states of all nodes, and all datagrams that have been written. -/
abbrev State (G R : Type) : Type :=
  Network (NodeState G R) Go.UDPAddr Bytes

/-- A node, and its action. -/
abbrev Action (G R : Type) : Type :=
  Σ i, NodeAction G R i

namespace Setup

variable (s : Setup G R)

/-- All nodes as their `main` functions start them. -/
def start : State G R where
  node
    | .inl g => Go.Host.start (s.info g)
    | .inr r => Rust.NetLoop.start (s.rustId r)
  inFlight := []

/-- A step of one node, which may read what is in flight to it. -/
def step [DecidableEq G] [DecidableEq R] : Step (State G R) (Action G R) :=
  Network.step endpoint s.route

end Setup

/-! ## What is in flight -/

section Genuine

variable (s : Setup G R) (inFlight : List (Datagram G R))

/-- The Go node has written the query of a `ping` to the address. -/
def Pinged (g : G) (addr : Go.UDPAddr) (id : Bytes) : Prop :=
  ⟨.inl g, addr, (ping (s.info g) id).encode⟩ ∈ inFlight ∧ id.length = 2

/-- The Rust node has written the request of a bootstrap to the address. -/
def Requested (r : R) (addr : Go.UDPAddr) (first second : UInt8) : Prop :=
  ⟨.inr r, addr, Rust.encode (findNode (s.rustId r) first second)⟩ ∈ inFlight

/-- A datagram is a query of its sender, or it replies to a query that its
sender was sent, and goes to the node that sent it. -/
inductive Genuine : Datagram G R → Prop
  | ping {g : G} {dest : Go.UDPAddr} {id : Bytes} : id.length = 2 →
      Genuine ⟨.inl g, dest, (ping (s.info g) id).encode⟩
  | pong {g peer : G} {dest addr : Go.UDPAddr} {id : Bytes} : s.route dest = some (.inl peer) →
      Pinged s inFlight peer addr id → s.route addr = some (.inl g) →
      Genuine ⟨.inl g, dest, (pong (s.info g) id).encode⟩
  | findNode {r : R} {dest : Go.UDPAddr} {first second : UInt8} :
      Genuine ⟨.inr r, dest, Rust.encode (findNode (s.rustId r) first second)⟩
  | refusal {g : G} {r : R} {dest addr : Go.UDPAddr} {first second : UInt8} :
      s.route dest = some (.inr r) → Requested s inFlight r addr first second →
      s.route addr = some (.inl g) → Genuine ⟨.inl g, dest, (refusal first second).encode⟩

/-! ## What the nodes keep -/

/-- The message is a pong for one of the node's own pings. -/
def Ponged (g : G) (msg : Go.KrpcMessage) : Prop :=
  ∃ peer addr id, Pinged s inFlight g addr id ∧ s.route addr = some (.inl peer) ∧
    msg = pong (s.info peer) id

/-- The goroutine replies to a query that was sent to the node. -/
inductive Asked (g : G) : Go.Handler → Prop
  | ping {peer : G} {srcAddr addr : Go.UDPAddr} {id : Bytes} : s.route srcAddr = some (.inl peer) →
      Pinged s inFlight peer addr id → s.route addr = some (.inl g) →
      Asked g ⟨pingQuery (s.info peer) id, srcAddr⟩
  | findNode {r : R} {srcAddr addr : Go.UDPAddr} {first second : UInt8} :
      s.route srcAddr = some (.inr r) → Requested s inFlight r addr first second →
      s.route addr = some (.inl g) → Asked g ⟨findNodeQuery (s.rustId r) first second, srcAddr⟩

/-- Under one transaction id the node has pinged the address of the entry, and
an address of the node that has the id of the entry. -/
def Confirmed (g : G) (entry : Go.NodeInfo) : Prop :=
  ∃ id addr peer, Pinged s inFlight g entry.address id ∧ Pinged s inFlight g addr id ∧
    s.route addr = some (.inl peer) ∧ entry.nodeId = (s.info peer).nodeId

/-- What the runtime of a Go node keeps. -/
structure RuntimeSound (g : G) (k : Go.KrpcRuntime) : Prop where
  consistent : k.Consistent
  query {c : Nat} {call : Go.RpcCall} : k.call c = some call →
    call.msg = pingQuery (s.info g) call.transactionId ∧ call.transactionId.length = 2
  sent {c : Nat} {call : Go.RpcCall} : k.call c = some call → call.HasSent →
    Pinged s inFlight g call.dest call.transactionId
  held {msg : Go.KrpcMessage} : k.Holds msg → Ponged s inFlight g msg

/-- What a `ping` may return: that it could not be sent, the timeout, or a pong
with the transaction id of its call. -/
inductive PingOutcome (g : G) (call : Go.RpcCall) : Except Go.PingError Go.KrpcMessage → Prop
  | failed (err : Go.CallError) : PingOutcome g call (.error (.call err))
  | ponged {addr : Go.UDPAddr} {peer : G} : Pinged s inFlight g call.dest call.transactionId →
      Pinged s inFlight g addr call.transactionId → s.route addr = some (.inl peer) →
      PingOutcome g call (.ok (pong (s.info peer) call.transactionId))

/-- What a Go node keeps, as far as the datagrams in flight tell. -/
structure GoSound (g : G) (host : Go.Host) : Prop where
  info : host.client.thisNodeInfo = s.info g
  runtime : RuntimeSound s inFlight g host.client.krpcRuntime
  handlers : ∀ handler ∈ host.handlers, Asked s inFlight g handler
  results {c : Nat} {result : Except Go.PingError Go.KrpcMessage} :
    host.client.pingResult c = some result →
      ∃ call, host.client.krpcRuntime.call c = some call ∧ PingOutcome s inFlight g call result
  table : ∃ offered, (∀ entry ∈ offered, Confirmed s inFlight g entry) ∧
    (Go.newRoutingTable Go.Host.entries (s.info g)).addEntries offered =
      some host.client.routingTable

/-- What a Rust node has shown as received. -/
inductive Heard (r : R) : Value → Prop
  | ping {peer : G} {addr : Go.UDPAddr} {id : Bytes} : Pinged s inFlight peer addr id →
      s.route addr = some (.inr r) → Heard r (.dict (ping (s.info peer) id).toDict)
  | findNode {peer : R} {addr : Go.UDPAddr} {first second : UInt8} :
      Requested s inFlight peer addr first second → s.route addr = some (.inr r) →
      Heard r (findNode (s.rustId peer) first second)
  | refusal {g : G} {addr : Go.UDPAddr} {first second : UInt8} :
      Requested s inFlight r addr first second → s.route addr = some (.inl g) →
      Heard r (.dict (refusal first second).toDict)

/-- What a Rust node keeps: its id, and that it has heard only what was sent to it. -/
structure RustSound (r : R) (loop : Rust.NetLoop) : Prop where
  myInfo : loop.myInfo = (Rust.NetLoop.start (s.rustId r)).myInfo
  heard {result : Value} : .received result ∈ loop.shown → Heard s inFlight r result

/-- What a node keeps, by its kind. -/
def NodeSound : ∀ i, NodeState G R i → Prop
  | .inl g => GoSound s inFlight g
  | .inr r => RustSound s inFlight r

end Genuine

end MainlineDht.Interop
