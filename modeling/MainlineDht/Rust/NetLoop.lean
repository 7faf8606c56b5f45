import MainlineDht.Rust.FindNodeResponse
import MainlineDht.Rust.RoundTrip
import MainlineDht.Rust.RoutingTable
import MainlineDht.Transition.Network

/-!
# The network thread of the Rust node

`krpc_request`, `krpc_handle` and the loop of the thread that `main` spawns.  In
each round the loop takes one command from its channel, if there is one, and
then one datagram from the socket, if there is one.  A datagram that does not
decode ends the thread.
-/

namespace MainlineDht.Rust

open Effect Ordered Bencode Transition

/-- The key `y` of the message type. -/
def keyY : Bytes := [121]

/-- The key `q` of the method name, and the type of queries. -/
def keyQ : Bytes := [113]

/-- The key `a` of the arguments. -/
def keyA : Bytes := [97]

/-- The type of errors, `e`. -/
def keyE : Bytes := [101]

/-- The argument `target` of `find_node`. -/
def keyTarget : Bytes := [116, 97, 114, 103, 101, 116]

/-- The method name `find_node`. -/
def methodFindNode : Bytes := [102, 105, 110, 100, 95, 110, 111, 100, 101]

/-- What a node says of itself in its requests. -/
structure MyInfo where
  clientVersion : Option Bytes
  id : NodeId

/-- The two bytes of the transaction id are drawn at random. -/
def krpcRequest (method : Bytes) (args : Dict) (myInfo : MyInfo) (first second : UInt8) : Value :=
  let dict := Entries.insert keyT (.bytes [first, second]) []
  let dict := Entries.insert keyY (.bytes keyQ) dict
  let dict := Entries.insert keyQ (.bytes method) dict
  let dict := Entries.insert keyA (.dict args) dict
  match myInfo.clientVersion with
  | some clientVersion => .dict (Entries.insert keyV (.bytes clientVersion) dict)
  | none => .dict dict

/-- What `println!` is given: a text and the value after it. -/
abbrev Printed : Type := String × Value

/-- A response is printed. -/
def krpcOnReturn (msg : Dict) : Except String Printed :=
  .ok ("Received response: ", .dict msg)

/-- An error response is printed. -/
def krpcOnError (msg : Dict) : Except String Printed :=
  .ok ("Received error response: ", .dict msg)

/-- What is done with a message depends on its type alone. -/
def krpcHandle (bencode : Value) : Except String Printed :=
  match bencode with
  | .dict msg =>
      match Entries.lookup keyY msg with
      | some (.bytes y) =>
          if y = keyR then krpcOnReturn msg
          else if y = keyE then krpcOnError msg
          else .error "Unhandled KRPC message type"
      | _ => .error "KRPC message does not contain key y or invalid value type"
  | _ => .error "KRPC message is not a Dict"

/-! ## The loop -/

/-- What the user may ask for. -/
inductive NetCommand
  | bootstrap (addr : SocketAddrV4)

/-- What the thread hands to the user interface: `sending: …`, `error sending`
or `received: …`. -/
inductive Shown
  | sending (req : Value)
  | errorSending
  | received (result : Value)

/-- `netRx` are the commands in the channel, `atSocket` says that the loop has
taken its command in this round; `shown` has the newest first. -/
structure NetLoop where
  myInfo : MyInfo
  netRx : List NetCommand
  atSocket : Bool
  shown : List Shown

/-- What may happen next: the user sends a command, the loop takes one, with the
bytes that a request draws and whether it can be sent, or the loop looks at the
socket. -/
inductive NetAction
  | send (command : NetCommand)
  | tryRecv (first second : UInt8) (ok : Bool)
  | recv (srcAddr : SocketAddrV4) (datagram : Bytes)
  | wouldBlock

namespace NetLoop

/-- The thread of `main`, with the id that was drawn. -/
def start (id : NodeId) : NetLoop where
  myInfo := { clientVersion := none, id := id }
  netRx := []
  atSocket := false
  shown := []

/-- `vec![0; 1024]` -/
def bufSize : Nat := 1024

/-- The request of a bootstrap. -/
def findNodeRequest (loop : NetLoop) (first second : UInt8) : Value :=
  let args := Entries.insert keyId (.bytes loop.myInfo.id.val) []
  let args := Entries.insert keyTarget (.bytes loop.myInfo.id.val) args
  krpcRequest methodFindNode args loop.myInfo first second

/-- What is shown about a command. -/
def showCommand (loop : NetLoop) (first second : UInt8) (ok : Bool) : List Shown :=
  match loop.netRx.head? with
  | some (.bootstrap _) =>
      let req := loop.findNodeRequest first second
      if ok then [.sending req] else [.errorSending, .sending req]
  | none => []

/-- A step of the thread.  A datagram is cut off at the end of the buffer; what
follows the value in it is ignored. -/
def step : Step NetLoop NetAction
  | loop, .send command => some { loop with netRx := loop.netRx ++ [command] }
  | loop, .tryRecv first second ok =>
      if loop.atSocket then none
      else some
        { loop with
          netRx := loop.netRx.tail
          atSocket := true
          shown := loop.showCommand first second ok ++ loop.shown }
  | loop, .recv _ datagram =>
      if loop.atSocket then
        match decode (datagram.take bufSize) with
        | .ok (result, _) =>
            some { loop with atSocket := false, shown := .received result :: loop.shown }
        -- `unwrap` panics
        | .error _ => none
      else none
  | loop, .wouldBlock => if loop.atSocket then some { loop with atSocket := false } else none

/-- The datagram of an action, and the address it is from. -/
def reads : NetAction → Option (SocketAddrV4 × Bytes)
  | .recv srcAddr datagram => some (srcAddr, datagram)
  | _ => none

/-- A request that could be sent. -/
def writes (loop : NetLoop) : NetAction → List (SocketAddrV4 × Bytes)
  | .tryRecv first second true =>
      match loop.netRx.head? with
      | some (.bootstrap addr) => [(addr, encode (loop.findNodeRequest first second))]
      | none => []
  | _ => []

/-- The thread as a component of a network. -/
def endpoint : Endpoint NetLoop NetAction SocketAddrV4 Bytes where
  next := step
  reads := reads
  writes := writes

/-- The action panics. -/
def Panics (loop : NetLoop) : NetAction → Prop
  | .recv _ datagram => loop.atSocket = true ∧
      ∃ failure, decode (datagram.take bufSize) = .error failure
  | _ => False

end NetLoop

/-! ## Steps -/

/-- What a step does, and when it is possible. -/
inductive NetLoop.StepCase (loop : NetLoop) : NetAction → NetLoop → Prop
  | sent (command : NetCommand) :
      StepCase loop (.send command) { loop with netRx := loop.netRx ++ [command] }
  | took (first second : UInt8) (ok : Bool) : loop.atSocket = false →
      StepCase loop (.tryRecv first second ok)
        { loop with
          netRx := loop.netRx.tail
          atSocket := true
          shown := loop.showCommand first second ok ++ loop.shown }
  | received {srcAddr : SocketAddrV4} {datagram : Bytes} {result : Value} {c : Cursor} :
      loop.atSocket = true → decode (datagram.take bufSize) = .ok (result, c) →
      StepCase loop (.recv srcAddr datagram)
        { loop with atSocket := false, shown := .received result :: loop.shown }
  | idled : loop.atSocket = true → StepCase loop .wouldBlock { loop with atSocket := false }

theorem NetLoop.step_cases {loop loop' : NetLoop} {action : NetAction}
    (stepped : step loop action = some loop') : StepCase loop action loop' := by
  cases action with
  | send command =>
      cases stepped
      exact .sent command
  | tryRecv first second ok =>
      rw [step] at stepped
      split_ifs at stepped with atSocket
      cases stepped
      exact .took first second ok (Bool.eq_false_iff.mpr atSocket)
  | recv srcAddr datagram =>
      rw [step] at stepped
      split_ifs at stepped with atSocket
      split at stepped
      · rename_i result c decoded
        cases stepped
        exact .received atSocket decoded
      · cases stepped
  | wouldBlock =>
      rw [step] at stepped
      split_ifs at stepped with atSocket
      cases stepped
      exact .idled atSocket

theorem NetLoop.received_not_mem_showCommand {loop : NetLoop} {first second : UInt8} {ok : Bool}
    {result : Value} : Shown.received result ∉ loop.showCommand first second ok := by
  unfold showCommand
  split
  · cases ok <;> simp
  · simp

/-- All that the loop writes are requests of bootstraps. -/
theorem NetLoop.mem_writes {loop : NetLoop} {action : NetAction} {dest : SocketAddrV4}
    {bytes : Bytes} (written : (dest, bytes) ∈ writes loop action) :
    ∃ first second, action = .tryRecv first second true ∧
      loop.netRx.head? = some (.bootstrap dest) ∧
      bytes = encode (loop.findNodeRequest first second) := by
  unfold writes at written
  split at written
  · rename_i first second
    split at written
    · rename_i addr head
      cases List.mem_singleton.mp written
      exact ⟨first, second, rfl, head, rfl⟩
    · cases written
  · cases written

/-! ## Taking commands -/

variable {datagram : Bytes} {value : Value}

/-- The datagram begins with the notation of the value, in so many bytes at most. -/
def BeginsWithin (bound : Nat) (datagram : Bytes) (value : Value) : Prop :=
  ∃ c, decode datagram = .ok (value, c) ∧ c.position ≤ bound

/-- What is cut off a datagram matters exactly if the value reaches into it. -/
theorem decode_take_iff (fits : datagram.length < 2 ^ 63) (bound : Nat) :
    (∃ c, decode (datagram.take bound) = .ok (value, c)) ↔ BeginsWithin bound datagram value := by
  constructor
  · rintro ⟨c, decoded⟩
    have shorter : (datagram.take bound).length ≤ datagram.length := by
      rw [List.length_take]
      exact Nat.min_le_right _ _
    rcases (decode_verdict _ (Nat.lt_of_le_of_lt shorter fits)).derived_of_ok decoded with
      ⟨word, rest, taken, derives, -⟩
    obtain ⟨others, whole⟩ : ∃ others, datagram = word ++ others := by
      refine ⟨rest ++ datagram.drop bound, ?_⟩
      rw [← List.append_assoc, ← taken, List.take_append_drop]
    refine ⟨Cursor.after word others, ?_, ?_⟩
    · rw [whole]
      exact decode_of_derives derives others
    · have within := congrArg List.length taken
      rw [List.length_take, List.length_append] at within
      show word.length ≤ bound
      omega
  · rintro ⟨c, decoded, upTo⟩
    rcases (decode_verdict _ fits).derived_of_ok decoded with ⟨word, rest, whole, derives, rfl⟩
    have inside : word.length ≤ bound := upTo
    rw [whole, List.take_append, List.take_of_length_le inside]
    exact ⟨_, decode_of_derives derives _⟩

end MainlineDht.Rust
