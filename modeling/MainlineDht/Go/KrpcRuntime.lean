import MainlineDht.Go.KrpcMessage
import MainlineDht.Go.NodeInfo
import MainlineDht.Transition.Core
import Mathlib.Logic.Function.Basic

/-!
# The Go KRPC runtime as a transition system

Any number of `rpcCall` invocations run beside the one receive loop.  Each
access to the pending requests is one step, since a lock guards it; so are the
write to the socket, the send to a channel and the choice of the `select`.
Timers may fire at any time, writes may fail, and any datagram may arrive from
anywhere.

A channel is made for each call, so the n-th channel belongs to the n-th call.
`arrivals` and `deliveries` only observe what the receive loop does.
-/

namespace MainlineDht.Go

open Transition

/-- The n-th channel that was made. -/
abbrev Channel : Type := Nat

/-- How far an `rpcCall` has come: enqueued and about to write, in its
`select`, past the choice of the timeout, returned. -/
inductive Phase
  | writing
  | waiting
  | timedOut
  | returned
  deriving DecidableEq

/-- The errors of `rpcCall`. -/
inductive CallError
  | sending (dest : UDPAddr)
  | timeout

/-- The local variables of an `rpcCall`. -/
structure RpcCall where
  dest : UDPAddr
  msg : KrpcQuery
  responseChannel : Channel
  transactionId : Bytes
  phase : Phase
  result : Option (Except CallError KrpcMessage)

/-- Where the receive loop stands: reading from the socket, about to dequeue
for a reply, or about to send the reply to a channel. -/
inductive Receiver
  | reading
  | dispatching (arrival : Nat) (msg : KrpcMessage)
  | sending (arrival : Nat) (ch : Channel) (msg : KrpcMessage)

/-- A message that went into a channel, and which arrival it was. -/
structure Delivery where
  arrival : Nat
  ch : Channel
  msg : KrpcMessage

/-- The state of the runtime: the channels by transaction id, how many have been
made, what waits in each, and the calls.  The last two fields count and record
what the receive loop has read and delivered. -/
structure KrpcRuntime where
  pendingRequests : Bytes → Option Channel
  created : Nat
  buffer : Channel → Option KrpcMessage
  call : Nat → Option RpcCall
  receiver : Receiver
  arrivals : Nat
  deliveries : List Delivery

/-- No call has been made, and the receive loop reads. -/
def newKrpcRuntime : KrpcRuntime where
  pendingRequests _ := none
  created := 0
  buffer _ := none
  call _ := none
  receiver := .reading
  arrivals := 0
  deliveries := []

/-- `abc…zABC…Z` -/
def letterBytes : Bytes :=
  (List.range 26).map (fun i => UInt8.ofNat (97 + i)) ++
    (List.range 26).map (fun i => UInt8.ofNat (65 + i))

/-- The id made of the letters that were drawn. -/
def generateTransactionId (first second : Fin letterBytes.length) : Bytes :=
  [letterBytes[first], letterBytes[second]]

/-- What may happen next.  Calls are numbered in the order in which they start. -/
inductive Action
  | enqueuePendingRequest (dest : UDPAddr) (msg : KrpcQuery)
      (first second : Fin letterBytes.length)
  | writeToUDP (c : Nat) (ok : Bool)
  | readFromUDP (srcAddr : UDPAddr) (datagram : Bytes)
  | dequeuePendingRequest
  | sendToChannel
  | selectReply (c : Nat)
  | selectTimeout (c : Nat)
  | cancelPendingRequest (c : Nat)

/-- What `receiveMessages` reads out of a datagram: a message, or nothing if it
is not one.  The outer `none` is a panic of the decoder. -/
def received (datagram : Bytes) : Option (Option KrpcMessage) :=
  match decodeBencodeDict datagram with
  | .error _ => none
  | .ok (.error _, _) => some none
  | .ok (.ok dict, _) =>
      match decodeKrpcMessage dict with
      | .error _ => some none
      | .ok msg => some (some msg)

namespace KrpcRuntime

/-- `rpcCall` up to the write: a new channel is stored under the id that was drawn. -/
def enqueuePendingRequest (k : KrpcRuntime) (dest : UDPAddr) (msg : KrpcQuery)
    (transactionId : Bytes) : KrpcRuntime :=
  { k with
    pendingRequests := Function.update k.pendingRequests transactionId (some k.created)
    created := k.created + 1
    call := Function.update k.call k.created (some
      { dest := dest
        msg := { msg with transactionId := transactionId }
        responseChannel := k.created
        transactionId := transactionId
        phase := .writing
        result := none }) }

/-- Replace the local variables of a call. -/
def setCall (k : KrpcRuntime) (c : Nat) (call : RpcCall) : KrpcRuntime :=
  { k with call := Function.update k.call c (some call) }

/-- The entry is deleted, whatever channel is stored there. -/
def cancelPendingRequest (k : KrpcRuntime) (id : Bytes) : KrpcRuntime :=
  { k with pendingRequests := Function.update k.pendingRequests id none }

/-- The entry is deleted in any case; the channel is what was stored. -/
def dequeuePendingRequest (k : KrpcRuntime) (id : Bytes) : KrpcRuntime × Option Channel :=
  ({ k with pendingRequests := Function.update k.pendingRequests id none },
    k.pendingRequests id)

/-- The action of a call, if the call is in the right phase for it. -/
def inPhase (k : KrpcRuntime) (c : Nat) (phase : Phase)
    (next : RpcCall → Option KrpcRuntime) : Option KrpcRuntime :=
  match k.call c with
  | none => none
  | some call => if call.phase = phase then next call else none

section Updates

variable (k : KrpcRuntime) (dest : UDPAddr) (msg : KrpcQuery) (id : Bytes) (c : Nat)
  (after : RpcCall)

@[simp]
theorem setCall_call : (k.setCall c after).call = Function.update k.call c (some after) :=
  rfl

@[simp]
theorem setCall_pendingRequests : (k.setCall c after).pendingRequests = k.pendingRequests :=
  rfl

@[simp]
theorem cancelPendingRequest_pendingRequests :
    (k.cancelPendingRequest id).pendingRequests = Function.update k.pendingRequests id none :=
  rfl

@[simp]
theorem enqueuePendingRequest_pendingRequests :
    (k.enqueuePendingRequest dest msg id).pendingRequests =
      Function.update k.pendingRequests id (some k.created) :=
  rfl

@[simp]
theorem enqueuePendingRequest_call_eq :
    (k.enqueuePendingRequest dest msg id).call =
      Function.update k.call k.created (some
        { dest := dest
          msg := { msg with transactionId := id }
          responseChannel := k.created
          transactionId := id
          phase := .writing
          result := none }) :=
  rfl

end Updates

end KrpcRuntime

open KrpcRuntime in
/-- A step of the system, if its action is possible.  Sending to a channel whose
slot is taken is not: the receive loop would block. -/
def step : Step KrpcRuntime Action
  | k, .enqueuePendingRequest dest msg first second =>
      some (k.enqueuePendingRequest dest msg (generateTransactionId first second))
  | k, .writeToUDP c ok => k.inPhase c .writing fun call =>
      if ok then some (k.setCall c { call with phase := .waiting })
      else some (k.setCall c
        { call with phase := .returned, result := some (.error (.sending call.dest)) })
  | k, .readFromUDP _ datagram =>
      match k.receiver with
      | .reading =>
          match received datagram with
          -- a panic ends the process, and the run with it
          | none => none
          | some none => some k
          | some (some msg) =>
              -- a query is handled in a goroutine of its own
              if msg.isQuery then
                some { k with arrivals := k.arrivals + 1, receiver := .reading }
              else
                some { k with arrivals := k.arrivals + 1, receiver := .dispatching k.arrivals msg }
      | _ => none
  | k, .dequeuePendingRequest =>
      match k.receiver with
      | .dispatching arrival msg =>
          match k.dequeuePendingRequest msg.getTransactionId with
          | (k, some ch) => some { k with receiver := .sending arrival ch msg }
          | (k, none) => some { k with receiver := .reading }
      | _ => none
  | k, .sendToChannel =>
      match k.receiver with
      | .sending arrival ch msg =>
          match k.buffer ch with
          | some _ => none
          | none => some
              { k with
                buffer := Function.update k.buffer ch (some msg)
                receiver := .reading
                deliveries := { arrival := arrival, ch := ch, msg := msg } :: k.deliveries }
      | _ => none
  | k, .selectReply c => k.inPhase c .waiting fun call =>
      match k.buffer call.responseChannel with
      | none => none
      | some msg => some
          ({ k with buffer := Function.update k.buffer call.responseChannel none }.setCall c
            { call with phase := .returned, result := some (.ok msg) })
  | k, .selectTimeout c => k.inPhase c .waiting fun call =>
      some (k.setCall c { call with phase := .timedOut })
  | k, .cancelPendingRequest c => k.inPhase c .timedOut fun call =>
      some ((k.cancelPendingRequest call.transactionId).setCall c
        { call with phase := .returned, result := some (.error .timeout) })

end MainlineDht.Go
