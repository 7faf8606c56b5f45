import MainlineDht.Go.KrpcRuntime
import Mathlib.Data.List.Nodup
import Mathlib.Tactic.Convert

/-!
# Reply delivery in the Go KRPC runtime

One invariant ties the map of pending requests, the slots of the channels, the
receive loop and the callers together.  It holds whatever ids are drawn: a
colliding id overwrites an entry, but a channel is never stored under two ids
and never stored again once a reply has been taken for it.
-/

namespace MainlineDht.Go

open Transition

namespace KrpcRuntime

theorem inPhase_eq_some {k k' : KrpcRuntime} {c : Nat} {phase : Phase}
    {next : RpcCall → Option KrpcRuntime} (performed : k.inPhase c phase next = some k') :
    ∃ call, k.call c = some call ∧ call.phase = phase ∧ next call = some k' := by
  unfold inPhase at performed
  split at performed
  · cases performed
  · rename_i call found
    split at performed
    · rename_i same
      exact ⟨call, found, same, performed⟩
    · cases performed

end KrpcRuntime

/-! ## What a step can do -/

open KrpcRuntime in
/-- The branches of `step`, one for each effect it can have. -/
inductive StepCase (k : KrpcRuntime) : Action → KrpcRuntime → Prop
  | enqueued (dest : UDPAddr) (msg : KrpcQuery) (first second : Fin letterBytes.length) :
      StepCase k (.enqueuePendingRequest dest msg first second)
        (k.enqueuePendingRequest dest msg (generateTransactionId first second))
  | wrote {c : Nat} {call : RpcCall} : k.call c = some call → call.phase = .writing →
      StepCase k (.writeToUDP c true) (k.setCall c { call with phase := .waiting })
  | writeFailed {c : Nat} {call : RpcCall} : k.call c = some call → call.phase = .writing →
      StepCase k (.writeToUDP c false) (k.setCall c
        { call with phase := .returned, result := some (.error (.sending call.dest)) })
  | ignored {srcAddr : UDPAddr} {datagram : Bytes} : k.receiver = .reading →
      received datagram = some none → StepCase k (.readFromUDP srcAddr datagram) k
  | queried {srcAddr : UDPAddr} {datagram : Bytes} {msg : KrpcMessage} : k.receiver = .reading →
      received datagram = some (some msg) → msg.isQuery = true →
      StepCase k (.readFromUDP srcAddr datagram)
        { k with arrivals := k.arrivals + 1, receiver := .reading }
  | replied {srcAddr : UDPAddr} {datagram : Bytes} {msg : KrpcMessage} : k.receiver = .reading →
      received datagram = some (some msg) → msg.isQuery = false →
      StepCase k (.readFromUDP srcAddr datagram)
        { k with arrivals := k.arrivals + 1, receiver := .dispatching k.arrivals msg }
  | dequeued {arrival : Nat} {msg : KrpcMessage} {ch : Channel} :
      k.receiver = .dispatching arrival msg →
      k.pendingRequests msg.getTransactionId = some ch →
      StepCase k .dequeuePendingRequest
        { k.cancelPendingRequest msg.getTransactionId with receiver := .sending arrival ch msg }
  | unsolicited {arrival : Nat} {msg : KrpcMessage} :
      k.receiver = .dispatching arrival msg →
      k.pendingRequests msg.getTransactionId = none →
      StepCase k .dequeuePendingRequest
        { k.cancelPendingRequest msg.getTransactionId with receiver := .reading }
  | sent {arrival : Nat} {ch : Channel} {msg : KrpcMessage} :
      k.receiver = .sending arrival ch msg → k.buffer ch = none →
      StepCase k .sendToChannel
        { k with
          buffer := Function.update k.buffer ch (some msg)
          receiver := .reading
          deliveries := { arrival := arrival, ch := ch, msg := msg } :: k.deliveries }
  | selectedReply {c : Nat} {call : RpcCall} {msg : KrpcMessage} : k.call c = some call →
      call.phase = .waiting → k.buffer call.responseChannel = some msg →
      StepCase k (.selectReply c)
        ({ k with buffer := Function.update k.buffer call.responseChannel none }.setCall c
          { call with phase := .returned, result := some (.ok msg) })
  | selectedTimeout {c : Nat} {call : RpcCall} : k.call c = some call → call.phase = .waiting →
      StepCase k (.selectTimeout c) (k.setCall c { call with phase := .timedOut })
  | cancelled {c : Nat} {call : RpcCall} : k.call c = some call → call.phase = .timedOut →
      StepCase k (.cancelPendingRequest c)
        ((k.cancelPendingRequest call.transactionId).setCall c
          { call with phase := .returned, result := some (.error .timeout) })

/-- Every step is one of the branches. -/
theorem step_cases {k k' : KrpcRuntime} {action : Action} (stepped : step k action = some k') :
    StepCase k action k' := by
  cases action with
  | enqueuePendingRequest dest msg first second =>
      cases stepped
      exact .enqueued dest msg first second
  | writeToUDP c ok =>
      obtain ⟨call, found, phase, next⟩ := KrpcRuntime.inPhase_eq_some stepped
      cases ok with
      | true =>
          cases next
          exact .wrote found phase
      | false =>
          cases next
          exact .writeFailed found phase
  | readFromUDP srcAddr datagram =>
      rw [step] at stepped
      split at stepped
      · rename_i reading
        split at stepped
        · cases stepped
        · rename_i silent
          cases stepped
          exact .ignored reading silent
        · rename_i msg message
          by_cases query : msg.isQuery = true
          · rw [if_pos query] at stepped
            cases stepped
            exact .queried reading message query
          · rw [if_neg query] at stepped
            cases stepped
            exact .replied reading message (by simpa using query)
      · cases stepped
  | dequeuePendingRequest =>
      rw [step] at stepped
      split at stepped
      · rename_i arrival msg dispatching
        simp only [KrpcRuntime.dequeuePendingRequest] at stepped
        cases found : k.pendingRequests msg.getTransactionId with
        | none =>
            rw [found] at stepped
            cases stepped
            exact .unsolicited dispatching found
        | some ch =>
            rw [found] at stepped
            cases stepped
            exact .dequeued dispatching found
      · cases stepped
  | sendToChannel =>
      rw [step] at stepped
      split at stepped
      · rename_i arrival ch msg sending
        split at stepped
        · cases stepped
        · rename_i empty
          cases stepped
          exact .sent sending empty
      · cases stepped
  | selectReply c =>
      obtain ⟨call, found, phase, next⟩ := KrpcRuntime.inPhase_eq_some stepped
      split at next
      · cases next
      · rename_i msg full
        cases next
        exact .selectedReply found phase full
  | selectTimeout c =>
      obtain ⟨call, found, phase, next⟩ := KrpcRuntime.inPhase_eq_some stepped
      cases next
      exact .selectedTimeout found phase
  | cancelPendingRequest c =>
      obtain ⟨call, found, phase, next⟩ := KrpcRuntime.inPhase_eq_some stepped
      cases next
      exact .cancelled found phase

/-- Every branch is a step. -/
theorem StepCase.step {k k' : KrpcRuntime} {action : Action} (branch : StepCase k action k') :
    step k action = some k' := by
  cases branch with
  | enqueued => rfl
  | wrote found phase => simp [Go.step, KrpcRuntime.inPhase, found, phase]
  | writeFailed found phase => simp [Go.step, KrpcRuntime.inPhase, found, phase]
  | ignored reading silent => simp [Go.step, reading, silent]
  | queried reading message query => simp [Go.step, reading, message, query]
  | replied reading message reply => simp [Go.step, reading, message, reply]
  | dequeued dispatching stored =>
      simp [Go.step, dispatching, KrpcRuntime.dequeuePendingRequest, stored,
        KrpcRuntime.cancelPendingRequest]
  | unsolicited dispatching missing =>
      simp [Go.step, dispatching, KrpcRuntime.dequeuePendingRequest, missing,
        KrpcRuntime.cancelPendingRequest]
  | sent sending empty => simp [Go.step, sending, empty]
  | selectedReply found phase full => simp [Go.step, KrpcRuntime.inPhase, found, phase, full]
  | selectedTimeout found phase => simp [Go.step, KrpcRuntime.inPhase, found, phase]
  | cancelled found phase => simp [Go.step, KrpcRuntime.inPhase, found, phase]

/-! ## The invariant -/

namespace KrpcRuntime

/-- The call that made a channel sent its query under the given id. -/
def Owns (k : KrpcRuntime) (ch : Channel) (id : Bytes) : Prop :=
  ∃ call, k.call ch = some call ∧ call.transactionId = id

/-- Nothing has ever been sent to the channel. -/
def Untouched (k : KrpcRuntime) (ch : Channel) : Prop :=
  ∀ delivery ∈ k.deliveries, delivery.ch ≠ ch

/-- An arrival that has been received and not delivered. -/
def InHand (k : KrpcRuntime) (arrival : Nat) : Prop :=
  arrival < k.arrivals ∧ ∀ delivery ∈ k.deliveries, delivery.arrival ≠ arrival

/-- The message has been delivered to the channel. -/
def Delivered (k : KrpcRuntime) (ch : Channel) (msg : KrpcMessage) : Prop :=
  ∃ delivery ∈ k.deliveries, delivery.ch = ch ∧ delivery.msg = msg

/-- The message is a reply to the query that the maker of the channel sent. -/
def Answers (k : KrpcRuntime) (ch : Channel) (msg : KrpcMessage) : Prop :=
  msg.isQuery = false ∧ k.Owns ch msg.getTransactionId

/-- What holds in every reachable state of the runtime. -/
structure Consistent (k : KrpcRuntime) : Prop where
  call_created {c : Nat} {call : RpcCall} : k.call c = some call → c < k.created
  call_own {c : Nat} {call : RpcCall} : k.call c = some call →
    call.responseChannel = c ∧ call.msg.transactionId = call.transactionId
  pending_owns {id : Bytes} {ch : Channel} : k.pendingRequests id = some ch → k.Owns ch id
  pending_untouched {id : Bytes} {ch : Channel} : k.pendingRequests id = some ch →
    k.Untouched ch ∧ ∀ arrival msg, k.receiver ≠ .sending arrival ch msg
  dispatching {arrival : Nat} {msg : KrpcMessage} : k.receiver = .dispatching arrival msg →
    msg.isQuery = false ∧ k.InHand arrival
  sending {arrival : Nat} {ch : Channel} {msg : KrpcMessage} :
    k.receiver = .sending arrival ch msg →
      k.Answers ch msg ∧ k.InHand arrival ∧ k.Untouched ch
  delivery_answers {delivery : Delivery} : delivery ∈ k.deliveries →
    delivery.arrival < k.arrivals ∧ k.Answers delivery.ch delivery.msg
  distinct_channels : (k.deliveries.map Delivery.ch).Nodup
  distinct_arrivals : (k.deliveries.map Delivery.arrival).Nodup
  buffered {ch : Channel} {msg : KrpcMessage} : k.buffer ch = some msg → k.Delivered ch msg
  returned {c : Nat} {call : RpcCall} {msg : KrpcMessage} : k.call c = some call →
    call.result = some (.ok msg) → k.Delivered call.responseChannel msg

theorem newKrpcRuntime_consistent : newKrpcRuntime.Consistent where
  call_created found := by cases found
  call_own found := by cases found
  pending_owns found := by cases found
  pending_untouched found := by cases found
  dispatching receiver := by cases receiver
  sending receiver := by cases receiver
  delivery_answers member := by cases member
  distinct_channels := List.nodup_nil
  distinct_arrivals := List.nodup_nil
  buffered found := by cases found
  returned found := by cases found

section Updates

variable {k : KrpcRuntime} {c : Nat} {call after : RpcCall} {id : Bytes} {ch : Channel}
  {msg : KrpcMessage} {arrival : Nat}

/-- A channel belongs to one id. -/
theorem Owns.unique {other : Bytes} (owns : k.Owns ch id) (ownsOther : k.Owns ch other) :
    id = other := by
  obtain ⟨call, found, rfl⟩ := owns
  obtain ⟨call', found', rfl⟩ := ownsOther
  rw [found, Option.some_inj] at found'
  rw [found']

/-- Local variables may change, but not the id, the query and the channel. -/
theorem Owns.setCall (owns : k.Owns ch id) (found : k.call c = some call)
    (same : after.transactionId = call.transactionId) : (k.setCall c after).Owns ch id := by
  obtain ⟨owner, isOwner, ownId⟩ := owns
  by_cases here : ch = c
  · subst here
    rw [found] at isOwner
    cases isOwner
    exact ⟨after, Function.update_self _ _ _, same.trans ownId⟩
  · exact ⟨owner, (Function.update_of_ne here _ _).trans isOwner, ownId⟩

/-- A call, after one has gone on. -/
theorem setCall_found {c' : Nat} {call' : RpcCall}
    (found' : (k.setCall c after).call c' = some call') :
    (c' = c ∧ call' = after) ∨ k.call c' = some call' := by
  by_cases here : c' = c
  · subst here
    rw [setCall_call, Function.update_self, Option.some_inj] at found'
    exact Or.inl ⟨rfl, found'.symm⟩
  · exact Or.inr ((Function.update_of_ne here _ _).symm.trans found')

theorem Consistent.setCall (inv : k.Consistent) (found : k.call c = some call) (phase : Phase)
    {result : Option (Except CallError KrpcMessage)}
    (delivered : ∀ msg, result = some (.ok msg) → k.Delivered call.responseChannel msg) :
    (k.setCall c { call with phase := phase, result := result }).Consistent := by
  generalize after_eq : { call with phase := phase, result := result } = after
  have sameId : after.transactionId = call.transactionId := by rw [← after_eq]
  have answers {ch : Channel} {msg : KrpcMessage} (held : k.Answers ch msg) :
      (k.setCall c after).Answers ch msg :=
    ⟨held.1, held.2.setCall found sameId⟩
  exact
    { call_created := fun found' => by
        rcases setCall_found found' with ⟨rfl, rfl⟩ | before
        · exact inv.call_created found
        · exact inv.call_created before
      call_own := fun found' => by
        rcases setCall_found found' with ⟨rfl, rfl⟩ | before
        · have own := inv.call_own found
          rw [← after_eq]
          exact own
        · exact inv.call_own before
      pending_owns := fun stored => (inv.pending_owns stored).setCall found sameId
      pending_untouched := inv.pending_untouched
      dispatching := inv.dispatching
      sending := fun receiver =>
        ⟨answers (inv.sending receiver).1, (inv.sending receiver).2⟩
      delivery_answers := fun member =>
        ⟨(inv.delivery_answers member).1, answers (inv.delivery_answers member).2⟩
      distinct_channels := inv.distinct_channels
      distinct_arrivals := inv.distinct_arrivals
      buffered := inv.buffered
      returned := fun found' isResult => by
        rcases setCall_found found' with ⟨rfl, rfl⟩ | before
        · rw [← after_eq] at isResult ⊢
          exact delivered _ isResult
        · exact inv.returned before isResult }

theorem cancelPendingRequest_stored {other : Bytes}
    (stored : (k.cancelPendingRequest id).pendingRequests other = some ch) :
    other ≠ id ∧ k.pendingRequests other = some ch := by
  by_cases here : other = id
  · subst here
    rw [cancelPendingRequest_pendingRequests, Function.update_self] at stored
    cases stored
  · exact ⟨here, (Function.update_of_ne here _ _).symm.trans stored⟩

theorem Consistent.cancelPendingRequest (inv : k.Consistent) (id : Bytes) :
    (k.cancelPendingRequest id).Consistent :=
  { inv with
    pending_owns := fun stored => inv.pending_owns (cancelPendingRequest_stored stored).2
    pending_untouched := fun stored =>
      inv.pending_untouched (cancelPendingRequest_stored stored).2 }

/-- A stored channel, after another one has been stored. -/
theorem enqueuePendingRequest_stored {dest : UDPAddr} {query : KrpcQuery} {other : Bytes}
    (stored : (k.enqueuePendingRequest dest query id).pendingRequests other = some ch) :
    (other = id ∧ ch = k.created) ∨ k.pendingRequests other = some ch := by
  by_cases here : other = id
  · subst here
    rw [enqueuePendingRequest_pendingRequests, Function.update_self, Option.some_inj] at stored
    exact Or.inl ⟨rfl, stored.symm⟩
  · exact Or.inr ((Function.update_of_ne here _ _).symm.trans stored)

/-- A call, after another one has started. -/
theorem enqueuePendingRequest_call {dest : UDPAddr} {query : KrpcQuery}
    (found : (k.enqueuePendingRequest dest query id).call c = some call) :
    (c = k.created ∧ call.responseChannel = c ∧ call.msg.transactionId = id ∧
      call.transactionId = id ∧ call.phase = .writing ∧ call.result = none) ∨
      k.call c = some call := by
  by_cases here : c = k.created
  · subst here
    rw [enqueuePendingRequest_call_eq, Function.update_self, Option.some_inj] at found
    subst found
    exact Or.inl ⟨rfl, rfl, rfl, rfl, rfl, rfl⟩
  · exact Or.inr ((Function.update_of_ne here _ _).symm.trans found)

theorem Consistent.enqueuePendingRequest (inv : k.Consistent) (dest : UDPAddr)
    (query : KrpcQuery) (id : Bytes) : (k.enqueuePendingRequest dest query id).Consistent := by
  have kept {c : Nat} {call : RpcCall} (found : k.call c = some call) :
      (k.enqueuePendingRequest dest query id).call c = some call :=
    (Function.update_of_ne (Nat.ne_of_lt (inv.call_created found)) _ _).trans found
  have owns {ch : Channel} {id' : Bytes} (held : k.Owns ch id') :
      (k.enqueuePendingRequest dest query id).Owns ch id' := by
    obtain ⟨call, found, ownId⟩ := held
    exact ⟨call, kept found, ownId⟩
  have created : (k.enqueuePendingRequest dest query id).Owns k.created id :=
    ⟨_, Function.update_self _ _ _, rfl⟩
  have unused {ch : Channel} {id' : Bytes} (held : k.Owns ch id') : ch ≠ k.created := by
    obtain ⟨call, found, _⟩ := held
    exact Nat.ne_of_lt (inv.call_created found)
  exact
    { call_created := fun found => by
        rcases enqueuePendingRequest_call found with ⟨rfl, _⟩ | before
        · exact Nat.lt_succ_self _
        · exact Nat.lt_succ_of_lt (inv.call_created before)
      call_own := fun found => by
        rcases enqueuePendingRequest_call found with ⟨rfl, own, ownQuery, ownId, _⟩ | before
        · exact ⟨own, ownQuery.trans ownId.symm⟩
        · exact inv.call_own before
      pending_owns := fun stored => by
        rcases enqueuePendingRequest_stored stored with ⟨rfl, rfl⟩ | before
        · exact created
        · exact owns (inv.pending_owns before)
      pending_untouched := fun stored => by
        rcases enqueuePendingRequest_stored stored with ⟨rfl, rfl⟩ | before
        · constructor
          · exact fun delivery member => unused (inv.delivery_answers member).2.2
          · exact fun arrival msg receiver => unused (inv.sending receiver).1.2 rfl
        · exact inv.pending_untouched before
      dispatching := inv.dispatching
      sending := fun receiver =>
        ⟨⟨(inv.sending receiver).1.1, owns (inv.sending receiver).1.2⟩, (inv.sending receiver).2⟩
      delivery_answers := fun member =>
        ⟨(inv.delivery_answers member).1, (inv.delivery_answers member).2.1,
          owns (inv.delivery_answers member).2.2⟩
      distinct_channels := inv.distinct_channels
      distinct_arrivals := inv.distinct_arrivals
      buffered := inv.buffered
      returned := fun found result => by
        rcases enqueuePendingRequest_call found with ⟨_, _, _, _, _, none⟩ | before
        · rw [none] at result
          cases result
        · exact inv.returned before result }

/-- Another datagram has been read. -/
theorem Consistent.arrived (inv : k.Consistent) {receiver : Receiver}
    (next : receiver = .reading ∨ ∃ msg, receiver = .dispatching k.arrivals msg ∧
      msg.isQuery = false) :
    { k with arrivals := k.arrivals + 1, receiver := receiver }.Consistent :=
  { inv with
    pending_untouched := fun stored => by
      constructor
      · exact (inv.pending_untouched stored).1
      · rcases next with rfl | ⟨msg, rfl, _⟩ <;> rintro _ _ ⟨⟩
    dispatching := fun dispatching => by
      rcases next with rfl | ⟨msg, rfl, reply⟩
      · cases dispatching
      · cases dispatching
        refine ⟨reply, Nat.lt_succ_self _, ?_⟩
        exact fun delivery member => Nat.ne_of_lt (inv.delivery_answers member).1
    sending := fun sending => by
      rcases next with rfl | ⟨msg, rfl, _⟩ <;> cases sending
    delivery_answers := fun member =>
      ⟨Nat.lt_succ_of_lt (inv.delivery_answers member).1, (inv.delivery_answers member).2⟩ }

/-- The entry of a reply has been taken out of the map. -/
theorem Consistent.dequeued (inv : k.Consistent) (dispatching : k.receiver = .dispatching arrival msg)
    (stored : k.pendingRequests msg.getTransactionId = some ch) :
    { k.cancelPendingRequest msg.getTransactionId with
      receiver := .sending arrival ch msg }.Consistent :=
  { inv.cancelPendingRequest msg.getTransactionId with
    pending_untouched := fun remaining => by
      obtain ⟨other, before⟩ := cancelPendingRequest_stored remaining
      constructor
      · exact (inv.pending_untouched before).1
      · rintro _ _ ⟨⟩
        exact other ((inv.pending_owns before).unique (inv.pending_owns stored))
    dispatching := fun receiver => by cases receiver
    sending := fun receiver => by
      cases receiver
      exact ⟨⟨(inv.dispatching dispatching).1, inv.pending_owns stored⟩,
        (inv.dispatching dispatching).2, (inv.pending_untouched stored).1⟩ }

theorem Consistent.unsolicited (inv : k.Consistent) (id : Bytes) :
    { k.cancelPendingRequest id with receiver := .reading }.Consistent :=
  { inv.cancelPendingRequest id with
    pending_untouched := fun stored =>
      ⟨((inv.cancelPendingRequest id).pending_untouched stored).1, by rintro _ _ ⟨⟩⟩
    dispatching := fun receiver => by cases receiver
    sending := fun receiver => by cases receiver }

/-- The reply has gone into the channel's slot. -/
theorem Consistent.sent (inv : k.Consistent) (sending : k.receiver = .sending arrival ch msg) :
    { k with
      buffer := Function.update k.buffer ch (some msg)
      receiver := .reading
      deliveries := { arrival := arrival, ch := ch, msg := msg } :: k.deliveries }.Consistent := by
  obtain ⟨answers, inHand, untouched⟩ := inv.sending sending
  exact
    { inv with
      pending_untouched := fun stored => by
        constructor
        · intro delivery member
          rcases List.mem_cons.mp member with rfl | member
          · exact fun same => (inv.pending_untouched stored).2 arrival msg (same ▸ sending)
          · exact (inv.pending_untouched stored).1 delivery member
        · rintro _ _ ⟨⟩
      dispatching := fun receiver => by cases receiver
      sending := fun receiver => by cases receiver
      delivery_answers := fun member => by
        rcases List.mem_cons.mp member with rfl | member
        · exact ⟨inHand.1, answers⟩
        · exact inv.delivery_answers member
      distinct_channels := by
        rw [List.map_cons, List.nodup_cons]
        constructor
        · intro member
          obtain ⟨delivery, delivered, same⟩ := List.mem_map.mp member
          exact untouched delivery delivered same
        · exact inv.distinct_channels
      distinct_arrivals := by
        rw [List.map_cons, List.nodup_cons]
        constructor
        · intro member
          obtain ⟨delivery, delivered, same⟩ := List.mem_map.mp member
          exact inHand.2 delivery delivered same
        · exact inv.distinct_arrivals
      buffered := fun {other} {found} full => by
        dsimp only at full
        by_cases here : other = ch
        · subst here
          rw [Function.update_self, Option.some_inj] at full
          exact ⟨_, List.mem_cons_self, rfl, full⟩
        · rw [Function.update_of_ne here] at full
          obtain ⟨delivery, member, same⟩ := inv.buffered full
          exact ⟨delivery, List.mem_cons_of_mem _ member, same⟩
      returned := fun found result => by
        obtain ⟨delivery, member, same⟩ := inv.returned found result
        exact ⟨delivery, List.mem_cons_of_mem _ member, same⟩ }

/-- The caller has taken the message out of its slot. -/
theorem Consistent.received (inv : k.Consistent) (ch : Channel) :
    { k with buffer := Function.update k.buffer ch none }.Consistent :=
  { inv with
    buffered := fun {other} {msg} full => by
      dsimp only at full
      by_cases here : other = ch
      · subst here
        rw [Function.update_self] at full
        cases full
      · exact inv.buffered ((Function.update_of_ne here _ _).symm.trans full) }

end Updates

/-- One step keeps the invariant. -/
theorem Consistent.step {k k' : KrpcRuntime} {action : Action} (inv : k.Consistent)
    (stepped : Go.step k action = some k') : k'.Consistent := by
  cases step_cases stepped with
  | enqueued dest msg first second => exact inv.enqueuePendingRequest dest msg _
  | wrote found _ => exact inv.setCall found .waiting fun _ result => inv.returned found result
  | writeFailed found _ => exact inv.setCall found .returned (by rintro _ ⟨⟩)
  | ignored _ _ => exact inv
  | queried _ _ _ => exact inv.arrived (Or.inl rfl)
  | replied _ _ reply => exact inv.arrived (Or.inr ⟨_, rfl, reply⟩)
  | dequeued dispatching stored => exact inv.dequeued dispatching stored
  | unsolicited _ _ => exact inv.unsolicited _
  | sent sending _ => exact inv.sent sending
  | selectedReply found _ full =>
      apply (inv.received _).setCall found .returned
      rintro _ ⟨⟩
      exact inv.buffered full
  | selectedTimeout found _ =>
      exact inv.setCall found .timedOut fun _ result => inv.returned found result
  | cancelled found _ =>
      exact (inv.cancelPendingRequest _).setCall found .returned (by rintro _ ⟨⟩)

theorem consistent_of_run {history : List (KrpcRuntime × Action)} {k : KrpcRuntime}
    (run : Run Go.step newKrpcRuntime history k) : k.Consistent :=
  run.invariant newKrpcRuntime_consistent fun inv stepped => inv.step stepped

/-! ## Delivery -/

/-- Replies are delivered at most once, to the call that asked for them, and
without blocking the receive loop. -/
structure DeliversOnce (k : KrpcRuntime) : Prop where
  channel_once (ch : Channel) :
    (k.deliveries.filter fun delivery => delivery.ch = ch).length ≤ 1
  arrival_once (arrival : Nat) :
    (k.deliveries.filter fun delivery => delivery.arrival = arrival).length ≤ 1
  never_blocks {arrival : Nat} {ch : Channel} {msg : KrpcMessage} :
    k.receiver = .sending arrival ch msg →
      k.buffer ch = none ∧ (Go.step k .sendToChannel).isSome
  returns_reply {c : Nat} {call : RpcCall} {msg : KrpcMessage} : k.call c = some call →
    call.result = some (.ok msg) →
      msg.isQuery = false ∧ msg.getTransactionId = call.msg.transactionId
  returns_delivered {c : Nat} {call : RpcCall} {msg : KrpcMessage} : k.call c = some call →
    call.result = some (.ok msg) → k.Delivered call.responseChannel msg
  channels_distinct {c c' : Nat} {call call' : RpcCall} : k.call c = some call →
    k.call c' = some call' → call.responseChannel = call'.responseChannel → c = c'

/-- At most one member of a list has a given image under a map without repetition. -/
theorem length_filter_le_one {A B : Type} [DecidableEq B] (f : A → B) {members : List A}
    (distinct : (members.map f).Nodup) (image : B) :
    (members.filter fun member => f member = image).length ≤ 1 := by
  have counted := List.nodup_iff_count_le_one.mp distinct image
  rw [List.count, List.countP_map, List.countP_eq_length_filter] at counted
  convert counted using 3
  simp [Function.comp_def, beq_eq_decide]

/-- The invariant gives delivery at most once. -/
theorem Consistent.deliversOnce {k : KrpcRuntime} (inv : k.Consistent) : k.DeliversOnce where
  channel_once ch := length_filter_le_one Delivery.ch inv.distinct_channels ch
  arrival_once arrival := length_filter_le_one Delivery.arrival inv.distinct_arrivals arrival
  never_blocks {arrival ch msg} sending := by
    have untouched := (inv.sending sending).2.2
    have empty : k.buffer ch = none := by
      cases full : k.buffer ch with
      | none => rfl
      | some held =>
          obtain ⟨delivery, member, same, _⟩ := inv.buffered full
          exact absurd same (untouched delivery member)
    constructor
    · exact empty
    · rw [Go.step, sending]
      simp [empty]
  returns_reply found result := by
    obtain ⟨delivery, member, same, rfl⟩ := inv.returned found result
    obtain ⟨_, reply, owner, isOwner, ownId⟩ := inv.delivery_answers member
    obtain ⟨own, ownQuery⟩ := inv.call_own found
    rw [same, own, found, Option.some_inj] at isOwner
    subst isOwner
    exact ⟨reply, ownId.symm.trans ownQuery.symm⟩
  returns_delivered found result := inv.returned found result
  channels_distinct found found' same := by
    rw [(inv.call_own found).1, (inv.call_own found').1] at same
    exact same

/-- Whatever ids are drawn and whatever arrives in whatever order, every
reachable state of the runtime delivers replies at most once. -/
theorem deliversOnce_of_reachable (k : KrpcRuntime)
    (reachable : Reachable Go.step newKrpcRuntime k) : k.DeliversOnce := by
  obtain ⟨history, run⟩ := reachable
  exact (consistent_of_run run).deliversOnce

/-- An address to call. -/
def peer : UDPAddr := { ip := [127, 0, 0, 1], port := 6881, zone := [] }

/-- A call that draws the first two letters. -/
def firstCall : Action :=
  .enqueuePendingRequest peer
    { transactionId := [], methodName := [112, 105, 110, 103], arguments := [] } ⟨0, by decide⟩
    ⟨1, by decide⟩

/-- The state after the first call has been enqueued. -/
def afterFirstCall : KrpcRuntime :=
  newKrpcRuntime.enqueuePendingRequest peer
    { transactionId := [], methodName := [112, 105, 110, 103], arguments := [] } [97, 98]

theorem afterFirstCall_run :
    Run step newKrpcRuntime [(newKrpcRuntime, firstCall)] afterFirstCall :=
  .push .initial rfl

/-- What was received is a reply with the given id. -/
def isReplyTo (id : Bytes) : Option (Option KrpcMessage) → Bool
  | some (some msg) => !msg.isQuery && msg.getTransactionId == id
  | _ => false

theorem exists_of_isReplyTo {id : Bytes} {result : Option (Option KrpcMessage)}
    (isReply : isReplyTo id result = true) :
    ∃ msg, result = some (some msg) ∧ msg.isQuery = false ∧ msg.getTransactionId = id := by
  match result with
  | some (some msg) => exact ⟨msg, rfl, by simpa [isReplyTo] using isReply⟩

/-- `d1:rde1:t2:ab1:y1:re` -/
def firstReply : Bytes :=
  [100, 49, 58, 114, 100, 101, 49, 58, 116, 50, 58, 97, 98, 49, 58, 121, 49, 58, 114, 101]

theorem received_firstReply :
    ∃ msg, received firstReply = some (some msg) ∧ msg.isQuery = false ∧
      msg.getTransactionId = [97, 98] := by
  apply exists_of_isReplyTo
  decide +kernel

/-- The first call, waiting for its reply. -/
def waitingCall : RpcCall where
  dest := peer
  msg := { transactionId := [97, 98], methodName := [112, 105, 110, 103], arguments := [] }
  responseChannel := 0
  transactionId := [97, 98]
  phase := .waiting
  result := none

/-- The state in which the reply to the first call is about to be sent to its channel. -/
def afterFirstReply (msg : KrpcMessage) : KrpcRuntime :=
  { (afterFirstCall.setCall 0 waitingCall).cancelPendingRequest [97, 98] with
    arrivals := 1, receiver := .sending 0 0 msg }

/-- What happens from the first call to the dequeuing of its reply, newest first. -/
def firstExchange (msg : KrpcMessage) : List (KrpcRuntime × Action) :=
  [({ afterFirstCall.setCall 0 waitingCall with
      arrivals := 1, receiver := .dispatching 0 msg }, .dequeuePendingRequest),
    (afterFirstCall.setCall 0 waitingCall,
      .readFromUDP peer firstReply),
    (afterFirstCall, .writeToUDP 0 true),
    (newKrpcRuntime, firstCall)]

theorem firstExchange_run :
    ∃ msg, Run Go.step newKrpcRuntime (firstExchange msg) (afterFirstReply msg) := by
  obtain ⟨msg, arrives, isReply, replyId⟩ := received_firstReply
  have written : Go.step afterFirstCall (.writeToUDP 0 true) =
      some (afterFirstCall.setCall 0 waitingCall) := rfl
  have replied : StepCase (afterFirstCall.setCall 0 waitingCall) (.readFromUDP peer firstReply)
      { afterFirstCall.setCall 0 waitingCall with
        arrivals := 1, receiver := .dispatching 0 msg } :=
    .replied rfl arrives isReply
  have dequeued : StepCase
      { afterFirstCall.setCall 0 waitingCall with
        arrivals := 1, receiver := .dispatching 0 msg } .dequeuePendingRequest
      { ({ afterFirstCall.setCall 0 waitingCall with
          arrivals := 1, receiver := .dispatching 0 msg } : KrpcRuntime).cancelPendingRequest
            msg.getTransactionId with
        receiver := .sending 0 0 msg } :=
    .dequeued rfl (by rw [replyId]; rfl)
  rw [replyId] at dequeued
  exact ⟨msg, ((afterFirstCall_run.push written).push replied.step).push dequeued.step⟩

/-- The first call returns the reply it gets. -/
theorem deliversOnce_of_reachable_firstReply :
    ∃ (k : KrpcRuntime) (call : RpcCall) (msg : KrpcMessage),
      k.call 0 = some call ∧ call.result = some (.ok msg) ∧ k.DeliversOnce := by
  obtain ⟨msg, dequeued⟩ := firstExchange_run
  have sent := dequeued.push (rfl : Go.step (afterFirstReply msg) .sendToChannel = some _)
  have returned := sent.push (rfl : Go.step _ (.selectReply 0) = some _)
  exact ⟨_, _, msg, rfl, rfl, deliversOnce_of_reachable _ ⟨_, returned⟩⟩

end KrpcRuntime

end MainlineDht.Go
