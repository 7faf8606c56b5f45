import MainlineDht.Go.KrpcDelivery

/-!
# Where the replies of the Go KRPC runtime come from

The receive loop matches a reply to a call by its transaction id alone.  So the
history of a run has, for each reply that a call returns, the read of a datagram
with the message and the later step that took it for the call; the address it
came from may be any.
-/

namespace MainlineDht.Go

open Transition

/-- The query has gone out: the call waits, has timed out, or has returned
otherwise than by a failed write. -/
def RpcCall.HasSent (call : RpcCall) : Prop :=
  call.phase = .waiting ∨ call.phase = .timedOut ∨ (∃ msg, call.result = some (.ok msg)) ∨
    call.result = some (.error .timeout)

/-- The steps of a run of the runtime, newest first. -/
abbrev KrpcHistory : Type := List (KrpcRuntime × Action)

/-- The call has written its query in one of the steps. -/
def Sent (history : KrpcHistory) (c : Nat) : Prop :=
  ∃ k, (k, Action.writeToUDP c true) ∈ history

/-- After the steps `before`, in the state `k`, the receive loop has read the
message from a datagram of the source. -/
def Read (history before : KrpcHistory) (k : KrpcRuntime) (source : UDPAddr)
    (msg : KrpcMessage) : Prop :=
  ∃ datagram, (k, Action.readFromUDP source datagram) :: before <:+ history ∧
    received datagram = some (some msg)

/-- The receive loop has read the message and has then taken the entry of the
channel out of the pending requests for it. -/
def Taken (history before : KrpcHistory) (k : KrpcRuntime) (source : UDPAddr)
    (msg : KrpcMessage) (ch : Channel) : Prop :=
  ∃ later k', (k', Action.dequeuePendingRequest) :: later <:+ history ∧
    Read later before k source msg ∧ k'.receiver = .dispatching k.arrivals msg ∧
    k'.pendingRequests msg.getTransactionId = some ch

/-- Whenever a reply is taken for a call, the call had sent its query to the
source of the reply when this was read. -/
def RepliesGenuine (history : KrpcHistory) : Prop :=
  ∀ before k source msg ch, Taken history before k source msg ch →
    ∃ call, k.call ch = some call ∧ call.HasSent ∧ call.dest = source

variable {history before later : KrpcHistory} {k k' atRead : KrpcRuntime} {action : Action}
  {source : UDPAddr} {msg : KrpcMessage} {ch : Channel} {c : Nat} {call : RpcCall}

/-! ## Histories that grow -/

theorem read_mono (read : Read history before atRead source msg) (grown : history <:+ later) :
    Read later before atRead source msg := by
  obtain ⟨datagram, arrived, decoded⟩ := read
  exact ⟨datagram, arrived.trans grown, decoded⟩

theorem taken_mono (taken : Taken history before atRead source msg ch)
    (grown : history <:+ later) : Taken later before atRead source msg ch := by
  obtain ⟨upTo, k, dequeued, rest⟩ := taken
  exact ⟨upTo, k, dequeued.trans grown, rest⟩

theorem sent_cons (sent : Sent history c) (taken : KrpcRuntime × Action) :
    Sent (taken :: history) c := by
  obtain ⟨k, member⟩ := sent
  exact ⟨k, List.mem_cons_of_mem _ member⟩

/-! ## Each reply has been read and taken -/

/-- The history accounts for the message at hand and for those delivered. -/
structure Recorded (history : KrpcHistory) (k : KrpcRuntime) : Prop where
  dispatching {arrival : Nat} {msg : KrpcMessage} : k.receiver = .dispatching arrival msg →
    ∃ before atRead source, Read history before atRead source msg ∧ atRead.arrivals = arrival
  sending {arrival : Nat} {ch : Channel} {msg : KrpcMessage} :
    k.receiver = .sending arrival ch msg →
      ∃ before atRead source, Taken history before atRead source msg ch
  delivered {delivery : Delivery} : delivery ∈ k.deliveries →
    ∃ before atRead source, Taken history before atRead source delivery.msg delivery.ch

/-- A step that leaves the receive loop alone adds nothing to account for. -/
theorem Recorded.grow (recorded : Recorded history k) (taken : KrpcRuntime × Action)
    (receiver : k'.receiver = k.receiver) (deliveries : k'.deliveries = k.deliveries) :
    Recorded (taken :: history) k' where
  dispatching isDispatching := by
    obtain ⟨before, atRead, source, read, first⟩ :=
      recorded.dispatching (receiver.symm.trans isDispatching)
    exact ⟨before, atRead, source, read_mono read (List.suffix_cons _ _), first⟩
  sending isSending := by
    obtain ⟨before, atRead, source, wasTaken⟩ := recorded.sending (receiver.symm.trans isSending)
    exact ⟨before, atRead, source, taken_mono wasTaken (List.suffix_cons _ _)⟩
  delivered member := by
    rw [deliveries] at member
    obtain ⟨before, atRead, source, wasTaken⟩ := recorded.delivered member
    exact ⟨before, atRead, source, taken_mono wasTaken (List.suffix_cons _ _)⟩

/-- At the socket only the deliveries are to be accounted for. -/
theorem recorded_of_reading (taken : KrpcRuntime × Action) (receiver : k'.receiver = .reading)
    (deliveries : ∀ delivery ∈ k'.deliveries,
      ∃ before atRead source, Taken history before atRead source delivery.msg delivery.ch) :
    Recorded (taken :: history) k' where
  dispatching isDispatching := by
    rw [receiver] at isDispatching
    cases isDispatching
  sending isSending := by
    rw [receiver] at isSending
    cases isSending
  delivered member := by
    obtain ⟨before, atRead, source, wasTaken⟩ := deliveries _ member
    exact ⟨before, atRead, source, taken_mono wasTaken (List.suffix_cons _ _)⟩

theorem Recorded.step (recorded : Recorded history k) (stepped : StepCase k action k') :
    Recorded ((k, action) :: history) k' := by
  cases stepped with
  | enqueued | wrote | writeFailed | ignored | selectedReply | selectedTimeout | cancelled =>
      exact recorded.grow _ rfl rfl
  | queried _ _ _ => exact recorded_of_reading _ rfl fun _ member => recorded.delivered member
  | unsolicited _ _ => exact recorded_of_reading _ rfl fun _ member => recorded.delivered member
  | replied reading arrived reply =>
      exact
        { dispatching := fun isDispatching => by
            cases isDispatching
            exact ⟨history, k, _, ⟨_, List.suffix_refl _, arrived⟩, rfl⟩
          sending := fun isSending => by cases isSending
          delivered := (recorded.grow _ rfl rfl).delivered }
  | dequeued isDispatching stored =>
      obtain ⟨before, atRead, source, read, first⟩ := recorded.dispatching isDispatching
      subst first
      exact
        { dispatching := fun other => by cases other
          sending := fun isSending => by
            cases isSending
            exact ⟨before, atRead, source, history, k, List.suffix_refl _, read, isDispatching,
              stored⟩
          delivered := (recorded.grow _ rfl rfl).delivered }
  | sent isSending _ =>
      apply recorded_of_reading _ rfl
      rintro delivery member
      rcases List.mem_cons.mp member with rfl | earlier
      · exact recorded.sending isSending
      · exact recorded.delivered earlier

theorem recorded_of_run (run : Run step newKrpcRuntime history k) : Recorded history k := by
  induction run with
  | initial =>
      exact
        { dispatching := by rintro _ _ ⟨⟩
          sending := by rintro _ _ _ ⟨⟩
          delivered := by rintro _ ⟨⟩ }
  | push _ stepped ih => exact ih.step (step_cases stepped)

/-- A reply that a call returns was read and taken for it. -/
theorem exists_taken_of_result (run : Run step newKrpcRuntime history k)
    (found : k.call c = some call) (result : call.result = some (.ok msg)) :
    ∃ before atRead source, Taken history before atRead source msg c := by
  have inv := KrpcRuntime.consistent_of_run run
  obtain ⟨delivery, member, same, rfl⟩ := inv.returned found result
  rw [(inv.call_own found).1] at same
  subst same
  exact (recorded_of_run run).delivered member

/-! ## Queries that have gone out -/

/-- The history has the write of every call whose query has gone out. -/
def AllSent (history : KrpcHistory) (k : KrpcRuntime) : Prop :=
  ∀ c call, k.call c = some call → call.HasSent → Sent history c

/-- A call that has sent its query keeps that, whatever becomes of it. -/
theorem AllSent.setCall (held : AllSent history k) (taken : KrpcRuntime × Action)
    {after : RpcCall} (onward : after.HasSent → Sent (taken :: history) c) :
    AllSent (taken :: history) (k.setCall c after) := by
  intro c' call' found' hasSent
  rcases KrpcRuntime.setCall_found found' with ⟨rfl, rfl⟩ | before
  · exact onward hasSent
  · exact sent_cons (held c' call' before hasSent) _

theorem AllSent.step (held : AllSent history k) (stepped : StepCase k action k') :
    AllSent ((k, action) :: history) k' := by
  cases stepped with
  | enqueued dest query first second =>
      intro c call found hasSent
      rcases KrpcRuntime.enqueuePendingRequest_call found with
        ⟨_, _, _, _, writing, none⟩ | before
      · unfold RpcCall.HasSent at hasSent
        rw [writing, none] at hasSent
        simp at hasSent
      · exact sent_cons (held c call before hasSent) _
  | wrote found phase => exact held.setCall _ fun _ => ⟨k, List.mem_cons_self⟩
  | writeFailed found phase =>
      apply held.setCall
      rintro (waiting | timedOut | ⟨msg, result⟩ | result)
      · cases waiting
      · cases timedOut
      · cases result
      · cases result
  | ignored | queried | replied | dequeued | unsolicited | sent =>
      exact fun c call found hasSent => sent_cons (held c call found hasSent) _
  | selectedReply found phase _ =>
      exact held.setCall _ fun _ => sent_cons (held _ _ found (Or.inl phase)) _
  | selectedTimeout found phase =>
      exact held.setCall _ fun _ => sent_cons (held _ _ found (Or.inl phase)) _
  | cancelled found phase =>
      exact held.setCall _ fun _ => sent_cons (held _ _ found (Or.inr (Or.inl phase))) _

theorem allSent_of_run (run : Run step newKrpcRuntime history k) : AllSent history k := by
  induction run with
  | initial => rintro c call ⟨⟩
  | push _ stepped ih => exact ih.step (step_cases stepped)

/-! ## Destinations stay -/

/-- Calls are there later, too, with the same destinations. -/
def KeepsDests (k k' : KrpcRuntime) : Prop :=
  ∀ c call, k.call c = some call → ∃ call', k'.call c = some call' ∧ call'.dest = call.dest

theorem keepsDests_setCall (found : k.call c = some call) {after : RpcCall}
    (same : after.dest = call.dest) : KeepsDests k (k.setCall c after) := by
  intro c' call' found'
  by_cases here : c' = c
  · subst here
    rw [found, Option.some_inj] at found'
    subst found'
    exact ⟨after, Function.update_self _ _ _, same⟩
  · exact ⟨call', (Function.update_of_ne here _ _).trans found', rfl⟩

theorem keepsDests_step (inv : k.Consistent) (stepped : StepCase k action k') :
    KeepsDests k k' := by
  cases stepped with
  | enqueued dest query first second =>
      intro c call found
      have older := Nat.ne_of_lt (inv.call_created found)
      exact ⟨call, (Function.update_of_ne older _ _).trans found, rfl⟩
  | wrote found _ => exact keepsDests_setCall found rfl
  | writeFailed found _ => exact keepsDests_setCall found rfl
  | ignored | queried | replied | dequeued | unsolicited | sent =>
      exact fun c call found => ⟨call, found, rfl⟩
  | selectedReply found _ _ => exact keepsDests_setCall found rfl
  | selectedTimeout found _ => exact keepsDests_setCall found rfl
  | cancelled found _ => exact keepsDests_setCall found rfl

theorem keepsDests_of_run (run : Run step newKrpcRuntime history k) :
    ∀ visited ∈ history, KeepsDests visited.1 k := by
  have reflexive (k : KrpcRuntime) : KeepsDests k k := fun c call found => ⟨call, found, rfl⟩
  apply run.related reflexive
  intro first history before action after earlier kept stepped c call found
  obtain ⟨call', found', same⟩ := kept c call found
  obtain ⟨call'', found'', same'⟩ :=
    keepsDests_step (KrpcRuntime.consistent_of_run earlier) (step_cases stepped) c call' found'
  exact ⟨call'', found'', same'.trans same⟩

/-- A genuine reply came from the destination of the call, after it had sent its query. -/
theorem sent_to_source (run : Run step newKrpcRuntime history k) (genuine : RepliesGenuine history)
    (taken : Taken history before atRead source msg c) (found : k.call c = some call) :
    source = call.dest ∧ Sent before c := by
  obtain ⟨call₀, found₀, hasSent, rfl⟩ := genuine before atRead source msg c taken
  obtain ⟨later, k₁, dequeued, ⟨datagram, arrived, _⟩, _⟩ := taken
  have grown : (atRead, Action.readFromUDP call₀.dest datagram) :: before <:+ history :=
    arrived.trans ((List.suffix_cons _ _).trans dequeued)
  constructor
  · obtain ⟨call', found', same⟩ :=
      keepsDests_of_run run _ (grown.subset List.mem_cons_self) c call₀ found₀
    rw [found, Option.some_inj] at found'
    rw [found', same]
  · exact allSent_of_run (run.of_suffix grown) c call₀ found₀ hasSent

end MainlineDht.Go
