import MainlineDht.Go.KrpcDelivery

/-!
# Registrations of pending calls in the Go KRPC runtime

The map of pending requests is updated blindly.  A call that is still waiting
loses its entry when another call draws its id, or when a call that has timed
out cancels an id that meanwhile belongs to someone else.  These are the only
ways, so that the conditions below on the ids that are drawn are exact.
-/

namespace MainlineDht.Go

open Transition

/-- Enqueued, and neither returned nor past its own timeout. -/
def Phase.Live (phase : Phase) : Prop :=
  phase = .writing ∨ phase = .waiting

instance : DecidablePred Phase.Live :=
  fun phase => inferInstanceAs (Decidable (phase = .writing ∨ phase = .waiting))

namespace KrpcRuntime

variable {k k' : KrpcRuntime} {action : Action} {c : Nat} {call : RpcCall} {ch : Channel}

/-- A reply has been dequeued for the maker of the channel. -/
def ReplyTaken (k : KrpcRuntime) (ch : Channel) : Prop :=
  (∃ delivery ∈ k.deliveries, delivery.ch = ch) ∨
    ∃ arrival msg, k.receiver = .sending arrival ch msg

/-- An enqueued call for which no reply has been dequeued, which has not timed
out and whose send has not failed. -/
def Outstanding (k : KrpcRuntime) (c : Nat) (call : RpcCall) : Prop :=
  k.call c = some call ∧ call.phase.Live ∧ ¬ k.ReplyTaken call.responseChannel

/-- Every outstanding call has its own channel stored under its own id. -/
def AllRegistered (k : KrpcRuntime) : Prop :=
  ∀ c call, k.Outstanding c call →
    k.pendingRequests call.transactionId = some call.responseChannel

/-- Where all are registered, no two outstanding calls share an id. -/
theorem AllRegistered.ids_distinct (registered : k.AllRegistered) (inv : k.Consistent)
    {c' : Nat} {call' : RpcCall} (first : k.Outstanding c call) (second : k.Outstanding c' call')
    (sameId : call.transactionId = call'.transactionId) : c = c' := by
  have firstStored := registered c call first
  have secondStored := registered c' call' second
  rw [sameId, secondStored, Option.some_inj] at firstStored
  exact inv.deliversOnce.channels_distinct first.1 second.1 firstStored.symm

/-! ## Frames -/

/-- The parts of a call that never change, and the phases it may come from. -/
structure Continues (call after : RpcCall) : Prop where
  id : after.transactionId = call.transactionId
  channel : after.responseChannel = call.responseChannel
  live : after.phase.Live → call.phase.Live
  unreturned : after.phase ≠ .returned → call.phase ≠ .returned

theorem Continues.refl (call : RpcCall) : Continues call call :=
  ⟨rfl, rfl, fun live => live, fun unreturned => unreturned⟩

/-- A call goes on from one phase to a later one. -/
theorem setCall_back {c' : Nat} {call' : RpcCall} {before after : Phase}
    {result : Option (Except CallError KrpcMessage)} (found : k.call c = some call)
    (phase : call.phase = before)
    (onward : (after.Live → before.Live) ∧ (after ≠ .returned → before ≠ .returned))
    (found' : (k.setCall c { call with phase := after, result := result }).call c' = some call') :
    ∃ call, k.call c' = some call ∧ Continues call call' := by
  subst phase
  rcases setCall_found found' with ⟨rfl, rfl⟩ | before
  · exact ⟨call, found, rfl, rfl, onward.1, onward.2⟩
  · exact ⟨call', before, Continues.refl call'⟩

/-- A call after a step was there before it, unless the step has enqueued it. -/
theorem call_back {call' : RpcCall} (stepped : StepCase k action k')
    (found' : k'.call c = some call') :
    (∃ call, k.call c = some call ∧ Continues call call') ∨
      ∃ dest msg first second, action = .enqueuePendingRequest dest msg first second ∧
        c = k.created ∧ call'.responseChannel = k.created ∧
        call'.transactionId = generateTransactionId first second := by
  cases stepped with
  | enqueued dest msg first second =>
      rcases enqueuePendingRequest_call found' with ⟨isNew, own, _, ownId, _⟩ | before
      · exact Or.inr ⟨dest, msg, first, second, rfl, isNew, own.trans isNew, ownId⟩
      · exact Or.inl ⟨call', before, Continues.refl call'⟩
  | wrote found phase => exact Or.inl (setCall_back found phase (by decide) found')
  | writeFailed found phase => exact Or.inl (setCall_back found phase (by decide) found')
  | ignored | queried | replied | dequeued | unsolicited | sent =>
      exact Or.inl ⟨call', found', Continues.refl call'⟩
  | selectedReply found phase _ => exact Or.inl (setCall_back found phase (by decide) found')
  | selectedTimeout found phase => exact Or.inl (setCall_back found phase (by decide) found')
  | cancelled found phase => exact Or.inl (setCall_back found phase (by decide) found')

/-- A reply stays taken. -/
theorem ReplyTaken.step (taken : k.ReplyTaken ch) (stepped : StepCase k action k') :
    k'.ReplyTaken ch := by
  cases stepped with
  | enqueued | wrote | writeFailed | ignored | selectedReply | selectedTimeout | cancelled =>
      exact taken
  | queried reading _ _ =>
      rcases taken with delivered | ⟨_, _, sending⟩
      · exact Or.inl delivered
      · rw [reading] at sending
        cases sending
  | replied reading _ _ =>
      rcases taken with delivered | ⟨_, _, sending⟩
      · exact Or.inl delivered
      · rw [reading] at sending
        cases sending
  | dequeued dispatching _ =>
      rcases taken with delivered | ⟨_, _, sending⟩
      · exact Or.inl delivered
      · rw [dispatching] at sending
        cases sending
  | unsolicited dispatching _ =>
      rcases taken with delivered | ⟨_, _, sending⟩
      · exact Or.inl delivered
      · rw [dispatching] at sending
        cases sending
  | sent isSending _ =>
      rcases taken with ⟨delivery, member, same⟩ | ⟨_, _, sending⟩
      · exact Or.inl ⟨delivery, List.mem_cons_of_mem _ member, same⟩
      · rw [isSending] at sending
        cases sending
        exact Or.inl ⟨_, List.mem_cons_self, rfl⟩

/-- An outstanding call was outstanding before the step, or was just enqueued. -/
theorem outstanding_back {call' : RpcCall} (stepped : StepCase k action k')
    (outstanding : k'.Outstanding c call') :
    (∃ call, k.Outstanding c call ∧ Continues call call') ∨
      ∃ dest msg first second, action = .enqueuePendingRequest dest msg first second ∧
        c = k.created ∧ call'.responseChannel = k.created ∧
        call'.transactionId = generateTransactionId first second := by
  obtain ⟨found', live, untaken⟩ := outstanding
  rcases call_back stepped found' with ⟨call, found, continues⟩ | enqueued
  · refine Or.inl ⟨call, ⟨found, continues.live live, ?_⟩, continues⟩
    rw [← continues.channel]
    exact fun taken => untaken (taken.step stepped)
  · exact Or.inr enqueued

/-! ## Registrations that get lost -/

/-- No id of an outstanding call is drawn by a new one, or cancelled by one that
has timed out. -/
def AvoidsOutstanding (k : KrpcRuntime) : Action → Prop
  | .enqueuePendingRequest _ _ first second =>
      ∀ c call, k.Outstanding c call → call.transactionId ≠ generateTransactionId first second
  | .cancelPendingRequest c =>
      ∀ call, k.call c = some call →
        ∀ c' other, k.Outstanding c' other → other.transactionId ≠ call.transactionId
  | _ => True

/-- Calls stay registered where a step leaves their entries alone. -/
theorem AllRegistered.of_entries (registered : k.AllRegistered) (stepped : StepCase k action k')
    (old : ∀ dest msg first second, action ≠ .enqueuePendingRequest dest msg first second)
    (entries : ∀ c call, k'.Outstanding c call →
      k.pendingRequests call.transactionId = some call.responseChannel →
      k'.pendingRequests call.transactionId = some call.responseChannel) :
    k'.AllRegistered := by
  intro c call' outstanding
  rcases outstanding_back stepped outstanding with
    ⟨call, before, continues⟩ | ⟨dest, msg, first, second, enqueued, _⟩
  · apply entries c call' outstanding
    rw [continues.id, continues.channel]
    exact registered c call before
  · exact absurd enqueued (old dest msg first second)

/-- Enqueuing keeps the others registered exactly when it draws none of their ids. -/
theorem allRegistered_enqueue_iff (inv : k.Consistent) (registered : k.AllRegistered)
    (dest : UDPAddr) (msg : KrpcQuery) (first second : Fin letterBytes.length) :
    (k.enqueuePendingRequest dest msg (generateTransactionId first second)).AllRegistered ↔
      k.AvoidsOutstanding (.enqueuePendingRequest dest msg first second) := by
  constructor
  · intro after c call outstanding sameId
    have older := inv.call_created outstanding.1
    have kept : (k.enqueuePendingRequest dest msg (generateTransactionId first second)).Outstanding
        c call :=
      ⟨(Function.update_of_ne (Nat.ne_of_lt older) _ _).trans outstanding.1, outstanding.2⟩
    have stored := after c call kept
    rw [enqueuePendingRequest_pendingRequests, sameId, Function.update_self, Option.some_inj,
      (inv.call_own outstanding.1).1] at stored
    exact Nat.ne_of_gt older stored
  · intro avoids c call' outstanding
    rw [enqueuePendingRequest_pendingRequests]
    rcases outstanding_back (.enqueued dest msg first second) outstanding with
      ⟨call, before, continues⟩ | ⟨_, _, _, _, enqueued, _, own, ownId⟩
    · rw [continues.id, continues.channel, Function.update_of_ne (avoids c call before)]
      exact registered c call before
    · cases enqueued
      rw [own, ownId, Function.update_self]

/-- Cancelling keeps the others registered exactly when none of them has the id. -/
theorem allRegistered_cancel_iff (registered : k.AllRegistered) (found : k.call c = some call)
    (phase : call.phase = .timedOut) :
    ((k.cancelPendingRequest call.transactionId).setCall c
      { call with phase := .returned, result := some (.error .timeout) }).AllRegistered ↔
      k.AvoidsOutstanding (.cancelPendingRequest c) := by
  constructor
  · intro after call' found' c' other outstanding sameId
    rw [found, Option.some_inj] at found'
    subst found'
    have different : c' ≠ c := by
      rintro rfl
      obtain ⟨found', live, _⟩ := outstanding
      rw [found, Option.some_inj] at found'
      rw [← found', phase] at live
      exact absurd live (by decide)
    have stored := after c' other
      ⟨(Function.update_of_ne different _ _).trans outstanding.1, outstanding.2⟩
    rw [setCall_pendingRequests, cancelPendingRequest_pendingRequests, sameId,
      Function.update_self] at stored
    cases stored
  · intro avoids
    apply registered.of_entries (.cancelled found phase) (by rintro _ _ _ _ ⟨⟩)
    intro c' other outstanding stored
    rcases outstanding_back (.cancelled found phase) outstanding with
      ⟨before, wasOutstanding, continues⟩ | ⟨_, _, _, _, enqueued, _⟩
    · have different := avoids call found c' before wasOutstanding
      rw [← continues.id] at different
      exact (Function.update_of_ne different _ _).trans stored
    · cases enqueued

/-- One step keeps all outstanding calls registered exactly under the condition. -/
theorem allRegistered_step_iff (inv : k.Consistent) (registered : k.AllRegistered)
    (stepped : step k action = some k') : k'.AllRegistered ↔ k.AvoidsOutstanding action := by
  have branch := step_cases stepped
  cases branch with
  | enqueued dest msg first second =>
      exact allRegistered_enqueue_iff inv registered dest msg first second
  | cancelled found phase => exact allRegistered_cancel_iff registered found phase
  | wrote | writeFailed | ignored | queried | replied | sent | selectedReply | selectedTimeout =>
      refine iff_of_true ?_ trivial
      exact registered.of_entries (step_cases stepped) (by rintro _ _ _ _ ⟨⟩)
        fun _ _ _ stored => stored
  | @dequeued arrival msg ch dispatching stored =>
      refine iff_of_true ?_ trivial
      apply registered.of_entries (step_cases stepped) (by rintro _ _ _ _ ⟨⟩)
      intro c call outstanding before
      have different : call.transactionId ≠ msg.getTransactionId := by
        intro sameId
        rw [sameId, stored, Option.some_inj] at before
        exact outstanding.2.2 (Or.inr ⟨arrival, msg, before ▸ rfl⟩)
      exact (Function.update_of_ne different _ _).trans before
  | @unsolicited arrival msg dispatching missing =>
      refine iff_of_true ?_ trivial
      apply registered.of_entries (step_cases stepped) (by rintro _ _ _ _ ⟨⟩)
      intro c call outstanding before
      have different : call.transactionId ≠ msg.getTransactionId := by
        intro sameId
        rw [sameId, missing] at before
        cases before
      exact (Function.update_of_ne different _ _).trans before

/-- A run keeps every outstanding call registered in all its states exactly when
no step of it draws or cancels the id of one. -/
theorem visits_allRegistered_iff (history : List (KrpcRuntime × Action)) (k : KrpcRuntime)
    (run : Run step newKrpcRuntime history k) :
    Visits history k AllRegistered ↔ Guarded history AvoidsOutstanding := by
  apply run.visits_iff_guarded newKrpcRuntime_consistent
  · rintro c call ⟨found, _⟩
    cases found
  · exact fun inv stepped => inv.step stepped
  · exact fun inv registered stepped => allRegistered_step_iff inv registered stepped

/-- A call that draws the next two letters. -/
def otherCall : Action :=
  .enqueuePendingRequest peer
    { transactionId := [], methodName := [112, 105, 110, 103], arguments := [] } ⟨2, by decide⟩
    ⟨3, by decide⟩

/-- The state after both calls have been enqueued. -/
def afterBothCalls : KrpcRuntime :=
  afterFirstCall.enqueuePendingRequest peer
    { transactionId := [], methodName := [112, 105, 110, 103], arguments := [] } [99, 100]

/-- Two calls with different ids are both registered. -/
theorem visits_allRegistered_iff_twoCalls :
    Visits [(afterFirstCall, otherCall), (newKrpcRuntime, firstCall)] afterBothCalls
      AllRegistered := by
  have run := afterFirstCall_run.push (rfl : step afterFirstCall otherCall = some afterBothCalls)
  apply (visits_allRegistered_iff _ _ run).mpr
  refine guarded_cons.mpr ⟨?_, guarded_cons.mpr ⟨?_, guarded_nil _⟩⟩
  · rintro c call ⟨found, _⟩
    rcases enqueuePendingRequest_call found with ⟨_, _, _, isId, _⟩ | before
    · rw [isId]
      decide
    · cases before
  · rintro c call ⟨found, _⟩
    cases found

/-- A second call that draws the same letters overwrites the entry of the first. -/
theorem secondCall_overwrites :
    ∃ history k, Run step newKrpcRuntime history k ∧ ¬ k.AllRegistered := by
  refine ⟨_, _, afterFirstCall_run.push (rfl : step afterFirstCall firstCall = some _), ?_⟩
  intro registered
  have stored := registered 0 _ ⟨rfl, Or.inl rfl, by rintro (⟨_, ⟨⟩, _⟩ | ⟨_, _, ⟨⟩⟩)⟩
  cases stored

/-! ## Cancelling -/

/-- The entry a cancelling call removes, if there is one, is its own. -/
def CancelsOwn (k : KrpcRuntime) : Action → Prop
  | .cancelPendingRequest c => ∀ call, k.call c = some call →
      ∀ ch, k.pendingRequests call.transactionId = some ch → ch = call.responseChannel
  | _ => True

/-- An id that is drawn is no key of the map of pending requests. -/
def DrawsFresh (k : KrpcRuntime) : Action → Prop
  | .enqueuePendingRequest _ _ first second =>
      k.pendingRequests (generateTransactionId first second) = none
  | _ => True

/-- An id that is drawn is not the id of a call that has yet to return. -/
def AvoidsUnreturned (k : KrpcRuntime) : Action → Prop
  | .enqueuePendingRequest _ _ first second =>
      ∀ c call, k.call c = some call → call.phase ≠ .returned →
        call.transactionId ≠ generateTransactionId first second
  | _ => True

/-- The entry under the id of a call that has yet to return is its own, if it is there. -/
def OwnOrGone (k : KrpcRuntime) : Prop :=
  ∀ c call, k.call c = some call → call.phase ≠ .returned →
    ∀ ch, k.pendingRequests call.transactionId = some ch → ch = call.responseChannel

/-- A step other than an enqueue leaves entries as they are, or removes them. -/
theorem pending_back (stepped : StepCase k action k')
    (old : ∀ dest msg first second, action ≠ .enqueuePendingRequest dest msg first second)
    {id : Bytes} (stored : k'.pendingRequests id = some ch) : k.pendingRequests id = some ch := by
  cases stepped with
  | enqueued dest msg first second => exact absurd rfl (old dest msg first second)
  | wrote | writeFailed | ignored | queried | replied | sent | selectedReply | selectedTimeout =>
      exact stored
  | dequeued | unsolicited => exact (cancelPendingRequest_stored stored).2
  | cancelled => exact (cancelPendingRequest_stored stored).2

theorem OwnOrGone.step (held : k.OwnOrGone) (avoids : k.AvoidsUnreturned action)
    (stepped : Go.step k action = some k') : k'.OwnOrGone := by
  have branch := step_cases stepped
  intro c call' found' unreturned ch stored
  rcases call_back branch found' with
    ⟨call, found, continues⟩ | ⟨dest, msg, first, second, rfl, _, own, ownId⟩
  · have before := continues.unreturned unreturned
    rw [continues.id] at stored
    rw [continues.channel]
    by_cases enqueues : ∃ dest msg first second,
        action = .enqueuePendingRequest dest msg first second
    · obtain ⟨dest, msg, first, second, rfl⟩ := enqueues
      cases stepped
      rw [enqueuePendingRequest_pendingRequests,
        Function.update_of_ne (avoids c call found before)] at stored
      exact held c call found before ch stored
    · apply held c call found before ch
      apply pending_back branch _ stored
      exact fun dest msg first second same => enqueues ⟨dest, msg, first, second, same⟩
  · cases stepped
    rw [ownId, enqueuePendingRequest_pendingRequests, Function.update_self,
      Option.some_inj] at stored
    exact stored.symm.trans own.symm

/-- In a run in which no drawn id is that of a call yet to return, a timeout
cancels its own entry or none. -/
theorem cancelsOwn_of_avoidsUnreturned (history : List (KrpcRuntime × Action)) (k : KrpcRuntime)
    (run : Run step newKrpcRuntime history k) (avoids : Guarded history AvoidsUnreturned) :
    Guarded history CancelsOwn := by
  have initially : newKrpcRuntime.OwnOrGone := by
    intro c call found
    cases found
  refine run.guarded_of_guard initially ?_ ?_ avoids
  · exact fun held avoids stepped => held.step avoids stepped
  · intro before action after held stepped
    cases step_cases stepped with
    | cancelled found phase =>
        intro call found' ch stored
        rw [found, Option.some_inj] at found'
        subst found'
        exact held _ _ found (by rw [phase]; decide) ch stored
    | _ => exact trivial

/-- The first call times out and cancels its own entry. -/
theorem cancelsOwn_of_avoidsUnreturned_firstTimeout :
    ∃ history k, Run step newKrpcRuntime ((k, .cancelPendingRequest 0) :: history)
      ((k.cancelPendingRequest [97, 98]).setCall 0
        { waitingCall with phase := .returned, result := some (.error .timeout) }) ∧
      k.CancelsOwn (.cancelPendingRequest 0) := by
  have written : step afterFirstCall (.writeToUDP 0 true) =
      some (afterFirstCall.setCall 0 waitingCall) := rfl
  have timedOut : step (afterFirstCall.setCall 0 waitingCall) (.selectTimeout 0) =
      some ((afterFirstCall.setCall 0 waitingCall).setCall 0
        { waitingCall with phase := .timedOut }) := rfl
  have cancelled := ((afterFirstCall_run.push written).push timedOut).push
    (rfl : step _ (.cancelPendingRequest 0) = some _)
  refine ⟨_, _, cancelled, ?_⟩
  apply (guarded_cons.mp (cancelsOwn_of_avoidsUnreturned _ _ cancelled ?_)).1
  simp only [guarded_cons, guarded_nil, AvoidsUnreturned, firstCall, and_true, true_and]
  rintro c call ⟨⟩

/-- The reply to the first call frees its id, a second call draws it, and the
timeout of the first call then cancels the second. -/
theorem secondCall_cancelled :
    ∃ history k, Run step newKrpcRuntime history k ∧ Guarded history DrawsFresh ∧
      ¬ Guarded history CancelsOwn := by
  obtain ⟨msg, dequeued⟩ := firstExchange_run
  have second := dequeued.push (rfl : step (afterFirstReply msg) firstCall = some _)
  have timedOut := second.push (rfl : step _ (.selectTimeout 0) = some _)
  have cancelled := timedOut.push (rfl : step _ (.cancelPendingRequest 0) = some _)
  refine ⟨_, _, cancelled, ?_, ?_⟩
  · simp only [firstExchange, guarded_cons, guarded_nil, DrawsFresh, firstCall, and_true, true_and]
    constructor <;> rfl
  · intro cancelsOwn
    have own := (guarded_cons.mp cancelsOwn).1 _ rfl 1 rfl
    cases own

/-- The run can go on, without a colliding draw, to a timeout that cancels the
entry of another call. -/
def CanCancelOther (history : List (KrpcRuntime × Action)) : Prop :=
  ∃ longer k', history <:+ longer ∧ Run step newKrpcRuntime longer k' ∧
    Guarded longer DrawsFresh ∧ ¬ Guarded longer CancelsOwn

theorem CanCancelOther.of_cons {history : List (KrpcRuntime × Action)}
    (extended : CanCancelOther ((k, action) :: history)) : CanCancelOther history := by
  obtain ⟨longer, k', isSuffix, rest⟩ := extended
  exact ⟨longer, k', (List.suffix_cons _ _).trans isSuffix, rest⟩

/-- A call yet to return can time out and cancel what is stored under its id. -/
theorem canCancelOther_of_foreign {history : List (KrpcRuntime × Action)}
    (run : Run step newKrpcRuntime history k) (fresh : Guarded history DrawsFresh)
    (found : k.call c = some call) (unreturned : call.phase ≠ .returned)
    (stored : k.pendingRequests call.transactionId = some ch)
    (foreign : ch ≠ call.responseChannel) : CanCancelOther history := by
  have cancels {k : KrpcRuntime} {history : List (KrpcRuntime × Action)} {call : RpcCall}
      (run : Run step newKrpcRuntime history k) (fresh : Guarded history DrawsFresh)
      (found : k.call c = some call) (phase : call.phase = .timedOut)
      (stored : k.pendingRequests call.transactionId = some ch)
      (foreign : ch ≠ call.responseChannel) : CanCancelOther history := by
    refine ⟨_, _, List.suffix_cons _ _, run.push (StepCase.cancelled found phase).step,
      guarded_cons.mpr ⟨trivial, fresh⟩, ?_⟩
    intro own
    exact foreign ((guarded_cons.mp own).1 call found ch stored)
  have timesOut {k : KrpcRuntime} {history : List (KrpcRuntime × Action)} {call : RpcCall}
      (run : Run step newKrpcRuntime history k) (fresh : Guarded history DrawsFresh)
      (found : k.call c = some call) (phase : call.phase = .waiting)
      (stored : k.pendingRequests call.transactionId = some ch)
      (foreign : ch ≠ call.responseChannel) : CanCancelOther history := by
    apply CanCancelOther.of_cons
    exact cancels (run.push (StepCase.selectedTimeout found phase).step)
      (guarded_cons.mpr ⟨trivial, fresh⟩) (Function.update_self _ _ _) rfl stored foreign
  cases phase : call.phase with
  | writing =>
      apply CanCancelOther.of_cons
      exact timesOut (run.push (StepCase.wrote found phase).step)
        (guarded_cons.mpr ⟨trivial, fresh⟩) (Function.update_self _ _ _) rfl stored foreign
  | waiting => exact timesOut run fresh found phase stored foreign
  | timedOut => exact cancels run fresh found phase stored foreign
  | returned => exact absurd phase unreturned

/-- The condition is needed: after a fresh draw of the id of a call yet to
return, the run can go on to a timeout that cancels the new call. -/
theorem canCancelOther_of_draw {history : List (KrpcRuntime × Action)} {dest : UDPAddr}
    {msg : KrpcQuery} {first second : Fin letterBytes.length}
    (run : Run step newKrpcRuntime history k) (fresh : Guarded history DrawsFresh)
    (drawn : k.DrawsFresh (.enqueuePendingRequest dest msg first second))
    (collides : ¬ k.AvoidsUnreturned (.enqueuePendingRequest dest msg first second)) :
    CanCancelOther ((k, .enqueuePendingRequest dest msg first second) :: history) := by
  simp only [AvoidsUnreturned, not_forall, not_not] at collides
  obtain ⟨c, call, found, unreturned, sameId⟩ := collides
  have older := (consistent_of_run run).call_created found
  apply canCancelOther_of_foreign (run.push (StepCase.enqueued dest msg first second).step)
    (guarded_cons.mpr ⟨drawn, fresh⟩)
    ((Function.update_of_ne (Nat.ne_of_lt older) _ _).trans found) unreturned
  · rw [sameId, enqueuePendingRequest_pendingRequests, Function.update_self]
  · rw [((consistent_of_run run).call_own found).1]
    exact Nat.ne_of_gt older

end KrpcRuntime

end MainlineDht.Go
