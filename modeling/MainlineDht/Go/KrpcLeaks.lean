import MainlineDht.Go.KrpcDelivery

/-!
# Leaked entries of the Go KRPC runtime

A call that returns a reply has had its entry taken out by the receive loop, and
one that times out cancels it.  A call whose write fails returns without
cancelling, so its entry stays unless it has been lost before.
-/

namespace MainlineDht.Go

open Transition

namespace KrpcRuntime

variable {k k' : KrpcRuntime} {action : Action} {c : Nat} {call : RpcCall}

/-- No entry refers to the channel of a call that has returned. -/
def NoLeak (k : KrpcRuntime) : Prop :=
  ∀ c call, k.call c = some call → call.phase = .returned →
    ∀ id, k.pendingRequests id ≠ some call.responseChannel

/-- A write fails only for a call whose own entry is no longer there. -/
def FailsUnstored (k : KrpcRuntime) : Action → Prop
  | .writeToUDP c false => ∀ call, k.call c = some call →
      k.pendingRequests call.transactionId ≠ some call.responseChannel
  | _ => True

/-- The channel of a call is stored under the id of the call or not at all. -/
theorem Consistent.id_of_stored (inv : k.Consistent) (found : k.call c = some call) {id : Bytes}
    (stored : k.pendingRequests id = some call.responseChannel) : id = call.transactionId := by
  obtain ⟨owner, isOwner, ownId⟩ := inv.pending_owns stored
  rw [(inv.call_own found).1, found, Option.some_inj] at isOwner
  rw [isOwner, ownId]

/-- Nothing leaks when calls stay as they are and entries are only removed. -/
theorem NoLeak.of_pending (held : k.NoLeak) (calls : k'.call = k.call)
    (entries : ∀ id ch, k'.pendingRequests id = some ch → k.pendingRequests id = some ch) :
    k'.NoLeak := by
  intro c call found returned id stored
  rw [calls] at found
  exact held c call found returned id (entries id _ stored)

/-- A call that goes on leaks its channel exactly if it returns with it stored. -/
theorem NoLeak.setCall_iff (held : k.NoLeak) {after : RpcCall} :
    (k.setCall c after).NoLeak ↔
      (after.phase = .returned → ∀ id, k.pendingRequests id ≠ some after.responseChannel) := by
  constructor
  · intro noLeak returned
    exact noLeak c after (Function.update_self _ _ _) returned
  · intro unstored c' call' found returned
    rcases setCall_found found with ⟨rfl, rfl⟩ | before
    · exact unstored returned
    · exact held c' call' before returned

/-- A new call has a new channel. -/
theorem NoLeak.enqueuePendingRequest (held : k.NoLeak) (inv : k.Consistent) (dest : UDPAddr)
    (msg : KrpcQuery) (newId : Bytes) : (k.enqueuePendingRequest dest msg newId).NoLeak := by
  intro c call found returned id stored
  rcases enqueuePendingRequest_call found with ⟨_, _, _, _, writing, _⟩ | before
  · rw [writing] at returned
    cases returned
  · rcases enqueuePendingRequest_stored stored with ⟨_, isNew⟩ | earlier
    · have older := inv.call_created before
      rw [(inv.call_own before).1] at isNew
      exact Nat.ne_of_lt older isNew
    · exact held c call before returned id earlier

/-- One step leaks nothing exactly if it is no failing write of a stored call. -/
theorem noLeak_step_iff (inv : k.Consistent) (held : k.NoLeak)
    (stepped : step k action = some k') : k'.NoLeak ↔ k.FailsUnstored action := by
  cases step_cases stepped with
  | enqueued dest msg first second =>
      exact iff_of_true (held.enqueuePendingRequest inv dest msg _) trivial
  | wrote found phase => exact iff_of_true (held.setCall_iff.mpr (by rintro ⟨⟩)) trivial
  | writeFailed found phase =>
      rw [held.setCall_iff]
      constructor
      · intro unstored call' found'
        rw [found, Option.some_inj] at found'
        subst found'
        exact unstored rfl _
      · intro unstored _ id stored
        rw [inv.id_of_stored found stored] at stored
        exact unstored _ found stored
  | ignored | queried | replied | sent =>
      exact iff_of_true (held.of_pending rfl fun _ _ stored => stored) trivial
  | dequeued | unsolicited =>
      refine iff_of_true (held.of_pending rfl ?_) trivial
      exact fun _ _ stored => (cancelPendingRequest_stored stored).2
  | @selectedReply c call msg found phase full =>
      refine iff_of_true ?_ trivial
      have others : NoLeak
          { k with buffer := Function.update k.buffer call.responseChannel none } :=
        held.of_pending rfl fun _ _ stored => stored
      apply others.setCall_iff.mpr
      intro _ id stored
      -- the reply in the slot has been delivered, so the entry is gone
      obtain ⟨delivery, member, same, _⟩ := inv.buffered full
      exact (inv.pending_untouched stored).1 delivery member same
  | selectedTimeout found phase => exact iff_of_true (held.setCall_iff.mpr (by rintro ⟨⟩)) trivial
  | @cancelled c call found phase =>
      refine iff_of_true ?_ trivial
      have others : (k.cancelPendingRequest call.transactionId).NoLeak :=
        held.of_pending rfl fun _ _ stored => (cancelPendingRequest_stored stored).2
      apply others.setCall_iff.mpr
      intro _ id stored
      obtain ⟨different, before⟩ := cancelPendingRequest_stored stored
      exact different (inv.id_of_stored found before)

/-- No state of a run has an entry of a call that has returned exactly if no
write of the run fails for a call that is still stored. -/
theorem visits_noLeak_iff (history : List (KrpcRuntime × Action)) (k : KrpcRuntime)
    (run : Run step newKrpcRuntime history k) :
    Visits history k NoLeak ↔ Guarded history FailsUnstored := by
  apply run.visits_iff_guarded newKrpcRuntime_consistent
  · rintro c call ⟨⟩
  · exact fun inv stepped => inv.step stepped
  · exact fun inv held stepped => noLeak_step_iff inv held stepped

/-- The first call gets its reply. -/
theorem visits_noLeak_iff_firstExchange :
    ∃ history k, Run step newKrpcRuntime history k ∧
      (∃ call, k.call 0 = some call ∧ call.phase = .returned) ∧ Visits history k NoLeak := by
  obtain ⟨msg, dequeued⟩ := firstExchange_run
  have sent := dequeued.push (rfl : Go.step (afterFirstReply msg) .sendToChannel = some _)
  have returned := sent.push (rfl : Go.step _ (.selectReply 0) = some _)
  refine ⟨_, _, returned, ⟨_, rfl, rfl⟩, ?_⟩
  apply (visits_noLeak_iff _ _ returned).mpr
  simp only [firstExchange, guarded_cons, guarded_nil, FailsUnstored, firstCall, and_true]

/-- The write of the first call fails, and its entry stays. -/
theorem failedWrite_leaks :
    ∃ history k call, Run step newKrpcRuntime history k ∧ k.call 0 = some call ∧
      call.phase = .returned ∧ k.pendingRequests [97, 98] = some call.responseChannel ∧
      ¬ Visits history k NoLeak := by
  have failed := afterFirstCall_run.push (rfl : step afterFirstCall (.writeToUDP 0 false) = some _)
  refine ⟨_, _, _, failed, rfl, rfl, rfl, ?_⟩
  intro noLeak
  exact noLeak.1 0 _ rfl rfl [97, 98] rfl

end KrpcRuntime

end MainlineDht.Go
