import MainlineDht.Rust.NetLoop

/-!
# Whole runs of the network thread

Each command is taken once, in turn, and makes one request.  Each datagram that
is read makes one report, of the value it begins with; the thread ends at the
first one that does not begin with a value inside the buffer.
-/

namespace MainlineDht.Rust

open Bencode Transition

/-- A command that the loop has taken, with the request it has made of it and
whether it could send it. -/
structure Taken where
  addr : SocketAddrV4
  req : Value
  ok : Bool

namespace NetLoop

/-! ## What a history says, newest first -/

/-- The command that a step takes. -/
def taken : NetLoop × NetAction → Option Taken
  | (loop, .tryRecv first second ok) =>
      loop.netRx.head?.map fun | .bootstrap addr => ⟨addr, loop.findNodeRequest first second, ok⟩
  | _ => none

/-- The command that a step sends to the thread. -/
def commanded : NetLoop × NetAction → Option NetCommand
  | (_, .send command) => some command
  | _ => none

/-- The datagram that a step reads. -/
def datagramRead : NetLoop × NetAction → Option Bytes
  | (_, .recv _ datagram) => some datagram
  | _ => none

/-- The values reported as received. -/
def receivedValue : Shown → Option Value
  | .received result => some result
  | _ => none

/-- The user is shown something that was received. -/
def isReport : Shown → Bool
  | .received _ => true
  | _ => false

end NetLoop

namespace Taken

/-- The command. -/
def command (one : Taken) : NetCommand :=
  .bootstrap one.addr

/-- What is shown about it, newest first. -/
def shows (one : Taken) : List Shown :=
  if one.ok then [.sending one.req] else [.errorSending, .sending one.req]

/-- What is sent because of it. -/
def sends (one : Taken) : List (SocketAddrV4 × Bytes) :=
  if one.ok then [(one.addr, encode one.req)] else []

end Taken

namespace NetLoop

variable {id : NodeId} {loop loop' : NetLoop} {history : List (NetLoop × NetAction)}
  {action : NetAction}

/-- What a run makes of its commands. -/
structure CommandsDone (history : List (NetLoop × NetAction)) (loop : NetLoop) : Prop where
  inTurn : (history.filterMap commanded).reverse =
    ((history.filterMap taken).map Taken.command).reverse ++ loop.netRx
  shown : loop.shown.filter (fun one => !isReport one) = (history.filterMap taken).flatMap Taken.shows
  sent : (history.flatMap fun step => writes step.1 step.2) =
    (history.filterMap taken).flatMap Taken.sends

theorem writes_eq_sends (loop : NetLoop) (action : NetAction) :
    writes loop action = (taken (loop, action)).toList.flatMap Taken.sends := by
  cases action with
  | tryRecv first second ok =>
      rcases loop with ⟨myInfo, netRx, atSocket, shown⟩
      cases netRx with
      | nil => cases ok <;> rfl
      | cons command netRx => cases command; cases ok <;> rfl
  | send | recv | wouldBlock => rfl

theorem showCommand_eq_shows (loop : NetLoop) (first second : UInt8) (ok : Bool) :
    loop.showCommand first second ok =
      (taken (loop, .tryRecv first second ok)).toList.flatMap Taken.shows := by
  rcases loop with ⟨myInfo, netRx, atSocket, shown⟩
  cases netRx with
  | nil => rfl
  | cons command netRx => cases command; cases ok <;> rfl

theorem filter_shows (one : Taken) :
    one.shows.filter (fun shown => !isReport shown) = one.shows := by
  rcases one with ⟨addr, req, ok⟩
  cases ok <;> rfl

theorem filterMap_cons_eq {α β : Type} (seen : α → Option β) (first : α) (others : List α) :
    (first :: others).filterMap seen = (seen first).toList ++ others.filterMap seen := by
  rw [List.filterMap_cons]
  cases seen first <;> rfl

/-- The channel after a step: what is taken leaves it at one end, what the user
sends enters it at the other. -/
theorem netRx_of_step (stepped : step loop action = some loop') :
    loop.netRx ++ (commanded (loop, action)).toList =
      (taken (loop, action)).toList.map Taken.command ++ loop'.netRx := by
  cases step_cases stepped with
  | sent command => rfl
  | took first second ok _ =>
      rcases loop with ⟨myInfo, netRx, atSocket, shown⟩
      cases netRx with
      | nil => rfl
      | cons command netRx =>
          cases command
          exact List.append_nil _
  | received | idled => exact List.append_nil _

/-- What a step adds to what is shown. -/
theorem shown_of_step (stepped : step loop action = some loop') :
    loop'.shown.filter (fun one => !isReport one) =
      (taken (loop, action)).toList.flatMap Taken.shows ++
        loop.shown.filter (fun one => !isReport one) := by
  cases step_cases stepped with
  | sent | received | idled => rfl
  | took first second ok _ =>
      rw [List.filter_append, showCommand_eq_shows]
      cases taken (loop, .tryRecv first second ok) with
      | none => rfl
      | some one => simp [filter_shows]

theorem CommandsDone.push (done : CommandsDone history loop)
    (stepped : step loop action = some loop') : CommandsDone ((loop, action) :: history) loop' where
  inTurn := by
    have queue := netRx_of_step stepped
    rw [filterMap_cons_eq, filterMap_cons_eq, List.map_append, List.reverse_append,
      List.reverse_append, done.inTurn, List.append_assoc, List.append_assoc]
    generalize commanded (loop, action) = sent at queue ⊢
    generalize taken (loop, action) = one at queue ⊢
    cases sent <;> cases one <;> simpa using queue
  shown := by
    rw [shown_of_step stepped, done.shown, filterMap_cons_eq, List.flatMap_append]
  sent := by
    rw [List.flatMap_cons, done.sent, writes_eq_sends, filterMap_cons_eq, List.flatMap_append]

/-- Every command is taken once and in turn.  For each, its request is shown, and
sent to its address or else reported as not sent; nothing else is ever sent. -/
theorem commandsDone_of_run (run : Run step (start id) history loop) :
    CommandsDone history loop := by
  induction run with
  | initial => exact ⟨rfl, rfl, rfl⟩
  | push _ stepped ih => exact ih.push stepped

theorem length_sevens : (List.replicate 20 (7 : UInt8)).length = 20 := rfl

/-- An id. -/
def someId : NodeId := ⟨List.replicate 20 7, length_sevens⟩

/-- An address to bootstrap at. -/
def someAddr : SocketAddrV4 := ⟨0x7f000001, 6881⟩

/-- Another one. -/
def otherAddr : SocketAddrV4 := ⟨0x7f000002, 6882⟩

/-- Two commands are sent to the thread.  The request of the first cannot be
sent; then `i7e` is read, and the second is taken. -/
theorem exists_run_bootstraps :
    ∃ history loop, Run step (start someId) history loop ∧
      (history.filterMap commanded).reverse = [.bootstrap someAddr, .bootstrap otherAddr] ∧
      (history.filterMap taken).reverse.map Taken.ok = [false, true] ∧
      history.filterMap datagramRead = [[105, 55, 101]] := by
  have decoded : ∃ c, decode ([105, 55, 101].take bufSize) = .ok (.int 7, c) := ⟨_, by rfl⟩
  rcases decoded with ⟨c, decoded⟩
  have commands : step (start someId) (.send (.bootstrap someAddr)) = some _ := rfl
  have commandsAgain : step ⟨(start someId).myInfo, [.bootstrap someAddr], false, []⟩
      (.send (.bootstrap otherAddr)) = some _ := rfl
  have takes : step
      ⟨(start someId).myInfo, [.bootstrap someAddr, .bootstrap otherAddr], false, []⟩
      (.tryRecv 1 2 false) = some _ := rfl
  let req := (start someId).findNodeRequest 1 2
  have reads : step
      ⟨(start someId).myInfo, [.bootstrap otherAddr], true, [.errorSending, .sending req]⟩
      (.recv someAddr [105, 55, 101]) = some ⟨(start someId).myInfo, [.bootstrap otherAddr], false,
        [.received (.int 7), .errorSending, .sending req]⟩ := by
    rw [step, if_pos rfl, decoded]
  have takesAgain : step ⟨(start someId).myInfo, [.bootstrap otherAddr], false,
      [.received (.int 7), .errorSending, .sending req]⟩ (.tryRecv 3 4 true) = some _ := rfl
  exact ⟨_, _, ((((Run.initial.push commands).push commandsAgain).push takes).push reads).push
    takesAgain, rfl, rfl, rfl⟩

theorem commandsDone_of_run_bootstraps :
    ∃ history loop,
      (history.filterMap commanded).reverse = [.bootstrap someAddr, .bootstrap otherAddr] ∧
      (history.filterMap taken).reverse.map Taken.ok = [false, true] ∧
      CommandsDone history loop := by
  rcases exists_run_bootstraps with ⟨history, loop, run, areCommanded, areTaken, _⟩
  exact ⟨history, loop, areCommanded, areTaken, commandsDone_of_run run⟩

/-! ## Reports -/

/-- What was reported of the datagrams that were read, one for one: the values
that they begin with. -/
def Reported (history : List (NetLoop × NetAction)) (loop : NetLoop) : Prop :=
  List.Forall₂ (BeginsWithin bufSize) (history.filterMap datagramRead)
    (loop.shown.filterMap receivedValue)

/-- Commands add no reports. -/
theorem receivedValue_showCommand (loop : NetLoop) (first second : UInt8) (ok : Bool) :
    (loop.showCommand first second ok).filterMap receivedValue = [] := by
  rw [List.filterMap_eq_nil_iff]
  intro shown member
  cases shown with
  | received result => exact absurd member received_not_mem_showCommand
  | sending | errorSending => rfl

theorem Reported.push (reported : Reported history loop) (stepped : step loop action = some loop')
    (fits : ∀ datagram ∈ datagramRead (loop, action), datagram.length < 2 ^ 63) :
    Reported ((loop, action) :: history) loop' := by
  unfold Reported at reported ⊢
  cases step_cases stepped with
  | sent | idled => exact reported
  | took first second ok _ =>
      rw [List.filterMap_append, receivedValue_showCommand]
      exact reported
  | @received _ datagram result c _ decoded =>
      exact .cons ((decode_take_iff (fits datagram rfl) bufSize).mp ⟨c, decoded⟩) reported

/-- The loop panics exactly on what does not begin with a value in the buffer. -/
theorem panics_iff (atSocket : loop.atSocket = true) {srcAddr : SocketAddrV4} {datagram : Bytes}
    (fits : datagram.length < 2 ^ 63) :
    Panics loop (.recv srcAddr datagram) ↔ ¬ ∃ value, BeginsWithin bufSize datagram value := by
  have decides : (∃ value, BeginsWithin bufSize datagram value) ↔
      ∃ value c, decode (datagram.take bufSize) = .ok (value, c) :=
    exists_congr fun _ => (decode_take_iff fits bufSize).symm
  rw [decides]
  constructor
  · rintro ⟨_, failure, refused⟩ ⟨value, c, decoded⟩
    cases refused.symm.trans decoded
  · intro refused
    refine ⟨atSocket, ?_⟩
    cases outcome : decode (datagram.take bufSize) with
    | error failure => exact ⟨failure, rfl⟩
    | ok result => exact absurd ⟨result.1, result.2, outcome⟩ refused

/-- As long as the thread lives, every datagram is reported, once and in turn, as
the value that it begins with; and it ends at the first that begins with no value
within the buffer, whoever sends it. -/
theorem reported_of_run (run : Run step (start id) history loop)
    (fit : ∀ datagram ∈ history.filterMap datagramRead, datagram.length < 2 ^ 63) :
    Reported history loop ∧ ∀ srcAddr datagram, loop.atSocket = true → datagram.length < 2 ^ 63 →
      (Panics loop (.recv srcAddr datagram) ↔ ¬ ∃ value, BeginsWithin bufSize datagram value) := by
  refine ⟨?_, fun _ _ atSocket fits => panics_iff atSocket fits⟩
  induction run with
  | initial => exact .nil
  | push _ stepped ih =>
      rw [filterMap_cons_eq, List.forall_mem_append] at fit
      exact (ih fit.2).push stepped fun datagram isRead => fit.1 datagram (Option.mem_toList.mpr isRead)

theorem reported_of_run_bootstrap :
    ∃ history loop, history.filterMap datagramRead = [[105, 55, 101]] ∧ Reported history loop := by
  rcases exists_run_bootstraps with ⟨history, loop, run, _, _, isRead⟩
  have fit : ∀ datagram ∈ history.filterMap datagramRead, datagram.length < 2 ^ 63 := by
    rw [isRead]
    decide
  exact ⟨history, loop, isRead, (reported_of_run run fit).1⟩

end NetLoop

end MainlineDht.Rust
