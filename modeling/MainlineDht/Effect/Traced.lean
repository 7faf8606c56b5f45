import Mathlib.Tactic.Basic

/-!
# Stateful computations with faults and a log

`Traced σ ε ω α` computes an `α` over a state `σ`, may stop with a fault `ε`,
and logs events `ω` on the way.  The log is an observation only: `run` forgets
it, and the equations for `run` never mention it.

`Keeps` is a Hoare-style judgement over both projections: from every state that
satisfies the invariant, a computation that finishes leaves a state satisfying
it, with every logged event acceptable.
-/

namespace MainlineDht.Effect

universe u

/-- A computation over state `σ` with faults `ε` and logged events `ω`. -/
def Traced (σ ε ω α : Type u) : Type u :=
  σ → Except ε (α × σ) × List ω

namespace Traced

variable {σ ε ω α β : Type u}

/-- Return a value, leaving the state and the log alone. -/
def pure (value : α) : Traced σ ε ω α :=
  fun state => (.ok (value, state), [])

/-- Run one computation after another; a fault ends both. -/
def bind (first : Traced σ ε ω α) (rest : α → Traced σ ε ω β) : Traced σ ε ω β :=
  fun state =>
    match first state with
    | (.error fault, log) => (.error fault, log)
    | (.ok (value, middle), log) =>
        let outcome := rest value middle
        (outcome.1, log ++ outcome.2)

instance : Monad (Traced σ ε ω) where
  pure := pure
  bind := bind

/-- Stop with a fault. -/
def fail (fault : ε) : Traced σ ε ω α :=
  fun _ => (.error fault, [])

/-- The current state. -/
def read : Traced σ ε ω σ :=
  fun state => (.ok (state, state), [])

/-- Replace the state. -/
def write (state : σ) : Traced σ ε ω PUnit :=
  fun _ => (.ok (⟨⟩, state), [])

/-- Log one event. -/
def log (event : ω) : Traced σ ε ω PUnit :=
  fun state => (.ok (⟨⟩, state), [event])

/-- The result and the final state, or the fault. -/
def run (computation : Traced σ ε ω α) (state : σ) : Except ε (α × σ) :=
  (computation state).1

/-- The events logged on the way. -/
def events (computation : Traced σ ε ω α) (state : σ) : List ω :=
  (computation state).2

@[simp]
theorem run_pure (value : α) (state : σ) :
    run (Pure.pure value : Traced σ ε ω α) state = .ok (value, state) :=
  rfl

@[simp]
theorem run_fail (fault : ε) (state : σ) :
    run (fail fault : Traced σ ε ω α) state = .error fault :=
  rfl

@[simp]
theorem run_read (state : σ) :
    run (read : Traced σ ε ω σ) state = .ok (state, state) :=
  rfl

@[simp]
theorem run_write (after before : σ) :
    run (write after : Traced σ ε ω PUnit) before = .ok (⟨⟩, after) :=
  rfl

@[simp]
theorem run_log (event : ω) (state : σ) :
    run (log event : Traced σ ε ω PUnit) state = .ok (⟨⟩, state) :=
  rfl

/-- Sequencing, seen from the results alone. -/
theorem run_bind (first : Traced σ ε ω α) (rest : α → Traced σ ε ω β) (state : σ) :
    run (first >>= rest) state =
      match run first state with
      | .error fault => .error fault
      | .ok (value, middle) => run (rest value) middle := by
  change (bind first rest state).1 = _
  unfold bind run
  rcases first state with ⟨outcome, log⟩
  cases outcome <;> rfl

theorem run_bind_ok {first : Traced σ ε ω α} {state middle : σ} {value : α}
    (finished : run first state = .ok (value, middle)) (rest : α → Traced σ ε ω β) :
    run (first >>= rest) state = run (rest value) middle := by
  rw [run_bind, finished]

theorem run_bind_error {first : Traced σ ε ω α} {state : σ} {fault : ε}
    (failed : run first state = .error fault) (rest : α → Traced σ ε ω β) :
    run (first >>= rest) state = .error fault := by
  rw [run_bind, failed]

/-- A sequence that finished ran its first part to completion. -/
theorem run_bind_eq_ok {first : Traced σ ε ω α} {rest : α → Traced σ ε ω β}
    {state final : σ} {result : β}
    (finished : run (first >>= rest) state = .ok (result, final)) :
    ∃ value middle, run first state = .ok (value, middle) ∧
      run (rest value) middle = .ok (result, final) := by
  cases firstRun : run first state with
  | error fault =>
      rw [run_bind_error firstRun] at finished
      cases finished
  | ok outcome =>
      rcases outcome with ⟨value, middle⟩
      rw [run_bind_ok firstRun] at finished
      exact ⟨value, middle, rfl, finished⟩

theorem events_bind {first : Traced σ ε ω α} {state middle : σ} {value : α}
    (finished : run first state = .ok (value, middle)) (rest : α → Traced σ ε ω β) :
    events (first >>= rest) state = events first state ++ events (rest value) middle := by
  change (bind first rest state).2 = _
  unfold bind events
  unfold run at finished
  rcases outcome : first state with ⟨ended, log⟩
  rw [outcome] at finished
  cases finished
  rfl

/-- A run from `state` that finishes ends in a state satisfying `invariant` and
has logged only `fine` events. -/
def KeepsAt (invariant : σ → Prop) (fine : ω → Prop) (computation : Traced σ ε ω α)
    (state : σ) : Prop :=
  ∀ value final, run computation state = .ok (value, final) →
    invariant final ∧ ∀ event ∈ events computation state, fine event

/-- From every state satisfying `invariant`, finishing runs keep it and log only
`fine` events. -/
def Keeps (invariant : σ → Prop) (fine : ω → Prop) (computation : Traced σ ε ω α) : Prop :=
  ∀ state, invariant state → KeepsAt invariant fine computation state

section Rules

variable {invariant : σ → Prop} {fine : ω → Prop}

theorem KeepsAt.pure {state : σ} (held : invariant state) (value : α) :
    KeepsAt invariant fine (Pure.pure value : Traced σ ε ω α) state := by
  intro result final finished
  cases finished
  exact ⟨held, by intro event member; cases member⟩

theorem KeepsAt.fail (fault : ε) (state : σ) :
    KeepsAt invariant fine (Traced.fail fault : Traced σ ε ω α) state := by
  intro result final finished
  cases finished

/-- Sequencing keeps what both parts keep; the second starts where the first
has ended. -/
theorem KeepsAt.bind {first : Traced σ ε ω α} {rest : α → Traced σ ε ω β} {state : σ}
    (firstKeeps : KeepsAt invariant fine first state)
    (restKeeps : ∀ value middle, run first state = .ok (value, middle) → invariant middle →
      KeepsAt invariant fine (rest value) middle) :
    KeepsAt invariant fine (first >>= rest) state := by
  intro result final finished
  obtain ⟨value, middle, firstRun, restRun⟩ := run_bind_eq_ok finished
  obtain ⟨middleHeld, firstFine⟩ := firstKeeps value middle firstRun
  obtain ⟨finalHeld, restFine⟩ := restKeeps value middle firstRun middleHeld result final restRun
  constructor
  · exact finalHeld
  · intro event member
    rw [events_bind firstRun] at member
    rcases List.mem_append.mp member with member | member
    · exact firstFine event member
    · exact restFine event member

/-- Reading hands the current state to what follows. -/
theorem KeepsAt.read_bind {rest : σ → Traced σ ε ω β} {state : σ} (held : invariant state)
    (restKeeps : KeepsAt invariant fine (rest state) state) :
    KeepsAt invariant fine (Traced.read >>= rest) state := by
  apply KeepsAt.bind
  · intro value final finished
    cases finished
    exact ⟨held, by intro event member; cases member⟩
  · intro value middle finished _
    cases finished
    exact restKeeps

theorem Keeps.pure (value : α) :
    Keeps invariant fine (Pure.pure value : Traced σ ε ω α) :=
  fun _ held => .pure held value

theorem Keeps.fail (fault : ε) :
    Keeps invariant fine (Traced.fail fault : Traced σ ε ω α) :=
  fun state _ => .fail fault state

theorem Keeps.bind {first : Traced σ ε ω α} {rest : α → Traced σ ε ω β}
    (firstKeeps : Keeps invariant fine first)
    (restKeeps : ∀ value, Keeps invariant fine (rest value)) :
    Keeps invariant fine (first >>= rest) :=
  fun state held => (firstKeeps state held).bind
    fun value middle _ middleHeld => restKeeps value middle middleHeld

end Rules

end Traced

end MainlineDht.Effect
