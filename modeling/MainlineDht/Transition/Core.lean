/-!
# Labelled partial transitions and their histories

A `Step` offers, in every state, the actions the system may take next; an
action that is not enabled has no result.  A `Run` carries the newest-first
history of the states it passed through together with the action taken in
each, so that a property of all reached states and a condition on all taken
steps are both statements about one list.
-/

namespace MainlineDht.Transition

universe u v

/-- An executable labelled transition.  `none` means that the action is not
enabled in the state. -/
abbrev Step (σ : Type u) (α : Type v) := σ → α → Option σ

variable {σ : Type u} {α : Type v}

/-- Perform actions from left to right, failing at the first disabled one. -/
def perform (next : Step σ α) : σ → List α → Option σ
  | state, [] => some state
  | state, action :: actions =>
      (next state action).bind fun middle => perform next middle actions

/-- `Run next start history state`: a finite run from `start` to `state`.  Each
entry of the history is a state and the action taken in it, newest first. -/
inductive Run (next : Step σ α) (start : σ) : List (σ × α) → σ → Prop
  | initial : Run next start [] start
  | push {history : List (σ × α)} {middle target : σ} {action : α} :
      Run next start history middle →
      next middle action = some target →
      Run next start ((middle, action) :: history) target

/-- A state is reachable when some run ends in it. -/
def Reachable (next : Step σ α) (start state : σ) : Prop :=
  ∃ history, Run next start history state

/-- The states a run has been in: those of its history and its last one. -/
def Visits (history : List (σ × α)) (state : σ) (property : σ → Prop) : Prop :=
  property state ∧ ∀ visited ∈ history, property visited.1

/-- Every step of the history was taken under the given condition on the state
before the step and the action. -/
def Guarded (history : List (σ × α)) (guard : σ → α → Prop) : Prop :=
  ∀ taken ∈ history, guard taken.1 taken.2

@[simp]
theorem guarded_nil (guard : σ → α → Prop) : Guarded ([] : List (σ × α)) guard := by
  simp [Guarded]

theorem guarded_cons {history : List (σ × α)} {state : σ} {action : α}
    {guard : σ → α → Prop} :
    Guarded ((state, action) :: history) guard ↔
      guard state action ∧ Guarded history guard := by
  simp [Guarded]

/-- The steps that are taken under a condition, and no others. -/
def restrict (guard : σ → α → Prop) [∀ state action, Decidable (guard state action)]
    (next : Step σ α) : Step σ α := fun state action =>
  if guard state action then next state action else none

/-- A step of a kind that a history has only once is that one. -/
theorem eq_of_only {history before later earlier : List (σ × α)} {state other : σ}
    {action otherAction : α} {kind : α → Prop}
    (history_eq : history = later ++ (other, otherAction) :: earlier)
    (only : ∀ taken ∈ later ++ earlier, ¬ kind taken.2)
    (taken : (state, action) :: before <:+ history) (isKind : kind action) :
    state = other ∧ action = otherAction ∧ before = earlier := by
  subst history_eq
  induction later with
  | nil =>
      rcases List.suffix_cons_iff.mp taken with same | further
      · cases same
        exact ⟨rfl, rfl, rfl⟩
      · exact absurd isKind (only _ (further.subset List.mem_cons_self))
  | cons first later ih =>
      rcases List.suffix_cons_iff.mp taken with same | further
      · obtain ⟨isFirst, _⟩ := List.cons.inj same
        subst isFirst
        exact absurd isKind (only _ List.mem_cons_self)
      · exact ih (fun step member => only step (List.mem_cons_of_mem _ member)) further

namespace Run

variable {next : Step σ α} {start state : σ} {history : List (σ × α)}

/-- Performing further actions extends a run. -/
theorem append (run : Run next start history state) {actions : List α} {target : σ}
    (performed : perform next state actions = some target) :
    ∃ extended, Run next start (extended ++ history) target ∧
      extended.map Prod.snd = actions.reverse := by
  induction actions generalizing state history with
  | nil =>
      cases performed
      exact ⟨[], run, rfl⟩
  | cons action actions ih =>
      obtain ⟨middle, first, rest⟩ := Option.bind_eq_some_iff.mp performed
      obtain ⟨extended, longer, taken⟩ := ih (run.push first) rest
      refine ⟨extended ++ [(state, action)], ?_, ?_⟩
      · simpa using longer
      · simp [taken]

/-- A run of the restricted steps is a run whose steps all meet the condition. -/
theorem of_restrict {guard : σ → α → Prop} [∀ state action, Decidable (guard state action)]
    (run : Run (restrict guard next) start history state) :
    Run next start history state ∧ Guarded history guard := by
  induction run with
  | initial => exact ⟨.initial, guarded_nil guard⟩
  | push _ step ih =>
      obtain ⟨met, performed⟩ := Option.ite_none_right_eq_some.mp step
      exact ⟨ih.1.push performed, guarded_cons.mpr ⟨met, ih.2⟩⟩

/-- What a run has been through before one of its steps is a run, too. -/
theorem of_suffix (run : Run next start history state) {middle : σ} {action : α}
    {before : List (σ × α)} (taken : (middle, action) :: before <:+ history) :
    Run next start before middle := by
  induction run with
  | initial => exact absurd (List.eq_nil_of_suffix_nil taken) (List.cons_ne_nil _ _)
  | push earlier _ ih =>
      rcases List.suffix_cons_iff.mp taken with last | further
      · cases last
        exact earlier
      · exact ih further

/-- A property that holds at the start and survives every step taken under the
guard holds at the end of every guarded run. -/
theorem invariant_of_guard {property : σ → Prop} {guard : σ → α → Prop}
    (initially : property start)
    (preserved : ∀ {before action after}, property before → guard before action →
      next before action = some after → property after)
    (run : Run next start history state) (guarded : Guarded history guard) :
    property state := by
  induction run with
  | initial => exact initially
  | push _ step ih =>
      obtain ⟨last, earlier⟩ := guarded_cons.mp guarded
      exact preserved (ih earlier) last step

/-- A property preserved by every step holds in every reachable state. -/
theorem invariant {property : σ → Prop} (initially : property start)
    (preserved : ∀ {before action after}, property before →
      next before action = some after → property after)
    (run : Run next start history state) : property state :=
  run.invariant_of_guard initially (fun held (_ : True) step => preserved held step)
    fun _ _ => trivial

/-- If a guard keeps a property, and the property makes every possible step meet
another condition, then runs under the guard meet that condition throughout. -/
theorem guarded_of_guard {property : σ → Prop} {guard condition : σ → α → Prop}
    (initially : property start)
    (preserved : ∀ {before action after}, property before → guard before action →
      next before action = some after → property after)
    (meets : ∀ {before action after}, property before →
      next before action = some after → condition before action)
    (run : Run next start history state) (guarded : Guarded history guard) :
    Guarded history condition := by
  induction run with
  | initial => exact guarded_nil condition
  | push earlierRun step ih =>
      obtain ⟨_, earlier⟩ := guarded_cons.mp guarded
      have held := earlierRun.invariant_of_guard initially preserved earlier
      exact guarded_cons.mpr ⟨meets held step, ih earlier⟩

/-- Where one step keeps the property exactly under the guard, a run visits
only states with the property exactly when all its steps meet the guard.
`support` is what the step lemma may rely on, and lasts as long as they do. -/
theorem visits_iff_guarded_of_support {support property : σ → Prop} {guard : σ → α → Prop}
    (supported : support start) (initially : property start)
    (keeps : ∀ {before action after}, support before → property before → guard before action →
      next before action = some after → support after)
    (exactly : ∀ {before action after}, support before → property before →
      next before action = some after → (property after ↔ guard before action))
    (run : Run next start history state) :
    (Visits history state property ↔ Guarded history guard) ∧
      (Guarded history guard → support state) := by
  induction run with
  | initial => exact ⟨by simp [Visits, Guarded, initially], fun _ => supported⟩
  | @push history middle target action run step ih =>
      rcases ih with ⟨visits_iff, lasts⟩
      constructor
      · rw [guarded_cons]
        constructor
        · rintro ⟨last, earlier⟩
          have middleHolds : property middle := earlier _ List.mem_cons_self
          have guarded : Guarded history guard := by
            refine visits_iff.mp ⟨middleHolds, ?_⟩
            intro visited member
            exact earlier visited (List.mem_cons_of_mem _ member)
          exact ⟨(exactly (lasts guarded) middleHolds step).mp last, guarded⟩
        · rintro ⟨last, guarded⟩
          rcases visits_iff.mpr guarded with ⟨middleHolds, earlier⟩
          refine ⟨(exactly (lasts guarded) middleHolds step).mpr last, ?_⟩
          intro visited member
          rcases List.mem_cons.mp member with rfl | member
          · exact middleHolds
          · exact earlier visited member
      · intro guarded
        rcases guarded_cons.mp guarded with ⟨last, earlier⟩
        exact keeps (lasts earlier) (visits_iff.mpr earlier).1 last step

/-- The same for a support that every step keeps. -/
theorem visits_iff_guarded {support property : σ → Prop} {guard : σ → α → Prop}
    (supported : support start) (initially : property start)
    (keeps : ∀ {before action after}, support before →
      next before action = some after → support after)
    (exactly : ∀ {before action after}, support before → property before →
      next before action = some after → (property after ↔ guard before action))
    (run : Run next start history state) :
    Visits history state property ↔ Guarded history guard :=
  (run.visits_iff_guarded_of_support supported initially
    (fun held _ _ step => keeps held step) exactly).1

/-- A relation to earlier states that no step breaks holds between every state
of the history and the last one. -/
theorem related {relation : σ → σ → Prop} (reflexive : ∀ state, relation state state)
    (kept : ∀ {first history before action after}, Run next start history before →
      relation first before → next before action = some after → relation first after)
    (run : Run next start history state) : ∀ visited ∈ history, relation visited.1 state := by
  induction run with
  | initial => simp
  | @push _ middle _ _ earlier step ih =>
      intro visited member
      rcases List.mem_cons.mp member with rfl | member
      · exact kept earlier (reflexive middle) step
      · exact kept earlier (ih visited member) step

end Run

/-! ## Reachable states -/

theorem Reachable.refl (next : Step σ α) (state : σ) : Reachable next state state :=
  ⟨[], .initial⟩

theorem Reachable.step {next : Step σ α} {start middle target : σ} {action : α}
    (reachable : Reachable next start middle) (stepped : next middle action = some target) :
    Reachable next start target := by
  rcases reachable with ⟨history, run⟩
  exact ⟨_, run.push stepped⟩

theorem Reachable.trans {next : Step σ α} {start middle target : σ}
    (first : Reachable next start middle) (second : Reachable next middle target) :
    Reachable next start target := by
  rcases second with ⟨history, run⟩
  induction run with
  | initial => exact first
  | push _ stepped ih => exact ih.step stepped

/-! ## Components -/

universe w x y

/-- The history of a component: the steps of the whole that are steps of it. -/
def component {τ : Type w} {β : Type x} (part : σ → τ) (seen : σ → α → Option β)
    (history : List (σ × α)) : List (τ × β) :=
  history.filterMap fun taken => (seen taken.1 taken.2).map fun action => (part taken.1, action)

/-- What is read off the steps of a component is read off those of the whole. -/
theorem flatMap_component {τ : Type w} {β : Type x} {γ : Type y} (part : σ → τ)
    (seen : σ → α → Option β) (read : τ × β → List γ) (history : List (σ × α)) :
    (component part seen history).flatMap read = history.flatMap fun taken =>
      (seen taken.1 taken.2).toList.flatMap fun action => read (part taken.1, action) := by
  induction history with
  | nil => rfl
  | cons taken history ih =>
      rw [component, List.filterMap_cons, List.flatMap_cons, ← ih, component]
      cases seen taken.1 taken.2 with
      | none => rfl
      | some action => simp

/-- A run of the whole is a run of each component that steps with it or rests. -/
theorem Run.component {τ : Type w} {β : Type x} {part : σ → τ} {seen : σ → α → Option β}
    {next : Step σ α} {nextPart : Step τ β} {start state : σ} {history : List (σ × α)}
    (steps : ∀ {before action after b}, next before action = some after →
      seen before action = some b → nextPart (part before) b = some (part after))
    (rests : ∀ {before action after}, next before action = some after →
      seen before action = none → part after = part before)
    (run : Run next start history state) :
    Run nextPart (part start) (component part seen history) (part state) := by
  induction run with
  | initial => exact .initial
  | @push history middle target action _ step ih =>
      rw [Transition.component, List.filterMap_cons]
      cases visible : seen middle action with
      | none =>
          rw [rests step visible]
          exact ih
      | some b => exact ih.push (steps step visible)

end MainlineDht.Transition
