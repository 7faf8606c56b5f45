import MainlineDht.Ownership.Ledger
import MainlineDht.Rust.FixedVec
import MainlineDht.Transition.Core

/-!
# Who owns the items of the fixed-capacity vectors

A program makes vectors, calls their operations and lets them go out of scope.
An operation that panics drops the arguments it was given by value, and the
program may go on after that.  Both `append` and `append_vec` copy the items of
an argument that is dropped when they return.
-/

namespace MainlineDht.Rust

open Ownership Sequence Transition

variable {E : Type}

/-- The vectors of a program; `failed` says whether an operation has panicked. -/
abbrev Heap (E : Type) : Type := Ledger (FixedVec E) E

/-- What a program may do next.  Vectors are numbered in the order in which they
are made. -/
inductive VecAction (E : Type)
  | new
  | push (v : Nat) (item : E)
  | swapRemove (v index : Nat)
  | indexMut (v index : Nat) (item : E)
  | append (v other : Nat)
  | appendVec (v : Nat) (newItems : List E)
  | drop (v : Nat)

namespace Heap

/-- The item that is taken out is handed over to the caller. -/
def swapRemove (h : Heap E) (v : Nat) (vec : FixedVec E) (index : Nat) : Heap E :=
  match vec.swapRemove index with
  | some (item, after) => (h.put v after).handOver item
  | none => h.fail

/-- The other vector goes out of scope when the call ends, however it ends. -/
def append (h : Heap E) (v : Nat) (vec : FixedVec E) (other : Nat) (otherVec : FixedVec E) :
    Heap E :=
  ((h.settle v (vec.append otherVec)).remove other).drop otherVec.occupants

/-- A vector goes out of scope. -/
def dropVec (h : Heap E) (v : Nat) (vec : FixedVec E) : Heap E :=
  (h.remove v).drop vec.occupants

variable [DecidableEq E]

/-- An item that finds no room is dropped. -/
def push (h : Heap E) (v : Nat) (vec : FixedVec E) (item : E) : Heap E :=
  match vec.push item with
  | some after => (h.moveIn [item]).put v after
  | none => ((h.moveIn [item]).drop [item]).fail

/-- `v[index] = item`, which drops what was there. -/
def indexMut (h : Heap E) (v : Nat) (vec : FixedVec E) (index : Nat) (item : E) : Heap E :=
  match vec.index index, vec.indexMut index item with
  | some old, some after => ((h.moveIn [item]).put v after).drop [old]
  | _, _ => ((h.moveIn [item]).drop [item]).fail

/-- The `Vec` and the items in it are dropped when the call ends, however it ends. -/
def appendVec (h : Heap E) (v : Nat) (vec : FixedVec E) (newItems : List E) : Heap E :=
  ((h.moveIn newItems).settle v (vec.appendVec newItems)).drop newItems

/-- A step of a program: it names vectors that are there, and gives away what it
owns. -/
def step : Step (Heap E) (VecAction E)
  | h, .new => some (h.add FixedVec.new)
  | h, .push v item =>
      if h.Owns [item] then (h.get v).map fun vec => push h v vec item else none
  | h, .swapRemove v index => (h.get v).map fun vec => swapRemove h v vec index
  | h, .indexMut v index item =>
      if h.Owns [item] then (h.get v).map fun vec => indexMut h v vec index item else none
  | h, .append v other =>
      if v = other then none
      else (h.get v).bind fun vec =>
        (h.get other).map fun otherVec => append h v vec other otherVec
  | h, .appendVec v newItems =>
      if h.Owns newItems then (h.get v).map fun vec => appendVec h v vec newItems else none
  | h, .drop v => (h.get v).map fun vec => dropVec h v vec

/-- Every item is in one vector, with the caller or dropped. -/
def Conserved (h : Heap E) : Prop :=
  Ledger.Conserved FixedVec.occupants h

/-- No argument that is dropped still has an item that was copied out of it. -/
def Transfers (h : Heap E) : VecAction E → Prop
  | .append v other => ∀ vec otherVec, h.get v = some vec → h.get other = some otherVec →
      vec.emptySlots ≥ otherVec.length → otherVec.length = 0
  | .appendVec v newItems => ∀ vec, h.get v = some vec →
      vec.emptySlots ≥ newItems.length → newItems = []
  | _ => True

instance (h : Heap E) : ∀ action, Decidable (Transfers h action)
  | .append v other => decidable_of_iff
      (∀ vec ∈ h.get v, ∀ otherVec ∈ h.get other,
        vec.emptySlots ≥ otherVec.length → otherVec.length = 0)
      ⟨fun held vec otherVec found foundOther => held vec found otherVec foundOther,
        fun held vec found otherVec foundOther => held vec otherVec found foundOther⟩
  | .appendVec v newItems => inferInstanceAs (Decidable (∀ vec ∈ h.get v,
      vec.emptySlots ≥ newItems.length → newItems = []))
  | .new | .push _ _ | .swapRemove _ _ | .indexMut _ _ _ | .drop _ => isTrue trivial

/-! ## What an operation keeps -/

/-- Every vector holds a list of items, and the items are balanced. -/
structure Sound (flight : List E) (h : Heap E) : Prop where
  holds {n : Nat} {vec : FixedVec E} : h.get n = some vec → ∃ items, vec.Holds items
  balanced : h.Balanced FixedVec.occupants flight

variable {h h' : Heap E} {flight flight' items items' others : List E} {item : E}
  {v other index : Nat} {vec otherVec after : FixedVec E} {outcome : Option (FixedVec E)}
  {action : VecAction E}

theorem sound_empty : Sound [] (Ledger.empty : Heap E) where
  holds found := by cases found
  balanced := Ledger.balanced_empty

namespace Sound

theorem add (sound : Sound flight h) : Sound flight (h.add FixedVec.new) where
  holds {n vec} found := by
    rw [Ledger.get_add] at found
    split at found
    · cases found
      exact ⟨[], FixedVec.Holds.new⟩
    · exact sound.holds found
  balanced := sound.balanced.add FixedVec.Holds.new.occupants_eq

theorem put (sound : Sound flight h) (found : h.get v = some vec) (holds : vec.Holds items)
    (holdsAfter : after.Holds items') (exchange : (items' ++ flight').Perm (items ++ flight)) :
    Sound flight' (h.put v after) where
  holds {n other} foundOther := by
    rw [Ledger.get_put found] at foundOther
    split at foundOther
    · cases foundOther
      exact ⟨items', holdsAfter⟩
    · exact sound.holds foundOther
  balanced := sound.balanced.put found (by rwa [holds.occupants_eq, holdsAfter.occupants_eq])

theorem remove (sound : Sound flight h) (found : h.get v = some vec) :
    Sound (vec.occupants ++ flight) (h.remove v) where
  holds {n other} foundOther := by
    rw [Ledger.get_remove] at foundOther
    split at foundOther
    · cases foundOther
    · exact sound.holds foundOther
  balanced := sound.balanced.remove found

theorem handOver (sound : Sound (item :: flight) h) : Sound flight (h.handOver item) :=
  ⟨sound.holds, sound.balanced.handOver⟩

theorem drop (sound : Sound (items ++ flight) h) : Sound flight (h.drop items) :=
  ⟨sound.holds, sound.balanced.drop⟩

theorem fail (sound : Sound flight h) : Sound flight h.fail :=
  ⟨sound.holds, sound.balanced⟩

theorem moveIn (sound : Sound [] h) (owns : h.Owns items) : Sound items (h.moveIn items) :=
  ⟨sound.holds, sound.balanced.moveIn owns⟩

theorem push (sound : Sound [] h) (found : h.get v = some vec) (owns : h.Owns [item]) :
    Sound [] (Heap.push h v vec item) := by
  rcases sound.holds found with ⟨items, holds⟩
  have given := sound.moveIn owns
  unfold Heap.push
  by_cases room : items.length < bucketSize
  · rcases holds.push room item with ⟨after, pushed, holdsAfter⟩
    rw [pushed]
    exact given.put found holds holdsAfter (by rw [List.append_nil])
  · have full : vec.push item = none := if_neg (mt holds.isNotFull_iff.mp room)
    rw [full]
    exact given.drop.fail

theorem swapRemove (sound : Sound [] h) (found : h.get v = some vec) :
    Sound [] (Heap.swapRemove h v vec index) := by
  rcases sound.holds found with ⟨items, holds⟩
  unfold Heap.swapRemove
  by_cases inside : index < items.length
  · rcases holds.swapRemove inside with ⟨after, removed, holdsAfter⟩
    rw [removed]
    apply handOver
    apply sound.put found holds holdsAfter
    rw [List.append_nil]
    exact (List.perm_append_singleton _ _).trans (cons_swapRemove_perm items inside)
  · have outside : vec.swapRemove index = none := if_neg (holds.length_eq ▸ inside)
    rw [outside]
    exact sound.fail

theorem indexMut (sound : Sound [] h) (found : h.get v = some vec) (owns : h.Owns [item]) :
    Sound [] (Heap.indexMut h v vec index item) := by
  rcases sound.holds found with ⟨items, holds⟩
  have given := sound.moveIn owns
  unfold Heap.indexMut
  by_cases inside : index < items.length
  · rcases holds.indexMut inside item with ⟨after, written, holdsAfter⟩
    rw [holds.index_eq inside, written]
    apply drop
    apply given.put found holds holdsAfter
    exact set_concat_perm inside item
  · have outside : vec.indexMut index item = none := if_neg (holds.length_eq ▸ inside)
    rw [outside]
    cases vec.index index with
    | none => exact given.drop.fail
    | some old => exact given.drop.fail

theorem dropVec (sound : Sound [] h) (found : h.get v = some vec) :
    Sound [] (Heap.dropVec h v vec) :=
  (sound.remove found).drop

/-- A vector that panics keeps its items, and what is in flight stays in flight. -/
theorem settle (sound : Sound flight h) (found : h.get v = some vec)
    (keeps : ∀ after, outcome = some after → ∃ items, vec.Holds items ∧ after.Holds items) :
    Sound flight (h.settle v outcome) := by
  unfold Ledger.settle
  split
  · rename_i after
    rcases keeps after rfl with ⟨items, holds, holdsAfter⟩
    exact sound.put found holds holdsAfter (List.Perm.refl _)
  · exact sound.fail

/-- Nothing of an empty vector is copied. -/
theorem append (sound : Sound [] h) (found : h.get v = some vec) (differ : v ≠ other)
    (foundOther : h.get other = some otherVec)
    (transfers : vec.emptySlots ≥ otherVec.length → otherVec.length = 0) :
    Sound [] (Heap.append h v vec other otherVec) := by
  rcases sound.holds found with ⟨items, holds⟩
  rcases sound.holds foundOther with ⟨others, holdsOther⟩
  have settled : Sound [] (h.settle v (vec.append otherVec)) := by
    apply sound.settle found
    intro after appended
    have none : others = [] := by
      apply List.length_eq_zero_iff.mp
      rw [← holdsOther.length_eq, transfers (FixedVec.of_append appended).1]
    rcases holds.append holdsOther (Or.inr none) with ⟨copied, copies, holdsCopied⟩
    cases copies.symm.trans appended
    rw [none, List.append_nil] at holdsCopied
    exact ⟨items, holds, holdsCopied⟩
  have still : (h.settle v (vec.append otherVec)).get other = some otherVec :=
    (Ledger.get_settle_of_ne found _ (Ne.symm differ)).trans foundOther
  exact (settled.remove still).drop

/-- Nothing of an empty `Vec` is copied. -/
theorem appendVec {newItems : List E} (sound : Sound [] h) (found : h.get v = some vec)
    (owns : h.Owns newItems) (transfers : vec.emptySlots ≥ newItems.length → newItems = []) :
    Sound [] (Heap.appendVec h v vec newItems) := by
  rcases sound.holds found with ⟨items, holds⟩
  have given := sound.moveIn owns
  have settled : Sound newItems ((h.moveIn newItems).settle v (vec.appendVec newItems)) := by
    apply given.settle found
    intro after appended
    rcases FixedVec.of_appendVec appended with ⟨fits, room⟩
    cases transfers fits
    rw [holds.length_eq] at room
    have still : items.length + ([] : List E).length ≤ bucketSize := Nat.le_of_lt room
    rcases holds.appendVec room still with ⟨copied, copies, holdsCopied⟩
    cases copies.symm.trans appended
    rw [List.append_nil] at holdsCopied
    exact ⟨items, holds, holdsCopied⟩
  have inFlight : Sound (newItems ++ []) ((h.moveIn newItems).settle v (vec.appendVec newItems)) := by
    rwa [List.append_nil]
  exact inFlight.drop

end Sound

omit [DecidableEq E] in
/-- What the vector becomes that is appended to. -/
theorem get_append (found : h.get v = some vec) (differ : v ≠ other)
    (appended : vec.append otherVec = some after) :
    (Heap.append h v vec other otherVec).get v = some after := by
  show ((h.settle v (vec.append otherVec)).remove other).get v = some after
  rw [Ledger.get_remove, if_neg differ, appended]
  exact (Ledger.get_put found after v).trans (if_pos rfl)

/-- What was copied out of another vector is dropped with it. -/
theorem Sound.append_broken (sound : Sound [] h) (found : h.get v = some vec) (differ : v ≠ other)
    (foundOther : h.get other = some otherVec) (fits : vec.emptySlots ≥ otherVec.length)
    (nonempty : otherVec.length ≠ 0) : ¬ Conserved (Heap.append h v vec other otherVec) := by
  rcases sound.holds foundOther with ⟨others, holdsOther⟩
  have some_in : 0 < others.length := Nat.pos_of_ne_zero (holdsOther.length_eq ▸ nonempty)
  have first : others[0] ∈ otherVec.occupants := holdsOther.occupants_eq ▸ List.getElem_mem some_in
  rcases FixedVec.exists_append fits with ⟨after, appended⟩
  rcases FixedVec.of_append appended with ⟨_, length_eq, slot_eq⟩
  have kept : others[0] ∈ after.occupants := by
    refine FixedVec.mem_occupants.mpr ⟨0, by omega, ?_⟩
    rw [slot_eq 0 (Nat.pos_of_ne_zero nonempty) (by decide), holdsOther.slot_getElem some_in]
  have moved_eq : (Heap.append h v vec other otherVec).moved = h.moved := by
    rw [Heap.append, appended]
    rfl
  apply Ledger.not_conserved
  · rw [moved_eq]
    apply sound.balanced.mem_moved
    simp only [Ledger.places, List.mem_append]
    exact Or.inl (Or.inl (Or.inl (Ledger.mem_live.mpr ⟨other, otherVec, foundOther, first⟩)))
  · exact Ledger.mem_live.mpr ⟨v, after, get_append found differ appended, kept⟩
  · exact List.mem_append_left _ first

/-- What was copied out of a `Vec` is dropped with it. -/
theorem Sound.appendVec_broken {newItems : List E} (sound : Sound [] h)
    (found : h.get v = some vec) (fits : vec.emptySlots ≥ newItems.length)
    (nonempty : newItems ≠ []) : ¬ Conserved (Heap.appendVec h v vec newItems) := by
  rcases sound.holds found with ⟨items, holds⟩
  have some_in : 0 < newItems.length := List.length_pos_iff.mpr nonempty
  have total : items.length + newItems.length ≤ bucketSize := holds.emptySlots_ge_iff.mp fits
  rcases holds.appendVec (Nat.lt_of_lt_of_le (Nat.lt_add_of_pos_right some_in) total) total with
    ⟨after, appended, holdsAfter⟩
  have foundAfter : (Heap.appendVec h v vec newItems).get v = some after := by
    rw [Heap.appendVec, appended]
    exact (Ledger.get_put found after v).trans (if_pos rfl)
  have first : newItems[0] ∈ newItems := List.getElem_mem some_in
  apply Ledger.not_conserved
  · show newItems[0] ∈ (Heap.appendVec h v vec newItems).moved
    rw [Heap.appendVec, appended]
    exact List.mem_append_left _ first
  · refine Ledger.mem_live.mpr ⟨v, after, foundAfter, ?_⟩
    rw [holdsAfter.occupants_eq]
    exact List.mem_append_right _ first
  · exact List.mem_append_left _ first

/-! ## Steps -/

/-- What a step does, and when it is possible. -/
inductive StepCase (h : Heap E) : VecAction E → Heap E → Prop
  | new : StepCase h .new (h.add FixedVec.new)
  | push {v : Nat} {item : E} {vec : FixedVec E} : h.Owns [item] → h.get v = some vec →
      StepCase h (.push v item) (push h v vec item)
  | swapRemove {v index : Nat} {vec : FixedVec E} : h.get v = some vec →
      StepCase h (.swapRemove v index) (swapRemove h v vec index)
  | indexMut {v index : Nat} {item : E} {vec : FixedVec E} : h.Owns [item] → h.get v = some vec →
      StepCase h (.indexMut v index item) (indexMut h v vec index item)
  | append {v other : Nat} {vec otherVec : FixedVec E} : v ≠ other → h.get v = some vec →
      h.get other = some otherVec → StepCase h (.append v other) (append h v vec other otherVec)
  | appendVec {v : Nat} {newItems : List E} {vec : FixedVec E} : h.Owns newItems →
      h.get v = some vec → StepCase h (.appendVec v newItems) (appendVec h v vec newItems)
  | drop {v : Nat} {vec : FixedVec E} : h.get v = some vec →
      StepCase h (.drop v) (dropVec h v vec)

theorem step_iff : step h action = some h' ↔ StepCase h action h' := by
  constructor
  · intro stepped
    cases action with
    | new =>
        cases stepped
        exact .new
    | push v item =>
        rcases Option.ite_none_right_eq_some.mp stepped with ⟨owns, called⟩
        rcases Option.map_eq_some_iff.mp called with ⟨vec, found, rfl⟩
        exact .push owns found
    | swapRemove v index =>
        rcases Option.map_eq_some_iff.mp stepped with ⟨vec, found, rfl⟩
        exact .swapRemove found
    | indexMut v index item =>
        rcases Option.ite_none_right_eq_some.mp stepped with ⟨owns, called⟩
        rcases Option.map_eq_some_iff.mp called with ⟨vec, found, rfl⟩
        exact .indexMut owns found
    | append v other =>
        rcases Option.ite_none_left_eq_some.mp stepped with ⟨differ, called⟩
        rcases Option.bind_eq_some_iff.mp called with ⟨vec, found, calledOther⟩
        rcases Option.map_eq_some_iff.mp calledOther with ⟨otherVec, foundOther, rfl⟩
        exact .append differ found foundOther
    | appendVec v newItems =>
        rcases Option.ite_none_right_eq_some.mp stepped with ⟨owns, called⟩
        rcases Option.map_eq_some_iff.mp called with ⟨vec, found, rfl⟩
        exact .appendVec owns found
    | drop v =>
        rcases Option.map_eq_some_iff.mp stepped with ⟨vec, found, rfl⟩
        exact .drop found
  · intro stepped
    cases stepped with
    | new => rfl
    | push owns found => simp [step, owns, found]
    | swapRemove found => simp [step, found]
    | indexMut owns found => simp [step, owns, found]
    | append differ found foundOther => simp [step, differ, found, foundOther]
    | appendVec owns found => simp [step, owns, found]
    | drop found => simp [step, found]

/-- A step that copies nothing out of what it drops keeps the vectors sound. -/
theorem Sound.step (sound : Sound [] h) (transfers : Transfers h action)
    (stepped : StepCase h action h') : Sound [] h' := by
  cases stepped with
  | new => exact sound.add
  | push owns found => exact sound.push found owns
  | swapRemove found => exact sound.swapRemove found
  | indexMut owns found => exact sound.indexMut found owns
  | append differ found foundOther =>
      exact sound.append found differ foundOther (transfers _ _ found foundOther)
  | appendVec owns found => exact sound.appendVec found owns (transfers _ found)
  | drop found => exact sound.dropVec found

/-- Only such a step conserves the items. -/
theorem Sound.transfers_of_conserved (sound : Sound [] h) (stepped : StepCase h action h')
    (conserved : Conserved h') : Transfers h action := by
  cases stepped with
  | append differ found foundOther =>
      intro vec otherVec isVec isOther fits
      cases found.symm.trans isVec
      cases foundOther.symm.trans isOther
      by_contra nonempty
      exact sound.append_broken found differ foundOther fits nonempty conserved
  | appendVec owns found =>
      intro vec isVec fits
      cases found.symm.trans isVec
      by_contra nonempty
      exact sound.appendVec_broken found fits nonempty conserved
  | _ => trivial

/-- In every run: all items are conserved throughout exactly if every `append` and
`append_vec` that goes through has an empty argument. -/
theorem visits_conserved_iff (history : List (Heap E × VecAction E)) (h : Heap E)
    (run : Run step Ledger.empty history h) :
    Visits history h Conserved ↔ Guarded history Transfers := by
  apply (run.visits_iff_guarded_of_support sound_empty sound_empty.balanced.conserved _ _).1
  · intro before action after sound _ transfers stepped
    exact sound.step transfers (step_iff.mp stepped)
  · intro before action after sound _ stepped
    constructor
    · exact sound.transfers_of_conserved (step_iff.mp stepped)
    · intro transfers
      exact (sound.step transfers (step_iff.mp stepped)).balanced.conserved

/-- A program that has made one vector. -/
def withNew : Heap Nat :=
  Ledger.empty.add FixedVec.new

/-- Two items are pushed, an empty vector is appended to theirs, and one is
removed again. -/
def shareVectors : List (VecAction Nat) :=
  [.new, .push 0 7, .push 0 8, .new, .append 0 1, .swapRemove 0 0]

/-- All items are conserved throughout. -/
theorem visits_conserved_iff_appendEmpty :
    ∃ history h, history.map Prod.snd = shareVectors.reverse ∧
      Run step (Ledger.empty : Heap Nat) history h ∧ Visits history h Conserved := by
  have goes : (perform (restrict Transfers step) (Ledger.empty : Heap Nat) shareVectors).isSome := by
    decide +kernel
  rcases Option.isSome_iff_exists.mp goes with ⟨h, performed⟩
  rcases Run.append .initial performed with ⟨history, restricted, taken⟩
  rw [List.append_nil] at restricted
  rcases restricted.of_restrict with ⟨run, transfers⟩
  exact ⟨history, h, taken, run, (visits_conserved_iff history h run).mpr transfers⟩

/-- The item of a `Vec` is dropped by the `append_vec` that copies it. -/
theorem appendVec_drops :
    ∃ history h, Run step (Ledger.empty : Heap Nat) history h ∧ ¬ Visits history h Conserved := by
  refine ⟨[(withNew, .appendVec 0 [7]), (Ledger.empty, .new)],
    appendVec withNew 0 FixedVec.new [7], ?_, ?_⟩
  · exact .push (.push .initial rfl) (step_iff.mpr (.appendVec (by decide) rfl))
  · rintro ⟨last, _⟩
    exact absurd (last 7 (by decide)) (by decide)

end Heap

end MainlineDht.Rust
