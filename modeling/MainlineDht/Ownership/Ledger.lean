import Mathlib.Data.List.Count
import Mathlib.Data.List.Nodup
import Mathlib.Data.List.Perm.Basic

/-!
# Who owns the elements of some containers

A ledger has the containers of a program, numbered in the order in which they
were made, and follows the elements that were ever moved into one: an element is
live in a container, or it has been handed back to the caller or dropped.
Elements are told apart, as if each had a name.

`Balanced` allows elements in flight, which an operation has taken from one
place and not yet put into another.  Each update has a rule that says which
elements are in flight after it; an operation conserves the elements if none
is at its end.
-/

namespace MainlineDht.Ownership

universe u v

/-- `none` is a container that is gone.  `handed` has the elements that the
caller got back and has not moved in again, `failed` says whether an operation
has failed. -/
structure Ledger (V : Type u) (E : Type v) where
  containers : List (Option V)
  moved : List E
  handed : List E
  dropped : List E
  failed : Bool

namespace Ledger

variable {V : Type u} {E : Type v}

/-- No container has been made, and no element moved in. -/
def empty : Ledger V E where
  containers := []
  moved := []
  handed := []
  dropped := []
  failed := false

/-- The container of a number. -/
def get (l : Ledger V E) (n : Nat) : Option V :=
  l.containers[n]?.join

/-! ## Updates -/

/-- Make a container. -/
def add (l : Ledger V E) (c : V) : Ledger V E :=
  { l with containers := l.containers ++ [some c] }

/-- The container with the number has changed. -/
def put (l : Ledger V E) (n : Nat) (c : V) : Ledger V E :=
  { l with containers := l.containers.set n (some c) }

/-- The container with the number is gone. -/
def remove (l : Ledger V E) (n : Nat) : Ledger V E :=
  { l with containers := l.containers.set n none }

/-- The caller gets an element back. -/
def handOver (l : Ledger V E) (item : E) : Ledger V E :=
  { l with handed := item :: l.handed }

/-- The elements are dropped. -/
def drop (l : Ledger V E) (items : List E) : Ledger V E :=
  { l with dropped := items ++ l.dropped }

/-- An operation has panicked. -/
def fail (l : Ledger V E) : Ledger V E :=
  { l with failed := true }

/-- The outcome of an operation on a container; `none` is a failure. -/
def settle (l : Ledger V E) (n : Nat) (outcome : Option V) : Ledger V E :=
  match outcome with
  | some c => l.put n c
  | none => l.fail

variable {l : Ledger V E} {n k : Nat} {c c' : V}

theorem getElem?_of_get (found : l.get n = some c) : l.containers[n]? = some (some c) :=
  Option.join_eq_some_iff.mp found

theorem lt_of_get (found : l.get n = some c) : n < l.containers.length :=
  (List.getElem?_eq_some_iff.mp (getElem?_of_get found)).1

theorem get_add (l : Ledger V E) (c : V) (k : Nat) :
    (l.add c).get k = if k = l.containers.length then some c else l.get k := by
  unfold get add
  split
  · rename_i isNew
    rw [isNew, List.getElem?_concat_length, Option.join_some]
  · rename_i other
    rcases Nat.lt_or_gt_of_ne other with below | above
    · rw [List.getElem?_append_left below]
    · rw [List.getElem?_eq_none, List.getElem?_eq_none (Nat.le_of_lt above)]
      rw [List.length_append]
      exact above

theorem get_put (found : l.get n = some c) (c' : V) (k : Nat) :
    (l.put n c').get k = if k = n then some c' else l.get k := by
  unfold get put
  rw [List.getElem?_set]
  by_cases same : n = k
  · subst same
    rw [if_pos rfl, if_pos rfl, if_pos (lt_of_get found), Option.join_some]
  · rw [if_neg same, if_neg (Ne.symm same)]

theorem get_remove (l : Ledger V E) (n k : Nat) :
    (l.remove n).get k = if k = n then none else l.get k := by
  unfold get remove
  rw [List.getElem?_set]
  by_cases same : n = k
  · subst same
    rw [if_pos rfl, if_pos rfl]
    split <;> rfl
  · rw [if_neg same, if_neg (Ne.symm same)]

theorem get_settle_of_ne (found : l.get n = some c) (outcome : Option V) (other : k ≠ n) :
    (l.settle n outcome).get k = l.get k := by
  cases outcome with
  | none => rfl
  | some c' => exact (get_put found c' k).trans (if_neg other)

/-- Updates of two containers may change places. -/
theorem remove_put_comm (l : Ledger V E) (c : V) (differ : n ≠ k) :
    (l.put n c).remove k = (l.remove k).put n c := by
  unfold put remove
  rw [List.set_comm _ _ differ]

/-! ## Where the elements are -/

section

variable (contents : V → List E)

/-- The elements in the containers. -/
def live (l : Ledger V E) : List E :=
  l.containers.flatMap fun c => (c.map contents).getD []

end

variable {contents : V → List E}

theorem mem_live {item : E} :
    item ∈ l.live contents ↔ ∃ n c, l.get n = some c ∧ item ∈ contents c := by
  unfold live
  rw [List.mem_flatMap]
  constructor
  · rintro ⟨container, member, inside⟩
    cases container with
    | none => exact absurd inside List.not_mem_nil
    | some c =>
        rcases List.mem_iff_getElem?.mp member with ⟨n, found⟩
        exact ⟨n, c, by rw [get, found, Option.join_some], inside⟩
  · rintro ⟨n, c, found, inside⟩
    exact ⟨some c, List.mem_of_getElem? (getElem?_of_get found), inside⟩

/-! ## What the caller gives away -/

variable [DecidableEq E]

/-- The caller gives elements away. -/
def moveIn (l : Ledger V E) (items : List E) : Ledger V E :=
  { l with
    moved := items ++ l.moved
    handed := l.handed.filter fun item => item ∉ items }

/-- The caller can give away only what it owns: something new, or something it
got back. -/
def Owns (l : Ledger V E) (items : List E) : Prop :=
  items.Nodup ∧ ∀ item ∈ items, item ∉ l.moved ∨ item ∈ l.handed

instance (l : Ledger V E) (items : List E) : Decidable (l.Owns items) :=
  inferInstanceAs (Decidable (_ ∧ _))

section

variable (contents)

/-- Every place that an element is in. -/
def places (l : Ledger V E) : List E :=
  l.live contents ++ l.handed ++ l.dropped

/-- Every element that was ever moved in is in exactly one place. -/
def Conserved (l : Ledger V E) : Prop :=
  ∀ item ∈ l.moved, (l.places contents).count item = 1

/-- Places and flight together have every element that was ever moved in once,
and no other. -/
def Balanced (l : Ledger V E) (flight : List E) : Prop :=
  ∀ item, (l.places contents ++ flight).count item = if item ∈ l.moved then 1 else 0

end

variable {flight flight' : List E}

/-- Replacing one of the parts that a list is joined of. -/
theorem count_flatMap_set {A : Type u} {f : A → List E} {parts : List A} {i : Nat} {old : A}
    (found : parts[i]? = some old) (part : A) (item : E) :
    ((parts.set i part).flatMap f).count item + (f old).count item =
      (parts.flatMap f).count item + (f part).count item := by
  induction parts generalizing i with
  | nil => cases found
  | cons first parts ih =>
      cases i with
      | zero =>
          cases found
          simp only [List.set_cons_zero, List.flatMap_cons, List.count_append]
          omega
      | succ i =>
          have rest := ih found
          simp only [List.set_cons_succ, List.flatMap_cons, List.count_append]
          omega

theorem count_live_put (contents : V → List E) (found : l.get n = some c) (c' : V) (item : E) :
    ((l.put n c').live contents).count item + (contents c).count item =
      (l.live contents).count item + (contents c').count item :=
  count_flatMap_set (f := fun c : Option V => (c.map contents).getD [])
    (getElem?_of_get found) (some c') item

theorem count_live_remove (contents : V → List E) (found : l.get n = some c) (item : E) :
    ((l.remove n).live contents).count item + (contents c).count item =
      (l.live contents).count item :=
  count_flatMap_set (f := fun c : Option V => (c.map contents).getD [])
    (getElem?_of_get found) none item

/-! ## The rules of balance -/

theorem balanced_iff : l.Balanced contents flight ↔
    ∀ item, (l.live contents).count item + l.handed.count item + l.dropped.count item +
      flight.count item = if item ∈ l.moved then 1 else 0 := by
  simp only [Balanced, places, List.count_append]

theorem balanced_empty : (empty : Ledger V E).Balanced contents [] :=
  fun _ => rfl

namespace Balanced

theorem conserved (balanced : l.Balanced contents []) : l.Conserved contents := by
  intro item moved
  have once := balanced item
  rwa [List.append_nil, if_pos moved] at once

theorem mem_moved (balanced : l.Balanced contents flight) {item : E}
    (member : item ∈ l.places contents ++ flight) : item ∈ l.moved := by
  by_contra foreign
  have nowhere := balanced item
  rw [if_neg foreign] at nowhere
  exact List.count_eq_zero.mp nowhere member

/-- An element in two places at once is one too many. -/
theorem count_le_one (balanced : l.Balanced contents flight) (item : E) :
    (l.live contents).count item + l.handed.count item + l.dropped.count item +
      flight.count item ≤ 1 := by
  rw [balanced_iff.mp balanced item]
  split <;> omega

/-- No element is in two containers. -/
theorem not_mem_of_ne (balanced : l.Balanced contents flight) (found : l.get n = some c)
    (foundOther : l.get k = some c') (differ : n ≠ k) {item : E} (member : item ∈ contents c) :
    item ∉ contents c' := by
  intro memberOther
  have still : (l.remove k).get n = some c := by
    rw [get_remove, if_neg differ, found]
  have first : 0 < ((l.remove k).live contents).count item :=
    List.count_pos_iff.mpr (mem_live.mpr ⟨n, c, still, member⟩)
  have second : 0 < (contents c').count item := List.count_pos_iff.mpr memberOther
  have removed := count_live_remove contents foundOther item
  have bound := balanced.count_le_one item
  omega

/-- A new container is empty. -/
theorem add (balanced : l.Balanced contents flight) (isEmpty : contents c = []) :
    (l.add c).Balanced contents flight := by
  have same : (l.add c).live contents = l.live contents := by
    simp [live, Ledger.add, isEmpty]
  intro item
  rw [places, same]
  exact balanced item

/-- A container takes elements out of the flight, or sends some into it. -/
theorem put (balanced : l.Balanced contents flight) (found : l.get n = some c)
    (exchange : (contents c' ++ flight').Perm (contents c ++ flight)) :
    (l.put n c').Balanced contents flight' := by
  rw [balanced_iff] at balanced ⊢
  intro item
  have replaced := count_live_put contents found c' item
  have exchanged := exchange.count_eq item
  rw [List.count_append, List.count_append] at exchanged
  have before := balanced item
  show ((l.put n c').live contents).count item + l.handed.count item + l.dropped.count item +
    flight'.count item = if item ∈ l.moved then 1 else 0
  omega

/-- The elements of a container that goes are in flight. -/
theorem remove (balanced : l.Balanced contents flight) (found : l.get n = some c) :
    (l.remove n).Balanced contents (contents c ++ flight) := by
  rw [balanced_iff] at balanced ⊢
  intro item
  have removed := count_live_remove contents found item
  have before := balanced item
  rw [List.count_append]
  show ((l.remove n).live contents).count item + l.handed.count item + l.dropped.count item +
    ((contents c).count item + flight.count item) = if item ∈ l.moved then 1 else 0
  omega

theorem handOver {item : E} (balanced : l.Balanced contents (item :: flight)) :
    (l.handOver item).Balanced contents flight := by
  rw [balanced_iff] at balanced ⊢
  intro other
  have before := balanced other
  rw [List.count_cons] at before
  show (l.live contents).count other + (item :: l.handed).count other + l.dropped.count other +
    flight.count other = if other ∈ l.moved then 1 else 0
  rw [List.count_cons]
  omega

theorem drop {items : List E} (balanced : l.Balanced contents (items ++ flight)) :
    (l.drop items).Balanced contents flight := by
  rw [balanced_iff] at balanced ⊢
  intro item
  have before := balanced item
  rw [List.count_append] at before
  show (l.live contents).count item + l.handed.count item + (items ++ l.dropped).count item +
    flight.count item = if item ∈ l.moved then 1 else 0
  rw [List.count_append]
  omega

/-- What the caller gives away is in flight. -/
theorem moveIn {items : List E} (balanced : l.Balanced contents []) (owns : l.Owns items) :
    (l.moveIn items).Balanced contents items := by
  rw [balanced_iff] at balanced ⊢
  intro item
  have before := balanced item
  show (l.live contents).count item + (l.handed.filter fun other => other ∉ items).count item +
    l.dropped.count item + items.count item = if item ∈ items ++ l.moved then 1 else 0
  by_cases given : item ∈ items
  · have once : items.count item = 1 := List.count_eq_one_of_mem owns.1 given
    have taken : (l.handed.filter fun other => other ∉ items).count item = 0 := by
      apply List.count_eq_zero.mpr
      simp [given]
    rw [if_pos (List.mem_append_left _ given), taken, once]
    rcases owns.2 item given with isNew | back
    · rw [if_neg isNew] at before
      omega
    · have held : 0 < l.handed.count item := List.count_pos_iff.mpr back
      split at before <;> omega
  · have kept : (l.handed.filter fun other => other ∉ items).count item = l.handed.count item := by
      rw [List.count_filter]
      simpa using given
    have absent : items.count item = 0 := List.count_eq_zero.mpr given
    have sameMoved : item ∈ items ++ l.moved ↔ item ∈ l.moved := by
      simp [given]
    simp only [kept, absent, sameMoved]
    exact before

end Balanced

/-- A live element that has been dropped is not conserved. -/
theorem not_conserved {item : E} (moved : item ∈ l.moved) (isLive : item ∈ l.live contents)
    (isDropped : item ∈ l.dropped) : ¬ l.Conserved contents := by
  intro conserved
  have once := conserved item moved
  have first : 0 < (l.live contents).count item := List.count_pos_iff.mpr isLive
  have second : 0 < l.dropped.count item := List.count_pos_iff.mpr isDropped
  rw [places, List.count_append, List.count_append] at once
  omega

end Ledger

end MainlineDht.Ownership
